import DemandPaging.Proofs.Machine.DirtyFlags
import DemandPaging.Proofs.Machine.Exhaustion

/-!
# Which evictions are dirty

A page that is evicted counts as dirty or as clean by the flag of its entry, and the flag has a
history: it is set when the page is first touched, taken away when it comes back from swap, and set
by every write in between. Told by the journal of a run, a page in memory is dirty exactly if it was
never evicted before, or a write to it was answered since it was last brought in (`Due`). The write
may be the very access that brought it in.

> `Stained.due_iff`: the flag of a page after one more request, by the journal with its visit.
> `Stained.serve`: the step.
> `evictions_classified`: every eviction of every run, by the history of its page.
-/

namespace DemandPaging

/-! ## What a journal says -/

/-- Whether a write was answered. -/
def Visit.wrote (x : Visit) : Bool :=
  x.answered && decide (x.request.kind = .store ∨ x.request.kind = .modify)

/-- The pages that were evicted, in their order. -/
def pagesEvicted (visits : List Visit) : List Nat := visits.flatMap (·.evicted)

/-- A write to the page was answered since it was last brought in, or brought it in itself. -/
def WrittenSince (visits : List Visit) (v : Nat) : Prop :=
  ∃ before x after, visits = before ++ x :: after ∧ x.page = v ∧ x.wrote = true ∧
    ∀ y ∈ after, ¬ (y.page = v ∧ y.broughtIn = true)

/-- The next eviction of the page is due to be counted as dirty. -/
def Due (visits : List Visit) (v : Nat) : Prop :=
  v ∉ pagesEvicted visits ∨ WrittenSince visits v

variable {visits : List Visit} {x : Visit} {v : Nat}

theorem mem_pagesEvicted_concat :
    v ∈ pagesEvicted (visits ++ [x]) ↔ v ∈ pagesEvicted visits ∨ v ∈ x.evicted := by
  simp [pagesEvicted]

/-- One more visit: it writes the page itself, or it does not bring it in anew. -/
theorem writtenSince_concat :
    WrittenSince (visits ++ [x]) v ↔ x.page = v ∧ x.wrote = true ∨
      ¬ (x.page = v ∧ x.broughtIn = true) ∧ WrittenSince visits v := by
  refine ⟨?_, ?_⟩
  · intro hex
    obtain ⟨before, y, after, heq, hpage, hwrote, hafter⟩ := hex
    rcases List.eq_nil_or_concat' after with rfl | ⟨after, z, rfl⟩
    · obtain ⟨-, hxy⟩ := List.append_inj' heq rfl
      obtain rfl := List.singleton_inj.mp hxy
      exact Or.inl ⟨hpage, hwrote⟩
    · rw [← List.cons_append, ← List.append_assoc] at heq
      obtain ⟨hvisits, hxz⟩ := List.append_inj' heq rfl
      obtain rfl := List.singleton_inj.mp hxz
      refine Or.inr ⟨hafter x (by simp), before, y, after, hvisits, hpage, hwrote, ?_⟩
      exact fun w hw => hafter w (List.mem_append_left _ hw)
  · intro hcases
    rcases hcases with ⟨hpage, hwrote⟩ | ⟨hkept, before, y, after, rfl, hpage, hwrote, hafter⟩
    · exact ⟨visits, x, [], rfl, hpage, hwrote, by simp⟩
    · refine ⟨before, y, after ++ [x], by simp, hpage, hwrote, fun w hw => ?_⟩
      rcases List.mem_append.mp hw with hw | hw
      · exact hafter w hw
      · exact List.mem_singleton.mp hw ▸ hkept

/-- A visit that has nothing to do with the page leaves its history as it is. -/
theorem due_concat_of_not (hevicted : v ∉ x.evicted)
    (hquiet : ¬ (x.page = v ∧ x.answered = true)) : Due (visits ++ [x]) v ↔ Due visits v := by
  have hwrote : ¬ (x.page = v ∧ x.wrote = true) := fun hw =>
    hquiet ⟨hw.1, (Bool.and_eq_true_iff.mp hw.2).1⟩
  have hbrought : ¬ (x.page = v ∧ x.broughtIn = true) := fun hb =>
    hquiet ⟨hb.1, (Bool.and_eq_true_iff.mp hb.2).2⟩
  unfold Due
  rw [mem_pagesEvicted_concat, writtenSince_concat, or_iff_left hevicted, or_iff_right hwrote,
    and_iff_right hbrought]

namespace Machine

variable {σ : Type} {m m' : Machine σ}

section

variable [BackingStore σ]

/-! ## Runs -/

/-- A translation that succeeds leaves its page in memory. -/
theorem Translates.mem_pagesInMemory_self (h : m.Consistent) {a : Address} {kind : AccessKind}
    {result : Except Failure Nat} (ht : m.Translates a kind result m')
    (hok : result.isOk = true) : a.inFrame = true ∧ a.vpn ∈ m'.pagesInMemory := by
  have h' := ht.consistent h
  cases result with
  | error _ => simp [Except.isOk, Except.toBool] at hok
  | ok place =>
    obtain ⟨frame, -, hoffset, hresident⟩ := ht.place_eq
    refine ⟨by simpa [Address.inFrame] using hoffset, ?_⟩
    rw [← h'.isSome_frameOf?_iff, frameOf?_of_lookup (ht.lookup h) hresident]
    rfl

/-- The flags of the pages in memory are what the journal says. -/
structure Stained (m : Machine σ) (visits : List Visit) : Prop where
  consistent : m.Consistent
  /-- The pages that were evicted are mapped, and so are those that are in memory; no others. -/
  evicted : ∀ v ∈ pagesEvicted visits, v ∈ m.pageTable.mappedPages
  absent : ∀ v ∈ m.pageTable.mappedPages, v ∉ m.pagesInMemory → v ∈ pagesEvicted visits
  stain : ∀ frame v d, m.residents.stain? frame = some (v, d) → (d = true ↔ Due visits v)
  counted : (pagesEvicted visits).eraseDups.length ≤ m.counters.dirtyEvictions

omit [BackingStore σ] in
theorem stained_build (frames : Nat) (policy : Policy) (swap : σ) :
    (build frames policy swap).Stained [] where
  consistent := consistent_build frames policy swap
  evicted v hv := by simp [pagesEvicted] at hv
  absent v hv := by
    rw [PageTable.mem_mappedPages] at hv
    simp [build, PageTable.page?_empty] at hv
  stain frame v d hd := by
    have hfree : (build frames policy swap).residents.frames.occupant? frame = none :=
      FrameTable.occupant?_empty frames frame
    rw [ResidentPages.stain?, ResidentPages.page?_of_free hfree] at hd
    simp at hd
  counted := Nat.le_refl _

/-- The flag of a page after a request, if the page is there, is what the journal says with the
visit added. -/
theorem Stained.due_iff {visits : List Visit} (hm : m.Stained visits) {q : Request} {g : Nat}
    {d : Bool} (hg : (m.serve q).machine.residents.stain? g = some (v, d)) :
    d = true ↔ Due (visits ++ [m.visit q]) v := by
  have h := hm.consistent
  have hserves := serve_cases h q
  have hstays : v ∉ (m.visit q).evicted := fun hv =>
    (mem_evicted.mp hv).2 (mem_pagesInMemory_of_stain? hg)
  obtain ⟨placed, m₁, memory, mismatches, translates, hm', hfailure⟩ := hserves.translates
  have hanswered : (m.visit q).answered = placed.isOk := isOk_eq hfailure
  rw [hm'] at hg
  rcases translates.stain?_cases h hg with ⟨hold, hother⟩ | ⟨hok, hpage, hcases⟩
  · -- another page, or no answer
    rw [due_concat_of_not hstays fun hquiet => hother (hanswered ▸ hquiet.2) hquiet.1]
    exact hm.stain g v d hold
  · have hwrote : (m.visit q).wrote = q.kind.writes := by
      rw [Visit.wrote, hanswered, hok, Bool.true_and, Bool.eq_iff_iff, decide_eq_true_iff,
        AccessKind.writes_iff]
      rfl
    have hvisited : (m.visit q).page = v := hpage
    unfold Due
    rw [mem_pagesEvicted_concat, or_iff_left hstays, writtenSince_concat, and_iff_right hvisited,
      and_iff_right hvisited, hwrote]
    rcases hcases with ⟨d₀, hold, rfl⟩ | ⟨hfault, hflag⟩
    · -- the page was there, so it keeps its history and adds the write
      have hresident : (m.visit q).resident = true :=
        h.isSome_frameOf?_iff.mpr (hpage ▸ mem_pagesInMemory_of_stain? hold)
      have hkept : (m.visit q).broughtIn = false := by
        rw [Visit.broughtIn, hresident, Bool.not_true, Bool.and_false, Bool.false_and]
      have hnot : ¬ false = true := by decide
      rw [Bool.or_eq_true, hm.stain g v d₀ hold, hkept, and_iff_right hnot, Due, or_assoc]
      exact or_congr_right or_comm
    · -- the page was brought in, so its history starts with the write
      have hbrought : (m.visit q).broughtIn = true := by
        have hresident : (m.visit q).resident = false := by
          show (m.frameOf? q.address).isSome = false
          rw [hfault]
          rfl
        have hcounted : (m.visit q).counted = true := (translates.mem_pagesInMemory_self h hok).1
        rw [Visit.broughtIn, hresident, hcounted, hanswered, hok]
        rfl
      have hnotIn : v ∉ m.pagesInMemory := by
        intro hin
        have hsome := h.isSome_frameOf?_iff.mpr (hpage.symm ▸ hin)
        rw [hfault] at hsome
        simp at hsome
      have hnew : v ∉ m.pageTable.mappedPages ↔ v ∉ pagesEvicted visits :=
        not_congr ⟨fun hv => hm.absent v hv hnotIn, hm.evicted v⟩
      rw [hflag, hnew, hbrought]
      simp

/-- A page is counted as dirty when it is evicted for the first time. -/
theorem Stained.counted_serve {visits : List Visit} (hm : m.Stained visits) (q : Request) :
    (pagesEvicted (visits ++ [m.visit q])).eraseDups.length
      ≤ (m.serve q).machine.counters.dirtyEvictions := by
  have hcounted := hm.counted
  have hsplit : pagesEvicted (visits ++ [m.visit q])
      = pagesEvicted visits ++ m.evicted (m.serve q).machine := by
    simp [pagesEvicted, visit]
  rw [hsplit]
  cases (serve_cases hm.consistent q).evictsOne hm.consistent with
  | none evicted _ dirty =>
    rw [evicted, List.append_nil]
    omega
  | @one frame v d stain evicted _ dirty =>
    rw [evicted, dirty]
    by_cases hv : v ∈ pagesEvicted visits
    · rw [eraseDups_concat_of_mem hv]
      have hle := (Counters.evictionsOnly_countEviction m.counters d).dirty_le
      omega
    · -- a page that was never evicted is dirty
      have hd : d = true := (hm.stain frame v d stain).mpr (Or.inl hv)
      rw [eraseDups_concat_of_not_mem hv, List.length_append, hd]
      exact Nat.succ_le_succ hcounted

/-- A request keeps the flags to what was written. -/
theorem Stained.serve {visits : List Visit} (hm : m.Stained visits) (q : Request) :
    (m.serve q).machine.Stained (visits ++ [m.visit q]) := by
  have h := hm.consistent
  have hserves := serve_cases h q
  have hmapped : ∀ v, v ∈ (m.serve q).machine.pageTable.mappedPages ↔
      v ∈ m.pageTable.mappedPages ∨ (m.serve q).result.isOk = true ∧ v = q.address.vpn :=
    fun v => hserves.mem_mappedPages h
  refine ⟨hserves.consistent h, fun v hv => ?_, fun v hv hout => ?_,
    fun _ _ _ hd => hm.due_iff hd, hm.counted_serve q⟩
  · refine (hmapped v).mpr (Or.inl ?_)
    rcases mem_pagesEvicted_concat.mp hv with hold | hnew
    · exact hm.evicted v hold
    · exact h.mem_mappedPages (mem_evicted.mp hnew).1
  · rw [mem_pagesEvicted_concat]
    rcases (hmapped v).mp hv with hold | ⟨hok, rfl⟩
    · by_cases hin : v ∈ m.pagesInMemory
      · exact Or.inr (mem_evicted.mpr ⟨hin, hout⟩)
      · exact Or.inl (hm.absent v hold hin)
    · obtain ⟨placed, m₁, memory, mismatches, translates, hm', hfailure⟩ := hserves.translates
      rw [hm'] at hout
      exact absurd (translates.mem_pagesInMemory_self h (isOk_eq hfailure ▸ hok)).2 hout

end

/-- In any run over a store whose calls may fail at will, a request evicts one page at most. If it
evicts none, no eviction is counted; if it evicts one, that is counted as dirty if the page was
never evicted before or a write to it was answered since it was last brought in, and as clean
otherwise. So the first eviction of a page is dirty, there are no fewer dirty evictions than pages
that were ever evicted, and a pageout that finds no room counts nothing. -/
theorem evictions_classified (frames slots : Nat) (algorithm : Algorithm) (seed : UInt64)
    (failsOut failsIn : Nat → Bool) (qs : List Request) :
    let m₀ := build frames (.ofAlgorithm algorithm seed)
      (UnreliableStore.empty slots failsOut failsIn)
    let m := m₀.serveAll qs
    let visits := m₀.watch keepVisits [] qs
    (∀ q,
      let c := m.counters
      let c' := (m.serve q).machine.counters
      ((m.visit q).evicted = [] ∧ c'.dirtyEvictions = c.dirtyEvictions ∧
          c'.cleanEvictions = c.cleanEvictions ∨
        ∃ v, (m.visit q).evicted = [v] ∧
          ((v ∉ pagesEvicted visits ∨ WrittenSince visits v) ∧
              c'.dirtyEvictions = c.dirtyEvictions + 1 ∧ c'.cleanEvictions = c.cleanEvictions ∨
            ¬ (v ∉ pagesEvicted visits ∨ WrittenSince visits v) ∧
              c'.dirtyEvictions = c.dirtyEvictions ∧
                c'.cleanEvictions = c.cleanEvictions + 1)) ∧
      (∀ v ∈ (m.visit q).evicted, v ∉ pagesEvicted visits →
        c'.dirtyEvictions = c.dirtyEvictions + 1 ∧ c'.cleanEvictions = c.cleanEvictions) ∧
      ∀ frame capacity, (m.serve q).refusal? = some (.swapExhausted frame capacity) →
        (m.visit q).evicted = [] ∧ c'.dirtyEvictions = c.dirtyEvictions ∧
          c'.cleanEvictions = c.cleanEvictions) ∧
      (pagesEvicted visits).eraseDups.length ≤ m.counters.dirtyEvictions := by
  intro m₀ m visits
  have hm : m.Stained visits :=
    watch_induction (P := fun m visits => m.Stained visits) (fun _ _ q hm => hm.serve q) qs
      (stained_build frames _ _)
  have h := hm.consistent
  refine ⟨fun q => ?_, hm.counted⟩
  have hserves := serve_cases h q
  have hevicts := hserves.evictsOne h
  refine ⟨?_, fun v hv hnew => ?_, fun frame capacity hrefusal => ?_⟩
  · cases hevicts with
    | none evicted clean dirty => exact Or.inl ⟨evicted, dirty, clean⟩
    | @one frame v d stain evicted clean dirty =>
      refine Or.inr ⟨v, evicted, ?_⟩
      have hdue : d = true ↔ v ∉ pagesEvicted visits ∨ WrittenSince visits v :=
        hm.stain frame v d stain
      rw [← hdue]
      cases d with
      | true => exact Or.inl ⟨rfl, dirty, clean⟩
      | false => exact Or.inr ⟨by decide, dirty, clean⟩
  · cases hevicts with
    | none evicted _ _ =>
      have hnone : v ∈ m.evicted (m.serve q).machine := hv
      rw [evicted] at hnone
      simp at hnone
    | @one frame w d stain evicted clean dirty =>
      have hone : v ∈ m.evicted (m.serve q).machine := hv
      rw [evicted, List.mem_singleton] at hone
      subst hone
      have hd : d = true := (hm.stain frame v d stain).mpr (Or.inl hnew)
      subst hd
      exact ⟨dirty, clean⟩
  · rw [Outcome.refusal?_eq_some.mp hrefusal] at hserves
    obtain ⟨choice, victim, page, bytes, swap, names, unsaved, hm'⟩ := hserves.exhausted
    have hstarves := Starves.exhausted names unsaved
    refine ⟨?_, ?_, ?_⟩
    · show m.evicted (m.serve q).machine = []
      rw [hm', ← h.evicted_entering q.address false]
      exact hstarves.evicted_eq
    · show (m.serve q).machine.counters.dirtyEvictions = _
      rw [hm']
      rfl
    · show (m.serve q).machine.counters.cleanEvictions = _
      rw [hm']
      rfl

end Machine

end DemandPaging
