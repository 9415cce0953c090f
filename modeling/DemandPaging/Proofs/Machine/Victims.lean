import DemandPaging.Proofs.Machine.Stranded

/-!
# When there is no victim

Round robin, second chance and the random policy have a victim to offer whenever memory is full.
Recency has none when every frame is stranded, so an access can be refused for want of a victim:

> `noVictim_iff`: under recency, with every frame stranded, to a page that is in none of them.

All other accesses within the frame succeed or are refused for want of swap, since a page that is
on swap owns its slot and can be read back.
-/

namespace DemandPaging.Machine

section

variable {σ : Type} [BackingStore σ] [LawfulStore σ] {m m' m₀ : Machine σ} {stranded : List Nat}

/-- While memory is full, the policy has no victim exactly when it is recency and every frame is
stranded. -/
theorem Tracks.none_iff (h : m.Tracks stranded) (hpos : 0 < m.frameTable.size)
    (hfull : m.frameTable.firstFree? = none) {choice : Policy.Choice}
    (hchosen : m.policy.evict? m.residents = some choice) :
    choice.victim = none ↔
      m.policy.algorithm = .lru ∧ ∀ f < m.frameTable.size, f ∈ stranded := by
  have hanswers := h.ready.answers h.consistent.grounded hchosen
  rw [hanswers.none_iff]
  by_cases hlru : m.policy.algorithm = .lru
  · -- all frames are in use, so those that recency does not offer are stranded
    have hoffers := (h.remembers hlru).offers
    refine ⟨?_, ?_⟩
    · intro hnone
      refine ⟨hlru, fun f hf => ?_⟩
      obtain ⟨r, hocc⟩ := FrameTable.firstFree?_eq_none hfull hf
      have hnot := hnone f
      rw [hoffers] at hnot
      exact Decidable.not_not.mp fun hmem => hnot ⟨⟨r, hocc⟩, hmem⟩
    · intro hall f hoffered
      obtain ⟨⟨r, hocc⟩, hmem⟩ := (hoffers f).mp hoffered
      exact hmem (hall.2 f (FrameTable.lt_size_of_occupant? hocc))
  · refine ⟨?_, ?_⟩
    · intro hnone
      have hoffered : m.policy.Offers 0 :=
        (Policy.offers_of_ne_lru hlru 0).mpr (h.frames ▸ hpos)
      exact absurd hoffered (hnone 0)
    · intro hall
      exact absurd hall.1 hlru

/-- A frame that recency names exists and is not stranded. -/
theorem Tracks.of_named (h : m.Tracks stranded) (hlru : m.policy.algorithm = .lru)
    {choice : Policy.Choice} (hchosen : m.policy.evict? m.residents = some choice) {frame : Nat}
    (hnamed : choice.victim = some frame) : frame < m.frameTable.size ∧ frame ∉ stranded := by
  have hanswers := h.ready.answers h.consistent.grounded hchosen
  obtain ⟨⟨r, hocc⟩, hmem⟩ := ((h.remembers hlru).offers frame).mp
    (hanswers.offered frame hnamed)
  exact ⟨FrameTable.lt_size_of_occupant? hocc, hmem⟩

/-- The same of a frame that comes free under recency. -/
theorem Frees.not_stranded (h : m.Tracks stranded) (hlru : m.policy.algorithm = .lru)
    {frame : Nat} (hfrees : m.Frees m₀ frame) :
    frame < m.frameTable.size ∧ frame ∉ stranded := by
  cases hfrees with
  | found free =>
    -- a stranded frame is in use
    obtain ⟨hlt, hnone⟩ := FrameTable.firstFree?_eq_some free
    refine ⟨hlt, fun hmem => ?_⟩
    obtain ⟨r, hocc⟩ := (h.remembers hlru).occupied frame hmem
    rw [hnone] at hocc
    simp at hocc
  | evicted names _ _ => exact h.of_named hlru names.chosen names.named

/-- No frame comes free because recency has forgotten them all, or because swap is full. -/
theorem Starves.causes (h : m.Tracks stranded) (hpos : 0 < m.frameTable.size) {e : PagingError}
    (hstarves : m.Starves e m') :
    (e = .noVictim ∧ m.policy.algorithm = .lru ∧ ∀ f < m.frameTable.size, f ∈ stranded) ∨
      ∃ frame, e = .swapExhausted frame (BackingStore.capacity m.swap) ∧
        (m.policy.algorithm = .lru → frame < m.frameTable.size ∧ frame ∉ stranded) := by
  cases hstarves with
  | noVictim full chosen _ none => exact Or.inl ⟨rfl, (h.none_iff hpos full chosen).mp none⟩
  | @vacant choice frame full chosen _ named free =>
    -- a policy names frames that exist, and in full memory those hold pages
    have hoffered := (h.ready.answers h.consistent.grounded chosen).offered frame named
    have hlt : frame < m.frameTable.size := by
      by_cases hlru : m.policy.algorithm = .lru
      · exact (h.of_named hlru chosen named).1
      · exact h.frames ▸ (Policy.offers_of_ne_lru hlru frame).mp hoffered
    obtain ⟨r, hocc⟩ := FrameTable.firstFree?_eq_none full hlt
    rw [free] at hocc
    simp at hocc
  | exhausted names unsaved =>
    refine Or.inr ⟨_, congrArg _ (LawfulStore.capacity_save unsaved), fun hlru => ?_⟩
    exact h.of_named hlru names.chosen names.named

/-- With every frame stranded, a page that is in none of them is refused for want of a victim. -/
theorem Translates.noVictim (h : m.Tracks stranded) (hpos : 0 < m.frameTable.size)
    (hlru : m.policy.algorithm = .lru) (hall : ∀ f < m.frameTable.size, f ∈ stranded)
    {a : Address} {kind : AccessKind} {result : Except Failure Nat} (hin : a.inFrame = true)
    (habsent : m.frameOf? a = none) (ht : m.Translates a kind result m') :
    result = .error (.refused .noVictim) := by
  have h' := h.entering a false
  have hbrings : ∀ {r : EntryRef} {result : Except Failure Nat} {m' : Machine σ},
      (m.entering a false).BringsIn r result m' → result = .error (.refused .noVictim) := by
    intro r result m' hbrings
    -- a frame that comes free is not stranded, and all are
    have hfrees : ∀ {m₀ : Machine σ} {frame : Nat},
        ¬ (m.entering a false).Frees m₀ frame := by
      intro m₀ frame hfrees
      obtain ⟨hlt, hmem⟩ := hfrees.not_stranded h' hlru
      exact hmem (hall frame hlt)
    cases hbrings with
    | starved starves =>
      rcases starves.causes h' hpos with ⟨rfl, -⟩ | ⟨frame, -, hnamed⟩
      · rfl
      · obtain ⟨hlt, hmem⟩ := hnamed hlru
        exact absurd (hall frame hlt) hmem
    | unreadable frees _ _ _ => exact absurd frees hfrees
    | firstTouch frees _ _ _ _ => exact absurd frees hfrees
    | swappedIn frees _ _ _ _ _ => exact absurd frees hfrees
  cases ht with
  | outside hout => exact absurd (hin.symm.trans hout) (by simp)
  | hit _ resident =>
    rw [(h.consistent.frameOf?_eq_some true).mpr resident] at habsent
    simp at habsent
  | fault _ _ _ brings => exact absurd (hbrings brings) (by simp)
  | refused _ _ _ brings => exact hbrings brings

theorem Serves.noVictim (h : m.Tracks stranded) (hpos : 0 < m.frameTable.size)
    (hlru : m.policy.algorithm = .lru) (hall : ∀ f < m.frameTable.size, f ∈ stranded)
    {q : Request} {result : Except Failure Reply} (hin : q.address.inFrame = true)
    (habsent : m.frameOf? q.address = none) (hserves : m.Serves q result m') :
    result = .error (.refused .noVictim) := by
  cases hserves with
  | refused translates =>
    have herror := translates.noVictim h hpos hlru hall hin habsent
    rw [Except.error.injEq] at herror
    rw [herror]
  | translated translates =>
    exact absurd (translates.noVictim h hpos hlru hall hin habsent) (by simp)
  | stored _ translates _ =>
    exact absurd (translates.noVictim h hpos hlru hall hin habsent) (by simp)
  | agreed _ translates _ =>
    exact absurd (translates.noVictim h hpos hlru hall hin habsent) (by simp)
  | differed _ translates _ _ =>
    exact absurd (translates.noVictim h hpos hlru hall hin habsent) (by simp)

/-- A request is refused for want of a victim under recency only, with every frame stranded. -/
theorem Serves.stranded_of_noVictim (h : m.Tracks stranded) (hpos : 0 < m.frameTable.size)
    {q : Request} (hserves : m.Serves q (.error (.refused .noVictim)) m') :
    m.policy.algorithm = .lru ∧ q.address.inFrame = true ∧ m.frameOf? q.address = none ∧
      ∀ f < m.frameTable.size, f ∈ stranded := by
  cases hserves with
  | refused translates =>
    cases translates with
    | refused hin page absent brings =>
      have habsent : m.frameOf? q.address = none := by
        cases hframe : m.frameOf? q.address with
        | none => rfl
        | some frame =>
          have hresident := (h.consistent.frameOf?_eq_some false).mp hframe
          exact absurd hresident (PageTable.not_resident_of_frame?_eq_none page absent)
      cases brings with
      | starved starves =>
        rcases starves.causes (h.entering q.address false) hpos with ⟨-, hlru, hall⟩ | ⟨_, hne, -⟩
        · exact ⟨hlru, hin, habsent, hall⟩
        · simp at hne
      | unreadable _ _ _ unread => exact absurd (LawfulStore.fetch_error unread) (by simp)

end

/-! ## The machine of a configuration -/

theorem ofConfig_eq_ok {c : Config} {m₀ : Machine SlotStore} (h : ofConfig c = .ok m₀) :
    0 < c.frames ∧
      m₀ = build c.frames (.ofAlgorithm c.algorithm c.seed) (SlotStore.empty c.swapPages) := by
  unfold ofConfig at h
  split at h
  next => simp at h
  next hvalid =>
    refine ⟨Nat.pos_of_ne_zero fun hzero => ?_, (Except.ok.inj h).symm⟩
    simp [Config.validate, hzero] at hvalid

/-- A page on swap owns its slot, so it can be read back. -/
theorem BringsIn.readable {m m' : Machine SlotStore} (h : m.Consistent) (hs : m.SlotsOwned)
    {r : EntryRef} {e : PagingError} (hbrings : m.BringsIn r (.error (.refused e)) m') :
    m.Starves e m' := by
  cases hbrings with
  | starved starves => exact starves
  | unreadable frees page onSwap unread =>
    -- the entry owns the slot that it points at, whatever was evicted before
    have hslot := (frees.keeps h hs).1.held _ _ _ page (by rw [Entry.slot?, onSwap])
    obtain ⟨bytes, hbytes⟩ := Option.isSome_iff_exists.mp hslot
    have hok := SlotStore.fetch_eq_ok.mpr hbytes
    have herror := (Prod.mk.inj unread).1
    rw [hok] at herror
    simp at herror

theorem Serves.ok_or_exhausted {m m' : Machine SlotStore} {stranded : List Nat}
    (h : m.Tracks stranded) (hpos : 0 < m.frameTable.size) {q : Request}
    {result : Except Failure Reply} (hin : q.address.inFrame = true)
    (hserves : m.Serves q result m') (hother : result ≠ .error (.refused .noVictim)) :
    (∃ reply, result = .ok reply) ∨ ∃ frame,
      result = .error (.refused (.swapExhausted frame (BackingStore.capacity m.swap))) := by
  cases hserves with
  | refused translates =>
    right
    cases translates with
    | outside hout => exact absurd (hin.symm.trans hout) (by simp)
    | refused _ _ _ brings =>
      have h' := h.entering q.address false
      have hstarves := brings.readable h'.consistent h'.slotsOwned
      rcases hstarves.causes h' hpos with ⟨rfl, -⟩ | ⟨frame, rfl, -⟩
      · exact absurd rfl hother
      · exact ⟨frame, rfl⟩
  | translated _ => exact Or.inl ⟨_, rfl⟩
  | stored _ _ _ => exact Or.inl ⟨_, rfl⟩
  | agreed _ _ _ => exact Or.inl ⟨_, rfl⟩
  | differed _ _ _ _ => exact Or.inl ⟨_, rfl⟩

/-- After any requests, a machine that was configured has the frames, the slots and the algorithm of
its configuration. -/
theorem tracks_of_config {c : Config} {m₀ : Machine SlotStore} (hbuilt : ofConfig c = .ok m₀)
    (qs : List Request) :
    (m₀.serveAll qs).Tracks (m₀.watch keepStranded [] qs) ∧
      (m₀.serveAll qs).frameTable.size = c.frames ∧
      BackingStore.capacity (m₀.serveAll qs).swap = c.swapPages ∧
      (m₀.serveAll qs).policy.algorithm = c.algorithm := by
  obtain ⟨-, rfl⟩ := ofConfig_eq_ok hbuilt
  have hbuild := tracks_build c.frames (.ofAlgorithm c.algorithm c.seed)
    (SlotStore.empty c.swapPages)
  have hextent := SameExtent.callAll hbuild.consistent (qs.map .request)
  obtain ⟨-, halgorithm, -⟩ := policy_callAll_build c.frames c.algorithm c.seed
    (SlotStore.empty c.swapPages) (qs.map .request)
  refine ⟨hbuild.serveAll qs, ?_⟩
  rw [serveAll_eq_callAll]
  exact ⟨hextent.frames.trans (FrameTable.size_empty c.frames),
    hextent.capacity.trans Array.size_replicate, halgorithm⟩

/-- What a machine that was configured and then served any requests does next: when it is refused
for want of a victim, what else can happen to an access within the frame, and what the policy
answers when memory is full. -/
theorem noVictim_iff (c : Config) (m₀ : Machine SlotStore) (hbuilt : ofConfig c = .ok m₀)
    (qs : List Request) (q : Request) :
    let m := m₀.serveAll qs
    let stranded := m₀.watch keepStranded [] qs
    ((m.serve q).refusal? = some .noVictim ↔
        c.algorithm = .lru ∧ q.address.inFrame = true ∧ m.frameOf? q.address = none ∧
          ∀ frame < c.frames, frame ∈ stranded) ∧
      (q.address.inFrame = true → (m.serve q).refusal? ≠ some .noVictim →
        (∃ reply, (m.serve q).result = .ok reply) ∨
          ∃ frame, (m.serve q).refusal? = some (.swapExhausted frame c.swapPages)) ∧
      (m.frameTable.firstFree? = none → ∃ choice, m.policy.evict? m.residents = some choice ∧
        (choice.victim = none ↔
          c.algorithm = .lru ∧ ∀ frame < c.frames, frame ∈ stranded)) := by
  intro m stranded
  obtain ⟨h, hsize, hcapacity, halgorithm⟩ := tracks_of_config hbuilt qs
  have hpos : 0 < m.frameTable.size := hsize.symm ▸ (ofConfig_eq_ok hbuilt).1
  have hserves := serve_cases h.consistent q
  rw [← hsize, ← hcapacity, ← halgorithm]
  simp only [Outcome.refusal?_eq_some, ne_eq]
  refine ⟨⟨?_, ?_⟩, ?_, ?_⟩
  · intro hrefusal
    rw [hrefusal] at hserves
    exact hserves.stranded_of_noVictim h hpos
  · intro hstranded
    obtain ⟨hlru, hin, habsent, hall⟩ := hstranded
    exact hserves.noVictim h hpos hlru hall hin habsent
  · intro hin hother
    exact hserves.ok_or_exhausted h hpos hin hother
  · intro hfull
    obtain ⟨choice, hchosen, -⟩ := Policy.evict?_spares h.consistent.grounded m.policy
    exact ⟨choice, hchosen, h.none_iff hpos hfull hchosen⟩

/-- One frame and one slot, under recency: the third page is refused for want of swap, which
strands the only frame, and so the same access is refused for want of a victim when it is tried
again. -/
theorem noVictim_stranded :
    let c : Config := ⟨1, 1, .lru, Config.defaultSeed⟩
    let m₀ := build c.frames (.ofAlgorithm c.algorithm c.seed) (SlotStore.empty c.swapPages)
    let qs : List Request := [.access ⟨1, .load, ⟨0x1000⟩, 0⟩, .access ⟨2, .load, ⟨0x2000⟩, 0⟩,
      .access ⟨3, .load, ⟨0x3000⟩, 0⟩]
    ofConfig c = .ok m₀ ∧
      ((m₀.serveAll qs).serve (.access ⟨4, .load, ⟨0x3000⟩, 0⟩)).refusal? = some .noVictim := by
  intro c m₀ qs
  have hbuilt : ofConfig c = .ok m₀ := rfl
  refine ⟨hbuilt, ?_⟩
  refine (noVictim_iff c m₀ hbuilt qs (.access ⟨4, .load, ⟨0x3000⟩, 0⟩)).1.mpr ⟨rfl, ?_, ?_, ?_⟩
  · decide
  · decide +kernel
  · decide +kernel

end DemandPaging.Machine
