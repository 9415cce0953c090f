import DemandPaging.Proofs.Machine.Contents
import DemandPaging.Proofs.Machine.Extent
import DemandPaging.Proofs.Machine.PolicyState

/-!
# Frames that recency forgets

Recency takes the victim out of its list before the pageout is tried. If swap has no room the page
stays, and its frame is in use but not in the list: it is stranded until its page is used again. An
observer can tell the stranded frames from the answers alone (`keepStranded`), and they are all that
recency is missing:

> `Remembers`: recency offers the frames that are in use and not stranded.

`Serves.remembers` is the step, and `Tracks.serveAll` the run, with all else that holds along it.
-/

namespace DemandPaging

/-! ## Frames in use -/

/-- The frame holds a page. -/
def FrameTable.Occupied (t : FrameTable) (frame : Nat) : Prop := ∃ r, t.occupant? frame = some r

namespace FrameTable

variable {t t' : FrameTable} {frame f : Nat}

/-- Claiming a frame puts it in use. -/
theorem occupied_of_claim? {r : EntryRef} (h : t.claim? frame r = some t') :
    t'.Occupied f ↔ f = frame ∨ t.Occupied f := by
  obtain ⟨-, -, -, hocc⟩ := claim?_spec h
  unfold Occupied
  rw [hocc]
  split
  next heq => simp [heq]
  next hne => simp [hne]

/-- Releasing a frame takes it out of use. -/
theorem occupied_of_release? (h : t.release? frame = some t') :
    t'.Occupied f ↔ f ≠ frame ∧ t.Occupied f := by
  obtain ⟨-, -, hocc⟩ := release?_spec h
  unfold Occupied
  rw [hocc]
  split
  next heq => simp [heq]
  next hne => simp [hne]

end FrameTable

/-- The frames that are stranded after a request: the one that was named in vain is stranded, and
the one that serves the request is not. -/
def strandedAfter {α : Type} (stranded : List Nat) (result : Except Failure α)
    (frame? : Option Nat) : List Nat :=
  match result with
  | .error (.refused (.swapExhausted frame _)) => frame :: stranded
  | .error _ => stranded
  | .ok _ => frame?.elim stranded fun frame => stranded.filter (· ≠ frame)

namespace Machine

variable {σ : Type} {m m' m₀ : Machine σ} {stranded : List Nat}

/-- An observer that keeps the stranded frames of a run. -/
def keepStranded [BackingStore σ] (stranded : List Nat) (m : Machine σ) (q : Request) : List Nat :=
  strandedAfter stranded (m.serve q).result ((m.serve q).machine.frameOf? q.address)

/-! ## What recency remembers -/

/-- The frames that the policy offers are those in use that are not stranded. -/
structure Remembers (m : Machine σ) (stranded : List Nat) : Prop where
  offers : ∀ f, m.policy.Offers f ↔ m.frameTable.Occupied f ∧ f ∉ stranded
  occupied : ∀ f ∈ stranded, m.frameTable.Occupied f

/-- A frame that is used is remembered, and no longer stranded. -/
theorem Remembers.of_use (hready : m.policy.Ready) (hlru : m.policy.algorithm = .lru) {frame : Nat}
    (hlt : frame < m.policy.frames) (hframe : m.frameTable.Occupied frame)
    (hoffers : ∀ f, f ≠ frame → (m.policy.Offers f ↔ m.frameTable.Occupied f ∧ f ∉ stranded))
    (hoccupied : ∀ f ∈ stranded, m.frameTable.Occupied f) (r : EntryRef) (kind : AccessKind) :
    (m.use r kind frame).Remembers (stranded.filter (· ≠ frame)) where
  offers f := by
    show (m.policy.reference frame).Offers f ↔ m.frameTable.Occupied f ∧ _
    rw [Policy.offers_reference hready hlru hlt, List.mem_filter]
    by_cases hf : f = frame
    · subst hf
      simp [hframe]
    · rw [hoffers f hf]
      simp [hf]
  occupied f hf := hoccupied f (List.mem_filter.mp hf).1

/-- A victim that is named holds a page. -/
theorem Remembers.occupied_of_named (h : m.Consistent) (hready : m.policy.Ready)
    (hrem : m.Remembers stranded) {choice : Policy.Choice}
    (hchosen : m.policy.evict? m.residents = some choice) {frame : Nat}
    (hnamed : choice.victim = some frame) : m.frameTable.Occupied frame := by
  have hanswers := hready.answers h.grounded hchosen
  exact ((hrem.offers frame).mp (hanswers.offered frame hnamed)).1

variable [BackingStore σ]

/-- A frame that was given up is neither offered nor in use. -/
theorem Frees.remembers (h : m.Consistent) (hready : m.policy.Ready)
    (hlru : m.policy.algorithm = .lru) (hrem : m.Remembers stranded) {frame : Nat}
    (hfrees : m.Frees m₀ frame) : m₀.Remembers stranded := by
  cases hfrees with
  | found _ => exact hrem
  | @evicted choice _ _ _ _ _ _ frameTable names _ released =>
    have hanswers := hready.answers h.grounded names.chosen
    -- the victim leaves the list and its frame, and it was not stranded
    have hvictim := ((hrem.offers frame).mp (hanswers.offered frame names.named)).2
    have hocc : ∀ f, frameTable.Occupied f ↔ f ≠ frame ∧ m.frameTable.Occupied f := fun f =>
      FrameTable.occupied_of_release? released
    refine ⟨?_, ?_⟩
    · intro f
      show choice.policy.Offers f ↔ frameTable.Occupied f ∧ f ∉ stranded
      rw [hanswers.offers_iff, hrem.offers, hocc, names.named]
      refine ⟨?_, ?_⟩
      · intro hoffered
        have hne : f ≠ frame := fun heq => hoffered.2 ⟨hlru, congrArg some heq.symm⟩
        exact ⟨⟨hne, hoffered.1.1⟩, hoffered.1.2⟩
      · intro hin
        refine ⟨⟨hin.1.2, hin.2⟩, fun hnamed => ?_⟩
        exact hin.1.1 (Option.some.inj hnamed.2).symm
    · intro f hf
      refine (hocc f).mpr ⟨?_, hrem.occupied f hf⟩
      intro heq
      exact hvictim (heq ▸ hf)

/-- A frame that was claimed is in use, and all that recency does not know yet. -/
theorem Frees.remembers_claimed (h : m.Consistent) (hready : m.policy.Ready)
    (hlru : m.policy.algorithm = .lru) (hrem : m.Remembers stranded) {frame : Nat}
    (hfrees : m.Frees m₀ frame) {r : EntryRef} {frameTable : FrameTable}
    (hclaimed : m₀.frameTable.claim? frame r = some frameTable) :
    frameTable.Occupied frame ∧
      (∀ f, f ≠ frame → (m₀.policy.Offers f ↔ frameTable.Occupied f ∧ f ∉ stranded)) ∧
      ∀ f ∈ stranded, frameTable.Occupied f := by
  have hrem₀ := hfrees.remembers h hready hlru hrem
  have hocc : ∀ f, frameTable.Occupied f ↔ f = frame ∨ m₀.frameTable.Occupied f := fun f =>
    FrameTable.occupied_of_claim? hclaimed
  refine ⟨(hocc frame).mpr (Or.inl rfl), ?_, ?_⟩
  · intro f hne
    rw [hrem₀.offers, hocc]
    simp [hne]
  · intro f hf
    exact (hocc f).mpr (Or.inr (hrem₀.occupied f hf))

/-- A frame that was named in vain stays in use and is forgotten. -/
theorem Starves.remembers (h : m.Consistent) (hready : m.policy.Ready)
    (hlru : m.policy.algorithm = .lru) (hrem : m.Remembers stranded) {e : PagingError}
    (hstarves : m.Starves e m') (frame? : Option Nat) :
    m'.Remembers
      (strandedAfter stranded (.error (.refused e) : Except Failure Nat) frame?) := by
  cases hstarves with
  | @noVictim choice _ chosen _ none =>
    have hanswers := hready.answers h.grounded chosen
    refine ⟨fun f => ?_, hrem.occupied⟩
    refine Iff.trans ?_ (hrem.offers f)
    show choice.policy.Offers f ↔ _
    rw [hanswers.offers_iff, none]
    simp
  | vacant _ chosen _ named free =>
    -- recency offers frames in use only
    obtain ⟨r, hocc⟩ := hrem.occupied_of_named h hready chosen named
    rw [free] at hocc
    simp at hocc
  | @exhausted choice frame _ _ _ _ names _ =>
    -- the victim leaves the list but not its frame: it is stranded
    have hanswers := hready.answers h.grounded names.chosen
    refine ⟨?_, ?_⟩
    · intro f
      show choice.policy.Offers f ↔ m.frameTable.Occupied f ∧ f ∉ frame :: stranded
      rw [hanswers.offers_iff, hrem.offers, names.named, List.mem_cons]
      refine ⟨?_, ?_⟩
      · intro hoffered
        refine ⟨hoffered.1.1, fun hmem => ?_⟩
        rcases hmem with heq | hmem
        · exact hoffered.2 ⟨hlru, congrArg some heq.symm⟩
        · exact hoffered.1.2 hmem
      · intro hin
        refine ⟨⟨hin.1, fun hmem => hin.2 (Or.inr hmem)⟩, fun hnamed => ?_⟩
        exact hin.2 (Or.inl (Option.some.inj hnamed.2).symm)
    · intro f hf
      rcases List.mem_cons.mp hf with rfl | hmem
      · exact hrem.occupied_of_named h hready names.chosen names.named
      · exact hrem.occupied f hmem

/-- The frame that a page was brought into is in use, and all that recency does not know yet. -/
theorem BringsIn.remembers_ok (h : m.Consistent) (hready : m.policy.Ready)
    (hlru : m.policy.algorithm = .lru) (hrem : m.Remembers stranded) {r : EntryRef} {frame : Nat}
    (hbrings : m.BringsIn r (.ok frame) m') :
    m'.frameTable.Occupied frame ∧
      (∀ f, f ≠ frame → (m'.policy.Offers f ↔ m'.frameTable.Occupied f ∧ f ∉ stranded)) ∧
      ∀ f ∈ stranded, m'.frameTable.Occupied f := by
  cases hbrings with
  | firstTouch frees _ _ claimed _ =>
    have hclaimed := frees.remembers_claimed h hready hlru hrem claimed
    exact hclaimed
  | swappedIn frees _ _ _ claimed _ =>
    have hclaimed := frees.remembers_claimed h hready hlru hrem claimed
    exact hclaimed

variable [LawfulStore σ]

/-- When a page cannot be brought in, only a frame that was named in vain is forgotten. -/
theorem BringsIn.remembers_error (h : m.Consistent) (hready : m.policy.Ready)
    (hlru : m.policy.algorithm = .lru) (hrem : m.Remembers stranded) {r : EntryRef}
    {e : PagingError} (hbrings : m.BringsIn r (.error (.refused e)) m') (frame? : Option Nat) :
    m'.Remembers
      (strandedAfter stranded (.error (.refused e) : Except Failure Nat) frame?) := by
  cases hbrings with
  | starved starves => exact starves.remembers h hready hlru hrem frame?
  | unreadable frees _ _ unread =>
    have hrem₀ := frees.remembers h hready hlru hrem
    rw [LawfulStore.fetch_error unread]
    exact ⟨hrem₀.offers, hrem₀.occupied⟩

/-- A translation forgets the frame that it named in vain and remembers the one that it used. -/
theorem Translates.remembers (h : m.Consistent) (hready : m.policy.Ready)
    (hframes : m.policy.frames = m.frameTable.size) (hlru : m.policy.algorithm = .lru)
    (hrem : m.Remembers stranded) {a : Address} {kind : AccessKind} {result : Except Failure Nat}
    (ht : m.Translates a kind result m') :
    m'.Remembers (strandedAfter stranded result (m'.frameOf? a)) := by
  have hrem' : ∀ hit, (m.entering a hit).Remembers stranded := fun _ =>
    ⟨hrem.offers, hrem.occupied⟩
  -- where the page is in the end is asked of the whole translation, so it is kept beside its cases
  have ht' := ht
  cases ht with
  | outside _ => exact hrem
  | @hit frame _ resident =>
    have hocc := ((h.entering a true).occupant_iff _ _).mpr resident
    have hframe : m.frameTable.Occupied frame := ⟨_, hocc⟩
    have hlt : frame < m.policy.frames := hframes ▸ FrameTable.lt_size_of_occupant? hocc
    rw [frameOf?_of_lookup (ht'.lookup h)
      ((PageTable.resident_modify fun e => e.frame?_touch kind).mpr resident)]
    exact (Remembers.of_use (m := m.entering a true) hready hlru hlt hframe
      (fun f _ => hrem.offers f) hrem.occupied _ kind)
  | @fault _ frame m₁ _ _ _ brings =>
    have hbecomes := brings.policy_becomes (h.entering a false) hready
    have hresident := brings.resident
    obtain ⟨hframe, hoffers, hoccupied⟩ :=
      brings.remembers_ok (h.entering a false) hready hlru (hrem' false)
    -- the frame is in use, so it is one of the frames that recency was started with
    have hlt : frame < m₁.policy.frames := by
      obtain ⟨s, hocc⟩ := hframe
      have hsize : m₁.frameTable.size = m.frameTable.size := brings.sameExtent.frames
      have hpolicy : m₁.policy.frames = m.policy.frames := hbecomes.frames
      have hframe_lt := FrameTable.lt_size_of_occupant? hocc
      omega
    rw [frameOf?_of_lookup (ht'.lookup h)
      ((PageTable.resident_modify fun e => e.frame?_touch kind).mpr hresident)]
    exact Remembers.of_use hbecomes.ready (hbecomes.algorithm.trans hlru) hlt hframe hoffers
      hoccupied _ kind
  | refused _ _ _ brings =>
    exact brings.remembers_error (h.entering a false) hready hlru (hrem' false) _

/-- A refusal strands the same frame whatever was asked for. -/
theorem strandedAfter_refused {α β : Type} (e : PagingError) (frame? : Option Nat) :
    strandedAfter stranded (.error (.refused e) : Except Failure α) frame?
      = strandedAfter stranded (.error (.refused e) : Except Failure β) frame? := by
  cases e <;> rfl

/-- A request forgets the frame that it named in vain and remembers the one that it used. -/
theorem Serves.remembers (h : m.Consistent) (hready : m.policy.Ready)
    (hframes : m.policy.frames = m.frameTable.size) (hlru : m.policy.algorithm = .lru)
    (hrem : m.Remembers stranded) {q : Request} {result : Except Failure Reply}
    (hserves : m.Serves q result m') :
    m'.Remembers (strandedAfter stranded result (m'.frameOf? q.address)) := by
  cases hserves with
  | refused translates =>
    rw [strandedAfter_refused (β := Nat)]
    exact translates.remembers h hready hframes hlru hrem
  | translated translates => exact translates.remembers h hready hframes hlru hrem
  | stored _ translates _ =>
    have hrem' := translates.remembers h hready hframes hlru hrem
    exact ⟨hrem'.offers, hrem'.occupied⟩
  | agreed _ translates _ => exact translates.remembers h hready hframes hlru hrem
  | differed _ translates _ _ =>
    have hrem' := translates.remembers h hready hframes hlru hrem
    exact ⟨hrem'.offers, hrem'.occupied⟩

/-! ## Runs -/

/-- What holds of a machine that was built and then only served requests. -/
structure Tracks (m : Machine σ) (stranded : List Nat) : Prop where
  consistent : m.Consistent
  slotsOwned : m.SlotsOwned
  ready : m.policy.Ready
  frames : m.policy.frames = m.frameTable.size
  remembers : m.policy.algorithm = .lru → m.Remembers stranded

theorem tracks_build (frames : Nat) (policy : Policy) (swap : σ) :
    (build frames policy swap).Tracks [] where
  consistent := consistent_build frames policy swap
  slotsOwned := slotsOwned_build frames policy swap
  ready := policy.ready_start frames
  frames := (policy.frames_start frames).trans (FrameTable.size_empty frames).symm
  remembers hlru := by
    have hlru' : policy.algorithm = .lru := (policy.algorithm_start frames).symm.trans hlru
    refine ⟨fun f => ?_, by simp⟩
    show (policy.start frames).Offers f ↔ (FrameTable.empty frames).Occupied f ∧ _
    unfold FrameTable.Occupied
    simp [Policy.not_offers_start hlru', FrameTable.occupant?_empty]

theorem Tracks.entering (h : m.Tracks stranded) (a : Address) (hit : Bool) :
    (m.entering a hit).Tracks stranded where
  consistent := h.consistent.entering a hit
  slotsOwned := h.slotsOwned.entering h.consistent a hit
  ready := h.ready
  frames := h.frames
  remembers hlru := ⟨(h.remembers hlru).offers, (h.remembers hlru).occupied⟩

/-- One request keeps to the account of stranded frames. -/
theorem Tracks.serves (h : m.Tracks stranded) {q : Request} {result : Except Failure Reply}
    (hserves : m.Serves q result m') :
    m'.Tracks (strandedAfter stranded result (m'.frameOf? q.address)) where
  consistent := hserves.consistent h.consistent
  slotsOwned := hserves.slotsOwned h.consistent h.slotsOwned
  ready := (hserves.policy_becomes h.consistent h.ready).ready
  frames := by
    have hpolicy := (hserves.policy_becomes h.consistent h.ready).frames
    have hsize := hserves.sameExtent.frames
    rw [hpolicy, hsize]
    exact h.frames
  remembers hlru := by
    have hlru' := (hserves.policy_becomes h.consistent h.ready).algorithm.symm.trans hlru
    exact hserves.remembers h.consistent h.ready h.frames hlru' (h.remembers hlru')

/-- Any run keeps to the account of stranded frames. -/
theorem Tracks.serveAll (h : m.Tracks stranded) (qs : List Request) :
    (m.serveAll qs).Tracks (m.watch keepStranded stranded qs) := by
  refine watch_induction (P := fun m stranded => m.Tracks stranded) ?_ qs h
  intro m stranded q h
  exact h.serves (serve_cases h.consistent q)

end Machine

end DemandPaging
