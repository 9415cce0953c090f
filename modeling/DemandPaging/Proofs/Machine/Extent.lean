import DemandPaging.Proofs.Machine.Requests
import DemandPaging.Proofs.Swap.Lawful

/-!
# What never changes its extent

Memory has as many frames after a call as before, and the store as many slots. Both follow stage
by stage: a stage only claims and releases frames, whatever the store does, and a lawful store keeps
its capacity.
-/

namespace DemandPaging.Machine

variable {σ : Type} [BackingStore σ]

/-! ## Frames -/

/-- A failed search for a frame leaves the number of frames as it is. -/
theorem Starves.size_eq {m m' : Machine σ} {e : PagingError} (hstarves : m.Starves e m') :
    m'.frameTable.size = m.frameTable.size := by
  cases hstarves with
  | noVictim _ _ _ _ => rfl
  | vacant _ _ _ _ _ => rfl
  | exhausted _ _ => rfl

theorem Frees.size_eq {m m₀ : Machine σ} {frame : Nat} (hfrees : m.Frees m₀ frame) :
    m₀.frameTable.size = m.frameTable.size := by
  cases hfrees with
  | found _ => rfl
  | evicted _ _ released =>
    obtain ⟨-, hsize, -⟩ := FrameTable.release?_spec released
    exact hsize

/-- Bringing a page in leaves the number of frames as it is, whatever comes of it. -/
theorem BringsIn.size_eq {m m' : Machine σ} {r : EntryRef} {result : Except Failure Nat}
    (hbrings : m.BringsIn r result m') : m'.frameTable.size = m.frameTable.size := by
  cases hbrings with
  | starved starves => exact starves.size_eq
  | unreadable frees _ _ _ => exact frees.size_eq
  | firstTouch frees _ _ claimed _ =>
    obtain ⟨-, -, hsize, -⟩ := FrameTable.claim?_spec claimed
    exact hsize.trans frees.size_eq
  | swappedIn frees _ _ _ claimed _ =>
    obtain ⟨-, -, hsize, -⟩ := FrameTable.claim?_spec claimed
    exact hsize.trans frees.size_eq

theorem Translates.size_eq {m m' : Machine σ} {a : Address} {kind : AccessKind}
    {result : Except Failure Nat} (ht : m.Translates a kind result m') :
    m'.frameTable.size = m.frameTable.size := by
  cases ht with
  | outside _ => rfl
  | hit _ _ => rfl
  | fault _ _ _ brings => exact brings.size_eq
  | refused _ _ _ brings => exact brings.size_eq

/-- No request changes the number of frames. -/
theorem Serves.size_eq {m m' : Machine σ} {q : Request} {result : Except Failure Reply}
    (hs : m.Serves q result m') : m'.frameTable.size = m.frameTable.size := by
  obtain ⟨_, _, _, _, translates, rfl, -⟩ := hs.translates
  exact translates.size_eq

/-- A run has as many frames at its end as at its start. -/
theorem size_serveAll {m : Machine σ} (h : m.Consistent) (qs : List Request) :
    (m.serveAll qs).frameTable.size = m.frameTable.size := by
  refine And.right (serveAll_induction (P := fun m' =>
    m'.Consistent ∧ m'.frameTable.size = m.frameTable.size) ?_ qs ⟨h, rfl⟩)
  intro m' q h'
  exact ⟨h'.1.serve q, (serve_cases h'.1 q).size_eq.trans h'.2⟩

/-! ## Frames and slots -/

/-- `m'` has as many frames as `m`, and room for as many pages on swap. -/
structure SameExtent (m m' : Machine σ) : Prop where
  frames : m'.frameTable.size = m.frameTable.size
  capacity : BackingStore.capacity m'.swap = BackingStore.capacity m.swap

theorem SameExtent.refl (m : Machine σ) : m.SameExtent m := ⟨rfl, rfl⟩

theorem SameExtent.trans {m₁ m₂ m₃ : Machine σ} (h₁ : m₁.SameExtent m₂)
    (h₂ : m₂.SameExtent m₃) : m₁.SameExtent m₃ :=
  ⟨h₂.frames.trans h₁.frames, h₂.capacity.trans h₁.capacity⟩

variable [LawfulStore σ]

/-- A failed search for a frame leaves the extent as it is. -/
theorem Starves.sameExtent {m m' : Machine σ} {e : PagingError} (hstarves : m.Starves e m') :
    m.SameExtent m' := by
  refine ⟨hstarves.size_eq, ?_⟩
  cases hstarves with
  | noVictim _ _ _ _ => rfl
  | vacant _ _ _ _ _ => rfl
  | exhausted _ unsaved => exact LawfulStore.capacity_save unsaved

/-- An eviction writes to swap, which has as much room in all as it had. -/
theorem Frees.sameExtent {m m₀ : Machine σ} {frame : Nat} (hfrees : m.Frees m₀ frame) :
    m.SameExtent m₀ := by
  refine ⟨hfrees.size_eq, ?_⟩
  cases hfrees with
  | found _ => rfl
  | evicted _ saved _ => exact LawfulStore.capacity_save saved

/-- Bringing a page in leaves the extent as it is. -/
theorem BringsIn.sameExtent {m m' : Machine σ} {r : EntryRef} {result : Except Failure Nat}
    (hbrings : m.BringsIn r result m') : m.SameExtent m' := by
  refine ⟨hbrings.size_eq, ?_⟩
  cases hbrings with
  | starved starves => exact starves.sameExtent.capacity
  | unreadable frees _ _ unread =>
    exact (LawfulStore.capacity_fetch unread).trans frees.sameExtent.capacity
  | firstTouch frees _ _ _ _ => exact frees.sameExtent.capacity
  | swappedIn frees _ _ read _ _ =>
    exact (LawfulStore.capacity_fetch read).trans frees.sameExtent.capacity

/-- A translation leaves the extent as it is, and so does one that fails. -/
theorem Translates.sameExtent {m m' : Machine σ} {a : Address} {kind : AccessKind}
    {result : Except Failure Nat} (ht : m.Translates a kind result m') : m.SameExtent m' := by
  refine ⟨ht.size_eq, ?_⟩
  cases ht with
  | outside _ => rfl
  | hit _ _ => rfl
  | fault _ _ _ brings => exact brings.sameExtent.capacity
  | refused _ _ _ brings => exact brings.sameExtent.capacity

/-- No request changes the extent of the machine. -/
theorem Serves.sameExtent {m m' : Machine σ} {q : Request} {result : Except Failure Reply}
    (hs : m.Serves q result m') : m.SameExtent m' := by
  refine ⟨hs.size_eq, ?_⟩
  obtain ⟨_, _, _, _, translates, rfl, -⟩ := hs.translates
  exact translates.sameExtent.capacity

/-- What stays the same in every request stays the same in a run or any other calls. -/
theorem SameExtent.callAll {m : Machine σ} (h : m.Consistent) (calls : List Call) :
    m.SameExtent (m.callAll calls) := by
  refine And.right (callAll_induction (P := fun m' => m'.Consistent ∧ m.SameExtent m') ?_ ?_ calls
    ⟨h, .refl m⟩)
  · intro m' q h'
    exact ⟨h'.1.serve q, h'.2.trans (serve_cases h'.1 q).sameExtent⟩
  · intro m' h'
    exact ⟨h'.1.finish, h'.2.trans ⟨rfl, rfl⟩⟩

end DemandPaging.Machine
