import DemandPaging.Proofs.Machine.Requests
import DemandPaging.Proofs.PageTable.Growth

/-!
# How a machine's page table grows

A request walks the way to its address, and everything else that it does to the page table is to
change entries (`Altered`): marks that a policy takes, the victim's place, the page's own. Its walk
comes before it is known whether the page can be brought in, and what it made stays when it cannot;
only an address whose offset is outside is turned away before. So whatever walks make of the tables,
and changes of entries leave as it is, a request adds for its address:

> `Frees.altered`, `BringsIn.altered`: a stage changes entries.
> `Serves.altered`: a request walks first.
> `Serves.tables`: the step, for anything that is said of a table and the addresses walked.
-/

namespace DemandPaging

/-- Taking marks away makes no tables. -/
theorem PageTable.Swept.altered {t t' : PageTable} (h : Swept t t') : Altered t t' := by
  induction h with
  | refl => exact .refl
  | unmark r _ ih => exact (Altered.refl.modify r _).trans ih

namespace Machine

open PageTable (Altered)

variable {σ : Type} [BackingStore σ] {m m' : Machine σ}

/-- A search for a frame that fails makes no tables. -/
theorem Starves.altered {e : PagingError} (hstarves : m.Starves e m') :
    Altered m.pageTable m'.pageTable := by
  cases hstarves with
  | noVictim _ _ spares _ => exact spares.swept.altered
  | vacant _ _ spares _ _ => exact spares.swept.altered
  | exhausted names _ => exact names.spares.swept.altered

theorem Frees.altered {frame : Nat} (hfrees : m.Frees m' frame) :
    Altered m.pageTable m'.pageTable := by
  cases hfrees with
  | found _ => exact .refl
  | evicted names _ _ => exact names.spares.swept.altered.modify _ _

/-- Bringing a page in makes no tables. -/
theorem BringsIn.altered {r : EntryRef} {result : Except Failure Nat}
    (hbrings : m.BringsIn r result m') : Altered m.pageTable m'.pageTable := by
  cases hbrings with
  | starved starves => exact starves.altered
  | unreadable frees _ _ _ => exact frees.altered
  | firstTouch frees _ _ _ _ => exact frees.altered.modify _ _
  | swappedIn frees _ _ _ _ _ => exact frees.altered.modify _ _

/-- The only tables that a translation makes are those on the way to its address. -/
theorem Translates.altered {a : Address} {kind : AccessKind} {result : Except Failure Nat}
    (ht : m.Translates a kind result m') :
    a.inFrame = false ∧ m'.pageTable = m.pageTable ∨
      a.inFrame = true ∧ Altered (m.pageTable.walk a).table m'.pageTable := by
  cases ht with
  | outside hout => exact Or.inl ⟨hout, rfl⟩
  | hit hin _ => exact Or.inr ⟨hin, Altered.refl.modify _ _⟩
  | fault hin _ _ brings => exact Or.inr ⟨hin, brings.altered.modify _ _⟩
  | refused hin _ _ brings => exact Or.inr ⟨hin, brings.altered⟩

/-- The way to an address is walked if the address is in a frame, also where its page cannot be
brought in. -/
theorem Serves.altered {q : Request} {result : Except Failure Reply}
    (hserves : m.Serves q result m') :
    q.address.inFrame = false ∧ m'.pageTable = m.pageTable ∨
      q.address.inFrame = true ∧ Altered (m.pageTable.walk q.address).table m'.pageTable := by
  obtain ⟨_, m₁, _, _, translates, rfl, -⟩ := hserves.translates
  exact translates.altered

/-- What a walk adds its address to, and no change of entries undoes, a request adds its own to. -/
theorem Serves.tables {R : PageTable → List Address → Prop} (hm : m.Consistent) {q : Request}
    {result : Except Failure Reply} (hserves : m.Serves q result m')
    (walk : ∀ t as a, t.Rooted → R t as → R (t.walk a).table (as ++ [a]))
    (alter : ∀ t t' as, Altered t t' → R t as → R t' as) {as : List Address}
    (h : R m.pageTable as) : R m'.pageTable (as ++ [q.address].filter (·.inFrame)) := by
  rcases hserves.altered with ⟨hout, htable⟩ | ⟨hin, haltered⟩
  · rw [htable]
    simpa [hout] using h
  · have hwalk := alter _ _ _ haltered (walk _ _ q.address hm.rooted h)
    simpa [hin] using hwalk

end Machine

end DemandPaging
