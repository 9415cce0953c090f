import DemandPaging.Proofs.Machine.Bounds
import DemandPaging.Proofs.Machine.TableGrowth
import Mathlib.Data.Finset.Card

/-!
# What a machine weighs

Frames, slots and tables are all that a machine holds, and tables alone are ever added. They are
made on the way to an address, before it is known whether its page can be brought in, and they stay
when it cannot. So the tables are those of the addresses that were asked for (`Walked`), whatever
became of the requests. Each is made once, wherever its turn puts it in the arenas, so there are as
many as there are different slots and paths among those addresses.

> `Serves.walked`: the step.
> `Reached.callAll`: any calls.
> `footprint_of_touched`: the weight in numbers, and why two runs weigh the same.
-/

namespace DemandPaging

/-- Each element is counted once. -/
theorem card_toFinset {α : Type} [DecidableEq α] [BEq α] [LawfulBEq α] (l : List α) :
    l.toFinset.card = l.eraseDups.length := by
  have hsame : l.toFinset = l.eraseDups.toFinset := by
    ext a
    simp
  rw [hsame, List.toFinset_card_of_nodup (nodup_eraseDups l)]

theorem card_toFinset_mono {α : Type} [DecidableEq α] {l l' : List α} (h : l ⊆ l') :
    l.toFinset.card ≤ l'.toFinset.card := by
  apply Finset.card_le_card
  intro a ha
  exact List.mem_toFinset.mpr (h (List.mem_toFinset.mp ha))

/-- The addresses among those of some requests that are looked for in the page table: the others
are turned away before. -/
def touched (qs : List Request) : List Address := (qs.map (·.address)).filter (·.inFrame)

/-- The addresses of two runs in turn are those of one and of the other. -/
theorem touched_append (qs rest : List Request) :
    touched (qs ++ rest) = touched qs ++ touched rest := by
  simp [touched]

/-! ## The weight as a function of the addresses -/

/-- What a machine of so many frames and slots weighs when `as` were looked for: 28 bytes for each
frame, 16 for each slot, and a table for every slot of the top table and every path among them. -/
def footprintOf (frames slots : Nat) (as : List Address) : Nat :=
  28 * frames + 16 * slots + 32768 * (1 + (as.map (·.top)).toFinset.card) +
    131072 * (as.map (·.path)).toFinset.card

/-- More addresses weigh no less. -/
theorem footprintOf_mono (frames slots : Nat) {as as' : List Address} (h : as ⊆ as') :
    footprintOf frames slots as ≤ footprintOf frames slots as' := by
  have htops := card_toFinset_mono (List.map_subset (·.top) h)
  have hpaths := card_toFinset_mono (List.map_subset (·.path) h)
  unfold footprintOf
  omega

/-- Neither the order of the addresses nor how often each is named matters. -/
theorem footprintOf_congr (frames slots : Nat) {as as' : List Address}
    (h : ∀ a, a ∈ as ↔ a ∈ as') : footprintOf frames slots as = footprintOf frames slots as' :=
  Nat.le_antisymm (footprintOf_mono frames slots fun a => (h a).mp)
    (footprintOf_mono frames slots fun a => (h a).mpr)

namespace Machine

variable {σ : Type} [BackingStore σ] {m m' : Machine σ}

/-- Only walks make tables. -/
theorem Serves.walked {q : Request} {result : Except Failure Reply} {qs : List Request}
    (hm : m.Consistent) (hserves : m.Serves q result m') (h : m.pageTable.Walked (touched qs)) :
    m'.pageTable.Walked (touched (qs ++ [q])) := by
  rw [touched_append]
  exact hserves.tables (R := PageTable.Walked) hm
    (fun _ _ a hrooted hwalked => hwalked.walk hrooted a)
    (fun _ _ _ haltered hwalked => haltered.walked hwalked) h

/-! ## The requests that calls come to -/

/-- The accesses that a replay performs: those up to the first that fails. -/
def performed (m : Machine σ) : List (Except LineError Trace.Record) → List Request
  | [] => []
  | .error _ :: _ => []
  | .ok r :: rest =>
    match m.access r with
    | ⟨.ok _, m, _⟩ => .access r :: performed m rest
    | ⟨.error _, _, _⟩ => [.access r]

def requestsOf (m : Machine σ) : Call → List Request
  | .request q => [q]
  | .replay items => m.performed items
  | .finish => []

/-- The requests that a sequence of calls comes to, failed ones included. -/
def requestsMade (m : Machine σ) : List Call → List Request
  | [] => []
  | c :: calls => m.requestsOf c ++ (m.call c).requestsMade calls

/-- A replay comes to the accesses that it performs. -/
theorem replay_eq_serveAll : ∀ (m : Machine σ) (items : List (Except LineError Trace.Record)),
    (m.replay items).machine = m.serveAll (m.performed items)
  | _, [] => rfl
  | _, .error _ :: _ => rfl
  | m, .ok r :: rest => by
    have hserve : (m.serve (.access r)).machine = (m.access r).machine := (serve_access m r).2
    rw [replay_ok]
    unfold performed
    split
    next _ m' events haccess =>
      rw [haccess] at hserve ⊢
      show (m'.replay rest).machine = (m.serve (.access r)).machine.serveAll (m'.performed rest)
      rw [hserve]
      exact replay_eq_serveAll m' rest
    next _ m' events haccess =>
      rw [haccess] at hserve ⊢
      exact hserve.symm

/-- What an observer has noted after a sequence of calls. Before each of the requests that the calls
come to, it sees the machine. -/
def watchCalls {γ : Type} (note : γ → Machine σ → Request → γ) (notes : γ) (m : Machine σ) :
    List Call → γ
  | [] => notes
  | c :: calls => watchCalls note (m.watch note notes (m.requestsOf c)) (m.call c) calls

/-- What every request preserves of the requests so far, the machine and an observer's notes, and
the end of a run too, holds after any calls. -/
theorem watchCalls_induction {γ : Type} {note : γ → Machine σ → Request → γ}
    {P : List Request → Machine σ → γ → Prop}
    (step : ∀ past m notes q, P past m notes →
      P (past ++ [q]) (m.serve q).machine (note notes m q))
    (finish : ∀ past m notes, P past m notes → P past m.finish notes) :
    ∀ (calls : List Call) {past : List Request} {m : Machine σ} {notes : γ}, P past m notes →
      P (past ++ m.requestsMade calls) (m.callAll calls) (m.watchCalls note notes calls)
  | [], past, m, notes, h => by
    show P (past ++ []) m notes
    rw [List.append_nil]
    exact h
  | c :: calls, past, m, notes, h => by
    have hcall : P (past ++ m.requestsOf c) (m.call c)
        (m.watch note notes (m.requestsOf c)) := by
      cases c with
      | request q => exact step past m notes q h
      | replay items =>
        show P (past ++ m.performed items) (m.replay items).machine
          (m.watch note notes (m.performed items))
        rw [replay_eq_serveAll]
        exact history_induction step (m.performed items) h
      | finish =>
        show P (past ++ []) m.finish notes
        rw [List.append_nil]
        exact finish past m notes h
    have hrest := watchCalls_induction step finish calls hcall
    rw [List.append_assoc] at hrest
    exact hrest

/-- The same without an observer. -/
theorem requestsMade_induction {P : List Request → Machine σ → Prop}
    (step : ∀ past m q, P past m → P (past ++ [q]) (m.serve q).machine)
    (finish : ∀ past m, P past m → P past m.finish) (calls : List Call) {past : List Request}
    {m : Machine σ} (h : P past m) : P (past ++ m.requestsMade calls) (m.callAll calls) :=
  -- the observer of this run keeps nothing
  @watchCalls_induction σ _ Unit (fun _ _ _ => ()) (fun past m _ => P past m)
    (fun past m _ q h => step past m q h) (fun past m _ h => finish past m h) calls past m () h

/-! ## The weight -/

variable [LawfulStore σ] {frames slots : Nat} {past : List Request}

/-- A machine in order whose tables are those of the requests so far. -/
structure Reached (m : Machine σ) (frames slots : Nat) (past : List Request) : Prop where
  inOrder : m.InOrder frames slots
  walked : m.pageTable.Walked (touched past)

theorem reached_build (frames : Nat) (policy : Policy) (swap : σ) :
    (build frames policy swap).Reached frames (BackingStore.capacity swap) [] where
  inOrder := inOrder_build frames policy swap
  walked := PageTable.covers_empty

/-- Calls reach what their requests look for. -/
theorem Reached.callAll (h : m.Reached frames slots past) (calls : List Call) :
    (m.callAll calls).Reached frames slots (past ++ m.requestsMade calls) := by
  refine requestsMade_induction (P := fun past m => m.Reached frames slots past) ?_ ?_ calls h
  · intro past m q h
    have hserves := serve_cases h.inOrder.consistent q
    exact ⟨h.inOrder.serves hserves, hserves.walked h.inOrder.consistent h.walked⟩
  · intro past m h
    exact ⟨h.inOrder.finish, h.walked⟩

/-- Twelve bytes of a frame are its place in the frame table, the other sixteen are its page. -/
theorem Reached.footprint_eq (h : m.Reached frames slots past) :
    m.footprint = footprintOf frames slots (touched past) := by
  have hmemory : m.memory.pages.size = frames := h.inOrder.consistent.frames.trans h.inOrder.size
  have hsize : m.frameTable.occupants.size = frames := h.inOrder.size
  simp only [footprint, Memory.footprint, FrameTable.footprint, PageTable.footprint,
    BackingStore.footprint, hmemory, hsize, h.walked.mids_eq, h.walked.leaves_eq,
    h.inOrder.capacity, footprintOf, card_toFinset, pageBytes, PageTable.directoryBytes,
    PageTable.leafBytes, tableSlots]
  omega

/-- The machine weighs what the addresses say that were looked for, and will not weigh less. -/
structure Weighs (m : Machine σ) (frames slots : Nat) (as : List Address) : Prop where
  footprint : m.footprint = footprintOf frames slots as
  grows : ∀ more, m.footprint ≤ (m.callAll more).footprint

/-- A machine weighs what was looked for on the way to it. -/
theorem Reached.weighs (h : m.Reached frames slots past) :
    m.Weighs frames slots (touched past) where
  footprint := h.footprint_eq
  grows more := by
    rw [h.footprint_eq, (h.callAll more).footprint_eq, touched_append]
    exact footprintOf_mono frames slots (List.subset_append_left _ _)

theorem weighs_unreliable (frames slots : Nat) (policy : Policy) (failsOut failsIn : Nat → Bool)
    (calls : List Call) :
    let m₀ := build frames policy (UnreliableStore.empty slots failsOut failsIn)
    (m₀.callAll calls).Weighs frames slots (touched (m₀.requestsMade calls)) := by
  have hbuild := reached_build frames policy (UnreliableStore.empty slots failsOut failsIn)
  have hcapacity : BackingStore.capacity (UnreliableStore.empty slots failsOut failsIn) = slots :=
    Array.size_replicate
  rw [hcapacity] at hbuild
  exact (hbuild.callAll calls).weighs

theorem weighs_slots (frames slots : Nat) (policy : Policy) (calls : List Call) :
    let m₀ := build frames policy (SlotStore.empty slots)
    (m₀.callAll calls).Weighs frames slots (touched (m₀.requestsMade calls)) := by
  have hbuild := reached_build frames policy (SlotStore.empty slots)
  have hcapacity : BackingStore.capacity (SlotStore.empty slots) = slots := Array.size_replicate
  rw [hcapacity] at hbuild
  exact (hbuild.callAll calls).weighs

/-- After any calls, whichever of them were refused, a machine weighs what the set of the addresses
says that were looked for: over the memory store, and over the store that fails on demand. So two
machines of one size weigh the same if that set is the same, whatever their algorithms, seeds,
kinds of access and failures are, and in whichever order and how often the addresses came up; and
the weight never goes down. -/
theorem footprint_of_touched (frames slots : Nat) (algorithm : Algorithm) (seed : UInt64)
    (failsOut failsIn : Nat → Bool) (calls : List Call) :
    let policy := Policy.ofAlgorithm algorithm seed
    let m₀ := build frames policy (UnreliableStore.empty slots failsOut failsIn)
    let plain₀ := build frames policy (SlotStore.empty slots)
    let m := m₀.callAll calls
    let plain := plain₀.callAll calls
    let as := touched (m₀.requestsMade calls)
    let plainAs := touched (plain₀.requestsMade calls)
    m.Weighs frames slots as ∧ plain.Weighs frames slots plainAs ∧
      ∀ algorithm' seed' failsOut' failsIn' calls',
        let policy' := Policy.ofAlgorithm algorithm' seed'
        let m₀' := build frames policy' (UnreliableStore.empty slots failsOut' failsIn')
        let plain₀' := build frames policy' (SlotStore.empty slots)
        let as' := touched (m₀'.requestsMade calls')
        let plainAs' := touched (plain₀'.requestsMade calls')
        ((∀ a, a ∈ as ↔ a ∈ as') → m.footprint = (m₀'.callAll calls').footprint) ∧
          ((∀ a, a ∈ plainAs ↔ a ∈ plainAs') →
            plain.footprint = (plain₀'.callAll calls').footprint) ∧
          ((∀ a, a ∈ plainAs ↔ a ∈ as') →
            plain.footprint = (m₀'.callAll calls').footprint) := by
  intro policy m₀ plain₀ m plain as plainAs
  have hm : m.Weighs frames slots as :=
    weighs_unreliable frames slots policy failsOut failsIn calls
  have hplain : plain.Weighs frames slots plainAs := weighs_slots frames slots policy calls
  refine ⟨hm, hplain, ?_⟩
  intro algorithm' seed' failsOut' failsIn' calls' policy' m₀' plain₀' as' plainAs'
  have hm' := weighs_unreliable frames slots policy' failsOut' failsIn' calls'
  have hplain' := weighs_slots frames slots policy' calls'
  refine ⟨fun hsame => ?_, fun hsame => ?_, fun hsame => ?_⟩
  · rw [hm.footprint, hm'.footprint, footprintOf_congr frames slots hsame]
  · rw [hplain.footprint, hplain'.footprint, footprintOf_congr frames slots hsame]
  · rw [hplain.footprint, hm'.footprint, footprintOf_congr frames slots hsame]

end Machine

end DemandPaging
