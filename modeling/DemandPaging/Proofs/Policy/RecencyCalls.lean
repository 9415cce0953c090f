import DemandPaging.Policy.Basic
import DemandPaging.Proofs.Policy.RecencyList
import Mathlib.Data.Fin.Basic
import Mathlib.Data.List.Induction
import Mathlib.Data.List.Nodup

/-!
# Recency is a list

Whatever is asked of the recency policy, and in whatever order, it answers as a list of frames
without repetitions would (`RecentFrames`): a frame that is used goes to the front, the victim is
taken from the back, and starting or finishing leaves an empty list. The links show that list, and
so they do when they are followed without keeping count of the steps (`Walks`): both ways they come
to an end, and backwards they give the list in reverse.

`Lists` says nothing about frames outside the list. They lead nowhere (`Apart`), which every
operation preserves, so that `prev` undoes `next` on all frames alike.

> `Remembers.perform`: one call.
> `recency_refines_list`: all calls.
-/

namespace DemandPaging.Policy

namespace Links

variable {n : Nat} {l : Links n} {xs : List (Fin n)}

/-! ## Frames outside the list -/

/-- A frame that is not in the list leads nowhere. -/
def Apart (l : Links n) : Prop :=
  ∀ f, l.linked.get f ≠ true → l.next.get f = none ∧ l.prev.get f = none

theorem apart_empty (n : Nat) : (empty n).Apart := fun f _ =>
  ⟨Vector.getElem_replicate f.isLt, Vector.getElem_replicate f.isLt⟩

/-- The neighbours of a frame are in the list, so taking it out changes no link of another frame
outside. -/
theorem Apart.unlink (h : l.Apart) (hl : l.Lists xs) {f : Fin n} (hf : f ∈ xs) :
    (l.unlink f).Apart := by
  obtain ⟨ys, zs, rfl⟩ := List.append_of_mem hf
  have hbefore : l.prev.get f = ys.getLast? := hl.prev ys f zs rfl
  have hafter : l.next.get f = zs.head? := hl.next ys f zs rfl
  intro g hg
  rw [next_unlink, prev_unlink, hbefore, hafter]
  by_cases hfg : f = g
  · rw [if_pos hfg, if_pos hfg]
    exact ⟨rfl, rfl⟩
  · rw [linked_unlink, if_neg hfg] at hg
    have hout : g ∉ ys ++ f :: zs := mt (hl.linked g).mpr hg
    have hlast : ys.getLast? ≠ some g := fun heq =>
      hout (List.mem_append_left _ (List.mem_of_getLast? heq))
    have hfirst : zs.head? ≠ some g := fun heq =>
      hout (List.mem_append_right _ (List.mem_cons_of_mem _ (List.mem_of_head? heq)))
    rw [if_neg hfg, if_neg hfg, if_neg hlast, if_neg hfirst]
    exact h g hg

/-- Putting a frame in front leaves those that are not listed apart. -/
theorem Apart.pushFront (h : l.Apart) (hl : l.Lists xs) (f : Fin n) : (l.pushFront f).Apart := by
  intro g hg
  rw [linked_pushFront] at hg
  split at hg
  next => exact absurd rfl hg
  next hfg =>
    have hhead : l.head ≠ some g := by
      rw [hl.head]
      exact fun heq => hg ((hl.linked g).mpr (List.mem_of_head? heq))
    rw [next_pushFront, prev_pushFront, if_neg hfg, if_neg hhead, if_neg hfg]
    exact h g hg

theorem Apart.touch (h : l.Apart) (hl : l.Lists xs) (f : Fin n) : (l.touch f).Apart := by
  unfold Links.touch
  rw [getElem_eq_get]
  split
  next hlinked =>
    split
    next => exact h
    next =>
      obtain ⟨ys, zs, rfl⟩ := List.append_of_mem ((hl.linked f).mp hlinked)
      exact (h.unlink hl (by simp)).pushFront hl.unlink f
  next => exact h.pushFront hl f

/-- A frame that is evicted is apart from then on. -/
theorem Apart.evict (h : l.Apart) (hl : l.Lists xs) : l.evict.2.Apart := by
  unfold Links.evict
  split
  next => exact h
  next f htail =>
    rw [hl.tail] at htail
    exact h.unlink hl (List.mem_of_getLast? htail)

/-- The links back undo the links forth. -/
theorem Lists.next_eq_some_iff (hl : l.Lists xs) (h : l.Apart) (f g : Fin n) :
    l.next.get f = some g ↔ l.prev.get g = some f := by
  constructor
  · intro hnext
    have hf : f ∈ xs := by
      by_contra hout
      rw [(h f (mt (hl.linked f).mp hout)).1] at hnext
      exact absurd hnext (by simp)
    obtain ⟨ys, zs, rfl⟩ := List.append_of_mem hf
    rw [hl.next ys f zs rfl] at hnext
    obtain ⟨zs, rfl⟩ := List.head?_eq_some_iff.mp hnext
    rw [hl.prev (ys ++ [f]) g zs (by simp), List.getLast?_concat]
  · intro hprev
    have hg : g ∈ xs := by
      by_contra hout
      rw [(h g (mt (hl.linked g).mp hout)).2] at hprev
      exact absurd hprev (by simp)
    obtain ⟨ys, zs, rfl⟩ := List.append_of_mem hg
    rw [hl.prev ys g zs rfl] at hprev
    obtain ⟨ys, rfl⟩ := List.getLast?_eq_some_iff.mp hprev
    rw [hl.next ys f (g :: zs) (by simp), List.head?_cons]

/-! ## Following the links to their end -/

/-- Following a table of links from a frame on, for as long as there is another, comes by these
frames and ends. -/
inductive Walks (links : Vector (Option (Fin n)) n) : Option (Fin n) → List (Fin n) → Prop where
  | done : Walks links none []
  | step {f : Fin n} {fs : List (Fin n)} (rest : Walks links (links.get f) fs) :
      Walks links (some f) (f :: fs)

/-- The links lead one way only. -/
theorem Walks.unique {links : Vector (Option (Fin n)) n} {current : Option (Fin n)}
    {fs gs : List (Fin n)} (hf : Walks links current fs) (hg : Walks links current gs) :
    fs = gs := by
  induction hf generalizing gs with
  | done =>
    cases hg
    rfl
  | step _ ih =>
    cases hg with
    | step hrest => rw [ih hrest]

/-- From any place in the list, following `next` walks through what is behind it. -/
theorem Lists.walks_next (h : l.Lists xs) : ∀ {ys zs : List (Fin n)}, xs = ys ++ zs →
    Walks l.next zs.head? zs
  | _, [], _ => .done
  | ys, f :: zs, hxs => by
    refine .step ?_
    rw [h.next ys f zs hxs]
    exact h.walks_next (hxs.trans (List.append_cons ys f zs))

/-- Following `prev` walks back to the front. -/
theorem Lists.walks_prev (h : l.Lists xs) (ys : List (Fin n)) :
    ∀ {zs : List (Fin n)}, xs = ys ++ zs → Walks l.prev ys.getLast? ys.reverse := by
  induction ys using List.reverseRecOn with
  | nil => exact fun _ => .done
  | append_singleton ys f ih =>
    intro zs hxs
    have hsplit : xs = ys ++ f :: zs := by rw [hxs, List.append_assoc, List.singleton_append]
    rw [List.getLast?_concat, List.reverse_append, List.reverse_singleton, List.singleton_append]
    refine .step ?_
    rw [h.prev ys f zs hsplit]
    exact ih hsplit

/-- Forth and back the links come to an end, and show the list and its reverse. -/
theorem Lists.walks_iff (h : l.Lists xs) (fs : List (Fin n)) :
    (Walks l.next l.head fs ↔ fs = l.order) ∧ (Walks l.prev l.tail fs ↔ fs = l.order.reverse) := by
  have hnext : Walks l.next l.head xs := h.head ▸ h.walks_next (List.nil_append xs).symm
  have hprev : Walks l.prev l.tail xs.reverse :=
    h.tail ▸ h.walks_prev xs (List.append_nil xs).symm
  rw [h.order_eq]
  constructor
  · exact ⟨fun hwalk => hwalk.unique hnext, fun heq => heq ▸ hnext⟩
  · exact ⟨fun hwalk => hwalk.unique hprev, fun heq => heq ▸ hprev⟩

end Links

end Policy

/-! ## Calls -/

/-- A call of a replacement policy. -/
inductive PolicyCall where
  | start (frames : Nat)
  | reference (frame : Nat)
  | evict (residents : ResidentPages)
  | finish

namespace Policy

/-- Performs a call. Only `evict` has an answer, which is the victim if there is one. -/
def perform? (p : Policy) : PolicyCall → Option (List (Option Nat) × Policy)
  | .start frames => some ([], p.start frames)
  | .reference frame => some ([], p.reference frame)
  | .evict residents =>
    (p.evict? residents).map fun choice => ([choice.victim], choice.policy)
  | .finish => some ([], p.finish)

/-- Performs calls one after the other, and collects the answers. -/
def performAll? (p : Policy) : List PolicyCall → Option (List (Option Nat) × Policy)
  | [] => some ([], p)
  | c :: cs => (p.perform? c).bind fun (answer, p) =>
    (performAll? p cs).map fun (answers, p) => (answer ++ answers, p)

/-- The frames used so far, most recently used first, of a number of frames. -/
structure RecentFrames where
  bound : Nat
  frames : List Nat

namespace RecentFrames

/-- What a call answers and what it does to the list. -/
def perform (m : RecentFrames) : PolicyCall → List (Option Nat) × RecentFrames
  | .start frames => ([], ⟨frames, []⟩)
  | .reference frame =>
    ([], if frame < m.bound then { m with frames := frame :: m.frames.erase frame } else m)
  | .evict _ => ([m.frames.getLast?], { m with frames := m.frames.dropLast })
  | .finish => ([], ⟨0, []⟩)

def performAll (m : RecentFrames) : List PolicyCall → List (Option Nat) × RecentFrames
  | [] => ([], m)
  | c :: cs =>
    let (answer, m) := m.perform c
    let (answers, m) := m.performAll cs
    (answer ++ answers, m)

end RecentFrames

/-- The policy is recency, and its links are those of the list. -/
inductive Remembers : Policy → RecentFrames → Prop where
  | lru {n : Nat} {l : Links n} {xs : List (Fin n)} (lists : l.Lists xs) (apart : l.Apart) :
      Remembers (.lru ⟨n, l⟩) ⟨n, xs.map Fin.val⟩

variable {p : Policy} {m : RecentFrames}

theorem remembers_empty (n : Nat) : Remembers (.lru (.empty n)) ⟨n, []⟩ :=
  .lru (Links.lists_empty n) (Links.apart_empty n)

/-- One call gives the answer of the list and keeps to it. -/
theorem Remembers.perform (h : Remembers p m) (c : PolicyCall) :
    ∃ p', p.perform? c = some ((m.perform c).1, p') ∧ Remembers p' (m.perform c).2 := by
  obtain @⟨n, l, xs, lists, apart⟩ := h
  cases c with
  | start frames => exact ⟨_, rfl, remembers_empty frames⟩
  | finish => exact ⟨_, rfl, remembers_empty 0⟩
  | reference frame =>
    refine ⟨_, rfl, ?_⟩
    by_cases hlt : frame < n
    · have hfront : (frame :: (xs.map Fin.val).erase frame : List Nat)
          = ((⟨frame, hlt⟩ : Fin n) :: xs.erase ⟨frame, hlt⟩).map Fin.val := by
        rw [List.map_cons, List.map_erase Fin.val_injective]
      have htouch := Remembers.lru (lists.touch ⟨frame, hlt⟩) (apart.touch lists ⟨frame, hlt⟩)
      simpa only [reference, Recency.reference, RecentFrames.perform, dif_pos hlt, if_pos hlt,
        hfront] using htouch
    · simpa only [reference, Recency.reference, RecentFrames.perform, dif_neg hlt, if_neg hlt]
        using Remembers.lru lists apart
  | evict residents =>
    obtain ⟨hvictim, hlists⟩ := lists.evict
    refine ⟨.lru ⟨n, l.evict.2⟩, ?_, ?_⟩
    · simp only [perform?, evict?, Recency.evict, RecentFrames.perform, Option.map_some, hvictim,
        List.getLast?_map]
    · have hevict := Remembers.lru hlists (apart.evict lists)
      rwa [List.map_dropLast] at hevict

/-- Any calls give the answers of the list. -/
theorem Remembers.performAll : ∀ (calls : List PolicyCall) {p : Policy} {m : RecentFrames},
    Remembers p m → ∃ p', p.performAll? calls = some ((m.performAll calls).1, p') ∧
      Remembers p' (m.performAll calls).2
  | [], p, _, h => ⟨p, rfl, h⟩
  | c :: cs, p, m, h => by
    obtain ⟨p₁, hcall, h₁⟩ := h.perform c
    obtain ⟨p', hrest, h'⟩ := Remembers.performAll cs h₁
    refine ⟨p', ?_, h'⟩
    unfold performAll?
    rw [hcall, Option.bind_some]
    show (p₁.performAll? cs).map _ = _
    rw [hrest, Option.map_some]
    rfl

/-- Whatever calls are made of a recency policy that was never started, all are answered, and as the
list of frames answers them; the links are those of that list. Following them ends: forth it shows
the list, back its reverse. No frame is in the list twice, and each of them exists; `prev` undoes
`next` on all frames; the ends are the ends of the list, and the marked frames are those in it. No
index leaves the tables, since links and frames are numbers below their size by their type. -/
theorem recency_refines_list (seed : UInt64) (calls : List PolicyCall) :
    let model := RecentFrames.performAll ⟨0, []⟩ calls
    ∃ s : Recency,
      (ofAlgorithm .lru seed).performAll? calls = some (model.1, .lru s) ∧
      s.frames = model.2.bound ∧ s.order = model.2.frames ∧
      (∀ fs, Links.Walks s.links.next s.links.head fs ↔ fs = s.links.order) ∧
      (∀ fs, Links.Walks s.links.prev s.links.tail fs ↔ fs = s.links.order.reverse) ∧
      model.2.frames.Nodup ∧ (∀ f ∈ model.2.frames, f < model.2.bound) ∧
      (∀ f g, s.links.next.get f = some g ↔ s.links.prev.get g = some f) ∧
      s.links.head.map Fin.val = model.2.frames.head? ∧
      s.links.tail.map Fin.val = model.2.frames.getLast? ∧
      ∀ f, s.links.linked.get f = true ↔ f.val ∈ model.2.frames := by
  intro model
  obtain ⟨p', hanswers, hp⟩ := Remembers.performAll calls (remembers_empty 0)
  have hmodel : RecentFrames.performAll ⟨0, []⟩ calls = model := rfl
  rw [hmodel] at hanswers hp
  clear_value model
  obtain ⟨answers, m⟩ := model
  obtain @⟨n, l, xs, lists, apart⟩ := hp
  refine ⟨⟨n, l⟩, hanswers, rfl, congrArg _ lists.order_eq, fun fs => (lists.walks_iff fs).1,
    fun fs => (lists.walks_iff fs).2, List.Nodup.map Fin.val_injective lists.nodup, ?_,
    lists.next_eq_some_iff apart, ?_, ?_, ?_⟩
  · intro f hf
    obtain ⟨g, -, rfl⟩ := List.mem_map.mp hf
    exact g.isLt
  · show l.head.map Fin.val = _
    rw [lists.head, List.head?_map]
  · show l.tail.map Fin.val = _
    rw [lists.tail, List.getLast?_map]
  · intro f
    show l.linked.get f = true ↔ _
    rw [lists.linked, List.mem_map_of_injective Fin.val_injective]

/-- Frame 0 was used again, so frame 1 goes first; frame 5 does not exist. -/
example (residents : ResidentPages) :
    ((ofAlgorithm .lru 0).performAll? [.start 3, .reference 0, .reference 1, .reference 0,
      .reference 5, .evict residents, .evict residents, .evict residents]).map Prod.fst
      = some [some 1, some 0, none] := rfl

end Policy

end DemandPaging
