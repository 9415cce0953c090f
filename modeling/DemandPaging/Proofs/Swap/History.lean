import DemandPaging.Proofs.Distinct
import DemandPaging.Proofs.Swap.Dense
import Mathlib.Order.Bounds.Basic

/-!
# A swap store is its history

Whatever calls are made on a memory store, with whatever offsets, each answer is fixed by the
answers before it. A call with its answer is an `Exchange`; from a list of exchanges one reads off
the offsets that were handed out (`handedOut`) and the buffer that was last taken at an offset
(`latest?`), and `Exchange.Due` says what the next answer has to be. Nothing there mentions the
slots, the flags or the place where the search for a free slot starts.

The invariant is `Records`: the pages in the first slots are the latest ones of the offsets handed
out, in the order in which those were handed out first.

> `Records.perform`: one call.
> `slotStore_refines_history`: all calls.
-/

namespace DemandPaging

/-- Bytes that are long enough to hold a page. -/
structure Buffer where
  bytes : List UInt8
  holdsPage : pageBytes ≤ bytes.length

/-- The page at the front of a buffer. -/
def Buffer.page (b : Buffer) : Page :=
  ⟨(b.bytes.take pageBytes).toArray, by simp [Nat.min_eq_left b.holdsPage]⟩

/-- A buffer that holds a page is long enough for one. -/
theorem Buffer.ofBuffer?_bytes (b : Buffer) : Page.ofBuffer? b.bytes = some b.page :=
  dif_pos b.holdsPage

/-- A call on a swap store. -/
inductive SwapCall where
  | pageout (buffer : Buffer) (current : Option SwapOffset)
  | pagein (buffer : Buffer) (offset : SwapOffset)

/-- A call with its answer; a pagein also shows the bytes that its buffer has afterwards. -/
inductive Exchange where
  | pageout (buffer : Buffer) (current answer : Option SwapOffset)
  | pagein (buffer : Buffer) (offset : SwapOffset) (answer : Except PagingError Unit)
      (after : List UInt8)

namespace Exchange

def call : Exchange → SwapCall
  | pageout buffer current _ => .pageout buffer current
  | pagein buffer offset _ _ => .pagein buffer offset

/-- The offset that a pageout answered with, and the buffer it took. -/
def saved? : Exchange → Option (SwapOffset × Buffer)
  | pageout buffer _ answer => answer.map fun offset => (offset, buffer)
  | pagein .. => none

/-- Whether the call was turned down. -/
def failed : Exchange → Prop
  | pageout _ _ answer => answer = none
  | pagein _ _ answer _ => ∃ e, answer = .error e

end Exchange

/-- The offsets that pageouts have answered with, repetitions included. -/
def handedOut (past : List Exchange) : List SwapOffset := (past.filterMap (·.saved?)).map Prod.fst

/-- The buffer of the latest pageout that has answered with an offset. -/
def latest? (past : List Exchange) (offset : SwapOffset) : Option Buffer :=
  (past.filterMap (·.saved?)).reverse.lookup offset

/-- What is due to a call after other calls on a store with a number of slots. -/
def Exchange.Due (slots : Nat) (past : List Exchange) : Exchange → Prop
  | .pageout _ current answer =>
    (∀ o, current = some o → o ∈ handedOut past → answer = some o) ∧
      ((∀ o, current = some o → o ∉ handedOut past) →
        (answer = none ↔ ∀ slot < slots, .ofSlot slot ∈ handedOut past) ∧
          ∀ o, answer = some o → ∃ slot, o = .ofSlot slot ∧
            IsLeast {k | k < slots ∧ SwapOffset.ofSlot k ∉ handedOut past} slot)
  | .pagein buffer offset answer after =>
    (answer = .ok () ↔ offset ∈ handedOut past) ∧
      (answer = .ok () → ∃ stored, latest? past offset = some stored ∧
        after = stored.bytes.take pageBytes ++ buffer.bytes.drop pageBytes) ∧
      (answer ≠ .ok () → answer = .error (.unknownSwapOffset offset) ∧ after = buffer.bytes)

namespace SlotStore

/-- Performs a call. There is no answer where a buffer is too short. -/
def perform? (s : SlotStore) : SwapCall → Option (Exchange × SlotStore)
  | .pageout buffer current =>
    (s.saveBuffer? buffer.bytes current).map fun (answer, s) =>
      (.pageout buffer current answer, s)
  | .pagein buffer offset =>
    (s.fetchBuffer? buffer.bytes offset).map fun
      | .ok after => (.pagein buffer offset (.ok ()) after, s)
      | .error e => (.pagein buffer offset (.error e) buffer.bytes, s)

/-- Performs calls one after the other, also behind one that failed. -/
def performAll? (s : SlotStore) : List SwapCall → Option (List Exchange × SlotStore)
  | [] => some ([], s)
  | c :: cs => (s.perform? c).bind fun (x, s) => (performAll? s cs).map fun (xs, s) => (x :: xs, s)

/-! ## Buffers that are long enough -/

/-- A pageout from a buffer that holds a page always answers. -/
theorem saveBuffer?_eq (s : SlotStore) (b : Buffer) (current : Option SwapOffset) :
    s.saveBuffer? b.bytes current = some (s.save b.page current) := by
  unfold saveBuffer?
  split
  next => rw [b.ofBuffer?_bytes, Option.map_some]
  next hroom =>
    -- no room: the page owns no slot, and none is free
    obtain ⟨howns, hfree⟩ := not_or.mp (mt (Bool.or_eq_true _ _).mpr hroom)
    have hcurrent : current.filter s.owns = none := by
      cases current with
      | none => rfl
      | some o => simpa using howns
    rw [Option.not_isSome_iff_eq_none] at hfree
    unfold save
    rw [hcurrent, hfree]

/-- A pagein into such a buffer always answers, and leaves what is behind the page alone. -/
theorem fetchBuffer?_eq (s : SlotStore) (b : Buffer) (offset : SwapOffset) :
    s.fetchBuffer? b.bytes offset = some (match s.page? offset with
      | some page => .ok (page.toList ++ b.bytes.drop pageBytes)
      | none => .error (.unknownSwapOffset offset)) := by
  unfold fetchBuffer? fetch
  cases s.page? offset with
  | none => rfl
  | some page => exact congrArg (Option.map Except.ok) (if_pos b.holdsPage)

/-- A pageout takes the page at the front of its buffer. -/
theorem perform?_pageout (s : SlotStore) (b : Buffer) (current : Option SwapOffset) :
    s.perform? (.pageout b current)
      = some (.pageout b current (s.save b.page current).1, (s.save b.page current).2) := by
  show (s.saveBuffer? b.bytes current).map _ = _
  rw [saveBuffer?_eq, Option.map_some]

/-- A pagein puts the page that is held to the front of the buffer. -/
theorem perform?_pagein_of_some {s : SlotStore} {offset : SwapOffset} {page : Page}
    (h : s.page? offset = some page) (b : Buffer) :
    s.perform? (.pagein b offset)
      = some (.pagein b offset (.ok ()) (page.toList ++ b.bytes.drop pageBytes), s) := by
  show (s.fetchBuffer? b.bytes offset).map _ = _
  rw [fetchBuffer?_eq, h]
  rfl

/-- A pagein that fails leaves the buffer and the store as they are. -/
theorem perform?_pagein_of_none {s : SlotStore} {offset : SwapOffset} (h : s.page? offset = none)
    (b : Buffer) : s.perform? (.pagein b offset)
      = some (.pagein b offset (.error (.unknownSwapOffset offset)) b.bytes, s) := by
  show (s.fetchBuffer? b.bytes offset).map _ = _
  rw [fetchBuffer?_eq, h]
  rfl

/-- To a page that owns no slot it makes no difference what offset it comes with. -/
theorem save_of_not_owns {s : SlotStore} {current : Option SwapOffset}
    (h : ∀ o, current = some o → s.owns o = false) (page : Page) :
    s.save page current = s.save page none := by
  have hcurrent : current.filter s.owns = none := by
    cases current with
    | none => rfl
    | some o => simp [h o rfl]
  unfold save
  rw [hcurrent]
  rfl

/-- The page of a slot is at its place in the list. -/
theorem Dense.page?_ofSlot {s : SlotStore} {pages : List Page} (h : s.Dense pages) (slot : Nat) :
    s.page? (.ofSlot slot) = pages[slot]? := by
  unfold page?
  rw [if_pos (SwapOffset.isAligned_ofSlot slot), SwapOffset.slot_ofSlot, h.getElem?]
  split
  next => rfl
  next hge =>
    rw [List.getElem?_eq_none (Nat.le_of_not_lt hge)]
    split <;> rfl

end SlotStore

/-! ## What one exchange adds to a history -/

/-- An exchange hands out the offset that it answered with, if any. -/
theorem handedOut_concat (past : List Exchange) (x : Exchange) :
    handedOut (past ++ [x]) = handedOut past ++ (x.saved?.map Prod.fst).toList := by
  unfold handedOut
  cases h : x.saved? <;> simp [h]

/-- What an exchange saved is the latest at its offset, and nothing new elsewhere. -/
theorem latest?_concat_of_saved {past : List Exchange} {x : Exchange} {offset : SwapOffset}
    {b : Buffer} (h : x.saved? = some (offset, b)) (o : SwapOffset) :
    latest? (past ++ [x]) o = if o = offset then some b else latest? past o := by
  unfold latest?
  rw [List.filterMap_append, List.filterMap_cons_some h, List.filterMap_nil, List.reverse_append,
    List.reverse_singleton, List.singleton_append, List.lookup_cons]
  by_cases ho : o = offset
  · simp [ho]
  · rw [if_neg ho, beq_false_of_ne ho]

/-- An exchange that saved nothing leaves everything as it was. -/
theorem latest?_concat_of_not_saved {past : List Exchange} {x : Exchange} (h : x.saved? = none)
    (o : SwapOffset) : latest? (past ++ [x]) o = latest? past o := by
  unfold latest?
  simp [h]

/-! ## The invariant -/

namespace SlotStore

/-- The store holds what the exchanges say: in its first slots the pages of the offsets that were
handed out, in this order, each as it came last. -/
structure Records (slots : Nat) (past : List Exchange) (s : SlotStore) (pages : List Page) :
    Prop where
  dense : s.Dense pages
  capacity : s.capacity = slots
  offsets : (handedOut past).eraseDups = (List.range pages.length).map .ofSlot
  pages : ∀ slot : Nat, pages[slot]? = (latest? past (.ofSlot slot)).map Buffer.page

variable {slots : Nat} {past : List Exchange} {s s' : SlotStore} {pages : List Page}

theorem records_empty (slots : Nat) : Records slots [] (empty slots) [] where
  dense := dense_empty slots
  capacity := Array.size_replicate
  offsets := rfl
  pages _ := rfl

/-- The offsets that were handed out are those of the slots in use. -/
theorem Records.mem_handedOut (h : Records slots past s pages) {o : SwapOffset} :
    o ∈ handedOut past ↔ ∃ slot < pages.length, o = .ofSlot slot := by
  rw [← List.mem_eraseDups, h.offsets, List.mem_map]
  refine exists_congr fun slot => ?_
  rw [List.mem_range, eq_comm]

theorem Records.ofSlot_mem (h : Records slots past s pages) {slot : Nat} :
    .ofSlot slot ∈ handedOut past ↔ slot < pages.length := by
  rw [h.mem_handedOut]
  refine ⟨?_, fun hlt => ⟨slot, hlt, rfl⟩⟩
  intro hex
  obtain ⟨k, hk, heq⟩ := hex
  have hslot : slot = k := by simpa using congrArg SwapOffset.slot heq
  exact hslot ▸ hk

/-- The store owns the offsets that were handed out. -/
theorem Records.owns_iff (h : Records slots past s pages) {o : SwapOffset} :
    s.owns o = true ↔ o ∈ handedOut past := by
  rw [h.dense.owns_iff, h.mem_handedOut]

/-- As many slots are in use as different offsets were handed out. -/
theorem Records.used_eq (h : Records slots past s pages) :
    s.used = (handedOut past).eraseDups.length := by
  rw [h.dense.used_eq, h.offsets, List.length_map, List.length_range]

/-- The page at an offset is the one that came last. -/
theorem Records.page?_eq (h : Records slots past s pages) {o : SwapOffset}
    (ho : o ∈ handedOut past) :
    ∃ stored, latest? past o = some stored ∧ s.page? o = some stored.page := by
  obtain ⟨slot, hlt, rfl⟩ := h.mem_handedOut.mp ho
  have hpage := h.pages slot
  rw [List.getElem?_eq_getElem hlt] at hpage
  obtain ⟨stored, hstored, heq⟩ := Option.map_eq_some_iff.mp hpage.symm
  refine ⟨stored, hstored, ?_⟩
  rw [h.dense.page?_ofSlot, List.getElem?_eq_getElem hlt, heq]

/-- Nothing is held at an offset that was never handed out. -/
theorem Records.page?_eq_none (h : Records slots past s pages) {o : SwapOffset}
    (ho : o ∉ handedOut past) : s.page? o = none := by
  have hnot : s.owns o ≠ true := fun howns => ho (h.owns_iff.mp howns)
  simpa [owns] using hnot

/-- An exchange that has taken no page leaves the record as it is. -/
theorem Records.of_not_saved (h : Records slots past s pages) {x : Exchange}
    (hx : x.saved? = none) : Records slots (past ++ [x]) s pages where
  dense := h.dense
  capacity := h.capacity
  offsets := by
    rw [handedOut_concat, hx, Option.map_none, Option.toList_none, List.append_nil, h.offsets]
  pages slot := by
    rw [latest?_concat_of_not_saved hx]
    exact h.pages slot

/-- A page that comes back to its slot is the latest there. -/
theorem Records.overwrite (h : Records slots past s pages) {slot : Nat} (hlt : slot < pages.length)
    {x : Exchange} {b : Buffer} (hx : x.saved? = some (.ofSlot slot, b))
    (hdense : s'.Dense (pages.set slot b.page)) (hcapacity : s'.capacity = s.capacity) :
    Records slots (past ++ [x]) s' (pages.set slot b.page) where
  dense := hdense
  capacity := hcapacity.trans h.capacity
  offsets := by
    rw [handedOut_concat, hx, List.length_set, ← h.offsets]
    exact eraseDups_concat_of_mem (h.ofSlot_mem.mpr hlt)
  pages k := by
    rw [latest?_concat_of_saved hx, List.getElem?_set]
    by_cases hk : slot = k
    · subst hk
      simp [hlt]
    · have hne : SwapOffset.ofSlot k ≠ .ofSlot slot := fun heq =>
        hk (by simpa using (congrArg SwapOffset.slot heq).symm)
      rw [if_neg hk, if_neg hne]
      exact h.pages k

/-- A page that takes a new slot takes the first that was never handed out. -/
theorem Records.append (h : Records slots past s pages) {x : Exchange} {b : Buffer}
    (hx : x.saved? = some (.ofSlot pages.length, b)) (hdense : s'.Dense (pages ++ [b.page]))
    (hcapacity : s'.capacity = s.capacity) :
    Records slots (past ++ [x]) s' (pages ++ [b.page]) where
  dense := hdense
  capacity := hcapacity.trans h.capacity
  offsets := by
    have hnew : SwapOffset.ofSlot pages.length ∉ handedOut past := fun hmem =>
      Nat.lt_irrefl _ (h.ofSlot_mem.mp hmem)
    rw [handedOut_concat, hx, List.length_append, List.length_singleton, List.range_succ,
      List.map_append, ← h.offsets]
    exact eraseDups_concat_of_not_mem hnew
  pages k := by
    rw [latest?_concat_of_saved hx, List.getElem?_append]
    by_cases hk : k = pages.length
    · subst hk
      simp
    · have hne : SwapOffset.ofSlot k ≠ .ofSlot pages.length := fun heq =>
        hk (by simpa using congrArg SwapOffset.slot heq)
      rw [if_neg hne, ← h.pages k]
      split
      next => rfl
      next hge =>
        have hbeyond : pages.length < k := by omega
        rw [List.getElem?_eq_none (by simp; omega), List.getElem?_eq_none (by omega)]

/-! ## One call -/

/-- What a call does to a store that has kept its record. -/
structure Answers (slots : Nat) (past : List Exchange) (s : SlotStore) (c : SwapCall)
    (x : Exchange) (s' : SlotStore) : Prop where
  answered : s.perform? c = some (x, s')
  call : x.call = c
  due : x.Due slots past
  unchanged : x.failed → s' = s
  records : ∃ pages, Records slots (past ++ [x]) s' pages

/-- A pageout to an offset that was handed out answers with it and overwrites the page. -/
theorem Records.pageout_owned (h : Records slots past s pages) (b : Buffer) {o : SwapOffset}
    (ho : o ∈ handedOut past) :
    ∃ s', Answers slots past s (.pageout b (some o)) (.pageout b (some o) (some o)) s' := by
  obtain ⟨slot, hlt, rfl⟩ := h.mem_handedOut.mp ho
  obtain ⟨s', hsave, hdense⟩ := h.dense.save_owned hlt b.page
  refine ⟨s', ?_, rfl, ⟨?_, ?_⟩, ?_, _, h.overwrite hlt rfl hdense (capacity_save hsave)⟩
  · rw [perform?_pageout, hsave]
  · intro o' heq _
    exact heq
  · intro hnone
    exact absurd ho (hnone _ rfl)
  · intro hfailed
    simp [Exchange.failed] at hfailed

/-- A pageout without one takes the lowest free slot, or fails when there is none. -/
theorem Records.pageout_new (h : Records slots past s pages) (b : Buffer)
    {current : Option SwapOffset} (hcurrent : ∀ o, current = some o → o ∉ handedOut past) :
    ∃ answer s', Answers slots past s (.pageout b current) (.pageout b current answer) s' := by
  have hnone : ∀ o, current = some o → s.owns o = false := by
    intro o ho
    rw [← Bool.not_eq_true, h.owns_iff]
    exact hcurrent o ho
  have hsave := save_of_not_owns hnone b.page
  have howned : ∀ {answer : Option SwapOffset} o, current = some o → o ∈ handedOut past →
      answer = some o := fun o ho hmem => absurd hmem (hcurrent o ho)
  rcases Nat.lt_or_eq_of_le h.dense.length_le with hroom | hfull
  · -- the first slot behind the pages is free
    obtain ⟨s', hnew, hdense⟩ := h.dense.save_new hroom b.page
    refine ⟨some (.ofSlot pages.length), s', ?_, rfl, ⟨howned, fun _ => ⟨?_, ?_⟩⟩, ?_, _,
      h.append rfl hdense (capacity_save hnew)⟩
    · rw [perform?_pageout, hsave, hnew]
    · refine ⟨fun hno => absurd hno (by simp), fun hall => ?_⟩
      exact absurd (h.ofSlot_mem.mp (hall _ (h.capacity ▸ hroom))) (Nat.lt_irrefl _)
    · intro o ho
      refine ⟨pages.length, (Option.some.inj ho).symm, ⟨h.capacity ▸ hroom, ?_⟩, fun k hk => ?_⟩
      · rw [h.ofSlot_mem]
        exact Nat.lt_irrefl _
      · exact Nat.le_of_not_lt (mt h.ofSlot_mem.mpr hk.2)
    · intro hfailed
      simp [Exchange.failed] at hfailed
  · refine ⟨none, s, ?_, rfl, ⟨howned, fun _ => ⟨?_, ?_⟩⟩, fun _ => rfl, pages,
      h.of_not_saved rfl⟩
    · rw [perform?_pageout, hsave, h.dense.save_full hfull]
    · refine iff_of_true rfl fun slot hslot => h.ofSlot_mem.mpr ?_
      rw [hfull, h.capacity]
      exact hslot
    · intro o ho
      exact absurd ho (by simp)

/-- A pagein answers by the latest pageout and changes nothing. -/
theorem Records.pagein (h : Records slots past s pages) (b : Buffer) (o : SwapOffset) :
    ∃ x, Answers slots past s (.pagein b o) x s := by
  by_cases ho : o ∈ handedOut past
  · obtain ⟨stored, hlatest, hpage⟩ := h.page?_eq ho
    have hfront : stored.page.toList = stored.bytes.take pageBytes := by
      simp [Buffer.page, Vector.toList]
    exact ⟨_, perform?_pagein_of_some hpage b, rfl,
      ⟨iff_of_true rfl ho, fun _ => ⟨stored, hlatest, congrArg (· ++ _) hfront⟩,
        fun hne => absurd rfl hne⟩,
      fun _ => rfl, pages, h.of_not_saved rfl⟩
  · exact ⟨_, perform?_pagein_of_none (h.page?_eq_none ho) b, rfl,
      ⟨iff_of_false (by simp) ho, fun hok => absurd hok (by simp), fun _ => ⟨rfl, rfl⟩⟩,
      fun _ => rfl, pages, h.of_not_saved rfl⟩

/-- Every call is answered, as is due. -/
theorem Records.perform (h : Records slots past s pages) (c : SwapCall) :
    ∃ x s', Answers slots past s c x s' := by
  cases c with
  | pageout b current =>
    by_cases howned : ∃ o, current = some o ∧ o ∈ handedOut past
    · obtain ⟨o, rfl, ho⟩ := howned
      exact ⟨_, h.pageout_owned b ho⟩
    · obtain ⟨answer, hanswers⟩ :=
        h.pageout_new b fun o ho hmem => howned ⟨o, ho, hmem⟩
      exact ⟨_, hanswers⟩
  | pagein b o =>
    obtain ⟨x, hanswers⟩ := h.pagein b o
    exact ⟨x, s, hanswers⟩

/-- Any calls are answered, and the store holds what they say. -/
theorem Records.performAll : ∀ (calls : List SwapCall) {past : List Exchange} {s : SlotStore}
    {pages : List Page}, Records slots past s pages →
    ∃ xs s' pages', s.performAll? calls = some (xs, s') ∧ xs.map Exchange.call = calls ∧
      Records slots (past ++ xs) s' pages'
  | [], past, s, pages, h => ⟨[], s, pages, rfl, rfl, (List.append_nil past).symm ▸ h⟩
  | c :: cs, past, s, pages, h => by
    obtain ⟨x, s₁, hx⟩ := h.perform c
    obtain ⟨pages₁, h₁⟩ := hx.records
    obtain ⟨xs, s', pages', hall, hcalls, h'⟩ := Records.performAll cs h₁
    refine ⟨x :: xs, s', pages', ?_, ?_, ?_⟩
    · unfold performAll?
      rw [hx.answered, Option.bind_some]
      show (s₁.performAll? cs).map _ = _
      rw [hall, Option.map_some]
    · rw [List.map_cons, hx.call, hcalls]
    · rw [List.append_cons]
      exact h'

/-- A page that comes with an offset that was handed out takes no slot. -/
theorem Records.used_owned (h : Records slots past s pages) {b : Buffer} {o : SwapOffset}
    (ho : o ∈ handedOut past) {x : Exchange}
    (hx : Answers slots past s (.pageout b (some o)) x s') : s'.used = s.used := by
  obtain ⟨s₁, hx₁⟩ := h.pageout_owned b ho
  obtain ⟨rfl, rfl⟩ := Prod.mk.inj (Option.some.inj (hx.answered.symm.trans hx₁.answered))
  obtain ⟨pages', h'⟩ := hx.records
  rw [h'.used_eq, h.used_eq, handedOut_concat]
  exact congrArg List.length (eraseDups_concat_of_mem ho)

/-- Calls on a store of free slots are all answered, and what the next one is answered with depends
on the exchanges before it alone. A page that comes with an offset that was handed out goes back
there and takes no slot; any other takes the lowest slot never handed out, and is turned down if
there is none. A pagein gives what came last at its offset if that was handed out, and fails
otherwise. A call that fails changes nothing; and the slots in use are those handed out. -/
theorem slotStore_refines_history (slots : Nat) (calls : List SwapCall) (next : SwapCall) :
    ∃ past s x s', (empty slots).performAll? calls = some (past, s) ∧
      past.map Exchange.call = calls ∧ s.perform? next = some (x, s') ∧ x.call = next ∧
      x.Due slots past ∧ (x.failed → s' = s) ∧
      (∀ b o, next = .pageout b (some o) → o ∈ handedOut past → s'.used = s.used) ∧
      s.used = (handedOut past).eraseDups.length ∧
      ∀ o, s.owns o = true ↔ o ∈ handedOut past := by
  obtain ⟨past, s, pages, hall, hcalls, h⟩ := Records.performAll calls (records_empty slots)
  rw [List.nil_append] at h
  obtain ⟨x, s', hx⟩ := h.perform next
  refine ⟨past, s, x, s', hall, hcalls, hx.answered, hx.call, hx.due, hx.unchanged, ?_, h.used_eq,
    fun o => h.owns_iff⟩
  intro b o hnext ho
  subst hnext
  exact h.used_owned ho hx

end SlotStore

end DemandPaging
