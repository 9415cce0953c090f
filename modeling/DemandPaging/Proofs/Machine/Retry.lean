import DemandPaging.Proofs.Machine.Bounds
import DemandPaging.Proofs.Machine.SwapIn
import DemandPaging.Proofs.PageTable.Growth

/-!
# Trying again after a pagein that failed

A fault that cannot read its page gives its frame back, but what it did to find that frame stays
done: the policy was asked, a page was evicted, and that was counted. The next attempt finds the
frame free and needs no other. So all that tells a machine that had to try again from one that did
not are the references that missed, and the calls on the store (`delayed`):

> `Awaits.fails`, `Awaits.retries`: each attempt that fails adds one to both, and leaves a machine
> that awaits its page as before.
> `retry_exact`: the attempt that succeeds ends as the first one would have.
-/

namespace DemandPaging

namespace Counters

/-- As many more references that missed. -/
def missed (c : Counters) (k : Nat) : Counters :=
  { c with references := c.references + k, misses := c.misses + k }

/-- A miss counts the same after other misses. -/
theorem countReference_missed (c : Counters) (k : Nat) :
    (c.missed k).countReference false = (c.countReference false).missed k := by
  simp [countReference, missed, Nat.add_right_comm]

theorem countEviction_missed (c : Counters) (k : Nat) (dirty : Bool) :
    (c.missed k).countEviction dirty = (c.countEviction dirty).missed k := by
  unfold countEviction
  split <;> rfl

end Counters

/-! ## Calls on the store -/

namespace UnreliableStore

variable {s t : UnreliableStore} {page : Page} {current answer : Option SwapOffset}

/-- Pageouts do not depend on the pageins. -/
theorem save_of_pageins (h : BackingStore.save s page current = (answer, t))
    (failsIn : Nat → Bool) (ins : Nat) :
    BackingStore.save { s with failsIn := failsIn, ins := ins } page current
      = (answer, { t with failsIn := failsIn, ins := ins }) := by
  have h' : s.save page current = (answer, t) := h
  show ({ s with failsIn := failsIn, ins := ins } : UnreliableStore).save page current = _
  unfold save at h' ⊢
  dsimp only at h' ⊢
  split at h'
  next hfails =>
    obtain ⟨rfl, rfl⟩ := Prod.mk.inj h'
    rw [if_pos hfails]
  next hworks =>
    obtain ⟨rfl, rfl⟩ := Prod.mk.inj h'
    rw [if_neg hworks]

/-- A pageout is not counted among the pageins. -/
theorem pageins_of_save (h : BackingStore.save s page current = (answer, t)) :
    t.failsIn = s.failsIn ∧ t.ins = s.ins := by
  have h' : s.save page current = (answer, t) := h
  unfold save at h'
  dsimp only at h'
  split at h'
  next =>
    obtain ⟨-, rfl⟩ := Prod.mk.inj h'
    exact ⟨rfl, rfl⟩
  next =>
    obtain ⟨-, rfl⟩ := Prod.mk.inj h'
    exact ⟨rfl, rfl⟩

/-- A pagein changes nothing in the store but their count. -/
theorem eq_of_fetch {offset : SwapOffset} {result : Except PagingError Page}
    (h : BackingStore.fetch s offset = (result, t)) : t = { s with ins := s.ins + 1 } := by
  have h' : s.fetch offset = (result, t) := h
  unfold fetch at h'
  dsimp only at h'
  split at h'
  next => exact (Prod.mk.inj h').2.symm
  next => exact (Prod.mk.inj h').2.symm

/-- A pagein that is to fail says that nothing is at the offset. -/
theorem fetch_of_failing (h : s.failsIn (s.ins + 1) = true) (offset : SwapOffset) :
    BackingStore.fetch s offset
      = (.error (.unknownSwapOffset offset), { s with ins := s.ins + 1 }) := if_pos h

/-- A pagein that is to work gives the page. -/
theorem fetch_of_working (h : s.failsIn (s.ins + 1) = false) {offset : SwapOffset}
    (hpage : s.store.page? offset = some page) :
    BackingStore.fetch s offset = (.ok page, { s with ins := s.ins + 1 }) := by
  have hfetch := SlotStore.fetch_eq_ok.mpr hpage
  show s.fetch offset = _
  simp [fetch, h, hfetch]

end UnreliableStore

namespace Machine

variable {m m₀ : Machine UnreliableStore}

/-- The machine with `k` more references that missed, and with another record of pageins and of
those that fail. -/
def delayed (m : Machine UnreliableStore) (k : Nat) (failsIn : Nat → Bool) (ins : Nat) :
    Machine UnreliableStore :=
  { m with
    swap := { m.swap with failsIn := failsIn, ins := ins }
    counters := m.counters.missed k }

/-- Two delays in turn are one. -/
theorem delayed_delayed (m : Machine UnreliableStore) (k l : Nat) (failsIn failsIn' : Nat → Bool)
    (ins ins' : Nat) : (m.delayed k failsIn ins).delayed l failsIn' ins'
      = m.delayed (k + l) failsIn' ins' := by
  simp [delayed, Counters.missed, Nat.add_assoc]

/-- The machine whose next `k` pageins fail, and no later ones. -/
def failNext (m : Machine UnreliableStore) (k : Nat) : Machine UnreliableStore :=
  { m with swap := { m.swap with failsIn := fun n => decide (n ≤ m.swap.ins + k) } }

theorem SlotsOwned.failNext (h : m.SlotsOwned) (k : Nat) : (m.failNext k).SlotsOwned :=
  ⟨h.held, h.unique⟩

/-! ## A delay changes nothing else -/

section

variable (k : Nat) (failsIn : Nat → Bool) (ins : Nat)

/-- A delay leaves the machine consistent. -/
theorem Consistent.delayed (h : m.Consistent) : (m.delayed k failsIn ins).Consistent := by
  refine h.of_eq h.rooted (fun _ _ => Iff.rfl) rfl rfl ?_
  have hcounted := h.counted
  show m.counters.hits + (m.counters.misses + k) = m.counters.references + k
  omega

theorem Consistent.failNext (h : m.Consistent) : (m.failNext k).Consistent :=
  h.delayed 0 _ m.swap.ins

/-- Looking a page up comes to the same before and after a delay. -/
theorem entering_delayed (m : Machine UnreliableStore) (a : Address) :
    (m.delayed k failsIn ins).entering a false = (m.entering a false).delayed k failsIn ins := by
  exact congrArg (fun c => { (m.entering a false).delayed k failsIn ins with counters := c })
    (m.counters.countReference_missed k)

/-- The policy names the same victim after a delay. -/
theorem Names.delayed {choice : Policy.Choice} {frame : Nat} {victim : EntryRef} {page : PageEntry}
    {bytes : Page} (names : m.Names choice frame victim page bytes) :
    (m.delayed k failsIn ins).Names choice frame victim page bytes :=
  ⟨names.full, names.chosen, names.spares, names.named, names.occupant, names.page, names.bytes⟩

theorem Frees.delayed {frame : Nat} (hfrees : m.Frees m₀ frame) :
    (m.delayed k failsIn ins).Frees (m₀.delayed k failsIn ins) frame := by
  cases hfrees with
  | found free => exact .found free
  | @evicted choice _ victim page bytes offset swap frameTable names saved released =>
    have hsaved := UnreliableStore.save_of_pageins saved failsIn ins
    have hvacating : (((m.delayed k failsIn ins).choosing choice).vacating victim page.entry.dirty
        offset { swap with failsIn := failsIn, ins := ins } frameTable)
          = ((m.choosing choice).vacating victim page.entry.dirty offset swap frameTable).delayed k
              failsIn ins :=
      congrArg (fun c => { ((m.choosing choice).vacating victim page.entry.dirty offset swap
        frameTable).delayed k failsIn ins with counters := c })
        (m.counters.countEviction_missed k page.entry.dirty)
    rw [← hvacating]
    exact .evicted (names.delayed k failsIn ins) hsaved released

/-- A request whose page is in memory is answered the same after a delay. -/
theorem answer_delayed (m : Machine UnreliableStore) (q : Request) (place : Nat) :
    ((m.delayed k failsIn ins).answer q place).result = (m.answer q place).result ∧
      ((m.delayed k failsIn ins).answer q place).machine
        = (m.answer q place).machine.delayed k failsIn ins := by
  cases q with
  | translate a kind => exact ⟨rfl, rfl⟩
  | access r =>
    have hmemory : (m.delayed k failsIn ins).memory = m.memory := rfl
    simp only [answer, store, compare, hmemory]
    repeat' split
    all_goals exact ⟨rfl, rfl⟩

end

/-- Finding a frame makes no pagein. -/
theorem Frees.pageins {frame : Nat} (hfrees : m.Frees m₀ frame) :
    m₀.swap.failsIn = m.swap.failsIn ∧ m₀.swap.ins = m.swap.ins := by
  cases hfrees with
  | found _ => exact ⟨rfl, rfl⟩
  | evicted _ saved _ => exact UnreliableStore.pageins_of_save saved

/-- A page on swap whose frame has come free, on a machine that is delayed: if the pagein works, the
page is in its frame and the request is answered there, late. -/
theorem serve_delayed {m y : Machine UnreliableStore} (h : m.Consistent) {q : Request}
    (hin : q.address.inFrame = true) {p : PageEntry} {offset : SwapOffset}
    (hp : (m.entering q.address false).pageTable.page? (m.refOf q.address) = some p)
    (honSwap : p.entry.residency = .onSwap offset) {k : Nat} {failsIn : Nat → Bool}
    {ins frame : Nat}
    (hfrees : (m.entering q.address false).Frees (y.delayed k failsIn ins) frame)
    (hworks : failsIn (ins + 1) = false) {bytes : Page}
    (hbytes : y.swap.store.page? offset = some bytes) {frameTable : FrameTable}
    (hclaimed : y.frameTable.claim? frame (m.refOf q.address) = some frameTable) {memory : Memory}
    (hfilled : y.memory.setPage? frame bytes = some memory) :
    let placed := (y.placing (m.refOf q.address) frame false y.swap frameTable memory).use
      (m.refOf q.address) q.kind frame
    let answered := placed.answer q (Memory.addressOf frame + q.address.offset)
    (∃ reply, (m.serve q).result = .ok reply) ∧ (m.serve q).result = answered.result ∧
      (m.serve q).machine = answered.machine.delayed k failsIn (ins + 1) ∧
      (m.serve q).machine.frameOf? q.address = some frame := by
  intro placed answered
  have hfetch :=
    UnreliableStore.fetch_of_working (s := (y.delayed k failsIn ins).swap) hworks hbytes
  rcases serve_onSwap h hin hp honSwap hfrees with ⟨e, swap, hunread, -, -⟩ |
    ⟨bytes', swap, frameTable', memory', hread, hclaimed', hfilled', hok, hresult, hmachine⟩
  · exact absurd (hfetch.symm.trans hunread) (by simp)
  · obtain ⟨hsame, rfl⟩ := Prod.mk.inj (hfetch.symm.trans hread)
    obtain rfl := Except.ok.inj hsame
    obtain rfl := Option.some.inj (hclaimed.symm.trans hclaimed')
    obtain rfl := Option.some.inj (hfilled.symm.trans hfilled')
    obtain ⟨hresult', hmachine'⟩ := answer_delayed k failsIn (ins + 1) placed q
      (Memory.addressOf frame + q.address.offset)
    have hm := hmachine.trans hmachine'
    refine ⟨hok, hresult.trans hresult', hm, ?_⟩
    -- the entry of the address is resident in the frame
    have habsent : p.entry.frame? = none := by
      unfold Entry.frame?
      rw [honSwap]
    have hp' : y.pageTable.page? (m.refOf q.address) = some p :=
      hfrees.page? (h.entering q.address false) hp habsent
    have hlookup : y.pageTable.lookup q.address = some (m.refOf q.address) :=
      (hfrees.lookup q.address).trans (h.rooted.lookup_walk q.address)
    have htable : (m.serve q).machine.pageTable = placed.pageTable := by
      rw [hm]
      exact pageTable_answer placed q _
    refine frameOf?_of_lookup (r := m.refOf q.address) ?_ ?_
    · rw [htable]
      exact hlookup
    · rw [htable]
      exact (PageTable.resident_modify fun e => e.frame?_touch q.kind).mpr
        ((PageTable.resident_modify_place hp').mpr (Or.inl ⟨rfl, rfl⟩))

/-! ## Attempts that fail -/

/-- A page on swap is awaited, and there is a frame for it. -/
structure Awaits (m : Machine UnreliableStore) (a : Address) (r : EntryRef) (p : PageEntry)
    (offset : SwapOffset) (frame : Nat) : Prop where
  consistent : m.Consistent
  inFrame : a.inFrame = true
  lookup : m.pageTable.lookup a = some r
  page : m.pageTable.page? r = some p
  onSwap : p.entry.residency = .onSwap offset
  free : m.frameTable.firstFree? = some frame

section

variable {a : Address} {r : EntryRef} {p : PageEntry} {offset : SwapOffset} {frame : Nat}

/-- A page that is awaited is still awaited. -/
theorem Awaits.delayed (h : m.Awaits a r p offset frame) (k : Nat) (failsIn : Nat → Bool)
    (ins : Nat) : (m.delayed k failsIn ins).Awaits a r p offset frame :=
  ⟨h.consistent.delayed k failsIn ins, h.inFrame, h.lookup, h.page, h.onSwap, h.free⟩

theorem Awaits.refOf_eq (h : m.Awaits a r p offset frame) : m.refOf a = r := by
  unfold refOf
  rw [PageTable.walk_of_lookup h.lookup]

/-- The way to the page has been walked before, so the next walk only counts. -/
theorem Awaits.entering_eq (h : m.Awaits a r p offset frame) :
    m.entering a false = m.delayed 1 m.swap.failsIn m.swap.ins := by
  unfold entering
  rw [PageTable.walk_of_lookup h.lookup]
  rfl

/-- While its pagein fails, an awaited page costs a reference and a miss and nothing else. -/
theorem Awaits.fails {q : Request} (h : m.Awaits q.address r p offset frame)
    (hfails : m.swap.failsIn (m.swap.ins + 1) = true) :
    (m.serve q).refusal? = some (.unknownSwapOffset offset) ∧
      (m.serve q).machine = m.delayed 1 m.swap.failsIn (m.swap.ins + 1) := by
  have hentering := h.entering_eq
  have hfetch := UnreliableStore.fetch_of_failing hfails offset
  have hp : (m.entering q.address false).pageTable.page? (m.refOf q.address) = some p := by
    rw [hentering, h.refOf_eq]
    exact h.page
  have hfrees : (m.entering q.address false).Frees (m.delayed 1 m.swap.failsIn m.swap.ins)
      frame := by
    rw [hentering]
    exact .found h.free
  rcases serve_onSwap h.consistent h.inFrame hp h.onSwap hfrees with
    ⟨e, swap, hunread, hresult, hmachine⟩ | ⟨_, _, _, _, hread, -⟩
  · obtain ⟨herror, rfl⟩ := Prod.mk.inj (hfetch.symm.trans hunread)
    obtain rfl := Except.error.inj herror
    exact ⟨Outcome.refusal?_eq_some.mpr hresult, hmachine⟩
  · exact absurd (hfetch.symm.trans hread) (by simp)

/-- After a number of attempts in vain. -/
theorem Awaits.retries {q : Request} (h : m.Awaits q.address r p offset frame) (j : Nat)
    (hfails : ∀ n < j, m.swap.failsIn (m.swap.ins + n + 1) = true) :
    m.serveAll (List.replicate j q) = m.delayed j m.swap.failsIn (m.swap.ins + j) := by
  induction j with
  | zero => rfl
  | succ j ih =>
    have hrest := ih fun n hn => hfails n (Nat.lt_succ_of_lt hn)
    rw [List.replicate_succ', serveAll_concat, hrest]
    exact ((h.delayed j m.swap.failsIn (m.swap.ins + j)).fails (hfails j (Nat.lt_succ_self j))).2

/-- The attempt that succeeds. -/
theorem Awaits.succeeds {y : Machine UnreliableStore} {q : Request} {k : Nat}
    {failsIn : Nat → Bool} {ins : Nat}
    (h : (y.delayed k failsIn ins).Awaits q.address r p offset frame)
    (hworks : failsIn (ins + 1) = false) {bytes : Page}
    (hbytes : y.swap.store.page? offset = some bytes) {frameTable : FrameTable}
    (hclaimed : y.frameTable.claim? frame r = some frameTable) {memory : Memory}
    (hfilled : y.memory.setPage? frame bytes = some memory) :
    let placed := (y.placing r frame false y.swap frameTable memory).use r q.kind frame
    let answered := placed.answer q (Memory.addressOf frame + q.address.offset)
    ((y.delayed k failsIn ins).serve q).result = answered.result ∧
      ((y.delayed k failsIn ins).serve q).machine
        = answered.machine.delayed (k + 1) failsIn (ins + 1) := by
  obtain rfl := h.refOf_eq
  have hentering : (y.delayed k failsIn ins).entering q.address false
      = y.delayed (k + 1) failsIn ins := h.entering_eq
  have hp : ((y.delayed k failsIn ins).entering q.address false).pageTable.page?
      ((y.delayed k failsIn ins).refOf q.address) = some p := by
    rw [hentering]
    exact h.page
  have hfrees : ((y.delayed k failsIn ins).entering q.address false).Frees
      (y.delayed (k + 1) failsIn ins) frame := by
    rw [hentering]
    exact .found h.free
  obtain ⟨-, hresult, hmachine, -⟩ :=
    serve_delayed h.consistent h.inFrame hp h.onSwap hfrees hworks hbytes hclaimed hfilled
  exact ⟨hresult, hmachine⟩

end

/-- The attempts in vain, when the first of them left the machine `y` but for a pagein. -/
theorem Awaits.attempts {y : Machine UnreliableStore} {q : Request} {r : EntryRef} {p : PageEntry}
    {offset : SwapOffset} {frame k : Nat}
    (h : (y.delayed 0 (m.failNext k).swap.failsIn (m.swap.ins + 1)).Awaits q.address r p offset
      frame)
    (hfirst : ((m.failNext k).serve q).machine
      = y.delayed 0 (m.failNext k).swap.failsIn (m.swap.ins + 1)) {j : Nat} (hj : j < k) :
    (m.failNext k).serveAll (List.replicate (j + 1) q)
      = y.delayed j (m.failNext k).swap.failsIn (m.swap.ins + 1 + j) := by
  have hfails : ∀ n < j, (m.failNext k).swap.failsIn (m.swap.ins + 1 + n + 1) = true := by
    intro n hn
    show decide (m.swap.ins + 1 + n + 1 ≤ m.swap.ins + k) = true
    exact decide_eq_true (by omega)
  calc (m.failNext k).serveAll (List.replicate (j + 1) q)
    _ = ((m.failNext k).serve q).machine.serveAll (List.replicate j q) := rfl
    _ = (y.delayed 0 (m.failNext k).swap.failsIn (m.swap.ins + 1)).serveAll
          (List.replicate j q) := by rw [hfirst]
    _ = y.delayed j (m.failNext k).swap.failsIn (m.swap.ins + 1 + j) := by
      rw [h.retries j hfails, delayed_delayed, Nat.zero_add]
      rfl

/-- The first attempt at a page whose pagein fails finds a frame for it, and leaves it awaited. -/
theorem awaits_of_refusal {q : Request} {offset : SwapOffset} (h : m.Consistent)
    (hrefusal : (m.serve q).refusal? = some (.unknownSwapOffset offset)) :
    ∃ y p frame, (m.entering q.address false).Frees y frame ∧
      (m.entering q.address false).pageTable.page? (m.refOf q.address) = some p ∧
      (m.serve q).machine = y.delayed 0 m.swap.failsIn (m.swap.ins + 1) ∧
      (m.serve q).machine.Awaits q.address (m.refOf q.address) p offset frame := by
  have hserves := serve_cases h q
  rw [Outcome.refusal?_eq_some.mp hrefusal] at hserves
  generalize (m.serve q).machine = m' at hserves ⊢
  have h' := h.entering q.address false
  cases hserves with
  | refused translates =>
    have hconsistent := translates.consistent h
    cases translates with
    | refused hin page absent brings =>
      cases brings with
      | starved starves => cases starves
      | @unreadable y frame p' offset' _ swap frees page' onSwap unread =>
        have hp := frees.page? h' page absent
        obtain rfl := Option.some.inj (hp.symm.trans page')
        obtain rfl := PagingError.unknownSwapOffset.inj (LawfulStore.fetch_error unread)
        obtain ⟨hplan, hins⟩ := frees.pageins
        have hswap := UnreliableStore.eq_of_fetch unread
        have hmachine : y.withSwap swap = y.delayed 0 m.swap.failsIn (m.swap.ins + 1) := by
          have hplan' : y.swap.failsIn = m.swap.failsIn := hplan
          have hins' : y.swap.ins = m.swap.ins := hins
          rw [hswap, ← hplan', ← hins']
          rfl
        refine ⟨y, _, frame, frees, page, hmachine, hconsistent, hin, ?_, hp, onSwap,
          frees.firstFree?⟩
        exact (frees.lookup q.address).trans (h.rooted.lookup_walk q.address)

/-- What is found after attempts in vain, when `m` was the machine before them: the page of the
entry `r` is on swap as it was, `frame` is free, its page was evicted if it held one, and that page
is on swap with the bytes that it had in the frame. -/
structure Pending (m : Machine UnreliableStore) (r : EntryRef) (p : PageEntry) (frame : Nat)
    (m' : Machine UnreliableStore) : Prop where
  page : m'.pageTable.page? r = some p
  free : m'.frameTable.firstFree? = some frame
  evicted : m.evicted m' = (m.residents.vpn? frame).toList
  saved : ∀ v bytes, m.residents.vpn? frame = some v → m.memory.page? frame = some bytes →
    ∃ s victim o, m'.pageTable.page? s = some victim ∧ victim.vpn = v ∧
      victim.entry.residency = .onSwap o ∧ m'.swap.store.page? o = some bytes

/-- A page on swap was known before its address was walked. -/
theorem Consistent.page?_of_onSwap (h : m.Consistent) {a : Address} {p : PageEntry}
    {offset : SwapOffset} (hp : (m.entering a false).pageTable.page? (m.refOf a) = some p)
    (honSwap : p.entry.residency = .onSwap offset) :
    m.pageTable.page? (m.refOf a) = some p ∧ m.pageTable.lookup a = some (m.refOf a) := by
  have hvpn := h.vpn_refOf hp
  rcases (h.rooted.extends_walk a).fresh _ p hp with hold | ⟨-, hunmapped⟩
  · exact ⟨hold, h.rooted.lookup_of_page? hold hvpn⟩
  · rw [hunmapped] at honSwap
    simp [Entry.unmapped] at honSwap

section

variable {a : Address} {y : Machine UnreliableStore} {k frame : Nat}

/-- When the first attempt has freed a frame, that frame is kept for the page. -/
theorem Frees.pending (h : m.Consistent)
    (hfrees : ((m.failNext k).entering a false).Frees y frame) {r : EntryRef} {p : PageEntry}
    (hp : y.pageTable.page? r = some p) (j : Nat) (failsIn : Nat → Bool) (ins : Nat) :
    m.Pending r p frame (y.delayed j failsIn ins) := by
  have hx := h.failNext k
  have hvpn : ((m.failNext k).entering a false).residents.vpn? frame = m.residents.vpn? frame :=
    hx.vpn?_spared (.refl _) frame
  refine ⟨hp, hfrees.firstFree?, ?_, ?_⟩
  · have hevicted := hfrees.evicted_eq (hx.entering a false)
    rw [hx.evicted_entering, hvpn] at hevicted
    exact hevicted
  · intro v bytes hv hbytes
    exact hfrees.saved (hvpn.trans hv) hbytes

/-- The same frame comes free however many pageins fail afterwards. -/
theorem Frees.failNext (hfrees : ((m.failNext k).entering a false).Frees y frame) {l : Nat} :
    ((m.failNext l).entering a false).Frees
      (y.delayed 0 (m.failNext l).swap.failsIn m.swap.ins) frame := by
  have hdelayed := hfrees.delayed 0 (m.failNext l).swap.failsIn m.swap.ins
  rw [← entering_delayed] at hdelayed
  exact hdelayed

/-- The frame that came free can receive the page, which the store still holds. -/
theorem Frees.receives {x : Machine UnreliableStore} (h : x.Consistent) (hslots : x.SlotsOwned)
    (hfrees : (x.entering a false).Frees y frame) {r : EntryRef} {p : PageEntry}
    {offset : SwapOffset} (hp : y.pageTable.page? r = some p)
    (honSwap : p.entry.residency = .onSwap offset) :
    ∃ bytes frameTable memory, y.swap.store.page? offset = some bytes ∧
      y.frameTable.claim? frame r = some frameTable ∧
      y.memory.setPage? frame bytes = some memory := by
  have h' := h.entering a false
  have hheld : (y.swap.store.page? offset).isSome :=
    (hfrees.keeps h' (hslots.entering h a false)).1.held r p offset hp
      (by rw [Entry.slot?, honSwap])
  obtain ⟨bytes, hbytes⟩ := Option.isSome_iff_exists.mp hheld
  obtain ⟨hlt, hfree⟩ := hfrees.free
  obtain ⟨frameTable, hclaimed⟩ := FrameTable.claim?_isSome hlt hfree r
  obtain ⟨memory, hfilled⟩ :=
    Memory.setPage?_isSome ((hfrees.consistent h').frames.symm ▸ hlt) bytes
  exact ⟨bytes, frameTable, memory, hbytes, hclaimed, hfilled⟩

end

/-- An access to a page on swap is refused because the pagein fails, and is tried again until it is
not. Between the attempts the page is where it was, and the frame that was found for it is free. In
the end the answer is that of a first attempt whose pagein works, and so is the machine, but for the
references that missed in vain and for the record of pageins. -/
theorem retry_exact (frames slots : Nat) (algorithm : Algorithm) (seed : UInt64)
    (failsOut failsIn : Nat → Bool) (calls : List Call) (q : Request) (k : Nat)
    (offset : SwapOffset) :
    let policy := Policy.ofAlgorithm algorithm seed
    let m := (build frames policy (UnreliableStore.empty slots failsOut failsIn)).callAll calls
    let attempt := fun j => (m.failNext k).serveAll (List.replicate j q)
    let last := (attempt k).serve q
    let once := (m.failNext 0).serve q
    0 < k → ((m.failNext k).serve q).refusal? = some (.unknownSwapOffset offset) →
      ∃ frame r p, m.pageTable.lookup q.address = some r ∧ m.pageTable.page? r = some p ∧
        p.entry.residency = .onSwap offset ∧
        (∀ j < k, ((attempt j).serve q).refusal? = some (.unknownSwapOffset offset) ∧
          m.Pending r p frame (attempt (j + 1))) ∧
        (∃ reply, once.result = .ok reply) ∧ last.result = once.result ∧
        once.machine.frameOf? q.address = some frame ∧
        last.machine = { once.machine with
          swap := { once.machine.swap with
            failsIn := (m.failNext k).swap.failsIn
            ins := once.machine.swap.ins + k }
          counters := { once.machine.counters with
            references := once.machine.counters.references + k
            misses := once.machine.counters.misses + k } } := by
  intro policy m attempt last once hk hrefusal
  have horder : m.InOrder frames slots :=
    inOrder_unreliable frames slots policy failsOut failsIn calls
  have hx := horder.consistent.failNext k
  obtain ⟨y, p, frame, hfrees, hp, hfirst, hawaits⟩ := awaits_of_refusal hx hrefusal
  rw [hfirst] at hawaits
  obtain ⟨hold, hlookup⟩ := horder.consistent.page?_of_onSwap hp hawaits.onSwap
  -- after every attempt in vain the machine is the first one, late
  have hattempt : ∀ j < k, attempt (j + 1)
      = y.delayed j (m.failNext k).swap.failsIn (m.swap.ins + 1 + j) := fun j hj =>
    hawaits.attempts hfirst hj
  obtain ⟨bytes, frameTable, memory, hbytes, hclaimed, hfilled⟩ :=
    hfrees.receives hx (horder.slotsOwned.failNext k) hawaits.page hawaits.onSwap
  -- a first attempt whose pagein works
  obtain ⟨hok, hresult, hmachine, hframe⟩ := serve_delayed (m := m.failNext 0)
    (horder.consistent.failNext 0) hawaits.inFrame hp hawaits.onSwap hfrees.failNext
    (decide_eq_false (by omega)) hbytes hclaimed hfilled
  -- the last attempt
  obtain ⟨k, rfl⟩ := Nat.exists_eq_succ_of_ne_zero (Nat.ne_of_gt hk)
  have hlate := hattempt k (Nat.lt_succ_self k)
  obtain ⟨hresult', hmachine'⟩ := (hawaits.delayed k (m.failNext (k + 1)).swap.failsIn
    (m.swap.ins + 1 + k)).succeeds (y := y) (decide_eq_false (by omega)) hbytes hclaimed hfilled
  refine ⟨frame, m.refOf q.address, p, hlookup, hold, hawaits.onSwap, ?_, hok, ?_, hframe, ?_⟩
  · intro j hj
    refine ⟨?_, ?_⟩
    · cases j with
      | zero => exact hrefusal
      | succ i =>
        have hfails : decide (m.swap.ins + 1 + i + 1 ≤ m.swap.ins + (k + 1)) = true :=
          decide_eq_true (by omega)
        rw [hattempt i (Nat.lt_of_succ_lt hj)]
        exact ((hawaits.delayed i (m.failNext (k + 1)).swap.failsIn _).fails hfails).1
    · rw [hattempt j hj]
      exact hfrees.pending horder.consistent hawaits.page j _ _
  · show ((attempt (k + 1)).serve q).result = once.result
    rw [hlate]
    exact hresult'.trans hresult.symm
  · have hlast : last.machine = _ :=
      (congrArg (fun x => (serve x q).machine) hlate).trans hmachine'
    rw [hlast, hmachine]
    rfl

/-- Two pages take turns in one frame, and the pagein of the first one fails twice. -/
theorem retry_exact_of_one_frame :
    let m := (build 1 (.ofAlgorithm .lru 0)
      (UnreliableStore.empty 2 (fun _ => false) fun _ => false)).callAll
        [.request (.translate ⟨0x1000⟩ .store), .request (.translate ⟨0x2000⟩ .store)]
    let q := Request.translate ⟨0x1000⟩ .load
    let last := ((m.failNext 2).serveAll (List.replicate 2 q)).serve q
    let once := (m.failNext 0).serve q
    ((m.failNext 2).serve q).refusal? = some (.unknownSwapOffset ⟨0⟩) ∧
      last.result = once.result ∧ last.machine.memory = once.machine.memory ∧
      last.machine.counters.misses = once.machine.counters.misses + 2 := by
  intro m q last once
  have hrefusal : ((m.failNext 2).serve q).refusal? = some (.unknownSwapOffset ⟨0⟩) := by
    decide +kernel
  obtain ⟨_, _, _, -, -, -, -, -, hresult, -, hlast⟩ := retry_exact 1 2 .lru 0 (fun _ => false)
    (fun _ => false) [.request (.translate ⟨0x1000⟩ .store), .request (.translate ⟨0x2000⟩ .store)]
    q 2 ⟨0⟩ (by decide) hrefusal
  refine ⟨hrefusal, hresult, ?_, ?_⟩
  · rw [hlast]
  · rw [hlast]

end Machine

end DemandPaging
