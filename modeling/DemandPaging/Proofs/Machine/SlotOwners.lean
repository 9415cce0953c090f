import DemandPaging.Proofs.Distinct
import DemandPaging.Proofs.Machine.Contents
import DemandPaging.Proofs.Machine.Extent
import DemandPaging.Proofs.Machine.Residents
import DemandPaging.Proofs.Swap.Dense

/-!
# Who owns which slot

A page gets a slot when it is evicted for the first time, and it is the next one: the store hands
slots out in order, and every eviction comes with the slot that the page owns, if it owns one. So
over a memory store the slots mirror the history of evictions (`SlotsFollow`): the `k`-th distinct
page that was evicted owns slot `k`, and no other page owns one. The history is an observer's; the
machine itself remembers the slot of a page in its entry only.

> `SlotsFollow.save_cases`: where a pageout goes, and when there is no room for it.
> `Serves.slotsFollow`: the step.
-/

namespace DemandPaging

namespace Machine

/-- Slot `k` is owned by the page that was the `k`-th to be evicted for the first time. -/
structure SlotsFollow (m : Machine SlotStore) (evictions : List Nat) : Prop where
  dense : ∃ pages, m.swap.Dense pages ∧ pages.length = evictions.eraseDups.length
  slot?_eq : ∀ r p, m.pageTable.page? r = some p →
    p.entry.slot? = (evictions.eraseDups.idxOf? p.vpn).map .ofSlot
  known : ∀ v ∈ evictions, ∃ r p, m.pageTable.page? r = some p ∧ p.vpn = v

variable {m m' m₀ : Machine SlotStore} {evictions : List Nat}

/-! ## The moves -/

theorem slotsFollow_build (frames : Nat) (policy : Policy) (slots : Nat) :
    (build frames policy (SlotStore.empty slots)).SlotsFollow [] where
  dense := ⟨[], SlotStore.dense_empty slots, rfl⟩
  slot?_eq r p hp := by simp [build, PageTable.page?_empty] at hp
  known v hv := by simp at hv

/-- Where pages own what they owned, nothing changes. -/
theorem SlotsFollow.of_slots (hm : m.SlotsFollow evictions) (hswap : m'.swap = m.swap)
    (hold : ∀ r p', m'.pageTable.page? r = some p' → ∃ p, m.pageTable.page? r = some p ∧
      p'.vpn = p.vpn ∧ p'.entry.slot? = p.entry.slot?)
    (hkept : ∀ r p, m.pageTable.page? r = some p →
      ∃ p', m'.pageTable.page? r = some p' ∧ p'.vpn = p.vpn) : m'.SlotsFollow evictions where
  dense := hswap ▸ hm.dense
  slot?_eq r p' hp' := by
    obtain ⟨p, hp, hvpn, hslot⟩ := hold r p' hp'
    rw [hslot, hvpn]
    exact hm.slot?_eq r p hp
  known v hv := by
    obtain ⟨r, p, hp, hpv⟩ := hm.known v hv
    obtain ⟨p', hp', hvpn⟩ := hkept r p hp
    exact ⟨r, p', hp', hvpn.trans hpv⟩

/-- The slots are told by the store and the places of the pages, and by nothing else. -/
theorem SlotsFollow.of_samePlaces (hm : m.SlotsFollow evictions) (hswap : m'.swap = m.swap)
    (hplaces : PageTable.SamePlaces m.pageTable m'.pageTable) : m'.SlotsFollow evictions := by
  refine hm.of_slots hswap ?_ ?_
  · intro r p' hp'
    obtain ⟨p, hp, hvpn, hresidency⟩ := hplaces.symm.page?_some hp'
    exact ⟨p, hp, hvpn.symm, (slot?_eq_of_residency_eq hresidency).symm⟩
  · intro r p hp
    obtain ⟨p', hp', hvpn, -⟩ := hplaces.page?_some hp
    exact ⟨p', hp', hvpn⟩

/-- Choosing a victim gives no page a slot. -/
theorem SlotsFollow.choosing (hm : m.SlotsFollow evictions) {choice : Policy.Choice}
    (hspares : m.residents.Spares choice.residents) : (m.choosing choice).SlotsFollow evictions :=
  hm.of_samePlaces rfl hspares.swept.samePlaces

theorem SlotsFollow.use (hm : m.SlotsFollow evictions) (r : EntryRef) (kind : AccessKind)
    (frame : Nat) : (m.use r kind frame).SlotsFollow evictions :=
  hm.of_samePlaces rfl (.modify fun e => e.residency_touch kind)

/-- Walking, a machine meets pages that were never evicted, for those that were have an entry. -/
theorem SlotsFollow.entering (hm : m.SlotsFollow evictions) (h : m.Consistent) (a : Address)
    (hit : Bool) : (m.entering a hit).SlotsFollow evictions := by
  have hextends := h.rooted.extends_walk a
  refine ⟨hm.dense, ?_, ?_⟩
  · intro r p hp
    rcases hextends.fresh r p hp with hold | ⟨hnew, hunmapped⟩
    · exact hm.slot?_eq r p hold
    · have habsent : p.vpn ∉ evictions := by
        intro hv
        obtain ⟨s, q, hq, hqv⟩ := hm.known p.vpn hv
        have hrs := (h.rooted.walk a).ref_eq_of_vpn_eq hp (hextends.kept s q hq) hqv.symm
        rw [hrs, hq] at hnew
        simp at hnew
      rw [hunmapped, List.idxOf?_eq_none_iff.mpr (mt List.mem_eraseDups.mp habsent)]
      rfl
  · intro v hv
    obtain ⟨r, p, hp, hpv⟩ := hm.known v hv
    exact ⟨r, p, hextends.kept r p hp, hpv⟩

/-- As many slots are in use as different pages were evicted. -/
theorem SlotsFollow.used_eq (hm : m.SlotsFollow evictions) :
    m.swap.used = evictions.eraseDups.length := by
  obtain ⟨pages, hdense, hlength⟩ := hm.dense
  exact hdense.used_eq.trans hlength

/-- A pageout goes to the slot of its page, or to the next one if the page has none; it finds no
room if there is no next one. -/
theorem SlotsFollow.save_cases (hm : m.SlotsFollow evictions) {victim : EntryRef}
    {page : PageEntry} (hpage : m.pageTable.page? victim = some page) (bytes : Page) :
    (∃ offset swap pages, BackingStore.save m.swap bytes page.entry.slot? = (some offset, swap) ∧
        some offset = ((evictions ++ [page.vpn]).eraseDups.idxOf? page.vpn).map .ofSlot ∧
        swap.Dense pages ∧ pages.length = (evictions ++ [page.vpn]).eraseDups.length ∧
        (page.vpn ∈ evictions ∨ m.swap.used < m.swap.capacity)) ∨
      page.vpn ∉ evictions ∧ m.swap.used = m.swap.capacity ∧
        BackingStore.save m.swap bytes page.entry.slot? = (none, m.swap) := by
  obtain ⟨pages, hdense, hlength⟩ := hm.dense
  rw [hm.slot?_eq victim page hpage, hdense.used_eq]
  by_cases hv : page.vpn ∈ evictions
  · left
    obtain ⟨k, hk⟩ := Option.isSome_iff_exists.mp
      (List.isSome_idxOf?.mpr (List.mem_eraseDups.mpr hv))
    obtain ⟨hlt, -⟩ := List.idxOf?_eq_some_iff.mp hk
    obtain ⟨swap, hsave, hdense'⟩ := hdense.save_owned (hlength ▸ hlt) bytes
    rw [eraseDups_concat_of_mem hv, hk]
    exact ⟨_, swap, _, hsave, rfl, hdense', List.length_set.trans hlength, Or.inl hv⟩
  · rw [List.idxOf?_eq_none_iff.mpr (mt List.mem_eraseDups.mp hv)]
    rcases Nat.lt_or_eq_of_le hdense.length_le with hroom | hfull
    · left
      obtain ⟨swap, hsave, hdense'⟩ := hdense.save_new hroom bytes
      refine ⟨_, swap, _, hsave, ?_, hdense', ?_, Or.inr hroom⟩
      · rw [idxOf?_eraseDups_concat_self hv, hlength]
        rfl
      · rw [eraseDups_concat_of_not_mem hv, List.length_append, List.length_append, hlength]
        rfl
    · right
      exact ⟨hv, hfull, hdense.save_full hfull bytes⟩

/-- Writing a page out gives it the slot that its first eviction has in the history. -/
theorem SlotsFollow.save (hm : m.SlotsFollow evictions) {victim : EntryRef} {page : PageEntry}
    (hpage : m.pageTable.page? victim = some page) {bytes : Page} {offset : SwapOffset}
    {swap : SlotStore}
    (hsaved : BackingStore.save m.swap bytes page.entry.slot? = (some offset, swap)) :
    some offset = ((evictions ++ [page.vpn]).eraseDups.idxOf? page.vpn).map .ofSlot ∧
      ∃ pages, swap.Dense pages ∧
        pages.length = (evictions ++ [page.vpn]).eraseDups.length := by
  rcases hm.save_cases hpage bytes with
    ⟨offset', swap', pages, hsave, hoffset, hdense, hlength, -⟩ | ⟨-, -, hnone⟩
  · obtain ⟨ho, rfl⟩ := Prod.mk.inj (hsaved.symm.trans hsave)
    exact ⟨ho.trans hoffset, pages, hdense, hlength⟩
  · have hanswer := hsaved.symm.trans hnone
    simp at hanswer

/-- When the victim gives up its frame, its eviction is the last of the history. -/
theorem SlotsFollow.vacating (hm : m.SlotsFollow evictions) (h : m.Consistent)
    {victim : EntryRef} {page : PageEntry} (hpage : m.pageTable.page? victim = some page)
    {bytes : Page} {offset : SwapOffset} {swap : SlotStore}
    (hsaved : BackingStore.save m.swap bytes page.entry.slot? = (some offset, swap))
    (dirty : Bool) (frameTable : FrameTable) :
    (m.vacating victim dirty offset swap frameTable).SlotsFollow (evictions ++ [page.vpn]) := by
  obtain ⟨hoffset, hdense⟩ := hm.save hpage hsaved
  refine ⟨hdense, ?_, ?_⟩
  · intro r p hp
    by_cases hr : r = victim
    · subst hr
      have hp' : (m.pageTable.page? r).map (·.update (·.swapOut offset)) = some p :=
        (PageTable.page?_modify_self _ _ _).symm.trans hp
      rw [hpage, Option.map_some, Option.some.injEq] at hp'
      subst hp'
      exact hoffset
    · have hp' : m.pageTable.page? r = some p := (PageTable.page?_modify_of_ne hr).symm.trans hp
      have hne : p.vpn ≠ page.vpn := fun hv => hr (h.rooted.ref_eq_of_vpn_eq hp' hpage hv)
      rw [idxOf?_eraseDups_concat_of_ne hne]
      exact hm.slot?_eq r p hp'
  · intro v hv
    have hex : ∃ r p, m.pageTable.page? r = some p ∧ p.vpn = v := by
      rcases List.mem_append.mp hv with hold | hnew
      · exact hm.known v hold
      · exact ⟨victim, page, hpage, (List.mem_singleton.mp hnew).symm⟩
    obtain ⟨r, p, hp, hpv⟩ := hex
    by_cases hr : r = victim
    · subst hr
      exact ⟨r, p.update (·.swapOut offset),
        (PageTable.page?_modify_self _ _ _).trans (congrArg _ hp), hpv⟩
    · exact ⟨r, p, (PageTable.page?_modify_of_ne hr).trans hp, hpv⟩

/-- A page that is brought in keeps its slot, and no slot is freed. -/
theorem SlotsFollow.placing (hm : m.SlotsFollow evictions) (r : EntryRef) (frame : Nat)
    (dirty : Bool) (frameTable : FrameTable) (memory : Memory) :
    (m.placing r frame dirty m.swap frameTable memory).SlotsFollow evictions := by
  refine hm.of_slots rfl ?_ ?_
  · intro s p' hp'
    by_cases hs : s = r
    · subst hs
      obtain ⟨p, hp, rfl⟩ := Option.map_eq_some_iff.mp
        ((PageTable.page?_modify_self _ _ _).symm.trans hp')
      exact ⟨p, hp, rfl, slot?_placed p.entry frame dirty⟩
    · exact ⟨p', (PageTable.page?_modify_of_ne hs).symm.trans hp', rfl, rfl⟩
  · intro s p hp
    by_cases hs : s = r
    · subst hs
      exact ⟨_, (PageTable.page?_modify_self _ _ _).trans (congrArg _ hp), rfl⟩
    · exact ⟨p, (PageTable.page?_modify_of_ne hs).trans hp, rfl⟩

/-! ## The stages -/

/-- When no frame is found, nothing was evicted and no slot was given. -/
theorem Starves.slotsFollow (hm : m.SlotsFollow evictions) {e : PagingError}
    (hstarves : m.Starves e m') : m'.SlotsFollow (evictions ++ m.evicted m') := by
  rw [hstarves.evicted_eq, List.append_nil]
  cases hstarves with
  | noVictim _ _ spares _ => exact hm.choosing spares
  | vacant _ _ spares _ _ => exact hm.choosing spares
  | exhausted names unsaved =>
    exact (hm.choosing names.spares).of_samePlaces (SlotStore.save_none unsaved) fun _ => rfl

/-- An eviction extends the history by its victim. -/
theorem Frees.slotsFollow (hm : m.SlotsFollow evictions) (h : m.Consistent) {frame : Nat}
    (hfrees : m.Frees m₀ frame) : m₀.SlotsFollow (evictions ++ m.evicted m₀) := by
  have hevicted := hfrees.evicted_eq h
  cases hfrees with
  | found _ =>
    rw [evicted_eq_nil fun _ => rfl, List.append_nil]
    exact hm
  | evicted names saved _ =>
    rw [hevicted, names.vpn?_frame]
    exact (hm.choosing names.spares).vacating (h.choosing names.spares) names.page saved _ _

/-- Bringing a page in keeps to the history, with what was evicted to make room for it. -/
theorem BringsIn.slotsFollow (hm : m.SlotsFollow evictions) (h : m.Consistent) {r : EntryRef}
    {p : PageEntry} (hp : m.pageTable.page? r = some p) (habsent : p.entry.frame? = none)
    {result : Except Failure Nat} (hbrings : m.BringsIn r result m') :
    m'.SlotsFollow (evictions ++ m.evicted m') := by
  have hevicted : ∀ {frame : Nat}, result = .ok frame →
      m.evicted m' = (m.residents.vpn? frame).toList :=
    fun hok => BringsIn.evicted_eq h hp habsent (hok ▸ hbrings)
  cases hbrings with
  | starved starves => exact starves.slotsFollow hm
  | unreadable frees _ _ unread =>
    -- a memory store is not changed by a pagein
    exact (frees.slotsFollow hm h).of_samePlaces (Prod.mk.inj unread).2.symm fun _ => rfl
  | firstTouch frees _ _ _ _ =>
    rw [hevicted rfl, ← frees.evicted_eq h]
    exact (frees.slotsFollow hm h).placing _ _ _ _ _
  | swappedIn frees _ _ read _ _ =>
    rw [hevicted rfl, ← frees.evicted_eq h, ← (Prod.mk.inj read).2]
    exact (frees.slotsFollow hm h).placing _ _ _ _ _

/-- A translation keeps to the history of evictions. -/
theorem Translates.slotsFollow (hm : m.SlotsFollow evictions) (h : m.Consistent) {a : Address}
    {kind : AccessKind} {result : Except Failure Nat} (ht : m.Translates a kind result m') :
    m'.SlotsFollow (evictions ++ m.evicted m') := by
  cases ht with
  | outside _ =>
    rw [evicted_eq_nil fun _ => rfl, List.append_nil]
    exact hm
  | hit _ resident =>
    rw [(h.entering a true).evicted_use resident, ← h.evicted_entering a true,
      evicted_eq_nil fun _ => rfl, List.append_nil]
    exact (hm.entering h a true).use _ _ _
  | fault _ page absent brings =>
    have h' := brings.consistent (h.entering a false) page absent
    rw [h'.evicted_use brings.resident, ← h.evicted_entering a false]
    exact (brings.slotsFollow (hm.entering h a false) (h.entering a false) page absent).use _ _ _
  | refused _ page absent brings =>
    rw [← h.evicted_entering a false]
    exact brings.slotsFollow (hm.entering h a false) (h.entering a false) page absent

/-- Every request keeps to the history of evictions. -/
theorem Serves.slotsFollow (hm : m.SlotsFollow evictions) (h : m.Consistent) {q : Request}
    {result : Except Failure Reply} (hserves : m.Serves q result m') :
    m'.SlotsFollow (evictions ++ m.evicted m') := by
  obtain ⟨placed, m₁, memory, mismatches, translates, rfl, -⟩ := hserves.translates
  have hm' := translates.slotsFollow hm h
  exact ⟨hm'.dense, hm'.slot?_eq, hm'.known⟩

/-! ## Slots by their offsets -/

/-- The slot that a page owns is 16 times its place among the pages that were evicted. -/
theorem SlotsFollow.slot?_eq_some_iff (hm : m.SlotsFollow evictions) {r : EntryRef}
    {p : PageEntry} (hp : m.pageTable.page? r = some p) {o : SwapOffset} :
    p.entry.slot? = some o ↔ ∃ k, o = ⟨16 * k⟩ ∧ evictions.eraseDups[k]? = some p.vpn := by
  have hofSlot : ∀ k, SwapOffset.ofSlot k = ⟨16 * k⟩ := fun k =>
    congrArg SwapOffset.mk (Nat.mul_comm k 16)
  rw [hm.slot?_eq r p hp, Option.map_eq_some_iff]
  refine exists_congr fun k => ?_
  rw [idxOf?_eraseDups_eq_some, hofSlot, and_comm, eq_comm]

/-- A page owns a slot when it was evicted at some time, and only then. -/
theorem SlotsFollow.isSome_slot?_iff (hm : m.SlotsFollow evictions) {r : EntryRef} {p : PageEntry}
    (hp : m.pageTable.page? r = some p) :
    p.entry.slot?.isSome ↔ p.vpn ∈ evictions.eraseDups := by
  rw [hm.slot?_eq r p hp, Option.isSome_map, List.isSome_idxOf?]

end Machine

end DemandPaging
