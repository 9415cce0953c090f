import DemandPaging.Proofs.PageTable.Growth

/-!
# The page table is a map from page numbers to entries

Whoever uses a page table walks it, looks addresses up in it, and changes entries through the
references that came back (`TableOp`). `TableUse` is the table under such use, with what its user
can remember: where it walked, what it got, and which page it changed in which way. The map that
the table stands for needs only the last of these: `entryAfter` says what the entry of a page is,
with no mention of tables or references.

> `Coherent.step`, `coherent_after`: the table agrees with what its user remembers, at every step.
> `map_of_pages`: the table is that map, and one reference stands for one page number.
-/

namespace DemandPaging

/-- The entry of page `v` after changes that each name a page; a page that none of them names is
unmapped. -/
def entryAfter (changes : List (Nat × (Entry → Entry))) (v : Nat) : Entry :=
  changes.foldl (fun e change => if change.1 = v then change.2 e else e) Entry.unmapped

/-- The last change counts last, if it names the page. -/
theorem entryAfter_concat (changes : List (Nat × (Entry → Entry))) (w : Nat) (f : Entry → Entry)
    (v : Nat) : entryAfter (changes ++ [(w, f)]) v
      = if w = v then f (entryAfter changes v) else entryAfter changes v := by
  unfold entryAfter
  rw [List.foldl_append, List.foldl_cons, List.foldl_nil]

/-- A page that no change names is unmapped. -/
theorem entryAfter_of_unchanged {v : Nat} : ∀ {changes : List (Nat × (Entry → Entry))},
    (∀ change ∈ changes, change.1 ≠ v) → entryAfter changes v = Entry.unmapped := by
  intro changes
  induction changes using List.reverseRecOn with
  | nil => exact fun _ => rfl
  | append_singleton changes change ih =>
    intro h
    have hlast : change.1 ≠ v := h change (by simp)
    have hrest : ∀ c ∈ changes, c.1 ≠ v := fun c hc => h c (List.mem_append_left _ hc)
    rw [entryAfter_concat, if_neg hlast]
    exact ih hrest

/-- What can be done with a page table: an entry is changed through the `n`-th reference that came
back from a walk or a lookup. -/
inductive TableOp where
  | walk (a : Address)
  | lookup (a : Address)
  | change (n : Nat) (f : Entry → Entry)

/-- A page table in use: the addresses walked, the references that came back, each with the address
it was asked for, and the changes made, each with the number of its page. -/
structure TableUse where
  table : PageTable
  walked : List Address
  returned : List (Address × EntryRef)
  changes : List (Nat × (Entry → Entry))

namespace TableUse

/-- A new table. -/
def start : TableUse := ⟨PageTable.empty, [], [], []⟩

def step (u : TableUse) : TableOp → TableUse
  | .walk a =>
    { u with
      table := (u.table.walk a).table
      walked := u.walked ++ [a]
      returned := u.returned ++ [(a, (u.table.walk a).ref)] }
  | .lookup a =>
    { u with returned := u.returned ++ ((u.table.lookup a).map fun r => (a, r)).toList }
  | .change n f =>
    match u.returned[n]? with
    | none => u
    | some (a, r) =>
      { u with table := u.table.modify r f, changes := u.changes ++ [(a.vpn, f)] }

def after (u : TableUse) (ops : List TableOp) : TableUse := ops.foldl step u

variable {u : TableUse}

/-- References are not taken back. -/
theorem returned_after (u : TableUse) (ops : List TableOp) :
    u.returned ⊆ (u.after ops).returned := by
  induction ops generalizing u with
  | nil => exact List.Subset.refl _
  | cons op ops ih =>
    refine List.Subset.trans ?_ (ih (u.step op))
    unfold step
    split
    · exact List.subset_append_left _ _
    · exact List.subset_append_left _ _
    · split
      · exact List.Subset.refl _
      · exact List.Subset.refl _

/-- The table agrees with what its user remembers: its tables are those of the walks, a reference
that came back is found under its address, and the entries are those that the changes leave. -/
structure Coherent (u : TableUse) : Prop where
  rooted : u.table.Rooted
  walked : u.table.Walked u.walked
  found : ∀ a r, (a, r) ∈ u.returned → u.table.lookup a = some r
  entries : ∀ r p, u.table.page? r = some p → p.entry = entryAfter u.changes p.vpn
  changed : ∀ change ∈ u.changes, ∃ r p, u.table.page? r = some p ∧ p.vpn = change.1

theorem coherent_start : start.Coherent where
  rooted := PageTable.rooted_empty
  walked := PageTable.covers_empty
  found := by simp [start]
  entries r p h := by
    rw [show start.table.page? r = none from PageTable.page?_empty r] at h
    simp at h
  changed := by simp [start]

/-- A page that a walk brings was changed by nobody. -/
theorem Coherent.step_walk (h : u.Coherent) (a : Address) : (u.step (.walk a)).Coherent where
  rooted := h.rooted.walk a
  walked := h.walked.walk h.rooted a
  found b r hb := by
    show (u.table.walk a).table.lookup b = some r
    rcases List.mem_append.mp hb with hold | hnew
    · obtain ⟨p, hp, hvpn⟩ := h.rooted.page?_of_lookup (h.found b r hold)
      exact (h.rooted.walk a).lookup_of_page? ((h.rooted.extends_walk a).kept r p hp) hvpn
    · obtain ⟨rfl, rfl⟩ := Prod.mk.injEq .. ▸ List.mem_singleton.mp hnew
      exact h.rooted.lookup_walk b
  entries r p hp := by
    show p.entry = entryAfter u.changes p.vpn
    rcases (h.rooted.extends_walk a).fresh r p hp with hold | ⟨hnone, hentry⟩
    · exact h.entries r p hold
    · rw [hentry, entryAfter_of_unchanged]
      intro change hchange heq
      obtain ⟨r', p', hp', hvpn⟩ := h.changed change hchange
      -- the page of the change has its entry already, and one entry only
      have hkept := (h.rooted.extends_walk a).kept r' p' hp'
      have hr : r' = r := (h.rooted.walk a).ref_eq_of_vpn_eq hkept hp (hvpn.trans heq)
      rw [← hr, hp'] at hnone
      simp at hnone
  changed change hchange := by
    obtain ⟨r, p, hp, hvpn⟩ := h.changed change hchange
    exact ⟨r, p, (h.rooted.extends_walk a).kept r p hp, hvpn⟩

/-- A lookup that finds something returns a reference and makes nothing. -/
theorem Coherent.step_lookup (h : u.Coherent) (a : Address) : (u.step (.lookup a)).Coherent where
  rooted := h.rooted
  walked := h.walked
  found b r hb := by
    show u.table.lookup b = some r
    rcases List.mem_append.mp hb with hold | hnew
    · exact h.found b r hold
    · obtain ⟨r', hr', heq⟩ := Option.map_eq_some_iff.mp (Option.mem_toList.mp hnew)
      obtain ⟨rfl, rfl⟩ := Prod.mk.injEq .. ▸ heq
      exact hr'
  entries := h.entries
  changed := h.changed

/-- A change through a reference is one of the page it was asked for, and of no other. -/
theorem Coherent.modify (h : u.Coherent) {a : Address} {r : EntryRef}
    (hr : u.table.lookup a = some r) (f : Entry → Entry) :
    Coherent { u with table := u.table.modify r f, changes := u.changes ++ [(a.vpn, f)] } where
  rooted := h.rooted.modify r f
  walked := PageTable.Covers.modify h.walked r f
  found := h.found
  entries s p hp := by
    show p.entry = entryAfter (u.changes ++ [(a.vpn, f)]) p.vpn
    obtain ⟨q, hq, hvpn⟩ := h.rooted.page?_of_lookup hr
    rw [entryAfter_concat]
    by_cases hs : s = r
    · subst hs
      rw [PageTable.page?_modify_self, hq, Option.map_some, Option.some.injEq] at hp
      subst hp
      show f q.entry = if a.vpn = q.vpn then f (entryAfter u.changes q.vpn) else _
      rw [if_pos hvpn.symm]
      exact congrArg f (h.entries s q hq)
    · rw [PageTable.page?_modify_of_ne hs] at hp
      have hne : a.vpn ≠ p.vpn := fun heq =>
        hs (h.rooted.ref_eq_of_vpn_eq hp hq (heq.symm.trans hvpn.symm))
      rw [if_neg hne]
      exact h.entries s p hp
  changed change hchange := by
    have hpage : ∀ s p, u.table.page? s = some p →
        ∃ p', (u.table.modify r f).page? s = some p' ∧ p'.vpn = p.vpn := by
      intro s p hp
      rw [PageTable.page?_modify, hp]
      split
      · exact ⟨p.update f, rfl, rfl⟩
      · exact ⟨p, rfl, rfl⟩
    have hnamed : ∃ s p, u.table.page? s = some p ∧ p.vpn = change.1 := by
      rcases List.mem_append.mp hchange with hold | hnew
      · exact h.changed change hold
      · rw [List.mem_singleton.mp hnew]
        obtain ⟨q, hq, hvpn⟩ := h.rooted.page?_of_lookup hr
        exact ⟨r, q, hq, hvpn⟩
    obtain ⟨s, p, hp, hvpn⟩ := hnamed
    obtain ⟨p', hp', hvpn'⟩ := hpage s p hp
    exact ⟨s, p', hp', hvpn'.trans hvpn⟩

/-- Every operation keeps the agreement. -/
theorem Coherent.step (h : u.Coherent) (op : TableOp) : (u.step op).Coherent := by
  cases op with
  | walk a => exact h.step_walk a
  | lookup a => exact h.step_lookup a
  | change n f =>
    simp only [TableUse.step]
    split
    next => exact h
    next a r hn => exact h.modify (h.found a r (List.mem_of_getElem? hn)) f

/-- Any operations keep the agreement. -/
theorem Coherent.after (h : u.Coherent) (ops : List TableOp) : (u.after ops).Coherent := by
  induction ops generalizing u with
  | nil => exact h
  | cons op ops ih => exact ih (h.step op)

theorem coherent_after (ops : List TableOp) : (start.after ops).Coherent :=
  coherent_start.after ops

/-! ## The map -/

/-- What the table is to its user. -/
structure IsPageMap (u : TableUse) : Prop where
  /-- Two references are the same just if the addresses agree in bits 12 to 47. -/
  ref_eq_iff : ∀ a b r s, (a, r) ∈ u.returned → (b, s) ∈ u.returned →
    (r = s ↔ a.raw.toNat / 2 ^ 12 % 2 ^ 36 = b.raw.toNat / 2 ^ 12 % 2 ^ 36)
  /-- Whatever is done later, a reference is found again under its address, and a walk there makes
  nothing. -/
  stable : ∀ a r, (a, r) ∈ u.returned → ∀ later,
    (u.after later).table.lookup a = some r ∧
      (u.after later).table.walk a = ⟨r, (u.after later).table, []⟩
  /-- A reference is one of the page that those bits number. -/
  page : ∀ a r, (a, r) ∈ u.returned →
    ∃ p, u.table.page? r = some p ∧ p.vpn = a.raw.toNat / 2 ^ 12 % 2 ^ 36
  /-- The entry of a page is what its own changes left, in the order in which they were made. -/
  entry : ∀ r p, u.table.page? r = some p → p.entry = entryAfter u.changes p.vpn
  untouched : ∀ r p, u.table.page? r = some p → (∀ change ∈ u.changes, change.1 ≠ p.vpn) →
    p.entry = Entry.unmapped
  /-- Neither a walk nor a change of another page changes the entry of a page. -/
  kept_walk : ∀ a s p, u.table.page? s = some p → (u.table.walk a).table.page? s = some p
  kept_change : ∀ a r f s p, (a, r) ∈ u.returned → u.table.page? s = some p → p.vpn ≠ a.vpn →
    (u.table.modify r f).page? s = some p
  /-- An address is found just if there was a walk into its leaf table. -/
  found_iff : ∀ a, (u.table.lookup a).isSome ↔ ∃ b ∈ u.walked, b.top = a.top ∧ b.mid = a.mid
  lookup_table : ∀ a, (u.step (.lookup a)).table = u.table
  mids_size : u.table.mids.size = (u.walked.map (·.top)).eraseDups.length
  leaves_size : u.table.leaves.size = (u.walked.map fun a => (a.top, a.mid)).eraseDups.length
  /-- Numbers of tables fit into 32 bits, with the top table as number 0 before the middle ones. -/
  mid_lt : ∀ i m, u.table.midAt? i = some m → m + 1 < 2 ^ 32
  leaf_lt : ∀ i j l, u.table.leafAt? i j = some l → l < 2 ^ 32
  /-- And a reference into 32 and 16. -/
  ref_lt : ∀ a r, (a, r) ∈ u.returned → r.leaf < 2 ^ 32 ∧ r.index.val < 2 ^ 16

/-- References tell page numbers apart, and only them. -/
theorem Coherent.ref_eq_iff (h : u.Coherent) {a b : Address} {r s : EntryRef}
    (ha : (a, r) ∈ u.returned) (hb : (b, s) ∈ u.returned) : r = s ↔ a.vpn = b.vpn := by
  obtain ⟨p, hp, hvpn⟩ := h.rooted.page?_of_lookup (h.found a r ha)
  obtain ⟨q, hq, hvpn'⟩ := h.rooted.page?_of_lookup (h.found b s hb)
  refine ⟨?_, ?_⟩
  · rintro rfl
    rw [hp, Option.some.injEq] at hq
    rw [← hvpn, ← hvpn', hq]
  · intro heq
    exact h.rooted.ref_eq_of_vpn_eq hp hq (hvpn.trans (heq.trans hvpn'.symm))

/-- An address is found if its leaf is that of an address that was walked. -/
theorem Coherent.found_iff (h : u.Coherent) (a : Address) :
    (u.table.lookup a).isSome ↔ ∃ b ∈ u.walked, b.top = a.top ∧ b.mid = a.mid := by
  rw [PageTable.lookup_eq, Option.isSome_map, h.walked.leaf_iff, List.mem_map]
  unfold Address.path
  simp only [Prod.mk.injEq]

/-- There are 4096 middle tables at most, and 4096 leaf tables under each. -/
theorem Coherent.mid_lt (h : u.Coherent) {i : TableIndex} {m : Nat}
    (hm : u.table.midAt? i = some m) : m + 1 < 2 ^ 32 := by
  have hlt := PageTable.midAt?_lt hm
  have hle := h.walked.mids_le
  unfold tableSlots at hle
  omega

/-- The number of a leaf fits into 32 bits. -/
theorem Coherent.leaf_lt (h : u.Coherent) {i j : TableIndex} {l : Nat}
    (hl : u.table.leafAt? i j = some l) : l < 2 ^ 32 := by
  have hlt := PageTable.leafAt?_lt hl
  have hle := h.walked.leaves_le
  unfold tableSlots at hle
  omega

/-- A table that agrees with its user is a map of pages. -/
theorem Coherent.isPageMap (h : u.Coherent) : u.IsPageMap where
  ref_eq_iff a b r s ha hb := by
    have hiff := h.ref_eq_iff ha hb
    rwa [a.vpn_eq, b.vpn_eq] at hiff
  stable a r ha later := by
    have hfound := (h.after later).found a r (returned_after u later ha)
    exact ⟨hfound, PageTable.walk_of_lookup hfound⟩
  page a r ha := by
    obtain ⟨p, hp, hvpn⟩ := h.rooted.page?_of_lookup (h.found a r ha)
    exact ⟨p, hp, hvpn.trans a.vpn_eq⟩
  entry := h.entries
  untouched r p hp hno := (h.entries r p hp).trans (entryAfter_of_unchanged hno)
  kept_walk a := (h.rooted.extends_walk a).kept
  kept_change a r f s p ha hp hne := by
    obtain ⟨q, hq, hvpn⟩ := h.rooted.page?_of_lookup (h.found a r ha)
    have hs : s ≠ r := by
      rintro rfl
      rw [hp, Option.some.injEq] at hq
      exact hne (hq ▸ hvpn)
    rw [PageTable.page?_modify_of_ne hs]
    exact hp
  found_iff := h.found_iff
  lookup_table _ := rfl
  mids_size := h.walked.mids_eq
  leaves_size := h.walked.leaves_eq
  mid_lt _ _ := h.mid_lt
  leaf_lt _ _ _ := h.leaf_lt
  ref_lt a r ha := by
    have hlookup := h.found a r ha
    rw [PageTable.lookup_eq] at hlookup
    obtain ⟨l, hl, rfl⟩ := Option.map_eq_some_iff.mp hlookup
    have hbottom := a.bottom.isLt
    unfold tableSlots at hbottom
    exact ⟨h.leaf_lt hl, by show a.bottom.val < 2 ^ 16; omega⟩

/-- However it is used, a page table is a map from the page numbers of 36 bits to entries. -/
theorem map_of_pages (ops : List TableOp) : (start.after ops).IsPageMap :=
  (coherent_after ops).isPageMap

end TableUse

end DemandPaging
