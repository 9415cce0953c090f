import DemandPaging.PageTable.Basic

/-!
# The pages of a page table

`page?` is what the rest of the machine sees of a page table: the page number and the entry behind
a reference. This file says what a change of one entry and a walk do to that view.

A walk is only as good as the two arenas behind it. `Rooted` is the invariant that ties them
together: a leaf table lies at the end of the path it was made for and of no other. From it follow
the two facts on which everything above rests:

> `Rooted.ref_eq_of_vpn_eq`: a page number has at most one entry.
> `Rooted.walk_page?`: a walk leads to the entry of its address's page number.

Tables only grow, and what a walk adds was never mapped (`Extends`).
-/

namespace DemandPaging

/-- The page with its entry changed. -/
def PageEntry.update (p : PageEntry) (f : Entry → Entry) : PageEntry :=
  { p with entry := f p.entry }

@[simp] theorem PageEntry.entry_update (p : PageEntry) (f : Entry → Entry) :
    (p.update f).entry = f p.entry := rfl

/-- The page number determines the path. -/
theorem pageNumber_inj {i j k i' j' k' : TableIndex}
    (h : pageNumber i j k = pageNumber i' j' k') : i = i' ∧ j = j' ∧ k = k' := by
  have hj := j.isLt
  have hk := k.isLt
  have hj' := j'.isLt
  have hk' := k'.isLt
  unfold pageNumber at h
  simp only [tableSlots] at *
  refine ⟨Fin.ext ?_, Fin.ext ?_, Fin.ext ?_⟩ <;> omega

namespace Directory

/-- What a slot holds. -/
def slot (d : Directory) (i : TableIndex) : Option Nat := d.get i

@[simp] theorem slot_empty (i : TableIndex) : empty.slot i = none :=
  Vector.getElem_replicate i.isLt

/-- Setting one slot of a directory changes no other. -/
theorem slot_set (d : Directory) (i i' : TableIndex) (x : Option Nat) :
    slot (d.set i x i.isLt) i' = if i = i' then x else d.slot i' := by
  show (d.set i x i.isLt)[i'] = if i = i' then x else d[i']
  simp only [Fin.getElem_fin, Vector.getElem_set, Fin.val_inj]

end Directory

namespace PageTable

/-! ## Changing one entry -/

/-- Only the entry that is modified changes. -/
theorem page?_modify (t : PageTable) (r s : EntryRef) (f : Entry → Entry) :
    (t.modify r f).page? s = if s = r then (t.page? s).map (·.update f) else t.page? s := by
  obtain ⟨l, i⟩ := r
  obtain ⟨l', i'⟩ := s
  simp only [page?, modify, Array.getElem?_modify, EntryRef.mk.injEq]
  by_cases hl : l = l'
  · subst hl
    rw [if_pos rfl]
    cases t.leaves[l]? with
    | none => simp
    | some leaf =>
      by_cases hi : i' = i
      · subst hi
        simp [Leaf.modify, Leaf.vpn, PageEntry.update]
      · have hv : i.val ≠ i'.val := fun e => hi (Fin.ext e.symm)
        simp [Leaf.modify, Leaf.vpn, hi, hv]
  · rw [if_neg hl, if_neg (fun h => hl h.1.symm)]

@[simp] theorem page?_modify_self (t : PageTable) (r : EntryRef) (f : Entry → Entry) :
    (t.modify r f).page? r = (t.page? r).map (·.update f) := by
  rw [page?_modify, if_pos rfl]

theorem page?_modify_of_ne {t : PageTable} {r s : EntryRef} {f : Entry → Entry} (h : s ≠ r) :
    (t.modify r f).page? s = t.page? s := by
  rw [page?_modify, if_neg h]

/-- A change that leaves the entry as it is leaves the whole table as it is. -/
theorem modify_eq_self {t : PageTable} {r : EntryRef} {f : Entry → Entry}
    (h : ∀ p, t.page? r = some p → f p.entry = p.entry) : t.modify r f = t := by
  have hleaves : t.leaves.modify r.leaf (fun leaf => leaf.modify r.index f) = t.leaves := by
    refine Array.ext_getElem? fun l => ?_
    rw [Array.getElem?_modify]
    split
    next hl =>
      subst hl
      cases hleaf : t.leaves[r.leaf]? with
      | none => rfl
      | some leaf =>
        have hpage : t.page? r = some ⟨leaf.vpn r.index, leaf.entries[r.index]⟩ := by
          rw [page?, hleaf, Option.map_some]
        have hentry : f leaf.entries[r.index] = leaf.entries[r.index] := h _ hpage
        have hentries : leaf.entries.set r.index (f leaf.entries[r.index]) = leaf.entries := by
          rw [hentry]
          exact Vector.set_getElem_self r.index.isLt
        rw [Option.map_some, Leaf.modify, hentries]
    next => rfl
  unfold modify
  congr

/-- Modifying an entry leaves the way to every address alone. -/
@[simp] theorem lookup_modify (t : PageTable) (r : EntryRef) (f : Entry → Entry) (a : Address) :
    (t.modify r f).lookup a = t.lookup a := rfl

theorem page?_empty (r : EntryRef) : empty.page? r = none := by
  simp [page?, empty]

/-- An entry that is found is in a leaf that exists. -/
theorem lt_leaves_of_page? {t : PageTable} {r : EntryRef} {p : PageEntry}
    (h : t.page? r = some p) : r.leaf < t.leaves.size := by
  obtain ⟨leaf, hleaf, -⟩ := Option.map_eq_some_iff.mp h
  exact (Array.getElem?_eq_some_iff.mp hleaf).1

/-! ## Paths -/

/-- The number of the middle table in a slot of the top table. -/
def midAt? (t : PageTable) (i : TableIndex) : Option Nat := t.top.slot i

/-- The number of the leaf table at the end of a path. -/
def leafAt? (t : PageTable) (i j : TableIndex) : Option Nat :=
  (t.midAt? i).bind fun m => t.mids[m]?.bind (·.slot j)

/-- Behind a middle table the leaf is the one that the table names. -/
theorem leafAt?_of_mid {t : PageTable} {i : TableIndex} {m : Nat} (h : t.midAt? i = some m)
    (hm : m < t.mids.size) (j : TableIndex) : t.leafAt? i j = t.mids[m].slot j := by
  unfold leafAt?
  rw [h, Option.bind_some, Array.getElem?_eq_getElem hm, Option.bind_some]

/-- Where there is no middle table there is no leaf. -/
theorem leafAt?_of_mid_none {t : PageTable} {i : TableIndex} (h : t.midAt? i = none)
    (j : TableIndex) : t.leafAt? i j = none := by
  unfold leafAt?
  rw [h, Option.bind_none]

/-- Looking an address up is finding its leaf. -/
theorem lookup_eq (t : PageTable) (a : Address) :
    t.lookup a = (t.leafAt? a.top a.mid).map fun l => ⟨l, a.bottom⟩ := by
  unfold lookup
  split
  next h => rw [leafAt?_of_mid_none h, Option.map_none]
  next m h =>
    rw [leafAt?_of_mid h (t.top_lt _ _ h)]
    rfl

/-- The tables under a page table are in order: two slots of the top table never number the same
middle table, and a leaf table is at the end of its own path and of no other. -/
structure Rooted (t : PageTable) : Prop where
  mid_inj : ∀ (i i' : TableIndex) (m : Nat), t.midAt? i = some m → t.midAt? i' = some m → i = i'
  leafAt_iff : ∀ (i j : TableIndex) (l : Nat),
    t.leafAt? i j = some l ↔ ∃ leaf, t.leaves[l]? = some leaf ∧ leaf.top = i ∧ leaf.mid = j

theorem rooted_empty : empty.Rooted where
  mid_inj := by simp [midAt?, empty]
  leafAt_iff := by simp [leafAt?, midAt?, empty]

/-- A page number has at most one entry. -/
theorem Rooted.ref_eq_of_vpn_eq {t : PageTable} (h : t.Rooted) {r s : EntryRef}
    {p q : PageEntry} (hr : t.page? r = some p) (hs : t.page? s = some q)
    (hv : p.vpn = q.vpn) : r = s := by
  obtain ⟨leaf, hleaf, rfl⟩ := Option.map_eq_some_iff.mp hr
  obtain ⟨leaf', hleaf', rfl⟩ := Option.map_eq_some_iff.mp hs
  obtain ⟨htop, hmid, hindex⟩ := pageNumber_inj hv
  have hl : t.leafAt? leaf.top leaf.mid = some r.leaf :=
    (h.leafAt_iff _ _ _).mpr ⟨leaf, hleaf, rfl, rfl⟩
  have hl' : t.leafAt? leaf.top leaf.mid = some s.leaf :=
    (h.leafAt_iff _ _ _).mpr ⟨leaf', hleaf', htop.symm, hmid.symm⟩
  rw [hl, Option.some.injEq] at hl'
  cases r
  cases s
  simp only [EntryRef.mk.injEq]
  exact ⟨hl', hindex⟩

/-- A lookup finds the entry of the address's page number. -/
theorem Rooted.page?_of_lookup {t : PageTable} (h : t.Rooted) {a : Address} {r : EntryRef}
    (hr : t.lookup a = some r) : ∃ p, t.page? r = some p ∧ p.vpn = a.vpn := by
  rw [lookup_eq] at hr
  obtain ⟨l, hl, rfl⟩ := Option.map_eq_some_iff.mp hr
  obtain ⟨leaf, hleaf, htop, hmid⟩ := (h.leafAt_iff _ _ _).mp hl
  refine ⟨⟨leaf.vpn a.bottom, leaf.entries[a.bottom]⟩, by simp [page?, hleaf], ?_⟩
  simp only [Leaf.vpn, htop, hmid, Address.vpn]

/-- A page number that has an entry is found under each of its addresses. -/
theorem Rooted.lookup_of_page? {t : PageTable} (h : t.Rooted) {a : Address} {r : EntryRef}
    {p : PageEntry} (hr : t.page? r = some p) (hv : p.vpn = a.vpn) : t.lookup a = some r := by
  obtain ⟨leaf, hleaf, rfl⟩ := Option.map_eq_some_iff.mp hr
  obtain ⟨htop, hmid, hindex⟩ := pageNumber_inj hv
  rw [lookup_eq, (h.leafAt_iff a.top a.mid r.leaf).mpr ⟨leaf, hleaf, htop, hmid⟩, ← hindex]
  rfl

theorem leafAt?_modify (t : PageTable) (r : EntryRef) (f : Entry → Entry) (i j : TableIndex) :
    (t.modify r f).leafAt? i j = t.leafAt? i j := rfl

/-- Modifying an entry keeps the tables in order. -/
theorem Rooted.modify {t : PageTable} (h : t.Rooted) (r : EntryRef) (f : Entry → Entry) :
    (t.modify r f).Rooted where
  mid_inj := h.mid_inj
  leafAt_iff i j l := by
    rw [leafAt?_modify, h.leafAt_iff]
    show _ ↔ ∃ leaf, (t.leaves.modify r.leaf _)[l]? = some leaf ∧ _
    rw [Array.getElem?_modify]
    split
    next hl =>
      refine ⟨?_, ?_⟩
      · intro hex
        obtain ⟨leaf, hleaf, rfl, rfl⟩ := hex
        exact ⟨leaf.modify r.index f, by rw [hleaf]; rfl, rfl, rfl⟩
      · intro hex
        obtain ⟨leaf, hleaf, rfl, rfl⟩ := hex
        obtain ⟨leaf', hleaf', rfl⟩ := Option.map_eq_some_iff.mp hleaf
        exact ⟨leaf', hleaf', rfl, rfl⟩
    next => rfl

/-! ## Walking -/

/-- A middle table is found where it was added, and the others where they were. -/
theorem midAt?_addMid (t : PageTable) (i i' : TableIndex) :
    (t.addMid i).midAt? i' = if i = i' then some t.mids.size else t.midAt? i' :=
  Directory.slot_set t.top i i' _

/-- Entering a middle table, which is empty, ends no path. -/
theorem leafAt?_addMid {t : PageTable} {i : TableIndex} (h : t.midAt? i = none)
    (i' j' : TableIndex) : (t.addMid i).leafAt? i' j' = t.leafAt? i' j' := by
  by_cases hi : i = i'
  · subst hi
    have hmid : (t.addMid i).midAt? i = some t.mids.size := by rw [midAt?_addMid, if_pos rfl]
    rw [leafAt?_of_mid hmid (by simp [addMid]), leafAt?_of_mid_none h]
    simp [addMid]
  · have hmid : (t.addMid i).midAt? i' = t.midAt? i' := by rw [midAt?_addMid, if_neg hi]
    cases hm : t.midAt? i' with
    | none => rw [leafAt?_of_mid_none hm, leafAt?_of_mid_none (hmid.trans hm)]
    | some m =>
      have hlt : m < t.mids.size := t.top_lt _ _ hm
      rw [leafAt?_of_mid hm hlt, leafAt?_of_mid (hmid.trans hm) (by simp [addMid]; omega)]
      simp [addMid, Array.getElem_push, hlt]

/-- A new middle table leads to no leaf, so the tables stay in order. -/
theorem Rooted.addMid {t : PageTable} (h : t.Rooted) {i : TableIndex} (hi : t.midAt? i = none) :
    (t.addMid i).Rooted where
  mid_inj k k' m hk hk' := by
    -- the new number is not in the old table, so a shared number is an old one
    rw [midAt?_addMid] at hk hk'
    split at hk <;> split at hk'
    next h1 h2 => exact h1.symm.trans h2
    next h1 h2 =>
      have hlt := t.top_lt _ _ hk'
      simp only [Option.some.injEq] at hk
      omega
    next h1 h2 =>
      have hlt := t.top_lt _ _ hk
      simp only [Option.some.injEq] at hk'
      omega
    next h1 h2 => exact h.mid_inj k k' m hk hk'
  leafAt_iff k j l := by
    rw [leafAt?_addMid hi]
    exact h.leafAt_iff k j l

/-- Entering a leaf table ends its path and no other. -/
theorem leafAt?_addLeaf {t : PageTable} (h : t.Rooted) {i j : TableIndex} {m : Nat}
    (hi : t.midAt? i = some m) (hm : m < t.mids.size) (i' j' : TableIndex) :
    (t.addLeaf i j m hm).leafAt? i' j'
      = if i' = i ∧ j' = j then some t.leaves.size else t.leafAt? i' j' := by
  cases hi' : t.midAt? i' with
  | none =>
    have hne : i' ≠ i := by
      intro heq
      subst heq
      rw [hi] at hi'
      simp at hi'
    have hmid : (t.addLeaf i j m hm).midAt? i' = none := hi'
    rw [leafAt?_of_mid_none hmid, leafAt?_of_mid_none hi', if_neg (fun e => hne e.1)]
  | some n =>
    have hn : n < t.mids.size := t.top_lt _ _ hi'
    have hmid : (t.addLeaf i j m hm).midAt? i' = some n := hi'
    rw [leafAt?_of_mid hmid (by simpa [addLeaf] using hn), leafAt?_of_mid hi' hn]
    by_cases hmn : m = n
    · -- the middle table that the leaf was entered in is at one slot of the top table
      subst hmn
      have hii : i' = i := h.mid_inj _ _ _ hi' hi
      by_cases hj : j' = j
      · subst hj
        simp [addLeaf, hii, Directory.slot_set]
      · simp [addLeaf, hj, Directory.slot_set, Ne.symm hj]
    · have hii : i' ≠ i := by
        intro heq
        subst heq
        rw [hi, Option.some.injEq] at hi'
        exact hmn hi'
      rw [if_neg (fun e => hii e.1)]
      simp [addLeaf, Array.getElem_set, hmn]

/-- A new leaf is reached in one way only. -/
theorem Rooted.addLeaf {t : PageTable} (h : t.Rooted) {i j : TableIndex} {m : Nat}
    (hi : t.midAt? i = some m) (hm : m < t.mids.size) (hj : t.leafAt? i j = none) :
    (t.addLeaf i j m hm).Rooted where
  mid_inj := h.mid_inj
  leafAt_iff i' j' l := by
    rw [leafAt?_addLeaf h hi hm]
    show _ ↔ ∃ leaf, (t.leaves.push (Leaf.empty i j))[l]? = some leaf ∧ _
    rw [Array.getElem?_push]
    by_cases hl : l = t.leaves.size
    · -- the new table: no path ended there before
      subst hl
      rw [if_pos rfl]
      by_cases hij : i' = i ∧ j' = j
      · obtain ⟨rfl, rfl⟩ := hij
        simp [Leaf.empty]
      · rw [if_neg hij, h.leafAt_iff]
        refine ⟨?_, ?_⟩
        · intro hex
          obtain ⟨leaf, hleaf, -⟩ := hex
          simp at hleaf
        · intro hex
          obtain ⟨leaf, hleaf, rfl, rfl⟩ := hex
          simp only [Option.some.injEq] at hleaf
          subst hleaf
          exact absurd ⟨rfl, rfl⟩ hij
    · -- an old table, and the new path did not end in one before
      rw [if_neg hl]
      by_cases hij : i' = i ∧ j' = j
      · obtain ⟨rfl, rfl⟩ := hij
        rw [if_pos ⟨rfl, rfl⟩]
        refine ⟨?_, ?_⟩
        · intro e
          exact absurd (Option.some.inj e).symm hl
        · intro hleaf
          rw [← h.leafAt_iff, hj] at hleaf
          simp at hleaf
      · rw [if_neg hij, h.leafAt_iff]

/-- `t'` has the pages of `t` as they are, and beside them only pages that were never mapped. -/
structure Extends (t t' : PageTable) : Prop where
  kept : ∀ r p, t.page? r = some p → t'.page? r = some p
  fresh : ∀ r p, t'.page? r = some p →
    t.page? r = some p ∨ t.page? r = none ∧ p.entry = Entry.unmapped

/-- Middle tables add no entries. -/
theorem extends_of_leaves_eq {t t' : PageTable} (h : t'.leaves = t.leaves) : Extends t t' where
  kept r p hr := by rw [page?, h]; exact hr
  fresh r p hr := by rw [page?, h] at hr; exact Or.inl hr

/-- A new leaf brings unmapped entries and changes none. -/
theorem extends_of_leaves_push {t t' : PageTable} {i j : TableIndex}
    (h : t'.leaves = t.leaves.push (Leaf.empty i j)) : Extends t t' where
  kept r p hr := by
    obtain ⟨leaf, hleaf, rfl⟩ := Option.map_eq_some_iff.mp hr
    have hlt : r.leaf < t.leaves.size := (Array.getElem?_eq_some_iff.mp hleaf).1
    rw [page?, h, Array.getElem?_push_lt hlt, ← Array.getElem?_eq_getElem hlt, hleaf]
    rfl
  fresh r p hr := by
    obtain ⟨leaf, hleaf, rfl⟩ := Option.map_eq_some_iff.mp hr
    rw [h, Array.getElem?_push] at hleaf
    split at hleaf
    next hl =>
      right
      simp only [Option.some.injEq] at hleaf
      subst hleaf
      exact ⟨by simp [page?, hl], by simp [Leaf.empty]⟩
    next => exact Or.inl (by simp [page?, hleaf])

theorem Extends.trans {t₁ t₂ t₃ : PageTable} (h₁ : Extends t₁ t₂) (h₂ : Extends t₂ t₃) :
    Extends t₁ t₃ where
  kept r p hr := h₂.kept r p (h₁.kept r p hr)
  fresh r p hr := by
    rcases h₂.fresh r p hr with hr' | ⟨hnone, hp⟩
    · exact h₁.fresh r p hr'
    · refine Or.inr ⟨?_, hp⟩
      cases h : t₁.page? r with
      | none => rfl
      | some q => rw [h₁.kept r q h] at hnone; simp at hnone

/-- The part of a walk below the top table keeps the tables in order and ends at the path of its
address. -/
theorem Rooted.walkMid {t : PageTable} (h : t.Rooted) {a : Address} {m : Nat}
    (htop : t.midAt? a.top = some m) (hm : m < t.mids.size) (made : List NewTable) :
    (t.walkMid a m hm made).table.Rooted ∧
      (t.walkMid a m hm made).table.lookup a = some (t.walkMid a m hm made).ref ∧
      Extends t (t.walkMid a m hm made).table := by
  have hat : t.leafAt? a.top a.mid = t.mids[m][a.mid] := leafAt?_of_mid htop hm a.mid
  unfold PageTable.walkMid
  split
  next l hl =>
    refine ⟨h, ?_, extends_of_leaves_eq rfl⟩
    rw [lookup_eq, hat, hl]
    rfl
  next hl =>
    refine ⟨h.addLeaf htop hm (hat.trans hl), ?_, extends_of_leaves_push rfl⟩
    rw [lookup_eq, leafAt?_addLeaf h htop hm, if_pos ⟨rfl, rfl⟩]
    rfl

/-- A walk ends at the entry of its address, and only adds to the tables. -/
theorem Rooted.walk_spec {t : PageTable} (h : t.Rooted) (a : Address) :
    (t.walk a).table.Rooted ∧ (t.walk a).table.lookup a = some (t.walk a).ref ∧
      Extends t (t.walk a).table := by
  unfold walk
  split
  next m hm => exact h.walkMid hm (t.top_lt _ _ hm) []
  next hm =>
    have htop : (t.addMid a.top).midAt? a.top = some t.mids.size := by
      rw [midAt?_addMid, if_pos rfl]
    obtain ⟨hrooted, hlookup, hext⟩ := (h.addMid hm).walkMid htop (by simp [PageTable.addMid])
      [.mid (t.mids.size + 1) a.top]
    have hadd : Extends t (t.addMid a.top) := extends_of_leaves_eq rfl
    exact ⟨hrooted, hlookup, hadd.trans hext⟩

theorem Rooted.walk {t : PageTable} (h : t.Rooted) (a : Address) : (t.walk a).table.Rooted :=
  (h.walk_spec a).1

/-- A walk leads where a later lookup leads. -/
theorem Rooted.lookup_walk {t : PageTable} (h : t.Rooted) (a : Address) :
    (t.walk a).table.lookup a = some (t.walk a).ref :=
  (h.walk_spec a).2.1

theorem Rooted.extends_walk {t : PageTable} (h : t.Rooted) (a : Address) :
    Extends t (t.walk a).table :=
  (h.walk_spec a).2.2

/-- A walk leads to the entry of its address's page number. -/
theorem Rooted.walk_page? {t : PageTable} (h : t.Rooted) (a : Address) :
    ∃ p, (t.walk a).table.page? (t.walk a).ref = some p ∧ p.vpn = a.vpn :=
  (h.walk a).page?_of_lookup (h.lookup_walk a)

end PageTable

end DemandPaging
