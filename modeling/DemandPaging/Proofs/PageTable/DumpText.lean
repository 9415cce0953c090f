import DemandPaging.PageTable.Dump
import DemandPaging.Proofs.PageTable.Mapped
import DemandPaging.Proofs.Text.Shown

/-!
# What the dump of a page table tells

The dump is a header and a row for each page that was ever mapped. A row is made of words: `vpn`,
the page number in nine digits, and those that say where the page is (`Entry.placeWords`). No word
has a blank in it and no row a line feed, so a dump is taken apart into its rows, and a row into its
words, in one way only.

> `splitOn_dump`: the lines of the dump.
> `shownBy_of_mem_rows`: a row shows its page, as all page numbers fit into nine digits.
> `ShownBy.unique`: one row shows one page in one place.
> `Rooted.sameView_of_dump_eq`: page tables with the same dump have the same pages mapped, in the
> same places and with the same marks.
-/

namespace DemandPaging

open Text (words decimal hex HexDigits VisibleWord)

/-! ## Where a page is -/

namespace Entry

/-- The marks of a resident page. -/
def markWords (dirty referenced : Bool) : List (List Char) :=
  (if dirty then [['D']] else []) ++ (if referenced then [['R']] else [])

/-- Different marks are shown differently. -/
theorem markWords_inj {dirty dirty' referenced referenced' : Bool} :
    markWords dirty referenced = markWords dirty' referenced' ↔
      dirty = dirty' ∧ referenced = referenced' := by
  revert dirty dirty' referenced referenced'
  decide

/-- Marks are shown as visible words. -/
theorem visibleWord_markWords {dirty referenced : Bool} :
    ∀ w ∈ markWords dirty referenced, VisibleWord w := by
  revert dirty referenced
  decide

/-- The words that say where a page is: its frame and its marks, or its offset. -/
def placeWords (e : Entry) : List (List Char) :=
  match e.residency with
  | .unmapped => []
  | .resident frame _ =>
    "->".toList :: "frame".toList :: decimal frame :: markWords e.dirty e.referenced
  | .onSwap offset => ["->".toList, "swap".toList, '0' :: 'x' :: hex offset.byte]

/-- Both are in the same frame with the same marks, or both are on swap at the same offset, or both
were never mapped. -/
structure LooksLike (e e' : Entry) : Prop where
  frame : e.frame? = e'.frame?
  offset : e.swapOffset? = e'.swapOffset?
  marks : e.frame?.isSome → e.dirty = e'.dirty ∧ e.referenced = e'.referenced

/-- Where a page is is shown as words with blanks between them. -/
theorem toList_placeText (e : Entry) : e.placeText.toList = [' '].intercalate e.placeWords := by
  obtain ⟨residency, dirty, referenced⟩ := e
  unfold placeText placeWords
  cases residency with
  | unmapped => rfl
  | resident frame slot =>
    dsimp only
    rw [String.toList_append, String.toList_append, String.toList_append,
      Nat.toString_eq_ofList_toDigits, String.toList_ofList, String.toList_ofList]
    cases dirty <;> cases referenced <;> simp [List.intercalate_cons_cons, markWords, decimal]
  | onSwap offset =>
    dsimp only [SwapOffset.text, Text.hexText]
    rw [String.toList_append, String.toList_append, String.toList_ofList, String.toList_ofList,
      String.toList_ofList]
    simp [List.intercalate_cons_cons]

theorem visibleWord_placeWords (e : Entry) : ∀ w ∈ e.placeWords, VisibleWord w := by
  obtain ⟨residency, dirty, referenced⟩ := e
  unfold placeWords
  cases residency with
  | unmapped => exact fun w hw => absurd hw List.not_mem_nil
  | resident frame slot =>
    simp only [List.forall_mem_cons]
    exact ⟨by decide, by decide, Text.visibleWord_decimal frame, visibleWord_markWords⟩
  | onSwap offset =>
    simp only [List.forall_mem_cons]
    exact ⟨by decide, by decide, Text.visibleWord_marked (Text.visibleWord_hex offset.byte).2,
      fun w hw => absurd hw List.not_mem_nil⟩

theorem placeWords_ne_nil {e : Entry} (h : e.isUnmapped = false) : e.placeWords ≠ [] := by
  unfold isUnmapped at h
  unfold placeWords
  cases hresidency : e.residency with
  | unmapped => simp [hresidency] at h
  | resident frame slot => exact List.cons_ne_nil _ _
  | onSwap offset => exact List.cons_ne_nil _ _

/-- The words tell one place, with its marks. -/
theorem looksLike_of_placeWords_eq {e e' : Entry} (h : e.placeWords = e'.placeWords) :
    e.LooksLike e' := by
  obtain ⟨residency, dirty, referenced⟩ := e
  obtain ⟨residency', dirty', referenced'⟩ := e'
  have hdecimal : ∀ {n n' : Nat}, decimal n = decimal n' → n = n' :=
    (Text.toDigits_inj (by decide) (by decide)).mp
  have hhex : ∀ {n n' : Nat}, hex n = hex n' → n = n' :=
    (Text.toDigits_inj (by decide) (by decide)).mp
  unfold placeWords at h
  cases residency with
  | unmapped =>
    cases residency' with
    | unmapped => exact ⟨rfl, rfl, fun hnone => absurd hnone Bool.false_ne_true⟩
    | resident frame' slot' => simp at h
    | onSwap offset' => simp at h
  | resident frame slot =>
    cases residency' with
    | unmapped => simp at h
    | resident frame' slot' =>
      simp only [List.cons.injEq, true_and] at h
      obtain ⟨hframe, hmarks⟩ := h
      exact ⟨congrArg some (hdecimal hframe), rfl, fun _ => markWords_inj.mp hmarks⟩
    | onSwap offset' => simp at h
  | onSwap offset =>
    cases residency' with
    | unmapped => simp at h
    | resident frame' slot' => simp at h
    | onSwap offset' =>
      simp only [List.cons.injEq, true_and, and_true] at h
      have hbyte : offset = offset' := by
        cases offset
        cases offset'
        exact congrArg SwapOffset.mk (hhex h)
      exact ⟨rfl, congrArg some hbyte, fun hnone => absurd hnone Bool.false_ne_true⟩

end Entry

/-! ## One row -/

/-- All page numbers fit into nine digits. -/
theorem pageNumber_lt (i j k : TableIndex) : pageNumber i j k < 16 ^ 9 := by
  have hi := i.isLt
  have hj := j.isLt
  have hk := k.isLt
  unfold pageNumber
  simp only [tableSlots] at *
  omega

namespace PageEntry

variable {p p' : PageEntry} {line : List Char}

/-- The line of a page, without its line feed. -/
def row (p : PageEntry) : List Char :=
  "  vpn ".toList ++ (Text.hexPadded 9 p.vpn).toList ++ ' ' :: p.entry.placeText.toList

/-- The line of a page is its row and a line feed. -/
theorem toList_line (p : PageEntry) : p.line.toList = p.row ++ ['\n'] := by
  have hspace : " ".toList = [' '] := rfl
  have hfeed : "\n".toList = ['\n'] := rfl
  unfold PageEntry.line row
  rw [String.toList_append, String.toList_append, String.toList_append, String.toList_append,
    hspace, hfeed, List.append_assoc _ [' '], List.singleton_append]

/-- A line shows a page: behind two blanks it has `vpn`, the page number as `0x` and nine digits,
and where the page is. -/
def ShownBy (p : PageEntry) (line : List Char) : Prop :=
  ∃ digits, HexDigits 9 p.vpn digits ∧
    line = ' ' :: ' ' ::
      [' '].intercalate ("vpn".toList :: ('0' :: 'x' :: digits) :: p.entry.placeWords)

/-- The row of a page shows it. -/
theorem shownBy_row (hvpn : p.vpn < 16 ^ 9) (hmapped : p.entry.isUnmapped = false) :
    p.ShownBy p.row := by
  obtain ⟨digits, hpadded, hdigits⟩ := Text.hexPadded_digits (by decide) hvpn
  obtain ⟨w, ws, hwords⟩ := List.exists_cons_of_ne_nil (Entry.placeWords_ne_nil hmapped)
  refine ⟨digits, hdigits, ?_⟩
  unfold row
  rw [hpadded, Entry.toList_placeText, hwords, List.intercalate_cons_cons,
    List.intercalate_cons_cons]
  simp

example : row ⟨0x1002, ⟨.resident 0 none, true, false⟩⟩
    = "  vpn 0x000001002 -> frame 0 D".toList := by
  decide

/-- All words of a line are visible. -/
theorem visibleWords {digits : List Char} (hdigits : HexDigits 9 p.vpn digits) :
    ∀ w ∈ "vpn".toList :: ('0' :: 'x' :: digits) :: p.entry.placeWords, VisibleWord w := by
  simp only [List.forall_mem_cons]
  exact ⟨by decide, Text.visibleWord_marked hdigits.visible, p.entry.visibleWord_placeWords⟩

/-- The words of such a line. -/
theorem ShownBy.words_eq (h : p.ShownBy line) :
    ∃ digits, HexDigits 9 p.vpn digits ∧
      words line = "vpn".toList :: ('0' :: 'x' :: digits) :: p.entry.placeWords := by
  obtain ⟨digits, hdigits, rfl⟩ := h
  have hblank : Text.Blank [' ', ' '] :=
    List.forall_mem_cons.mpr ⟨by decide, List.forall_mem_singleton.mpr (by decide)⟩
  refine ⟨digits, hdigits, ?_⟩
  exact (Text.words_append_of_blank hblank _).trans
    (Text.words_intercalate fun w hw => (visibleWords hdigits w hw).isWord)

/-- One line shows one page in one place. -/
theorem ShownBy.unique (h : p.ShownBy line) (h' : p'.ShownBy line) :
    p.vpn = p'.vpn ∧ p.entry.LooksLike p'.entry := by
  obtain ⟨digits, hdigits, hwords⟩ := h.words_eq
  obtain ⟨digits', hdigits', hwords'⟩ := h'.words_eq
  rw [hwords] at hwords'
  simp only [List.cons.injEq, true_and] at hwords'
  obtain ⟨rfl, hplace⟩ := hwords'
  exact ⟨hdigits.unique hdigits', Entry.looksLike_of_placeWords_eq hplace⟩

/-- A line that shows a page has no line feed inside. -/
theorem ShownBy.feed_not_mem (h : p.ShownBy line) : '\n' ∉ line := by
  obtain ⟨digits, hdigits, rfl⟩ := h
  have hwords := Text.feed_not_mem_intercalate (visibleWords hdigits)
  rw [List.mem_cons, List.mem_cons]
  rintro (hfeed | hfeed | hfeed)
  · exact absurd hfeed (by decide)
  · exact absurd hfeed (by decide)
  · exact hwords hfeed

end PageEntry

/-! ## The whole dump -/

namespace PageTable

variable {t t' : PageTable}

/-- The words of the first line. -/
def headerWords (mids leaves : Nat) : List (List Char) :=
  ["page".toList, "table:".toList, decimal mids, "mid".toList, "tables,".toList, decimal leaves,
    "leaf".toList, "tables".toList]

/-- The words of the first line are visible. -/
theorem visibleWord_headerWords (mids leaves : Nat) :
    ∀ w ∈ headerWords mids leaves, VisibleWord w := by
  simp only [headerWords, List.forall_mem_cons]
  exact ⟨by decide, by decide, Text.visibleWord_decimal mids, by decide, by decide,
    Text.visibleWord_decimal leaves, by decide, by decide, fun w hw => absurd hw List.not_mem_nil⟩

/-- The first line of a dump with so many tables. -/
def headerLine (mids leaves : Nat) : List Char := [' '].intercalate (headerWords mids leaves)

/-- The first line tells how many tables of each kind there are. -/
theorem toList_header (t : PageTable) :
    t.header.toList = headerLine t.mids.size t.leaves.size ++ ['\n'] := by
  unfold header headerLine headerWords
  rw [String.toList_append, String.toList_append, String.toList_append, String.toList_append,
    Nat.toString_eq_ofList_toDigits, Nat.toString_eq_ofList_toDigits]
  simp [List.intercalate_cons_cons, decimal]

/-- The pages of the listing. -/
def rows (t : PageTable) : List PageEntry := t.mapped.map (·.2)

/-- The listing has the mapped pages and no others. -/
theorem mem_rows {p : PageEntry} :
    p ∈ t.rows ↔ ∃ r, t.page? r = some p ∧ p.entry.isUnmapped = false := by
  unfold rows
  rw [List.mem_map]
  refine ⟨?_, ?_⟩
  · rintro ⟨⟨r, p⟩, hmem, rfl⟩
    exact ⟨r, mem_mapped.mp hmem⟩
  · rintro ⟨r, hp⟩
    exact ⟨(r, p), mem_mapped.mpr hp, rfl⟩

/-- Every page of the listing is shown by its row. -/
theorem shownBy_of_mem_rows {p : PageEntry} (h : p ∈ t.rows) : p.ShownBy p.row := by
  obtain ⟨r, hp, hmapped⟩ := mem_rows.mp h
  obtain ⟨leaf, -, rfl⟩ := Option.map_eq_some_iff.mp hp
  exact PageEntry.shownBy_row (pageNumber_lt _ _ _) hmapped

/-- A dump is the first line and the rows, each with its line feed. -/
theorem toList_dump (t : PageTable) : t.dump.toList
    = (headerLine t.mids.size t.leaves.size :: t.rows.map PageEntry.row).flatMap (· ++ ['\n']) := by
  have hrows : (String.join (t.rows.map PageEntry.line)).toList
      = (t.rows.map PageEntry.row).flatMap (· ++ ['\n']) := by
    rw [String.toList_join, List.flatMap_map, List.flatMap_map]
    exact List.flatMap_congr fun p _ => p.toList_line
  have hmap : (t.mapped.map fun m => m.2.line) = t.rows.map PageEntry.line := by
    unfold rows
    rw [List.map_map]
    rfl
  unfold dump
  rw [hmap, String.toList_append, toList_header, hrows]
  rfl

/-- The lines of the dump. -/
theorem splitOn_dump (t : PageTable) : t.dump.toList.splitOn '\n'
    = headerLine t.mids.size t.leaves.size :: t.rows.map PageEntry.row ++ [[]] := by
  have hheader : '\n' ∉ headerLine t.mids.size t.leaves.size :=
    Text.feed_not_mem_intercalate (visibleWord_headerWords _ _)
  have hrows : ∀ line ∈ t.rows.map PageEntry.row, '\n' ∉ line := by
    rw [List.forall_mem_map]
    exact fun p hp => (shownBy_of_mem_rows hp).feed_not_mem
  rw [toList_dump]
  exact Text.splitOn_ended (List.forall_mem_cons.mpr ⟨hheader, hrows⟩)

/-! ## Two dumps -/

/-- The entry of an address, if there is a leaf table for it. -/
def entryAt? (t : PageTable) (a : Address) : Option Entry := (t.lookup a).bind t.entry?

/-- The page of an address is in a frame, with such marks. -/
def InFrame (t : PageTable) (a : Address) (frame : Nat) (dirty referenced : Bool) : Prop :=
  ∃ slot, t.entryAt? a = some ⟨.resident frame slot, dirty, referenced⟩

/-- The page of an address is on swap. -/
def OnSwap (t : PageTable) (a : Address) (offset : SwapOffset) : Prop :=
  ∃ dirty referenced, t.entryAt? a = some ⟨.onSwap offset, dirty, referenced⟩

/-- The same pages are mapped; those in frames are in the same frames with the same marks, and
those on swap at the same offsets. -/
structure SameView (t t' : PageTable) : Prop where
  mapped : ∀ v, v ∈ t.mappedPages ↔ v ∈ t'.mappedPages
  inFrame : ∀ a frame dirty referenced,
    t.InFrame a frame dirty referenced ↔ t'.InFrame a frame dirty referenced
  onSwap : ∀ a offset, t.OnSwap a offset ↔ t'.OnSwap a offset

/-- The listing has the page of an address with the entry that a lookup finds. -/
theorem Rooted.mem_rows (h : t.Rooted) {a : Address} {e : Entry} :
    ⟨a.vpn, e⟩ ∈ t.rows ↔ t.entryAt? a = some e ∧ e.isUnmapped = false := by
  rw [PageTable.mem_rows]
  unfold entryAt? entry?
  refine ⟨?_, ?_⟩
  · rintro ⟨r, hp, hmapped⟩
    rw [h.lookup_of_page? hp rfl, Option.bind_some, hp]
    exact ⟨rfl, hmapped⟩
  · rintro ⟨hentry, hmapped⟩
    obtain ⟨r, hlookup, hr⟩ := Option.bind_eq_some_iff.mp hentry
    obtain ⟨⟨v, e⟩, hp, hv⟩ := h.page?_of_lookup hlookup
    rw [hp, Option.map_some, Option.some.injEq] at hr
    dsimp only at hv hr
    subst hv hr
    exact ⟨r, hp, hmapped⟩

/-- Where the dumps are the same, each row of one is a row of the other. -/
theorem exists_row_of_dump_eq (hdump : t.dump = t'.dump) {p : PageEntry} (hp : p ∈ t.rows) :
    ∃ p' ∈ t'.rows, p'.vpn = p.vpn ∧ p.entry.LooksLike p'.entry := by
  have hlines := t.splitOn_dump
  rw [hdump, t'.splitOn_dump, List.append_cancel_right_eq, List.cons.injEq] at hlines
  have hrow : p.row ∈ t'.rows.map PageEntry.row := hlines.2 ▸ List.mem_map_of_mem hp
  obtain ⟨p', hp', heq⟩ := List.mem_map.mp hrow
  have hshown : p'.ShownBy p.row := heq ▸ shownBy_of_mem_rows hp'
  obtain ⟨hvpn, hlooks⟩ := (shownBy_of_mem_rows hp).unique hshown
  exact ⟨p', hp', hvpn.symm, hlooks⟩

/-- Tables with the same dump have the same pages mapped. -/
theorem mem_mappedPages_of_dump_eq (hdump : t.dump = t'.dump) {v : Nat}
    (hv : v ∈ t.mappedPages) : v ∈ t'.mappedPages := by
  obtain ⟨x, hx, rfl⟩ := List.mem_map.mp hv
  have hrow : x.2 ∈ t.rows := List.mem_map_of_mem hx
  obtain ⟨p', hp', hvpn, -⟩ := exists_row_of_dump_eq hdump hrow
  obtain ⟨r, hpage, hmapped⟩ := PageTable.mem_rows.mp hp'
  exact mem_mappedPages.mpr ⟨r, p', hpage, hmapped, hvpn⟩

/-- Where the dumps are the same, an address that is mapped is mapped in the other table too, and
its entry looks the same. -/
theorem Rooted.entryAt?_of_dump_eq (h : t.Rooted) (h' : t'.Rooted) (hdump : t.dump = t'.dump)
    {a : Address} {e : Entry} (he : t.entryAt? a = some e) (hmapped : e.isUnmapped = false) :
    ∃ e', t'.entryAt? a = some e' ∧ e.LooksLike e' := by
  obtain ⟨⟨v, e'⟩, hp', hvpn, hlooks⟩ :=
    exists_row_of_dump_eq hdump (h.mem_rows.mpr ⟨he, hmapped⟩)
  dsimp only at hvpn
  subst hvpn
  exact ⟨e', (h'.mem_rows.mp hp').1, hlooks⟩

/-- Tables with the same dump have a page in the same frame, with the same marks. -/
theorem Rooted.inFrame_of_dump_eq (h : t.Rooted) (h' : t'.Rooted) (hdump : t.dump = t'.dump)
    {a : Address} {frame : Nat} {dirty referenced : Bool}
    (hin : t.InFrame a frame dirty referenced) : t'.InFrame a frame dirty referenced := by
  obtain ⟨slot, he⟩ := hin
  obtain ⟨⟨residency, dirty', referenced'⟩, he', hlooks⟩ := h.entryAt?_of_dump_eq h' hdump he rfl
  obtain ⟨rfl, rfl⟩ := hlooks.marks rfl
  have hframe := hlooks.frame
  cases residency with
  | unmapped => simp [Entry.frame?] at hframe
  | resident frame' slot' =>
    obtain rfl := Option.some.inj hframe
    exact ⟨slot', he'⟩
  | onSwap offset => simp [Entry.frame?] at hframe

/-- Tables with the same dump have a page on swap at the same offset. -/
theorem Rooted.onSwap_of_dump_eq (h : t.Rooted) (h' : t'.Rooted) (hdump : t.dump = t'.dump)
    {a : Address} {offset : SwapOffset} (hon : t.OnSwap a offset) : t'.OnSwap a offset := by
  obtain ⟨dirty, referenced, he⟩ := hon
  obtain ⟨⟨residency, dirty', referenced'⟩, he', hlooks⟩ := h.entryAt?_of_dump_eq h' hdump he rfl
  have hoffset := hlooks.offset
  cases residency with
  | unmapped => simp [Entry.swapOffset?] at hoffset
  | resident frame slot => simp [Entry.swapOffset?] at hoffset
  | onSwap offset' =>
    obtain rfl := Option.some.inj hoffset
    exact ⟨dirty', referenced', he'⟩

/-- The dump tells all that `SameView` is about. -/
theorem Rooted.sameView_of_dump_eq (h : t.Rooted) (h' : t'.Rooted) (hdump : t.dump = t'.dump) :
    t.SameView t' where
  mapped _ := ⟨mem_mappedPages_of_dump_eq hdump, mem_mappedPages_of_dump_eq hdump.symm⟩
  inFrame _ _ _ _ :=
    ⟨h.inFrame_of_dump_eq h' hdump, h'.inFrame_of_dump_eq h hdump.symm⟩
  onSwap _ _ := ⟨h.onSwap_of_dump_eq h' hdump, h'.onSwap_of_dump_eq h hdump.symm⟩

end PageTable

end DemandPaging
