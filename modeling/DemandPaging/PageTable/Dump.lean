import DemandPaging.PageTable.Basic

/-!
# The page table as text

A header with the numbers of tables, then one line for every page that was ever mapped: its page
number in nine hexadecimal digits, and where it is. A resident page shows its frame, then `D` if
it is dirty and `R` if it is referenced; a page on swap shows its offset.
-/

namespace DemandPaging

/-- Where a page is, as a line of the dump says it. -/
def Entry.placeText (e : Entry) : String :=
  match e.residency with
  | .unmapped => ""
  | .resident frame _ =>
    "-> frame " ++ toString frame ++ (if e.dirty then " D" else "") ++
      (if e.referenced then " R" else "")
  | .onSwap offset => "-> swap " ++ offset.text

/-- One line of the dump. -/
def PageEntry.line (p : PageEntry) : String :=
  "  vpn " ++ Text.hexPadded 9 p.vpn ++ " " ++ p.entry.placeText ++ "\n"

namespace PageTable

/-- The first line of the dump. -/
def header (t : PageTable) : String :=
  "page table: " ++ toString t.mids.size ++ " mid tables, " ++ toString t.leaves.size ++
    " leaf tables\n"

/-- The whole dump. -/
def dump (t : PageTable) : String :=
  t.header ++ String.join (t.mapped.map fun m => m.2.line)

end PageTable

end DemandPaging
