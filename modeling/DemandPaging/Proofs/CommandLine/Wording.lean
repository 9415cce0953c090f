import DemandPaging.Counters
import DemandPaging.Error
import DemandPaging.Proofs.Decimal.Rounding

/-!
# The words of reports and refusals

A report is ten lines, each with a label and what is counted under it (`ReportText`). The two rates
are shares in percent (`ShareText`): the quotient of two floating-point numbers, scaled, with four
places. A refusal is worded by its cause (`Worded`), with the facts that belong to it in decimal,
but addresses and offsets in hexadecimal.

> `Report.text_eq_iff`: a report has one text, made of these lines.
> `message_eq_iff`: a cause has one message, and this is it.
-/

namespace DemandPaging

/-! ## Reports -/

/-- The text shows a share in percent. The share of nothing is zero. -/
def ShareText (part whole : Nat) (text : String) : Prop :=
  let share : Float :=
    if whole = 0 then 0 else (UInt64.ofNat part).toFloat / (UInt64.ofNat whole).toFloat * 100
  ∃ num, Decimal.Double share.toBits num ∧ Decimal.Writes 4 num (2 ^ 1075) text

/-- The text reports these counters and this footprint, and the time as it is given. -/
inductive ReportText (c : Counters) (footprint : Nat) (time : String) : String → Prop where
  | lines {hitRate missRate : String} (hits : ShareText c.hits c.references hitRate)
      (misses : ShareText c.misses c.references missRate) :
      ReportText c footprint time
        ("Hit count: " ++ toString c.hits ++
          "\nMiss count: " ++ toString c.misses ++
          "\nClean evictions: " ++ toString c.cleanEvictions ++
          "\nDirty evictions: " ++ toString c.dirtyEvictions ++
          "\nTotal references: " ++ toString c.references ++
          "\nHit rate: " ++ hitRate ++
          "\nMiss rate: " ++ missRate ++
          "\nValue mismatches: " ++ toString c.mismatches ++
          "\nTime to run simulation: " ++ time ++
          "\nMemory used by simulation: " ++ toString footprint ++ " bytes")

/-- A rate is written as the one text that shows the share. -/
theorem rateText_eq_iff {part whole : Nat} {text : String} :
    Counters.rateText (Counters.percent part whole) = text ↔ ShareText part whole text :=
  Decimal.fixedOfFloat_eq_iff (by decide)

/-- A report has one text, and it is made of these lines. -/
theorem Report.text_eq_iff {r : Report} {time text : String} :
    r.text time = text ↔ ReportText r.counters r.footprint time text := by
  refine ⟨?_, ?_⟩
  · rintro rfl
    exact .lines (rateText_eq_iff.mp rfl) (rateText_eq_iff.mp rfl)
  · rintro ⟨hits, misses⟩
    rw [← rateText_eq_iff.mpr hits, ← rateText_eq_iff.mpr misses]
    rfl

/-! ## Refusals -/

/-- The message of a trace line that cannot be replayed. -/
inductive LineError.Worded : LineError → String → Prop where
  | malformed (line : Nat) (text : String) :
      Worded (.malformed line text) ("Invalid trace line " ++ toString line ++ ": " ++ text)
  | invalidKind (line : Nat) (text : String) :
      Worded (.invalidKind line text) ("Invalid reftype, line " ++ toString line ++ ": " ++ text)
  | invalidOffset (line : Nat) (text : String) :
      Worded (.invalidOffset line text)
        ("Invalid vaddr, offset must be in range of simulated page frame size, line " ++
          toString line ++ ": " ++ text)
  | unreadable (line : Nat) (reason : String) :
      Worded (.unreadable line reason)
        ("Failed to read trace at line " ++ toString line ++ ": " ++ reason)

/-- The message of a cause. -/
inductive PagingError.Worded : PagingError → String → Prop where
  | trace {e : LineError} {text : String} (line : e.Worded text) : Worded (.trace e) text
  | io (reason : String) : Worded (.io reason) ("IO error: " ++ reason)
  | invalidConfig (reason : String) :
      Worded (.invalidConfig reason) ("Invalid configuration: " ++ reason)
  | unknownAlgorithm (name : String) :
      Worded (.unknownAlgorithm name) ("invalid replacement algorithm - " ++ name)
  | swapExhausted (frame capacity : Nat) :
      Worded (.swapExhausted frame capacity)
        ("Swap exhausted while evicting frame " ++ toString frame ++
          " (capacity " ++ toString capacity ++ " pages)")
  | invalidOffset (address : Address) :
      Worded (.invalidOffset address)
        ("Invalid vaddr " ++ ("0x" ++ String.ofList (Nat.toDigits 16 address.raw.toNat)) ++
          ", offset must be in range of simulated page frame size")
  | noVictim : Worded .noVictim "Replacement policy had no frame to evict"
  | victimNotResident (frame : Nat) :
      Worded (.victimNotResident frame)
        ("Replacement policy chose frame " ++ toString frame ++ ", which holds no page")
  | unknownSwapOffset (offset : SwapOffset) :
      Worded (.unknownSwapOffset offset)
        ("Swap offset " ++ ("0x" ++ String.ofList (Nat.toDigits 16 offset.byte)) ++
          " was never returned by pageout")

/-- A line that cannot be replayed has one wording. -/
theorem LineError.message_eq_iff {e : LineError} {text : String} :
    e.message = text ↔ e.Worded text := by
  refine ⟨?_, fun h => by cases h <;> rfl⟩
  rintro rfl
  cases e with
  | malformed line text => exact .malformed line text
  | invalidKind line text => exact .invalidKind line text
  | invalidOffset line text => exact .invalidOffset line text
  | unreadable line reason => exact .unreadable line reason

/-- A cause has one message, and this is it. -/
theorem PagingError.message_eq_iff {e : PagingError} {text : String} :
    e.message = text ↔ e.Worded text := by
  refine ⟨?_, fun h => ?_⟩
  · rintro rfl
    cases e with
    | trace e => exact .trace (LineError.message_eq_iff.mp rfl)
    | io reason => exact .io reason
    | invalidConfig reason => exact .invalidConfig reason
    | unknownAlgorithm name => exact .unknownAlgorithm name
    | swapExhausted frame capacity => exact .swapExhausted frame capacity
    | invalidOffset address => exact .invalidOffset address
    | noVictim => exact .noVictim
    | victimNotResident frame => exact .victimNotResident frame
    | unknownSwapOffset offset => exact .unknownSwapOffset offset
  · cases h with
    | trace line => exact LineError.message_eq_iff.mpr line
    | _ => rfl

end DemandPaging
