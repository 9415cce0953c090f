import DemandPaging.Address
import DemandPaging.Text.Numeral

/-!
# Trace records

One access of a trace: what is done, where, and the byte that is stored or that must be found
there. A record has a written form of its own, the letter, the address in hexadecimal and the
byte in decimal, which is what the log shows for each access.
-/

namespace DemandPaging.Trace

structure Record where
  /-- The line of the trace, counted from 1. -/
  line : Nat
  kind : AccessKind
  address : Address
  /-- The byte to store, or the byte that a load or fetch must find. -/
  value : UInt8
deriving DecidableEq

/-- The written form of a record. -/
def Record.text (r : Record) : String :=
  String.ofList
    (r.kind.letter :: ' ' :: Text.hex r.address.raw.toNat ++ ' ' :: Text.decimal r.value.toNat)

end DemandPaging.Trace
