import DemandPaging.Machine.Audit
import DemandPaging.Main
import DemandPaging.Proofs.Frames
import DemandPaging.Proofs.Machine.Audit
import DemandPaging.Proofs.Machine.Flat
import DemandPaging.Proofs.Machine.Footprint
import DemandPaging.Proofs.Machine.CleanPages
import DemandPaging.Proofs.Machine.Victims
import DemandPaging.Proofs.PageTable.Entries
import DemandPaging.Proofs.Machine.Exhaustion
import DemandPaging.Proofs.Swap.Lawful
import DemandPaging.Swap.Unreliable
import DemandPaging.Text.Numeral
import DemandPaging.Proofs.Distinct
import DemandPaging.Proofs.Swap.Dense
import DemandPaging.Proofs.Machine.SlotOwners
import DemandPaging.Proofs.Machine.SwapRoom
import DemandPaging.Proofs.Machine.PageUse
import DemandPaging.Proofs.Machine.MostRecent
import DemandPaging.Proofs.Policy.SecondChance
import DemandPaging.Proofs.Machine.ClockQueue
import DemandPaging.Proofs.PageTable.Growth
import DemandPaging.Proofs.PageTable.PageMap
import DemandPaging.Proofs.Machine.Bounds
import DemandPaging.Proofs.Machine.Inclusion
import DemandPaging.Proofs.Machine.SwapIn
import DemandPaging.Proofs.Machine.Retry
import DemandPaging.Proofs.Machine.FrameQueue
import DemandPaging.Proofs.Swap.History
import DemandPaging.Proofs.Text.Digits
import DemandPaging.Proofs.Text.Words
import DemandPaging.Proofs.Machine.LoadOrder
import DemandPaging.Proofs.Trace.Grammar
import DemandPaging.Proofs.Text.Lines
import DemandPaging.Proofs.Trace.Reading
import DemandPaging.Proofs.Machine.Replay
import DemandPaging.Proofs.Machine.Location
import DemandPaging.Proofs.Machine.MappedPages
import DemandPaging.Proofs.Machine.Balance
import DemandPaging.Proofs.Machine.DirtyFlags
import DemandPaging.Proofs.Machine.WriteHistory
import DemandPaging.Proofs.CommandLine.Arguments
import DemandPaging.Proofs.CommandLine.Outputs
import DemandPaging.Proofs.Policy.RecencyCalls
import DemandPaging.Proofs.Machine.ClockSweep
import DemandPaging.Proofs.Machine.Confined
import DemandPaging.Proofs.Machine.HitsCommute
import DemandPaging.Proofs.Machine.Filling
import DemandPaging.Proofs.Machine.LogReplay
import DemandPaging.Proofs.Random.Shares
import DemandPaging.Proofs.Random.Keystream
import DemandPaging.Proofs.Policy.EvenChoice
import DemandPaging.Proofs.Machine.TableGrowth
import DemandPaging.Proofs.PageTable.DumpText
import DemandPaging.Proofs.Machine.DumpRuns
