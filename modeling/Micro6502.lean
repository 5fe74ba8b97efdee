import Micro6502.Bus.Counter
import Micro6502.Bus.Monitor
import Micro6502.Bus.Ram
import Micro6502.Config.Reading
import Micro6502.Config.Strict
import Micro6502.Disassembly
import Micro6502.Processor.Builder
import Micro6502.Processor.Command
import Micro6502.Processor.Observe
import Micro6502.Ticks
import Micro6502.Value
import Micro6502.Proofs.Clock
import Micro6502.Proofs.HostSchedule
import Micro6502.Proofs.Requests
import Micro6502.Proofs.Stack
import Micro6502.Proofs.StatusByte
import Micro6502.Proofs.Nesting
import Micro6502.Proofs.BareHandler
import Micro6502.Proofs.Cost
import Micro6502.Proofs.Checked
import Micro6502.Proofs.Countdown
import Micro6502.Proofs.TraceLine
import Micro6502.Proofs.Ledger
import Micro6502.Proofs.Monitored
import Micro6502.Proofs.Footprint
import Micro6502.Proofs.Printed
import Micro6502.Proofs.Unambiguous
import Micro6502.Proofs.Listing
import Micro6502.Proofs.Undocumented
import Micro6502.Proofs.Lockstep
import Micro6502.Proofs.FlagFrame
import Micro6502.Proofs.Alike
import Micro6502.Proofs.PhantomBits
import Micro6502.Proofs.Variants
import Micro6502.Proofs.LastWriter
import Micro6502.Proofs.MaskedRequests
import Micro6502.Proofs.Snapshots
import Micro6502.Proofs.FreshStart
import Micro6502.Proofs.Batches
import Micro6502.Proofs.CutMemory
import Micro6502.Proofs.PartlyMapped
import Micro6502.Proofs.PackedDecimal
import Micro6502.Proofs.DecimalSequence
import Micro6502.Proofs.Chains
import Micro6502.Proofs.BinaryChains
import Micro6502.Proofs.ShiftChains
import Micro6502.Proofs.EffectiveAddress
import Micro6502.Proofs.CostFormula
import Micro6502.Proofs.ResultFlags
import Micro6502.Proofs.OperationFrame
import Micro6502.Proofs.SoftwareBreak
import Micro6502.Proofs.FlagHistory
import Micro6502.Proofs.Observation
import Micro6502.Proofs.OwnBytes
import Micro6502.Proofs.StrictFormat
import Micro6502.Proofs.ConfigGrammar
import Micro6502.Proofs.Numerals
import Micro6502.Proofs.TickSums
