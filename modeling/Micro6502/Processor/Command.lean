import Micro6502.Processor.Run

/-! # Commands — a host's side of the processor

    Everything that a host can do to a processor, as data.  A run under a
    host is the list of its commands, so a statement about every run is one
    about every list. -/

namespace Micro6502

/-- Something a host does to a processor on a bus of type `β`. -/
inductive Command (β : Type) where
  | tick
  | advance (t : Ticks)
  | step
  | request (kind : Interrupt)
  | reset
  | setRegisters (r : Registers)
  | setFlag (f : Flag) (v : Bool)
  /-- A change to what is behind the bus, such as a write to memory by the host. -/
  | alterBus (f : β → β)

namespace Processor

variable {β : Type} [Bus β]

/-- The processor after a command. -/
def apply (c : Processor β) : Command β → Processor β
  | .tick => c.tick
  | .advance t => c.advance t
  | .step => c.step.2
  | .request kind => c.request kind
  | .reset => c.reset
  | .setRegisters r => c.setRegisters r
  | .setFlag f v => c.setFlag f v
  | .alterBus f => c.alterBus f

/-- The processor after some commands, in order. -/
def applyAll (c : Processor β) (cmds : List (Command β)) : Processor β :=
  cmds.foldl apply c

end Processor

end Micro6502
