import Micro6502.Processor
import Micro6502.Value

/-! # Looking at a processor — parts of its state by name

    A debugger writes the name of a part of the state and is shown the part.
    Looking never touches the bus.  The names are listed too; the stack
    pointer and the status register have a second name each, which is not. -/

namespace Micro6502.Processor

variable {β : Type}

/-- What a name shows, if it is the name of something. -/
def query (c : Processor β) (path : String) : Option Value :=
  match path with
  | "pc" => some (.word c.regs.pc)
  | "a" => some (.byte c.regs.a)
  | "x" => some (.byte c.regs.x)
  | "y" => some (.byte c.regs.y)
  | "s" | "sp" => some (.byte c.regs.s)
  | "p" | "status" => some (.byte c.regs.p.bits)
  | "flags.c" => some (.bool (c.regs.p.get .carry))
  | "flags.z" => some (.bool (c.regs.p.get .zero))
  | "flags.i" => some (.bool (c.regs.p.get .interruptDisable))
  | "flags.d" => some (.bool (c.regs.p.get .decimal))
  | "flags.v" => some (.bool (c.regs.p.get .overflow))
  | "flags.n" => some (.bool (c.regs.p.get .negative))
  | "cycle" => some (.count64 (BitVec.ofNat 64 c.elapsed))
  | "remaining" => some (.count32 (BitVec.ofNat 32 c.remaining))
  | "nmi_pending" => some (.bool c.pending.nmi)
  | "irq_pending" => some (.bool c.pending.irq)
  | _ => none

/-- The names that are listed, in the order in which they are. -/
def queryPaths : List String :=
  ["pc", "a", "x", "y", "s", "p", "flags.c", "flags.z", "flags.i", "flags.d", "flags.v", "flags.n",
    "cycle", "remaining", "nmi_pending", "irq_pending"]

end Micro6502.Processor
