import Micro6502.Addressing.Resolve
import Micro6502.Opcode
import Micro6502.Operation.Execute

/-! # One instruction — fetch, resolve, execute

    An instruction is done at once: its opcode is fetched, its operand found
    and its operation run, with every bus access that takes.  What comes
    back beside the machine is the number of cycles it costs. -/

namespace Micro6502.Machine

variable {β : Type} [Bus β]

/-- The opcode at the program counter.  The fetch also sets the unused bit of P. -/
def fetchOpcode (m : Machine β) : Byte × Machine β :=
  let opcode := m.fetch
  (opcode.1, opcode.2.mapRegs (·.mapStatus (Status.set · .unused true)))

/-- Fetching an opcode moves the program counter on by one and sets the stored bit of `unused`. -/
theorem regs_fetchOpcode (m : Machine β) :
    m.fetchOpcode.2.regs =
      { m.regs with p := m.regs.p.set .unused true, pc := m.regs.pc + 1 } := rfl

/-- Fetching an opcode and finding an operand moves the program counter past the instruction. -/
theorem regs_found (d : Descriptor) (m : Machine β) :
    (m.fetchOpcode.2.resolve d.mode).2.regs =
      { m.regs with
        pc := m.regs.pc + BitVec.ofNat 16 d.length
        p := m.regs.p.set .unused true } := by
  rw [regs_resolve, regs_fetchOpcode, Descriptor.length, BitVec.ofNat_add, ← BitVec.add_assoc]
  rfl

/-- Runs a decoded instruction whose opcode has been fetched. -/
def runDecoded (bcd : Bool) (d : Descriptor) (m : Machine β) : Nat × Machine β :=
  let found := m.resolve d.mode
  let done := found.2.execute bcd d.operation found.1.operand
  let penalty := if d.operation.chargesPageCrossing then found.1.extraCycles else 0
  (d.cycles + penalty + done.1, done.2)

end Micro6502.Machine
