import Micro6502.Addressing
import Micro6502.Machine
import Micro6502.Operation.Effect

/-! # Running an operation on its operand

    `Machine.execute` runs an operation and gives the cycles it cost beyond
    its base count, which only a branch that is taken has.

    Every operation meets either kind of operand.  On the accumulator, loads
    read it, stores and read-modify-writes change it, and jumps and branches
    go where the program counter already is. -/

namespace Micro6502

/-- The vector of interrupt requests and software breaks. -/
def irqVector : Word := 0xFFFE#16

namespace Machine

variable {β : Type} [Bus β]

/-- The byte an operand holds. -/
def loadOperand (m : Machine β) : Operand → Byte × Machine β
  | .accumulator => (m.regs.a, m)
  | .address a => m.read a

/-- A byte stored at an operand. -/
def storeOperand (m : Machine β) (b : Byte) : Operand → Machine β
  | .accumulator => m.mapRegs fun r => { r with a := b }
  | .address a => m.write a b

/-- A read-modify-write.  In memory, the byte that was read is written back before the result. -/
def modifyOperand (f : Byte → Status → Alu.Outcome) (m : Machine β) : Operand → Machine β
  | .accumulator => m.mapRegs fun r => r.accumulate (f r.a r.p)
  | .address a =>
      let old := m.read a
      let back := old.2.write a old.1
      let o := f old.1 back.regs.p
      (back.mapRegs fun r => { r with p := o.status }).write a o.value

/-- The address that a jump goes to. -/
def target (m : Machine β) : Operand → Word
  | .accumulator => m.regs.pc
  | .address a => a

/-- A jump that is made where `taken` holds: a cycle for the jump, another if it leaves the page. -/
def branch (m : Machine β) (o : Operand) (taken : Bool) : Nat × Machine β :=
  if taken then (1 + (pageCrossed m.regs.pc (m.target o)).toNat, m.jump (m.target o)) else (0, m)

/-- The entry to an interrupt service routine: the way back and P go on the stack, IRQ
requests are made to wait, and the vector is followed.  `software` is the break bit of the
pushed P. -/
def enterService (m : Machine β) (back : Word) (vector : Word) (software : Bool) : Machine β :=
  let pushed := (m.pushWord back).push (m.regs.p.pushed software)
  let masked := pushed.mapRegs (·.mapStatus (Status.set · .interruptDisable true))
  let start := masked.readWord vector
  start.2.jump start.1

/-- Runs an effect; the number is the cycles it cost beyond the base count. -/
def perform (e : Effect) (o : Operand) (m : Machine β) : Nat × Machine β :=
  match e with
  | .load f =>
      let b := m.loadOperand o
      (0, b.2.mapRegs (f b.1))
  | .store f => (0, m.storeOperand (f m.regs) o)
  | .modify f => (0, m.modifyOperand f o)
  | .internal f => (0, m.mapRegs f)
  | .branch flag wanted => m.branch o (m.regs.p.get flag == wanted)
  | .jump => (0, m.jump (m.target o))
  | .call => (0, (m.pushWord (m.regs.pc - 1)).jump (m.target o))
  | .returnFromCall =>
      let back := m.pullWord
      (0, back.2.jump (back.1 + 1))
  | .push f => (0, m.push (f m.regs))
  | .pull f =>
      let b := m.pull
      (0, b.2.mapRegs (f b.1))
  | .softwareBreak => (0, m.enterService (m.regs.pc + 1) irqVector true)
  | .returnFromInterrupt =>
      let status := m.pull
      let back := (status.2.mapRegs fun r => { r with p := .pulled status.1 }).pullWord
      (0, back.2.jump back.1)

/-- Runs an operation on its operand; `bcd` says whether the part can do decimal arithmetic. -/
def execute (bcd : Bool) (op : Operation) (o : Operand) (m : Machine β) : Nat × Machine β :=
  m.perform (op.effect bcd) o

/-- Finding the operand of a load changes no register. -/
theorem perform_load (f : Byte → Registers → Registers) (o : Operand) (m : Machine β) :
    m.perform (.load f) o =
      (0, ⟨f (m.loadOperand o).1 m.regs, (m.loadOperand o).2.bus⟩) := by
  cases o <;> rfl

/-- So a load is its function, applied to what the operand holds. -/
theorem execute_load {bcd : Bool} {op : Operation} {f : Byte → Registers → Registers}
    (runs : op.effect bcd = .load f) (o : Operand) (m : Machine β) :
    (m.execute bcd op o).2 = ⟨f (m.loadOperand o).1 m.regs, (m.loadOperand o).2.bus⟩ := by
  rw [execute, runs, perform_load]

/-! ## What entering and leaving a service routine does to the registers -/

theorem regs_enterService (m : Machine β) (back vector : Word) (software : Bool) :
    (m.enterService back vector software).regs =
      { m.regs with
        s := m.regs.s - 1 - 1 - 1
        p := m.regs.p.set .interruptDisable true
        pc := (m.enterService back vector software).regs.pc } := rfl

/-- Whoever enters a service routine leaves IRQ requests waiting. -/
theorem masked_enterService (m : Machine β) (back vector : Word) (software : Bool) :
    (m.enterService back vector software).regs.p.get .interruptDisable = true :=
  Status.get_set_self _ _ (by decide)

theorem regs_rti (m : Machine β) (bcd : Bool) :
    (m.execute bcd .rti .accumulator).2.regs =
      { m.regs with
        s := m.regs.s + 1 + 1 + 1
        p := .pulled m.pull.1
        pc := Word.ofBytes m.pull.2.pull.1 m.pull.2.pull.2.pull.1 } := by
  show ((m.pull.2.mapRegs fun r => { r with p := .pulled m.pull.1 }).pullWord.2.jump _).regs = _
  simp only [pullWord, jump, mapRegs, regs_pull]
  rfl

end Machine

end Micro6502
