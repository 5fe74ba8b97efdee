import Micro6502.Addressing
import Micro6502.Machine

/-! # Finding the operand

    `Machine.resolve` fetches the operand bytes of a mode and gives the
    operand.  It never reads the operand itself, so immediate data is left
    for the operation to read.

    Pointers do not carry into the next page: one in page zero wraps inside
    that page, and the high byte of an indirect jump comes from the page of
    its low byte. -/

namespace Micro6502.Machine

variable {β : Type} [Bus β]

/-- The address after `a` that lies in the same page. -/
def nextInPage (a : Word) : Word :=
  Word.ofBytes (Word.low a + 1) (Word.high a)

/-- The word stored at a pointer in page zero. -/
def readPointer (m : Machine β) (pointer : Byte) : Word × Machine β :=
  m.readPair (Word.zeroPage pointer) (Word.zeroPage (pointer + 1))

/-- The operand of a mode, once its bytes are fetched. -/
def resolve : Mode → Machine β → Resolved × Machine β
  | .implied, m => (⟨.accumulator, 0⟩, m)
  | .immediate, m => (.direct m.regs.pc, m.advance)
  | .zeroPage, m =>
      let base := m.fetch
      (.direct (Word.zeroPage base.1), base.2)
  | .zeroPageX, m =>
      let base := m.fetch
      (.direct (Word.zeroPage (base.1 + m.regs.x)), base.2)
  | .zeroPageY, m =>
      let base := m.fetch
      (.direct (Word.zeroPage (base.1 + m.regs.y)), base.2)
  | .relative, m =>
      let distance := m.fetch
      (.direct (distance.2.regs.pc + distance.1.signExtend 16), distance.2)
  | .absolute, m =>
      let base := m.fetchWord
      (.direct base.1, base.2)
  | .absoluteX, m =>
      let base := m.fetchWord
      (.indexed base.1 m.regs.x, base.2)
  | .absoluteY, m =>
      let base := m.fetchWord
      (.indexed base.1 m.regs.y, base.2)
  | .indirect, m =>
      let pointer := m.fetchWord
      let target := pointer.2.readPair pointer.1 (nextInPage pointer.1)
      (.direct target.1, target.2)
  | .indirectX, m =>
      let base := m.fetch
      let target := base.2.readPointer (base.1 + m.regs.x)
      (.direct target.1, target.2)
  | .indirectY, m =>
      let pointer := m.fetch
      let base := pointer.2.readPointer pointer.1
      (.indexed base.1 m.regs.y, base.2)

/-- Finding an operand moves the program counter past its bytes and leaves the other registers. -/
theorem regs_resolve (mode : Mode) (m : Machine β) :
    (m.resolve mode).2.regs =
      { m.regs with pc := m.regs.pc + BitVec.ofNat 16 mode.operandLength } := by
  cases mode
  case implied =>
      show m.regs = { m.regs with pc := m.regs.pc + 0#16 }
      rw [BitVec.add_zero]
  case absolute | absoluteX | absoluteY | indirect =>
      show ({ m.regs with pc := m.regs.pc + 1#16 + 1#16 } : Registers) = _
      rw [BitVec.add_assoc]
      rfl
  all_goals rfl

end Micro6502.Machine
