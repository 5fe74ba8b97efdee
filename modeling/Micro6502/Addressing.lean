import Micro6502.Word

/-! # Addressing modes — how an instruction names its operand

    The mode of an instruction fixes how many bytes follow its opcode and
    where the operand lies.  An operand is the accumulator or an address;
    for immediate data that is the address of the data byte, and for a
    branch it is the target. -/

namespace Micro6502

/-- The addressing modes. -/
inductive Mode where
  /-- No operand bytes; the operand, if any, is the accumulator. -/
  | implied
  /-- The byte after the opcode. -/
  | immediate
  /-- An address in page zero. -/
  | zeroPage
  /-- An address in page zero plus X, inside that page. -/
  | zeroPageX
  /-- An address in page zero plus Y, inside that page. -/
  | zeroPageY
  /-- A signed distance from the next instruction. -/
  | relative
  /-- A full address. -/
  | absolute
  /-- A full address plus X. -/
  | absoluteX
  /-- A full address plus Y. -/
  | absoluteY
  /-- The address stored at a full address. -/
  | indirect
  /-- The address stored in page zero at a pointer plus X. -/
  | indirectX
  /-- The address stored in page zero at a pointer, plus Y. -/
  | indirectY
  deriving DecidableEq, Repr

namespace Mode

/-- All modes. -/
def all : List Mode :=
  [.implied, .immediate, .zeroPage, .zeroPageX, .zeroPageY, .relative, .absolute, .absoluteX,
    .absoluteY, .indirect, .indirectX, .indirectY]

theorem mem_all (m : Mode) : m ∈ all := by
  cases m <;> decide

/-- How many bytes follow the opcode. -/
def operandLength : Mode → Nat
  | .implied => 0
  | .immediate | .zeroPage | .zeroPageX | .zeroPageY | .relative | .indirectX | .indirectY => 1
  | .absolute | .absoluteX | .absoluteY | .indirect => 2

theorem operandLength_le (m : Mode) : m.operandLength ≤ 2 := by
  cases m <;> decide

/-- The fewest cycles in which an instruction of this mode reads its operand. -/
def readCycles : Mode → Nat
  | .implied | .immediate | .relative => 2
  | .zeroPage => 3
  | .zeroPageX | .zeroPageY | .absolute | .absoluteX | .absoluteY => 4
  | .indirect | .indirectY => 5
  | .indirectX => 6

end Mode

/-- Where an operation finds its operand. -/
inductive Operand where
  | accumulator
  | address (a : Word)
  deriving DecidableEq, Repr

/-- An operand, and the cycle that finding it cost beyond the mode's own. -/
structure Resolved where
  operand : Operand
  extraCycles : Nat
  deriving DecidableEq, Repr

namespace Resolved

/-- An address found without further cost. -/
def direct (a : Word) : Resolved :=
  ⟨.address a, 0⟩

/-- An indexed address: reaching it costs a cycle where it leaves the page of its base. -/
def indexed (base : Word) (index : Byte) : Resolved :=
  let a := base + index.setWidth 16
  ⟨.address a, (pageCrossed base a).toNat⟩

/-- An indexed address costs a cycle where its high byte is not that of the base. -/
theorem extraCycles_indexed (base : Word) (index : Byte) :
    (indexed base index).extraCycles =
      ((base.toNat + index.toNat) % 0x10000 / 256 != base.toNat / 256).toNat := by
  show (pageCrossed base (base + index.setWidth 16)).toNat = _
  congr 1
  rw [Bool.eq_iff_iff, pageCrossed_eq_true_iff, Word.toNat_add_index, bne_iff_ne]
  exact ne_comm

end Resolved

end Micro6502
