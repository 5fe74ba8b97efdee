import Micro6502.Hex
import Micro6502.Opcode

/-! # Disassembly — one instruction as text

    The text is the mnemonic and, where the mode has an operand, the operand
    in the assembler's form.  A branch shows the address it goes to.  An
    instruction without a documented meaning is marked with a star.

    Bytes that are missing read as zero, and bytes past the instruction are
    never looked at. -/

namespace Micro6502

/-- An instruction as text, and the bytes it takes. -/
structure Disassembly where
  text : String
  length : Nat
  deriving DecidableEq, Repr

namespace Disassembly

/-- The operand text of an instruction at `pc` whose operand bytes are `lo` and `hi`. -/
def operandText (d : Descriptor) (lo hi : Byte) (pc : Word) : Option String :=
  match d.mode with
  | .implied => if d.documented && d.operation.isShift then some "A" else none
  | .immediate => some ("#$" ++ Hex.byte lo)
  | .zeroPage => some ("$" ++ Hex.byte lo)
  | .zeroPageX => some ("$" ++ Hex.byte lo ++ ",X")
  | .zeroPageY => some ("$" ++ Hex.byte lo ++ ",Y")
  | .relative => some ("$" ++ Hex.word (pc + 2 + lo.signExtend 16))
  | .absolute => some ("$" ++ Hex.word (.ofBytes lo hi))
  | .absoluteX => some ("$" ++ Hex.word (.ofBytes lo hi) ++ ",X")
  | .absoluteY => some ("$" ++ Hex.word (.ofBytes lo hi) ++ ",Y")
  | .indirect => some ("($" ++ Hex.word (.ofBytes lo hi) ++ ")")
  | .indirectX => some ("($" ++ Hex.byte lo ++ ",X)")
  | .indirectY => some ("($" ++ Hex.byte lo ++ "),Y")

/-- The text of an instruction at `pc` whose operand bytes are `lo` and `hi`. -/
def instructionText (d : Descriptor) (lo hi : Byte) (pc : Word) : String :=
  let name := (if d.documented then "" else "*") ++ d.mnemonic
  match operandText d lo hi pc with
  | none => name
  | some operand => name ++ " " ++ operand

end Disassembly

/-- The instruction that starts a list of bytes, the first of them at `pc`. -/
def disassemble (bytes : List Byte) (pc : Word) : Disassembly :=
  let d := Opcode.decode (bytes.getD 0 0)
  ⟨Disassembly.instructionText d (bytes.getD 1 0) (bytes.getD 2 0) pc, d.length⟩

end Micro6502
