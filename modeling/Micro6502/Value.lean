import Micro6502.Hex

/-! # Values — what a look at a component shows

    A value is a line or flag, a register of eight or sixteen bits, or a
    counter of 32 or 64 bits.  Registers are shown in hexadecimal, at their
    width; counters in decimal. -/

namespace Micro6502

/-- A value with the width it was read at. -/
inductive Value where
  /-- A flag or line. -/
  | bool (v : Bool)
  /-- A register of eight bits. -/
  | byte (v : Byte)
  /-- A register of sixteen bits. -/
  | word (v : Word)
  /-- A counter of 32 bits. -/
  | count32 (v : BitVec 32)
  /-- A counter of 64 bits. -/
  | count64 (v : BitVec 64)
  deriving DecidableEq, Repr

namespace Value

/-- The kinds of value. -/
inductive Kind where
  | bool | byte | word | count32 | count64
  deriving DecidableEq, Repr

/-- The kind of a value. -/
def kind : Value → Kind
  | .bool _ => .bool
  | .byte _ => .byte
  | .word _ => .word
  | .count32 _ => .count32
  | .count64 _ => .count64

/-- A value as text. -/
def text : Value → String
  | .bool true => "true"
  | .bool false => "false"
  | .byte v => "0x" ++ Hex.byte v
  | .word v => "0x" ++ Hex.word v
  | .count32 v => v.toNat.repr
  | .count64 v => v.toNat.repr

end Value

end Micro6502
