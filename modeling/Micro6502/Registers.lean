import Micro6502.Status

/-! # The register file

    An accumulator, two index registers, a stack pointer, a program counter
    and the status register.  The stack lives in page one: S is the offset
    in that page of the next free slot, and wraps inside the page. -/

namespace Micro6502

/-- The registers of a 6502. -/
structure Registers where
  /-- The accumulator. -/
  a : Byte
  /-- The first index register. -/
  x : Byte
  /-- The second index register. -/
  y : Byte
  /-- The stack pointer: the next free slot. -/
  s : Byte
  /-- The program counter. -/
  pc : Word
  /-- The status register. -/
  p : Status
  deriving DecidableEq, Repr

/-- The first address of the stack page. -/
def stackPage : Word := 0x0100#16

namespace Registers

/-- What a reset leaves, but for the program counter, which it then loads. -/
def new : Registers :=
  ⟨0, 0, 0, 0xFD#8, 0, Status.reset⟩

/-- The address of the stack slot that S names. -/
def stackAddress (r : Registers) : Word :=
  Word.ofBytes r.s (Word.high stackPage)

end Registers

end Micro6502
