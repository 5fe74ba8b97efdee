import Micro6502.Word

/-! # The bus — what a processor sees of the outside

    A bus answers reads and takes writes.  A read gives the bus back
    changed, because a device may react to being read; nothing that was
    read is ever kept by the processor. -/

namespace Micro6502

/-- A type whose values answer reads and take writes. -/
class Bus (β : Type) where
  /-- The byte at an address, and the bus after the read. -/
  read : β → Word → Byte × β
  /-- The bus after a byte was written at an address. -/
  write : β → Word → Byte → β

end Micro6502
