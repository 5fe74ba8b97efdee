import Micro6502.Bus

/-! # A counting cell — the smallest device that reacts to reads

    `CounterCell β` is a bus of type `β` with, at one address, a byte that
    counts: a read returns it and adds one, a write sets it.  The bus behind
    sees no access to that address. -/

namespace Micro6502

/-- A bus with a counting byte laid over one of its addresses, or over none. -/
structure CounterCell (β : Type) where
  behind : β
  place : Option Word
  count : Byte := 0

namespace CounterCell

variable {β : Type}

instance [Bus β] : Bus (CounterCell β) where
  read c a :=
    let ⟨behind, place, count⟩ := c
    if place = some a then (count, ⟨behind, place, count + 1⟩)
    else
      let (b, behind) := Bus.read behind a
      (b, ⟨behind, place, count⟩)
  write c a b :=
    let ⟨behind, place, count⟩ := c
    if place = some a then ⟨behind, place, b⟩
    else ⟨Bus.write behind a b, place, count⟩

end CounterCell

end Micro6502
