import Mathlib.Algebra.Ring.Int.Defs
import Mathlib.Algebra.Ring.Nat
import Micro6502.Proofs.Cost

/-! # Machine words — the same arithmetic, checked at its width

    A circuit and a program that plays it have no unbounded numbers.  Here
    each sum and difference that the clock, the cost of an instruction and
    the arithmetic unit make is taken at the width of the word it is kept in,
    and refused where it does not fit; the opcode table is an array that is
    indexed.  The names end in a question mark.

    None of them is ever refused: `Alu.add?_eq`, `Alu.sub?_eq`,
    `Machine.execute?_eq` and `Machine.runDecoded?_eq` say that each gives
    what its unbounded form gives.  All other steps of an instruction wrap
    or work on bits, and have nothing to check. -/

namespace Micro6502

/-! ## Numbers that fit -/

/-- A number, if it fits in so many bits. -/
def unsigned? (width n : Nat) : Option Nat :=
  if n < 2 ^ width then some n else none

/-- A number, if it fits in so many bits of which one is the sign. -/
def signed? (width : Nat) (z : Int) : Option Int :=
  if -2 ^ (width - 1) ≤ z ∧ z < 2 ^ (width - 1) then some z else none

/-- A difference, if it is not negative. -/
def minus? (a b : Nat) : Option Nat :=
  if b ≤ a then some (a - b) else none

theorem unsigned?_of_lt {width n : Nat} (h : n < 2 ^ width) : unsigned? width n = some n :=
  if_pos h

theorem signed?_of_mem {width : Nat} {z : Int} (h : -2 ^ (width - 1) ≤ z ∧ z < 2 ^ (width - 1)) :
    signed? width z = some z :=
  if_pos h

theorem minus?_of_le {a b : Nat} (h : b ≤ a) : minus? a b = some (a - b) :=
  if_pos h

theorem add_toNat_lt {n k : Nat} (b : Bool) (h : n + 1 < k) : n + b.toNat < k :=
  Nat.lt_of_le_of_lt (Nat.add_le_add_left b.toNat_le n) h

variable {α : Type}

/-- A sum that fits is passed on as it is. -/
theorem unsigned?_bind {width n : Nat} (f : Nat → Option α) (h : n < 2 ^ width) :
    (unsigned? width n >>= f) = f n := by
  rw [unsigned?_of_lt h]
  rfl

theorem signed?_bind {width : Nat} {z : Int} (f : Int → Option α)
    (h : -2 ^ (width - 1) ≤ z ∧ z < 2 ^ (width - 1)) : (signed? width z >>= f) = f z := by
  rw [signed?_of_mem h]
  rfl

theorem minus?_bind {a b : Nat} (f : Nat → Option α) (h : b ≤ a) :
    (minus? a b >>= f) = f (a - b) := by
  rw [minus?_of_le h]
  rfl

/-! ## The arithmetic unit -/

namespace Alu

/-- The binary sum, at 16 bits. -/
def addBinary? (a b : Byte) (p : Status) : Option Outcome := do
  let terms ← unsigned? 16 (a.toNat + b.toNat)
  let sum ← unsigned? 16 (terms + carryIn p)
  let r := BitVec.ofNat 8 sum
  return ⟨r, ((p.set .carry (decide (sum > 0xFF))).set .overflow (signedOverflow a b r)).withNZ r⟩

/-- A decimal digit carried over where it is above nine. -/
def correct? (digit : Nat) : Option Nat :=
  if digit > 9 then unsigned? 16 (digit + 6) else some digit

/-- The decimal sum, at 16 bits. -/
def addDecimal? (a b : Byte) (p : Status) : Option Outcome := do
  let low ← unsigned? 16 (a.toNat % 16 + b.toNat % 16)
  let low ← unsigned? 16 (low + carryIn p)
  let low ← correct? low
  let high ← unsigned? 16 (a.toNat / 16 + b.toNat / 16)
  let high ← unsigned? 16 (high + (decide (low > 0xF)).toNat)
  let terms ← unsigned? 16 (a.toNat + b.toNat)
  let sum ← unsigned? 16 (terms + carryIn p)
  let binary := BitVec.ofNat 8 sum
  let half := BitVec.ofNat 8 (16 * high + low % 16)
  let high ← correct? high
  return ⟨BitVec.ofNat 8 (16 * high + low % 16),
    (((p.set .zero (binary == 0)).set .negative half.msb).set .overflow
      (signedOverflow a b half)).set .carry (decide (high > 0xF))⟩

/-- The difference of the low digits with a borrow from the high ones where it is negative. -/
def borrowLow? (low : Int) : Option Int :=
  if low < 0 then signed? 16 (low - 6) >>= fun under => signed? 16 (under % 16 - 16)
  else some low

/-- The difference of both digits with a borrow from nowhere where it is negative. -/
def borrowHigh? (both : Int) : Option Int :=
  if both < 0 then signed? 16 (both - 0x60) else some both

/-- The decimal difference, at 16 bits with a sign. -/
def subDecimal? (a b : Byte) (p : Status) : Option Outcome := do
  let borrow : Int := 1 - carryIn p
  let binary ← signed? 16 (a.toNat - b.toNat)
  let binary ← signed? 16 (binary - borrow)
  let r := BitVec.ofInt 8 binary
  let low ← signed? 16 ((a.toNat % 16 : Nat) - (b.toNat % 16 : Nat))
  let low ← signed? 16 (low - borrow)
  let low ← borrowLow? low
  let both ← signed? 16 (16 * (a.toNat / 16 : Nat) - 16 * (b.toNat / 16 : Nat))
  let both ← signed? 16 (both + low)
  let both ← borrowHigh? both
  return ⟨BitVec.ofInt 8 both,
    ((p.set .carry (decide (0 ≤ binary))).set .overflow
      (a.msb != b.msb && r.msb != a.msb)).withNZ r⟩

/-- The sum, decimal where arithmetic is. -/
def add? (bcd : Bool) (a b : Byte) (p : Status) : Option Outcome :=
  if isDecimal bcd p then addDecimal? a b p else addBinary? a b p

/-- The difference, decimal where arithmetic is. -/
def sub? (bcd : Bool) (a b : Byte) (p : Status) : Option Outcome :=
  if isDecimal bcd p then subDecimal? a b p else addBinary? a (~~~b) p

/-- Correcting a small digit is never refused. -/
theorem correct?_bind {α : Type} {digit : Nat} (f : Nat → Option α) (h : digit < 2 ^ 15) :
    (correct? digit >>= f) = f (if digit > 9 then digit + 6 else digit) := by
  rw [correct?]
  split
  · exact unsigned?_bind f (by omega)
  · rfl

/-- A binary sum of bytes fits in the width that it is worked out in. -/
theorem addBinary?_eq (a b : Byte) (p : Status) : addBinary? a b p = some (addBinary a b p) := by
  have ha := a.isLt
  have hb := b.isLt
  have hc := carryIn_le p
  rw [addBinary?, unsigned?_bind _ (by omega), unsigned?_bind _ (by omega)]
  rfl

/-- No partial sum of a decimal addition overflows. -/
theorem addDecimal?_eq (a b : Byte) (p : Status) :
    addDecimal? a b p = some (addDecimal a b p) := by
  have ha := a.isLt
  have hb := b.isLt
  have hc := carryIn_le p
  -- the low digit, its correction, the high digit with the carry from it
  rw [addDecimal?, unsigned?_bind _ (by omega), unsigned?_bind _ (by omega),
    correct?_bind _ (by omega), unsigned?_bind _ (by omega),
    unsigned?_bind _ (add_toNat_lt _ (by omega))]
  -- the binary sum, and the correction of the high digit
  rw [unsigned?_bind _ (by omega), unsigned?_bind _ (by omega),
    correct?_bind _ (add_toNat_lt _ (by omega))]
  rfl

/-- Borrowing for the low digit is never refused for small differences. -/
theorem borrowLow?_bind {α : Type} {low : Int} (f : Int → Option α)
    (h : -2 ^ 14 ≤ low ∧ low < 2 ^ 14) :
    (borrowLow? low >>= f) = f (if low < 0 then (low - 6) % 16 - 16 else low) := by
  rw [borrowLow?]
  split
  · rw [signed?_bind _ (by omega), signed?_bind _ (by omega)]
  · rfl

/-- Borrowing for the high digit is never refused for small differences. -/
theorem borrowHigh?_bind {α : Type} {both : Int} (f : Int → Option α)
    (h : -2 ^ 14 ≤ both ∧ both < 2 ^ 14) :
    (borrowHigh? both >>= f) = f (if both < 0 then both - 0x60 else both) := by
  rw [borrowHigh?]
  split
  · rw [signed?_bind _ (by omega)]
  · rfl

/-- No partial difference of a decimal subtraction overflows, signed as these are. -/
theorem subDecimal?_eq (a b : Byte) (p : Status) :
    subDecimal? a b p = some (subDecimal a b p) := by
  have ha := a.isLt
  have hb := b.isLt
  have hc := carryIn_le p
  rw [subDecimal?]
  -- the binary difference, and the low digit with its borrow
  rw [signed?_bind _ (by omega), signed?_bind _ (by omega), signed?_bind _ (by omega),
    signed?_bind _ (by omega), borrowLow?_bind _ (by omega)]
  -- both digits, and the borrow of the high one
  rw [signed?_bind _ (by omega), signed?_bind _ (by omega), borrowHigh?_bind _ (by omega)]
  rfl

/-- No sum or difference of the arithmetic unit is refused. -/
theorem add?_eq (bcd : Bool) (a b : Byte) (p : Status) : add? bcd a b p = some (add bcd a b p) := by
  rw [add?, add]
  split
  · exact addDecimal?_eq a b p
  · exact addBinary?_eq a b p

theorem sub?_eq (bcd : Bool) (a b : Byte) (p : Status) : sub? bcd a b p = some (sub bcd a b p) := by
  rw [sub?, sub]
  split
  · exact subDecimal?_eq a b p
  · exact addBinary?_eq a (~~~b) p

end Alu

/-! ## One instruction -/

/-- The opcode table, to be indexed by an opcode. -/
def Opcode.table : Array Descriptor :=
  Array.ofFn fun opcode : Fin 256 => decode (BitVec.ofFin opcode)

/-- The opcode table has an entry at every byte. -/
theorem Opcode.table_getElem? (opcode : Byte) : table[opcode.toNat]? = some (decode opcode) := by
  rw [table, Array.getElem?_ofFn, dif_pos opcode.isLt]
  rfl

namespace Machine

variable {β : Type}

/-- A jump that is made where `taken` holds, its cycles at 8 bits. -/
def branch? (m : Machine β) (o : Operand) (taken : Bool) : Option (Nat × Machine β) := do
  if taken then
    let cost ← unsigned? 8 (1 + (pageCrossed m.regs.pc (m.target o)).toNat)
    return (cost, m.jump (m.target o))
  else return (0, m)

/-- The cost of a branch fits, taken or not. -/
theorem branch?_eq (m : Machine β) (o : Operand) (taken : Bool) :
    m.branch? o taken = some (m.branch o taken) := by
  cases taken with
  | false => rfl
  | true => exact unsigned?_bind _ (add_toNat_lt _ (by decide))

variable [Bus β]

/-- An operation whose result comes from the arithmetic unit, on the byte of its operand. -/
def calculate? (f : Byte → Byte → Status → Option Alu.Outcome) (o : Operand) (m : Machine β) :
    Option (Nat × Machine β) := do
  let b := m.loadOperand o
  let outcome ← f b.2.regs.a b.1 b.2.regs.p
  return (0, b.2.mapRegs fun r => r.accumulate outcome)

/-- Runs an operation on its operand; only sums, differences and branches have what can fail. -/
def execute? (bcd : Bool) (op : Operation) (o : Operand) (m : Machine β) :
    Option (Nat × Machine β) :=
  match op with
  | .adc => m.calculate? (Alu.add? bcd) o
  | .sbc => m.calculate? (Alu.sub? bcd) o
  | op =>
      match op.effect bcd with
      | .branch flag wanted => m.branch? o (m.regs.p.get flag == wanted)
      | e => some (m.perform e o)

/-- Runs a decoded instruction, its cost at 32 bits. -/
def runDecoded? (bcd : Bool) (d : Descriptor) (m : Machine β) : Option (Nat × Machine β) := do
  let found := m.resolve d.mode
  let done ← found.2.execute? bcd d.operation found.1.operand
  let penalty := if d.operation.chargesPageCrossing then found.1.extraCycles else 0
  let cost ← unsigned? 32 (d.cycles + penalty)
  let cost ← unsigned? 32 (cost + done.1)
  return (cost, done.2)

/-- An operation on the accumulator is never refused where its sum is not. -/
theorem calculate?_eq {f : Byte → Byte → Status → Option Alu.Outcome}
    {g : Byte → Byte → Status → Alu.Outcome} (h : ∀ a b p, f a b p = some (g a b p))
    (o : Operand) (m : Machine β) :
    m.calculate? f o =
      some (m.perform (.load fun b r => r.accumulate (g r.a b r.p)) o) := by
  rw [calculate?, h]
  rfl

/-- No operation is refused, so each does what its unchecked form does. -/
theorem execute?_eq (bcd : Bool) (op : Operation) (o : Operand) (m : Machine β) :
    m.execute? bcd op o = some (m.execute bcd op o) := by
  cases op with
  | adc => exact calculate?_eq (Alu.add?_eq bcd) o m
  | sbc => exact calculate?_eq (Alu.sub?_eq bcd) o m
  | bcc | bcs | beq | bmi | bne | bpl | bvc | bvs => exact branch?_eq m o _
  | _ => rfl

/-- No step of an instruction that the table has is refused. -/
theorem runDecoded?_eq (bcd : Bool) (opcode : Byte) (m : Machine β) :
    m.runDecoded? bcd (Opcode.decode opcode) = some (m.runDecoded bcd (Opcode.decode opcode)) := by
  have most := (Opcode.cycles_range opcode).2
  have cost := (cost_runDecoded_range bcd (Opcode.decode opcode) m).2
  rw [cost_runDecoded] at cost
  rw [runDecoded?, execute?_eq]
  show (unsigned? 32 _ >>= _) = _
  rw [unsigned?_bind _ (by omega), unsigned?_bind _ (by omega)]
  rfl

end Machine

end Micro6502
