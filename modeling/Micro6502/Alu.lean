import Micro6502.Status

/-! # The arithmetic unit — bytes in, a byte and flags out

    Each operation takes bytes and the status register and gives an
    `Outcome`: the result byte and the status register after it.  Where the
    result lands is not its concern.

    The decimal forms treat a byte as two decimal digits.  On bytes that are
    no such pair they still have a definite answer, the one the circuit
    gives: each nibble is corrected on its own, and the flags are taken at
    the point where the circuit takes them. -/

namespace Micro6502.Alu

/-- A result byte and the status register that goes with it. -/
structure Outcome where
  value : Byte
  status : Status
  deriving DecidableEq, Repr

/-- A result whose only trace in the flags is Z and N. -/
def plain (p : Status) (b : Byte) : Outcome :=
  ⟨b, p.withNZ b⟩

/-- The carry flag as a number. -/
def carryIn (p : Status) : Nat :=
  (p.get .carry).toNat

theorem carryIn_le (p : Status) : carryIn p ≤ 1 :=
  Bool.toNat_le _

/-- Whether a sum of `a` and `b` that came out as `r` overflowed as a signed sum:
the terms have one sign and the result has the other. -/
def signedOverflow (a b r : Byte) : Bool :=
  a.msb == b.msb && r.msb != a.msb

/-! ## Addition and subtraction -/

/-- The binary sum of two bytes and the carry. -/
def addBinary (a b : Byte) (p : Status) : Outcome :=
  let sum := a.toNat + b.toNat + carryIn p
  let r := BitVec.ofNat 8 sum
  ⟨r, ((p.set .carry (decide (sum > 0xFF))).set .overflow (signedOverflow a b r)).withNZ r⟩

/-- The decimal sum of two bytes and the carry.

Z describes the binary sum, N and V the sum once its low digit is corrected,
and the carry the sum once both digits are. -/
def addDecimal (a b : Byte) (p : Status) : Outcome :=
  let low := a.toNat % 16 + b.toNat % 16 + carryIn p
  let low := if low > 9 then low + 6 else low
  let high := a.toNat / 16 + b.toNat / 16 + (decide (low > 0xF)).toNat
  let binary := BitVec.ofNat 8 (a.toNat + b.toNat + carryIn p)
  let half := BitVec.ofNat 8 (16 * high + low % 16)
  let high := if high > 9 then high + 6 else high
  ⟨BitVec.ofNat 8 (16 * high + low % 16),
    (((p.set .zero (binary == 0)).set .negative half.msb).set .overflow
      (signedOverflow a b half)).set .carry (decide (high > 0xF))⟩

/-- The binary difference of two bytes and the borrow, as the sum with the complement. -/
def subBinary (a b : Byte) (p : Status) : Outcome :=
  addBinary a (~~~b) p

/-- The decimal difference of two bytes and the borrow.

Every flag describes the binary difference; only the result byte is corrected. -/
def subDecimal (a b : Byte) (p : Status) : Outcome :=
  let borrow : Int := 1 - carryIn p
  let binary : Int := a.toNat - b.toNat - borrow
  let r := BitVec.ofInt 8 binary
  let low : Int := (a.toNat % 16 : Nat) - (b.toNat % 16 : Nat) - borrow
  let low := if low < 0 then (low - 6) % 16 - 16 else low
  let both : Int := 16 * (a.toNat / 16 : Nat) - 16 * (b.toNat / 16 : Nat) + low
  let both := if both < 0 then both - 0x60 else both
  ⟨BitVec.ofInt 8 both,
    ((p.set .carry (decide (0 ≤ binary))).set .overflow
      (a.msb != b.msb && r.msb != a.msb)).withNZ r⟩

/-- Whether arithmetic is decimal: the part can, and the flag says so. -/
def isDecimal (bcd : Bool) (p : Status) : Bool :=
  bcd && p.get .decimal

/-- The sum, decimal where arithmetic is. -/
def add (bcd : Bool) (a b : Byte) (p : Status) : Outcome :=
  if isDecimal bcd p then addDecimal a b p else addBinary a b p

/-- The difference, decimal where arithmetic is. -/
def sub (bcd : Bool) (a b : Byte) (p : Status) : Outcome :=
  if isDecimal bcd p then subDecimal a b p else subBinary a b p

/-- The flags of a comparison: a subtraction whose result is dropped. -/
def compare (a b : Byte) (p : Status) : Status :=
  (p.set .carry (decide (b.toNat ≤ a.toNat))).withNZ (a - b)

/-! ## Bits -/

/-- The flags of a bit test: Z says whether the bytes share a bit, N and V copy the top two. -/
def bitTest (a b : Byte) (p : Status) : Status :=
  ((p.set .zero (a &&& b == 0)).set .negative b.msb).set .overflow (b.getLsbD 6)

/-- One place to the left; `entering` comes in at bit 0 and bit 7 goes to the carry. -/
def shiftLeft (entering : Bool) (b : Byte) (p : Status) : Outcome :=
  plain (p.set .carry b.msb) (BitVec.ofNat 8 (2 * b.toNat + entering.toNat))

/-- One place to the right; `entering` comes in at bit 7 and bit 0 goes to the carry. -/
def shiftRight (entering : Bool) (b : Byte) (p : Status) : Outcome :=
  plain (p.set .carry (b.getLsbD 0)) (BitVec.ofNat 8 (b.toNat / 2 + 128 * entering.toNat))

/-- A left shift into which the carry comes. -/
def rotateLeft (b : Byte) (p : Status) : Outcome :=
  shiftLeft (p.get .carry) b p

/-- A right shift into which the carry comes. -/
def rotateRight (b : Byte) (p : Status) : Outcome :=
  shiftRight (p.get .carry) b p

/-- One more. -/
def increment (b : Byte) (p : Status) : Outcome :=
  plain p (b + 1)

/-- One less. -/
def decrement (b : Byte) (p : Status) : Outcome :=
  plain p (b - 1)

end Micro6502.Alu
