import Micro6502.Bus.Ram
import Micro6502.Proofs.FlagFrame

/-! # The decimal sequence — any operand, a pair of digits or not

    Decimal arithmetic is meant for bytes of two digits, but gives a definite
    answer on all others too.  What the NMOS part answers is known as a
    sequence of sums of bytes: the low digits are added and corrected, the
    high ones are added to that, and the whole is corrected once more.  The
    arithmetic unit works on nibbles instead.  The route:

    * the nibbles of a sum, put together, are the sums of the sequence before
      and after the last correction (`halfSum_eq`, `fullSum_eq`), and a byte
      overflows as a sum where the signed sum of the sequence does not fit
      (`signedOverflow_halfSum_iff`);
    * a decimal difference sets P as the binary one does
      (`status_subDecimal`), and its result is that of the sequence. -/

namespace Micro6502

namespace Alu

/-! ## What the part answers -/

section

variable (a b : Byte) (c : Nat)

/-- The high digit of a byte. -/
def highDigit (a : Byte) : BitVec 4 :=
  a.extractLsb' 4 4

/-- The sum of the low digits and the carry, corrected. -/
def lowSum : Nat :=
  let low := a.toNat % 16 + b.toNat % 16 + c
  if low < 10 then low else (low + 6) % 16 + 16

/-- The sum once its low digit is corrected. -/
def halfSum : Nat :=
  (a.toNat - a.toNat % 16) + (b.toNat - b.toNat % 16) + lowSum a b c

/-- The same sum, of signed high digits. -/
def signedHalfSum : Int :=
  16 * (highDigit a).toInt + 16 * (highDigit b).toInt + lowSum a b c

/-- The sum once both digits are corrected. -/
def fullSum : Nat :=
  if 0xA0 ≤ halfSum a b c then halfSum a b c + 0x60 else halfSum a b c

/-- The difference of the low digits and the borrow, corrected. -/
def lowDifference : Int :=
  let low : Int := (a.toNat % 16 : Nat) - (b.toNat % 16 : Nat) - (1 - c)
  if low < 0 then (low - 6) % 16 - 16 else low

/-- The difference once both digits are corrected. -/
def fullDifference : Int :=
  let both := ((a.toNat / 16 : Nat) - (b.toNat / 16 : Nat) : Int) * 16 + lowDifference a b c
  if both < 0 then both - 0x60 else both

/-- The decimal sum of the part: its flags are taken from three different sums. -/
structure IsDecimalSum (o : Outcome) : Prop where
  value : o.value.toNat = fullSum a b c % 256
  carry : o.status.get .carry = true ↔ 0x100 ≤ fullSum a b c
  zero : o.status.get .zero = true ↔ (a.toNat + b.toNat + c) % 256 = 0
  negative : o.status.get .negative = (halfSum a b c).testBit 7
  overflow : o.status.get .overflow = true ↔
    signedHalfSum a b c < -128 ∨ 127 < signedHalfSum a b c

end

/-! ## Sums -/

section

variable {a b : Byte} {c : Nat}

/-- The high digit as a signed number is that of the byte, shifted. -/
theorem toInt_highDigit (a : Byte) :
    16 * (highDigit a).toInt =
      if a.toNat < 128 then (a.toNat - a.toNat % 16 : Int) else a.toNat - a.toNat % 16 - 256 := by
  have small := a.isLt
  have digit : (highDigit a).toNat = a.toNat / 16 := by
    rw [highDigit, BitVec.extractLsb'_toNat, Nat.shiftRight_eq_div_pow]
    omega
  rw [BitVec.toInt_eq_toNat_cond, digit]
  split <;> split <;> omega

/-- The low digits and the carry add up to 31 at most, valid digits or not. -/
theorem lowSum_le (a b : Byte) (c : Nat) : lowSum a b c ≤ 31 := by
  rw [lowSum]
  split <;> omega

/-- The low nibble and the carry out of it. -/
theorem lowSum_eq (carry : c ≤ 1) {low : Nat}
    (corrected : low = if a.toNat % 16 + b.toNat % 16 + c > 9 then
      a.toNat % 16 + b.toNat % 16 + c + 6 else a.toNat % 16 + b.toNat % 16 + c) :
    16 * (decide (low > 0xF)).toNat + low % 16 = lowSum a b c := by
  rw [lowSum]
  by_cases carries : low > 0xF
  · rw [decide_eq_true carries, Bool.toNat_true]
    split at corrected <;> split <;> omega
  · rw [decide_eq_false carries, Bool.toNat_false]
    split at corrected <;> split <;> omega

/-- Both nibbles before the last correction, the high one with the carry of the low one. -/
theorem halfSum_eq {carry low : Nat} (lows : 16 * carry + low % 16 = lowSum a b c) :
    16 * (a.toNat / 16 + b.toNat / 16 + carry) + low % 16 = halfSum a b c := by
  rw [halfSum, ← lows]
  omega

/-- Both nibbles after it. -/
theorem fullSum_eq {high low : Nat} (half : 16 * high + low % 16 = halfSum a b c) :
    16 * (if high > 9 then high + 6 else high) + low % 16 = fullSum a b c := by
  rw [fullSum, ← half]
  split <;> split <;> omega

/-- Terms of one sign and a sum of the other: the signed sum does not fit a byte. -/
theorem signedOverflow_halfSum_iff (a b : Byte) (c : Nat) :
    signedOverflow a b (BitVec.ofNat 8 (halfSum a b c)) = true ↔
      signedHalfSum a b c < -128 ∨ 127 < signedHalfSum a b c := by
  have aSmall := a.isLt
  have bSmall := b.isLt
  have low := lowSum_le a b c
  rw [signedHalfSum, toInt_highDigit, toInt_highDigit, halfSum, signedOverflow, Bool.and_eq_true,
    beq_iff_eq, bne_iff_ne, ne_eq, BitVec.msb_eq_decide, BitVec.msb_eq_decide,
    BitVec.msb_eq_decide, BitVec.toNat_ofNat, decide_eq_decide, decide_eq_decide]
  generalize lowSum a b c = l at low
  split <;> split <;> omega

/-- What the code gives for a decimal sum is what the sequence of the part gives. -/
theorem isDecimalSum_addDecimal (a b : Byte) (p : Status) :
    IsDecimalSum a b (carryIn p) (addDecimal a b p) := by
  have carry := carryIn_le p
  rw [addDecimal]
  -- each partial sum is named once it is known for a step of the sequence
  generalize corrected : (if a.toNat % 16 + b.toNat % 16 + carryIn p > 9 then
    a.toNat % 16 + b.toNat % 16 + carryIn p + 6 else a.toNat % 16 + b.toNat % 16 + carryIn p) = low
  have half := halfSum_eq (lowSum_eq carry corrected.symm)
  generalize a.toNat / 16 + b.toNat / 16 + (decide (low > 0xF)).toNat = high at half
  have full := fullSum_eq half
  generalize (if high > 9 then high + 6 else high) = high' at full
  rw [half, full]
  refine ⟨BitVec.toNat_ofNat .., ?_, ?_, ?_, ?_⟩
  · rw [Status.get_set_self _ _ (by decide), decide_eq_true_iff, ← full]
    omega
  · rw [Status.get_set_of_ne _ _ (by decide), Status.get_set_of_ne _ _ (by decide),
      Status.get_set_of_ne _ _ (by decide), Status.get_set_self _ _ (by decide), beq_iff_eq,
      BitVec.toNat_eq, BitVec.toNat_ofNat]
    rfl
  · rw [Status.get_set_of_ne _ _ (by decide), Status.get_set_of_ne _ _ (by decide),
      Status.get_set_self _ _ (by decide), BitVec.msb_eq_getLsbD_last, BitVec.getLsbD_ofNat]
    rfl
  · rw [Status.get_set_of_ne _ _ (by decide), Status.get_set_self _ _ (by decide)]
    exact signedOverflow_halfSum_iff a b (carryIn p)

end

/-! ## Differences -/

/-- A sum with the complement is a difference. -/
theorem ofNat_complement (a b : Byte) (c : Nat) :
    BitVec.ofNat 8 (a.toNat + (~~~b).toNat + c) =
      BitVec.ofInt 8 (a.toNat - b.toNat - (1 - c)) := by
  have bSmall := b.isLt
  apply BitVec.eq_of_toNat_eq
  rw [BitVec.toNat_ofNat, BitVec.toNat_ofInt, BitVec.toNat_not]
  omega

/-- Its carry is that there is no borrow. -/
theorem carry_complement (a b : Byte) (c : Nat) :
    a.toNat + (~~~b).toNat + c > 0xFF ↔ (0 : Int) ≤ a.toNat - b.toNat - (1 - c) := by
  have bSmall := b.isLt
  rw [BitVec.toNat_not]
  omega

/-- A difference sets P alike in both modes. -/
theorem status_subDecimal (a b : Byte) (p : Status) :
    (subDecimal a b p).status = (subBinary a b p).status := by
  have signs (r : Byte) : signedOverflow a (~~~b) r = (a.msb != b.msb && r.msb != a.msb) := by
    rw [signedOverflow, BitVec.msb_not]
    cases a.msb <;> cases b.msb <;> rfl
  rw [subDecimal, subBinary, addBinary]
  simp only [ofNat_complement, carry_complement, signs]

/-- A subtraction sets P as a binary one does, decimal or not. -/
theorem status_sub (bcd : Bool) (a b : Byte) (p : Status) :
    (sub bcd a b p).status = (subBinary a b p).status := by
  rw [sub]
  split
  · exact status_subDecimal a b p
  · rfl

/-- The value of a decimal difference is that of the sequence of the part, as a byte. -/
theorem value_subDecimal (a b : Byte) (p : Status) :
    ((subDecimal a b p).value.toNat : Int) = fullDifference a b (carryIn p) % 256 := by
  have digits (low : Int) : 16 * ((a.toNat / 16 : Nat) : Int) - 16 * (b.toNat / 16 : Nat) + low =
      ((a.toNat / 16 : Nat) - (b.toNat / 16 : Nat) : Int) * 16 + low := by
    omega
  rw [fullDifference, lowDifference, subDecimal]
  simp only [digits]
  rw [BitVec.toNat_ofInt, Int.toNat_of_nonneg (Int.emod_nonneg _ (by decide))]
  rfl

end Alu

/-! ## On the machine -/

namespace Machine

open Alu

variable {β : Type} [Bus β]

/-- `m'` differs from `m` in the accumulator, in C, Z, V and N, and in what reading the operand does
    to the bus. -/
structure DiffersInResult (m : Machine β) (o : Operand) (m' : Machine β) : Prop where
  flags : Status.SameBut [.carry, .zero, .overflow, .negative] m.regs.p m'.regs.p
  registers : m'.regs = { m.regs with a := m'.regs.a, p := m'.regs.p }
  bus : m'.bus = (m.loadOperand o).2.bus

/-- An operation of the accumulator that describes its result changes the accumulator and the four
    flags of a sum, and nothing else. -/
theorem differsInResult {bcd : Bool} {op : Operation} {operation : Byte → Byte → Status → Outcome}
    (runs : op.effect bcd = .load fun b r => r.accumulate (operation r.a b r.p))
    (flags : op.flags = [.carry, .zero, .overflow, .negative]) (o : Operand) (m : Machine β) :
    m.DiffersInResult o (m.execute bcd op o).2 where
  flags := by
    rw [← flags]
    exact sameBut_execute bcd op o m
  registers := by
    rw [execute_load runs]
    rfl
  bus := by rw [execute_load runs]

/-- **Decimal arithmetic is that of the part,** whatever the bytes.  A sum is the one of the
    sequence.  A difference is the one of the sequence too, with the flags of the binary one.
    Neither changes anything else. -/
theorem decimal_matches_part (o : Operand) {m : Machine β} (decimal : m.regs.p.get .decimal = true) :
    let a := m.regs.a
    let b := (m.loadOperand o).1
    let c := carryIn m.regs.p
    let sum := (m.execute true .adc o).2
    let difference := (m.execute true .sbc o).2
    let binary := (m.execute false .sbc o).2
    IsDecimalSum a b c ⟨sum.regs.a, sum.regs.p⟩ ∧ m.DiffersInResult o sum ∧
      (difference.regs.a.toNat : Int) = fullDifference a b c % 256 ∧
      (∀ f ∈ [Flag.carry, .zero, .negative, .overflow],
        difference.regs.p.get f = binary.regs.p.get f) ∧
      m.DiffersInResult o difference := by
  intro a b c sum difference binary
  have isDecimal : isDecimal true m.regs.p = true := by
    rw [Alu.isDecimal, decimal]
    rfl
  have isSum : sum.regs = m.regs.accumulate (addDecimal a b m.regs.p) := by
    rw [show sum = _ from execute_load rfl o m, add, if_pos isDecimal]
  have isDifference : difference.regs = m.regs.accumulate (subDecimal a b m.regs.p) := by
    rw [show difference = _ from execute_load rfl o m, sub, if_pos isDecimal]
  have isBinary : binary.regs = m.regs.accumulate (subBinary a b m.regs.p) := by
    rw [show binary = _ from execute_load rfl o m]
    rfl
  refine ⟨?_, differsInResult rfl rfl o m, ?_, ?_, differsInResult rfl rfl o m⟩
  · rw [isSum]
    exact isDecimalSum_addDecimal a b m.regs.p
  · rw [isDifference]
    exact value_subDecimal a b m.regs.p
  · intro f _
    rw [isDifference, isBinary]
    exact congrArg (Status.get · f) (status_subDecimal a b m.regs.p)

/-- $01 and $FF, of which the second has no digits: the sum comes out as $66 with Z set, as the
    binary sum is zero, and N clear, and the difference as $AB. -/
theorem decimal_matches_part_invalid :
    let m : Machine Ram :=
      ⟨{ Registers.new with a := 0x01#8, p := Status.reset.set .decimal true },
        (Ram.blank 1).write 0x0000#16 0xFF#8⟩
    let o := Operand.address 0x0000#16
    let sum := (m.execute true .adc o).2
    let difference := (m.execute true .sbc o).2
    m.regs.p.get .decimal = true ∧ sum.regs.a = 0x66#8 ∧ sum.regs.p.get .zero = true ∧
      sum.regs.p.get .negative = false ∧ sum.regs.p.get .carry = true ∧
      difference.regs.a = 0xAB#8 ∧ difference.regs.p.get .carry = false ∧
      m.DiffersInResult o sum ∧ m.DiffersInResult o difference := by
  intro m o sum difference
  have decimal : m.regs.p.get .decimal = true := by decide
  obtain ⟨isSum, sumRest, isDifference, flags, differenceRest⟩ := decimal_matches_part o decimal
  refine ⟨decimal, ?_, isSum.zero.mpr (by decide), isSum.negative.trans (by decide),
    isSum.carry.mpr (by decide), ?_, ?_, sumRest, differenceRest⟩
  · exact BitVec.eq_of_toNat_eq (isSum.value.trans (by decide))
  · refine BitVec.eq_of_toNat_eq (Int.ofNat_inj.mp (isDifference.trans ?_))
    decide
  · rw [flags .carry (by decide)]
    decide

end Machine

end Micro6502
