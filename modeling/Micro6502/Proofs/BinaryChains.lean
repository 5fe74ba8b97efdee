import Micro6502.Proofs.Chains
import Micro6502.Proofs.DecimalSequence

/-! # Binary chains — sums, differences and comparisons of any length

    Bytes are added lowest first, the carry going from each to the next.
    What the flags of the last byte say of it, they then say of the whole
    number.  The route:

    * a sum of two bytes goes around at most once, as an unsigned sum and as
      a signed one, and C and V tell whether it does (`Alu.value_addBinary`,
      `Alu.signed_addBinary`);
    * so does a sum of numbers, by induction on their bytes: of all signed
      readings only that of the last byte counts (`isSum_thread`);
    * a difference is a sum with the complement (`IsSum.difference`), and a
      comparison sets the flags of a difference (`Alu.get_compare`). -/

namespace Micro6502

namespace Alu

/-! ## One byte -/

/-- The carry of a binary sum says that the exact sum does not fit in a byte. -/
theorem carry_addBinary (a b : Byte) (p : Status) :
    (addBinary a b p).status.get .carry = decide (a.toNat + b.toNat + carryIn p > 0xFF) := by
  rw [addBinary, Status.get_withNZ, if_neg (by decide), if_neg (by decide),
    Status.get_set_of_ne _ _ (by decide), Status.get_set_self _ _ (by decide)]

/-- The value of a binary sum and its carry make up the exact sum. -/
theorem value_addBinary (a b : Byte) (p : Status) :
    (addBinary a b p).value.toNat + 256 * carryIn (addBinary a b p).status =
      a.toNat + b.toNat + carryIn p := by
  have aSmall := a.isLt
  have bSmall := b.isLt
  have carry := carryIn_le p
  have value : (addBinary a b p).value.toNat = (a.toNat + b.toNat + carryIn p) % 256 :=
    BitVec.toNat_ofNat ..
  rw [carryIn, carry_addBinary, value]
  by_cases carries : a.toNat + b.toNat + carryIn p > 0xFF
  · rw [decide_eq_true carries, Bool.toNat_true]
    omega
  · rw [decide_eq_false carries, Bool.toNat_false]
    omega

/-- N says that the value, taken as signed, is below zero. -/
theorem negative_addBinary (a b : Byte) (p : Status) :
    (addBinary a b p).status.get .negative = decide ((addBinary a b p).value.toInt < 0) := by
  rw [addBinary, Status.get_withNZ, if_pos rfl, BitVec.msb_eq_toInt]

/-- Terms of one sign and a sum of the other: the signed sum has gone around. -/
theorem signed_addBinary (a b : Byte) (p : Status) : ∃ around : Int, -1 ≤ around ∧ around ≤ 1 ∧
    ((addBinary a b p).status.get .overflow = true ↔ around ≠ 0) ∧
    a.toInt + b.toInt + carryIn p = (addBinary a b p).value.toInt + 256 * around := by
  have aSmall := a.isLt
  have bSmall := b.isLt
  have carry := carryIn_le p
  refine ⟨(a.toInt + b.toInt + carryIn p - (addBinary a b p).value.toInt) / 256, ?_⟩
  rw [addBinary, Status.get_withNZ, if_neg (by decide), if_neg (by decide),
    Status.get_set_self _ _ (by decide), signedOverflow, Bool.and_eq_true, beq_iff_eq,
    bne_iff_ne, ne_eq, BitVec.msb_eq_decide, BitVec.msb_eq_decide, BitVec.msb_eq_decide,
    decide_eq_decide, decide_eq_decide, BitVec.toInt_eq_toNat_cond, BitVec.toInt_eq_toNat_cond,
    BitVec.toInt_eq_toNat_cond, BitVec.toNat_ofNat]
  split <;> split <;> split <;> omega

/-- A comparison sets the flags of a difference with no borrow. -/
theorem get_compare (a b : Byte) (p : Status) {q : Status} (set : q.get .carry = true) {f : Flag}
    (mem : f ∈ [Flag.carry, .zero, .negative]) :
    (compare a b p).get f = (subBinary a b q).status.get f := by
  have bSmall := b.isLt
  have one : carryIn q = 1 := by rw [carryIn, set, Bool.toNat_true]
  have result : BitVec.ofNat 8 (a.toNat + (~~~b).toNat + 1) = a - b := by
    apply BitVec.eq_of_toNat_eq
    rw [BitVec.toNat_ofNat, BitVec.toNat_not, BitVec.toNat_sub]
    omega
  have carry : a.toNat + (~~~b).toNat + 1 > 0xFF ↔ b.toNat ≤ a.toNat := by
    rw [BitVec.toNat_not]
    omega
  rw [compare, subBinary, addBinary]
  simp only [one, result, carry, Status.get_withNZ, Status.get_set]
  revert mem
  cases f <;> simp

end Alu

namespace Multibyte

open Alu (Outcome thread carryIn addBinary isDecimal)
open Bcd (Site Terms)

/-! ## Numbers -/

/-- The bytes and the flags of a sum of numbers, and of the carry at the start. -/
structure IsSum (p : Status) (xs ys rs : List Byte) (q : Status) : Prop where
  length : rs.length = xs.length
  balance : number rs + 256 ^ xs.length * carryIn q = number xs + number ys + carryIn p
  /-- As a signed sum it goes around once, up or down, where V is set, and else not at all. -/
  around : xs ≠ [] → ∃ around : Int, -1 ≤ around ∧ around ≤ 1 ∧
    (q.get .overflow = true ↔ around ≠ 0) ∧
    signed xs + signed ys + carryIn p = signed rs + (256 ^ xs.length : Nat) * around
  negative : xs ≠ [] → q.get .negative = decide (signed rs < 0)

theorem isSum_singleton (a b : Byte) (p : Status) :
    IsSum p [a] [b] [(addBinary a b p).value] (addBinary a b p).status where
  length := rfl
  balance := by
    rw [number_singleton, number_singleton, number_singleton]
    exact Alu.value_addBinary a b p
  around _ := by
    rw [signed_singleton, signed_singleton, signed_singleton]
    exact Alu.signed_addBinary a b p
  negative _ := by
    rw [signed_singleton]
    exact Alu.negative_addBinary a b p

/-- One more byte below: the flags are still those of the last one. -/
theorem IsSum.cons {xs ys rs : List Byte} {p q : Status} (a b : Byte) (nonempty : xs ≠ [])
    (length : ys.length = xs.length) (rest : IsSum (addBinary a b p).status xs ys rs q) :
    IsSum p (a :: xs) (b :: ys) ((addBinary a b p).value :: rs) q := by
  have first := Alu.value_addBinary a b p
  have ysSome : ys ≠ [] := ne_nil_of_length_eq length nonempty
  have rsSome : rs ≠ [] := ne_nil_of_length_eq rest.length nonempty
  refine ⟨congrArg (· + 1) rest.length, ?_, fun _ => ?_, fun _ => ?_⟩
  · have balance := rest.balance
    rw [number_cons, number_cons, number_cons, List.length_cons, Nat.pow_succ, Nat.mul_right_comm]
    omega
  · obtain ⟨around, down, up, overflow, balance⟩ := rest.around nonempty
    refine ⟨around, down, up, overflow, ?_⟩
    rw [signed_cons a nonempty, signed_cons b ysSome, signed_cons _ rsSome, List.length_cons,
      Nat.pow_succ, Nat.mul_comm, Int.natCast_mul, Int.mul_assoc]
    omega
  · have small := (addBinary a b p).value.isLt
    rw [rest.negative nonempty, signed_cons _ rsSome, decide_eq_decide]
    omega

/-- **A chain of sums of bytes is the sum of the numbers.** -/
theorem isSum_thread {xs ys : List Byte} (length : ys.length = xs.length) (p : Status) :
    IsSum p xs ys (thread p (List.zipWith addBinary xs ys)).1
      (thread p (List.zipWith addBinary xs ys)).2 := by
  induction xs generalizing ys p with
  | nil =>
      obtain rfl := List.length_eq_zero_iff.mp length
      refine ⟨rfl, ?_, fun nonempty => absurd rfl nonempty, fun nonempty => absurd rfl nonempty⟩
      show 0 + 1 * carryIn p = 0 + 0 + carryIn p
      omega
  | cons a xs ih =>
      obtain ⟨b, ys, rfl⟩ := List.exists_cons_of_length_eq_add_one length
      have rest := ih (Nat.succ.inj length) (addBinary a b p).status
      by_cases last : xs = []
      · subst last
        obtain rfl := List.length_eq_zero_iff.mp (Nat.succ.inj length)
        exact isSum_singleton a b p
      · exact rest.cons a b last (Nat.succ.inj length)

namespace IsSum

variable {p q p' q' : Status} {xs ys rs rs' : List Byte}

theorem number_lt (sum : IsSum p xs ys rs q) : number rs < 256 ^ xs.length := by
  rw [← sum.length]
  exact Multibyte.number_lt rs

/-- The value of a sum is the exact sum, less what does not fit. -/
theorem number_eq (sum : IsSum p xs ys rs q) :
    number rs = (number xs + number ys + carryIn p) % 256 ^ xs.length :=
  (Alu.eq_mod_of_balance sum.number_lt sum.balance).1

/-- The carry of a sum is set where the exact sum does not fit. -/
theorem carry_iff (sum : IsSum p xs ys rs q) :
    q.get .carry = true ↔ 256 ^ xs.length ≤ number xs + number ys + carryIn p :=
  (Alu.eq_mod_of_balance sum.number_lt sum.balance).2

/-- V of a sum is set where the exact signed sum is out of range. -/
theorem overflow_iff (sum : IsSum p xs ys rs q) (nonempty : xs ≠ []) :
    q.get .overflow = true ↔
      signed xs + signed ys + carryIn p < -2 ^ (8 * xs.length - 1) ∨
        2 ^ (8 * xs.length - 1) - 1 < signed xs + signed ys + carryIn p := by
  have range := signed_range (ne_nil_of_length_eq sum.length nonempty)
  obtain ⟨around, down, up, overflow, balance⟩ := sum.around nonempty
  have half : ((2 ^ (8 * xs.length - 1) : Nat) : Int) = 2 ^ (8 * xs.length - 1) :=
    Int.natCast_pow ..
  rw [sum.length] at range
  rw [pow_length nonempty] at balance
  rw [overflow, balance, ← half]
  obtain rfl | rfl | rfl : around = -1 ∨ around = 0 ∨ around = 1 := by omega
  · omega
  · omega
  · omega

/-- Of P at the start only the carry counts. -/
theorem agree (nonempty : xs ≠ []) (same : carryIn p' = carryIn p) (sum : IsSum p xs ys rs q)
    (sum' : IsSum p' xs ys rs' q') :
    rs' = rs ∧ ∀ f ∈ [Flag.carry, .negative, .overflow], q'.get f = q.get f := by
  have bytes : rs' = rs := by
    refine number_inj (sum'.length.trans sum.length.symm) ?_
    rw [sum'.number_eq, sum.number_eq, same]
  have carry : q'.get .carry = q.get .carry := by
    rw [Bool.eq_iff_iff, sum'.carry_iff, sum.carry_iff, same]
  have negative : q'.get .negative = q.get .negative := by
    rw [sum'.negative nonempty, sum.negative nonempty, bytes]
  have overflow : q'.get .overflow = q.get .overflow := by
    rw [Bool.eq_iff_iff, sum'.overflow_iff nonempty, sum.overflow_iff nonempty, same]
  refine ⟨bytes, ?_⟩
  simp [carry, negative, overflow]

/-! ## Differences -/

section

variable (sum : IsSum p xs (ys.map (~~~ ·)) rs q) (length : ys.length = xs.length)
  (set : carryIn p = 1)

include sum length set

/-- To add the complement and one is to subtract. -/
theorem difference :
    (number rs : Int) = (number xs - number ys) % 256 ^ xs.length ∧
      (q.get .carry = true ↔ number ys ≤ number xs) := by
  have missing := number_complement ys
  rw [length] at missing
  obtain ⟨denotes, carry⟩ := Alu.sub_of_complement missing (Alu.carryIn_le p)
  constructor
  · rw [sum.number_eq, denotes, set, Nat.sub_self, Int.natCast_zero, Int.sub_zero, Int.natCast_pow]
    rfl
  · rw [sum.carry_iff, carry, set, Nat.sub_self, Nat.add_zero]

/-- A difference that went around has the wrong sign. -/
theorem less_iff (nonempty : xs ≠ []) :
    (q.get .negative ^^ q.get .overflow) = true ↔ signed xs < signed ys := by
  have ysSome := ne_nil_of_length_eq length nonempty
  have rsSome := ne_nil_of_length_eq sum.length nonempty
  have xsRange := signed_range nonempty
  have ysRange := signed_range ysSome
  have rsRange := signed_range rsSome
  rw [length] at ysRange
  rw [sum.length] at rsRange
  obtain ⟨around, down, up, overflow, balance⟩ := sum.around nonempty
  rw [signed_complement ysSome, set, pow_length nonempty] at balance
  rw [sum.negative nonempty]
  by_cases inside : around = 0
  · -- the exact difference is in range, so its sign is the one seen
    have clear : q.get .overflow = false := by
      rw [← Bool.not_eq_true, overflow]
      exact not_not_intro inside
    rw [clear, Bool.xor_false, decide_eq_true_iff]
    rw [inside] at balance
    omega
  · -- the difference went around once, up or down, so the sign seen is the wrong one
    rw [overflow.mpr inside, Bool.xor_true, Bool.not_eq_true', decide_eq_false_iff_not]
    obtain rfl | rfl : around = -1 ∨ around = 1 := by omega
    · omega
    · omega

end

end IsSum

/-! ## Chains -/

/-- In binary mode an operation adds to the accumulator what `g` makes of the byte it reads. -/
structure AddsBinary (g : Byte → Byte) (op : Operation) : Prop where
  keeps : .decimal ∉ op.flags
  sums : ∀ {β : Type} [Bus β] {bcd : Bool} (s : Site β) (p : Status), isDecimal bcd p = false →
    outcome bcd op s p = addBinary s.term (g s.reads) p

theorem addsBinary_adc : AddsBinary id .adc := by
  refine ⟨by decide, ?_⟩
  intro β _ bcd s p binary
  rw [outcome, after_load rfl]
  show Alu.add bcd s.term s.reads p = addBinary s.term s.reads p
  rw [Alu.add, if_neg (Bool.not_eq_true _ ▸ binary)]

theorem addsBinary_sbc : AddsBinary (~~~ ·) .sbc := by
  refine ⟨by decide, ?_⟩
  intro β _ bcd s p binary
  rw [outcome, after_load rfl]
  show Alu.sub bcd s.term s.reads p = addBinary s.term (~~~s.reads) p
  rw [Alu.sub, if_neg (Bool.not_eq_true _ ▸ binary), Alu.subBinary]

variable {β : Type} [Bus β] {bcd : Bool} {xs ys : List Byte} {sites : List (Site β)}

/-- A processor without decimal mode, or with D clear, does not add in decimal. -/
theorem isDecimal_eq_false {p : Status} (binary : bcd = false ∨ p.get .decimal = false) :
    isDecimal bcd p = false := by
  rw [isDecimal]
  rcases binary with none | clear
  · rw [none, Bool.false_and]
  · rw [clear, Bool.and_false]

/-- Arithmetic stays binary. -/
theorem isDecimal_after (op : Operation) (keeps : .decimal ∉ op.flags) (s : Site β) {p : Status}
    (binary : isDecimal bcd p = false) : isDecimal bcd (outcome bcd op s p).status = false := by
  rw [← binary, isDecimal, isDecimal]
  exact congrArg (bcd && ·) ((Machine.sameBut_execute bcd op s.operand _).get keeps)

/-- What a chain of additions leaves in the accumulator, link by link, is the sum of its terms: by
    induction on the links, with the carry of each brought into the next. -/
theorem AddsBinary.isSum {g : Byte → Byte} {op : Operation} (adds : AddsBinary g op)
    (terms : Terms xs ys sites) {p : Status} (binary : isDecimal bcd p = false) :
    IsSum p xs (ys.map g) (chain bcd p (sites.map (Prod.mk op))).1
      (chain bcd p (sites.map (Prod.mk op))).2 := by
  obtain ⟨rfl, rfl⟩ := terms
  have same : chain bcd p (sites.map (Prod.mk op)) =
      thread p (List.zipWith addBinary (sites.map Site.term) ((sites.map Site.reads).map g)) := by
    rw [chain, List.map_map, List.map_map, List.zipWith_map, List.zipWith_self]
    exact Alu.thread_congr (isDecimal bcd · = false) adds.sums
      (fun s _ => isDecimal_after op adds.keeps s) sites binary
  rw [same]
  refine isSum_thread ?_ p
  rw [List.length_map, List.length_map, List.length_map]

/-- **Addition is binary.**  However many bytes are added, the carry going from each to the next,
    they denote the sum, as far as it fits them.  At the end C tells whether the unsigned sum does
    not fit, V whether the signed one does not, and N is the top bit. -/
theorem binary_addition {p : Status} (terms : Terms xs ys sites) (nonempty : xs ≠ [])
    (binary : bcd = false ∨ p.get .decimal = false) :
    let results := (chain bcd p (sites.map (Prod.mk .adc))).1
    let q := (chain bcd p (sites.map (Prod.mk .adc))).2
    let n := xs.length
    let sum := number xs + number ys + carryIn p
    let signedSum := signed xs + signed ys + carryIn p
    results.length = n ∧ number results = sum % 256 ^ n ∧
      (q.get .carry = true ↔ 256 ^ n ≤ sum) ∧
      (q.get .overflow = true ↔
        signedSum < -2 ^ (8 * n - 1) ∨ 2 ^ (8 * n - 1) - 1 < signedSum) ∧
      q.get .negative = (number results).testBit (8 * n - 1) := by
  intro results q n sum signedSum
  have isSum : IsSum p xs ys results q := by
    have isSum := addsBinary_adc.isSum terms (isDecimal_eq_false binary)
    rw [List.map_id] at isSum
    exact isSum
  refine ⟨isSum.length, isSum.number_eq, isSum.carry_iff, isSum.overflow_iff nonempty, ?_⟩
  rw [isSum.negative nonempty, ← testBit_number (ne_nil_of_length_eq isSum.length nonempty), isSum.length]

/-- 258 + 32509 + 1, where the carry of the low byte makes the signed sum too large. -/
theorem binary_addition_overflows :
    let xs := [0x02#8, 0x01#8]
    let ys := [0xFD#8, 0x7E#8]
    let sites := [Site.of 0x02#8 0xFD#8, Site.of 0x01#8 0x7E#8]
    let p := Status.reset.set .carry true
    let results := (chain true p (sites.map (Prod.mk .adc))).1
    let q := (chain true p (sites.map (Prod.mk .adc))).2
    Terms xs ys sites ∧ xs ≠ [] ∧ p.get .decimal = false ∧
      signed xs + signed ys + carryIn p = 2 ^ 15 ∧ number results = 2 ^ 15 ∧
      q.get .carry = false ∧ q.get .overflow = true ∧ q.get .negative = true := by
  intro xs ys sites p results q
  have terms : Terms xs ys sites := ⟨by decide, by decide⟩
  have nonempty : xs ≠ [] := by decide
  have clear : p.get .decimal = false := by decide
  have signedSum : signed xs + signed ys + carryIn p = 2 ^ 15 := by decide
  have binary : true = false ∨ p.get .decimal = false := .inr clear
  obtain ⟨-, sum, carry, overflow, negative⟩ := binary_addition terms nonempty binary
  have result : number results = 2 ^ 15 := sum.trans (by decide)
  rw [result] at negative
  refine ⟨terms, nonempty, clear, signedSum, result, ?_, overflow.mpr ?_, negative.trans (by decide)⟩
  · rw [← Bool.not_eq_true, carry]
    decide
  · rw [signedSum]
    exact .inr (by decide)

/-! ## Comparisons -/

/-- The operations that compare, with the register that each compares. -/
def comparisons : List (Operation × (Registers → Byte)) :=
  [(.cmp, Registers.a), (.cpx, Registers.x), (.cpy, Registers.y)]

/-- A comparison changes nothing but P. -/
theorem after_comparison (bcd : Bool) (s : Site β) (p : Status) {op : Operation}
    {register : Registers → Byte} (mem : (op, register) ∈ comparisons) :
    (after bcd op s p).regs =
      { s.machine.regs with p := Alu.compare (register s.machine.regs) s.reads p } := by
  simp only [comparisons, List.mem_cons, Prod.mk.injEq, List.not_mem_nil, or_false] at mem
  obtain ⟨rfl, rfl⟩ | ⟨rfl, rfl⟩ | ⟨rfl, rfl⟩ := mem
  · rw [after_load rfl]
    rfl
  · rw [after_load rfl]
    rfl
  · rw [after_load rfl]
    rfl

/-- A comparison leaves C, Z and N as a subtraction from the same register would, with the carry set
    before it. -/
theorem get_comparison {bcd : Bool} {s t : Site β} {q : Status} (p : Status) {op : Operation}
    {register : Registers → Byte} (mem : (op, register) ∈ comparisons)
    (term : t.term = register s.machine.regs) (reads : t.reads = s.reads)
    (set : q.get .carry = true) :
    ∀ f ∈ [Flag.carry, .zero, .negative],
      (after bcd op s p).regs.p.get f = (after bcd .sbc t q).regs.p.get f := by
  intro f flag
  have difference : (after bcd .sbc t q).regs.p = (Alu.sub bcd t.term t.reads q).status := by
    rw [after_load rfl]
    rfl
  rw [after_comparison bcd s p mem, difference, Alu.status_sub, term, reads]
  exact Alu.get_compare _ _ p set flag

/-- **Subtraction is binary, and a comparison is a subtraction.**  With the carry set at the start
    the results denote the difference, wrapped to fit them; at the end C tells the unsigned order
    of the numbers, and N and V together the signed one.  A comparison in place of the first
    subtraction changes no other byte, nor the flags at the end, whatever the carry before it; and
    of one byte every comparison sets the flags of a subtraction, but for V. -/
theorem binary_subtraction (bcd : Bool) :
    (∀ {xs ys : List Byte} {sites : List (Site β)} {p : Status}, Terms xs ys sites → xs ≠ [] →
      (bcd = false ∨ p.get .decimal = false) → p.get .carry = true →
        let results := (chain bcd p (sites.map (Prod.mk .sbc))).1
        let q := (chain bcd p (sites.map (Prod.mk .sbc))).2
        results.length = xs.length ∧
          (number results : Int) = (number xs - number ys) % 256 ^ xs.length ∧
          (q.get .carry = true ↔ number ys ≤ number xs) ∧
          ((q.get .negative ^^ q.get .overflow) = true ↔ signed xs < signed ys)) ∧
    (∀ (first : Site β) (p : Status) {sites : List (Site β)} {q : Status}, sites ≠ [] →
      (bcd = false ∨ p.get .decimal = false) → (bcd = false ∨ q.get .decimal = false) →
      q.get .carry = true →
        let compared := chain bcd p ((.cmp, first) :: sites.map (Prod.mk .sbc))
        let subtracted := chain bcd q ((.sbc, first) :: sites.map (Prod.mk .sbc))
        compared.1.tail = subtracted.1.tail ∧
          ∀ f ∈ [Flag.carry, .negative, .overflow], compared.2.get f = subtracted.2.get f) ∧
    ∀ (p : Status) {s t : Site β} {q : Status} {op : Operation} {register : Registers → Byte},
      (op, register) ∈ comparisons → t.term = register s.machine.regs → t.reads = s.reads →
      q.get .carry = true →
        let compared := after bcd op s p
        let subtracted := after bcd .sbc t q
        (∀ f ∈ [Flag.carry, .zero, .negative], compared.regs.p.get f = subtracted.regs.p.get f) ∧
          compared.regs = { s.machine.regs with p := compared.regs.p } ∧
          compared.regs.p.get .overflow = p.get .overflow := by
  refine ⟨?_, ?_, ?_⟩
  · intro xs ys sites p terms nonempty binary set results q
    have isSum := addsBinary_sbc.isSum terms (isDecimal_eq_false binary)
    have one : carryIn p = 1 := by rw [carryIn, set, Bool.toNat_true]
    obtain ⟨denotes, carry⟩ := isSum.difference terms.length_eq one
    exact ⟨isSum.length, denotes, carry, isSum.less_iff terms.length_eq one nonempty⟩
  · intro first p sites q nonempty pBinary qBinary set compared subtracted
    -- the first byte hands on a carry alone
    have mem : (Operation.cmp, Registers.a) ∈ comparisons := List.mem_cons_self
    have handed : carryIn (outcome bcd .cmp first p).status =
        carryIn (outcome bcd .sbc first q).status :=
      congrArg Bool.toNat (get_comparison p mem rfl rfl set .carry List.mem_cons_self)
    have comparedMode := isDecimal_after .cmp (by decide) first (isDecimal_eq_false pBinary)
    have subtractedMode := isDecimal_after .sbc (by decide) first (isDecimal_eq_false qBinary)
    exact (addsBinary_sbc.isSum ⟨rfl, rfl⟩ subtractedMode).agree (mt List.map_eq_nil_iff.mp nonempty)
      handed (addsBinary_sbc.isSum ⟨rfl, rfl⟩ comparedMode)
  · intro p s t q op register mem term reads set compared subtracted
    have regs := after_comparison bcd s p mem
    refine ⟨get_comparison p mem term reads set, ?_, ?_⟩
    · rw [show compared.regs = _ from regs]
    · rw [show compared.regs = _ from regs]
      exact (Alu.sameBut_compare _ _ p).get (by decide)

/-- -32768 - 1, on a part that ignores the decimal flag: the signed difference goes around, so N is
    clear and V set.  CMP in place of the first SBC leaves the same, without a carry before it; and
    CPX of $10 with $20 sets the flags of SBC. -/
theorem binary_subtraction_wraps :
    let xs := [0x00#8, 0x80#8]
    let ys := [0x01#8, 0x00#8]
    let low := Site.of 0x00#8 0x01#8
    let sites := [low, Site.of 0x80#8 0x00#8]
    let later := [Site.of 0x80#8 0x00#8]
    let t := Site.of 0x10#8 0x20#8
    let s : Site Ram := { t with machine := t.machine.mapRegs fun r => { r with a := 0, x := r.a } }
    let p := Status.reset.set .decimal true
    let q := p.set .carry true
    let results := (chain false q (sites.map (Prod.mk .sbc))).1
    let after := (chain false q (sites.map (Prod.mk .sbc))).2
    let compared := chain false p ((.cmp, low) :: later.map (Prod.mk .sbc))
    Terms xs ys sites ∧ xs ≠ [] ∧ later ≠ [] ∧ q.get .decimal = true ∧ p.get .carry = false ∧
      q.get .carry = true ∧ (Operation.cpx, Registers.x) ∈ comparisons ∧
      t.term = s.machine.regs.x ∧ t.reads = s.reads ∧
      number results = 32767 ∧ after.get .carry = true ∧ signed xs < signed ys ∧
      (after.get .negative ^^ after.get .overflow) = true ∧ compared.1.tail = [0x7F#8] ∧
      compared.2.get .overflow = true ∧
      (Multibyte.after false .cpx s p).regs.p.get .carry = false ∧
      (Multibyte.after false .cpx s p).regs.x = 0x10#8 := by
  intro xs ys low sites later t s p q results after compared
  have terms : Terms xs ys sites := ⟨by decide, by decide⟩
  have nonempty : xs ≠ [] := by decide
  have laterNonempty : later ≠ [] := List.cons_ne_nil _ _
  have set : q.get .carry = true := by decide
  have mem : (Operation.cpx, Registers.x) ∈ comparisons :=
    List.mem_cons_of_mem _ List.mem_cons_self
  have term : t.term = s.machine.regs.x := rfl
  have reads : t.reads = s.reads := by decide
  have less : signed xs < signed ys := by decide
  obtain ⟨-, difference, unsignedOrder, signedOrder⟩ :=
    (binary_subtraction false).1 terms nonempty (.inl rfl) set
  obtain ⟨bytes, flags⟩ :=
    (binary_subtraction false).2.1 low p laterNonempty (.inl rfl) (.inl rfl) set
  obtain ⟨alike, rest, -⟩ := (binary_subtraction false).2.2 p mem term reads set
  refine ⟨terms, nonempty, laterNonempty, by decide, by decide, set, mem, term, reads, ?_,
    unsignedOrder.mpr (by decide), less, signedOrder.mpr less, bytes.trans (by decide), ?_, ?_, ?_⟩
  · exact Int.ofNat_inj.mp (difference.trans (by decide))
  · rw [flags .overflow (by decide)]
    decide
  · rw [alike .carry (by decide)]
    decide
  · rw [rest]
    rfl

end Multibyte

end Micro6502
