import Mathlib.Data.Nat.Digits.Defs
import Micro6502.Bus.Ram
import Micro6502.Proofs.FlagFrame

/-! # Packed decimals — arithmetic on numbers of any length

    In decimal mode a byte holds two decimal digits, and numbers of any
    length are added and subtracted a byte at a time, lowest first, the
    carry going from each byte to the next.  The route:

    * correcting a nibble puts the ten that it is over, or the ten that it
      borrows, where the next nibble is (`correct_sum`,
      `correct_difference`), so on packed bytes both operations give the
      digits and the carry of a sum; the second byte counts for what it is,
      or for what it misses to 99 (`sums_add`, `sums_sub`);
    * a chain of such sums adds up the numbers (`Adds.addsUp`), whatever
      the second one's bytes count for;
    * to add what a number misses to all nines is to subtract it
      (`AddsUp.difference`), and undoes adding it (`AddsUp.undo`). -/

namespace Micro6502

namespace Bcd

/-! ## Packed bytes -/

/-- Both halves of the byte are decimal digits. -/
def Valid (b : Byte) : Prop :=
  b.toNat % 16 < 10 ∧ b.toNat / 16 < 10

instance (b : Byte) : Decidable (Valid b) :=
  inferInstanceAs (Decidable (_ ∧ _))

/-- The number that the two digits of a byte denote. -/
def value (b : Byte) : Nat :=
  b.toNat % 16 + 10 * (b.toNat / 16)

/-- What a byte misses to 99. -/
def complement (b : Byte) : Nat :=
  99 - value b

/-- The byte whose two digits denote a number below 100. -/
def ofValue (v : Nat) : Byte :=
  BitVec.ofNat 8 (v % 10 + 16 * (v / 10))

/-- A byte of two decimal digits is worth less than 100. -/
theorem Valid.value_lt {b : Byte} (valid : Valid b) : value b < 100 := by
  obtain ⟨low, high⟩ := valid
  rw [value]
  omega

/-- A byte of two decimal digits is the one for its value. -/
theorem Valid.ofValue_value {b : Byte} (valid : Valid b) : ofValue (value b) = b := by
  obtain ⟨low, high⟩ := valid
  apply BitVec.eq_of_toNat_eq
  rw [ofValue, value, BitVec.toNat_ofNat]
  omega

/-- The byte for a value has its tens in the high digit and its ones in the low one. -/
theorem toNat_ofValue {v : Nat} (small : v < 100) : (ofValue v).toNat = v % 10 + 16 * (v / 10) := by
  rw [ofValue, BitVec.toNat_ofNat]
  omega

theorem toNat_ofValue_digits {ones tens : Nat} (one : ones < 10) (ten : tens < 10) :
    (ofValue (ones + 10 * tens)).toNat = ones + 16 * tens := by
  rw [toNat_ofValue (by omega)]
  omega

theorem valid_ofValue {v : Nat} (small : v < 100) : Valid (ofValue v) := by
  rw [Valid, toNat_ofValue small]
  omega

theorem value_ofValue {v : Nat} (small : v < 100) : value (ofValue v) = v := by
  rw [value, toNat_ofValue small]
  omega

/-! ## Numbers of any length -/

/-- The number that bytes denote, lowest byte first. -/
def number (bs : List Byte) : Nat :=
  Nat.ofDigits 100 (bs.map value)

theorem number_cons (b : Byte) (bs : List Byte) : number (b :: bs) = value b + 100 * number bs :=
  Nat.ofDigits_cons

variable {bs cs : List Byte}

theorem values_lt (valid : ∀ b ∈ bs, Valid b) : ∀ v ∈ bs.map value, v < 100 := by
  intro v mem
  obtain ⟨b, here, rfl⟩ := List.mem_map.mp mem
  exact (valid b here).value_lt

theorem number_lt (valid : ∀ b ∈ bs, Valid b) : number bs < 100 ^ bs.length := by
  rw [number, ← List.length_map value]
  exact Nat.ofDigits_lt_base_pow_length (by decide) (values_lt valid)

theorem map_ofValue (valid : ∀ b ∈ bs, Valid b) : (bs.map value).map ofValue = bs := by
  rw [List.map_map]
  exact (List.map_congr_left fun b mem => (valid b mem).ofValue_value).trans (List.map_id bs)

/-- Packed bytes of one length that denote one number are the same. -/
theorem number_inj (length : bs.length = cs.length) (bsValid : ∀ b ∈ bs, Valid b)
    (csValid : ∀ b ∈ cs, Valid b) (same : number bs = number cs) : bs = cs := by
  have values : bs.map value = cs.map value :=
    Nat.ofDigits_inj_of_len_eq (by decide) (by rw [List.length_map, List.length_map, length])
      (values_lt bsValid) (values_lt csValid) same
  rw [← map_ofValue bsValid, values, map_ofValue csValid]

/-- What a number misses to all nines. -/
theorem number_add_complement (valid : ∀ b ∈ bs, Valid b) :
    number bs + Nat.ofDigits 100 (bs.map complement) + 1 = 100 ^ bs.length := by
  induction bs with
  | nil => rfl
  | cons b bs ih =>
      have rest := ih fun b mem => valid b (List.mem_cons_of_mem _ mem)
      have first := (valid b List.mem_cons_self).value_lt
      rw [number_cons, List.map_cons, Nat.ofDigits_cons, List.length_cons, Nat.pow_succ, ← rest,
        complement]
      omega

end Bcd

namespace Alu

/-! ## Sums that go around -/

section

variable {bound : Nat}

/-- A result below the bound, and the carry for what is over it, are those of a sum. -/
theorem eq_mod_of_balance {r total : Nat} {q : Status} (small : r < bound)
    (balance : r + bound * carryIn q = total) :
    r = total % bound ∧ (q.get .carry = true ↔ bound ≤ total) := by
  rw [← balance]
  constructor
  · rw [Nat.add_mul_mod_self_left, Nat.mod_eq_of_lt small]
  · rw [carryIn]
    cases q.get .carry with
    | false => exact iff_of_false Bool.false_ne_true (by rw [Bool.toNat_false]; omega)
    | true => exact iff_of_true rfl (by rw [Bool.toNat_true]; omega)

/-- To add what a number misses to the last one below the bound is to subtract it, with a borrow
    unless one more is added. -/
theorem sub_of_complement {x y missing carry : Nat} (whole : y + missing + 1 = bound)
    (bit : carry ≤ 1) :
    (((x + missing + carry) % bound : Nat) : Int) = (x - y - (1 - carry : Nat)) % bound ∧
      (bound ≤ x + missing + carry ↔ y + (1 - carry) ≤ x) := by
  constructor
  · have shifted : ((x + missing + carry : Nat) : Int) = x - y - (1 - carry : Nat) + bound := by
      omega
    rw [Int.natCast_emod, shifted, Int.add_emod_right]
  · omega

end

/-! ## One byte -/

open Bcd

/-- On packed bytes, an operation in decimal mode gives the digits and the carry of the sum of the
    first byte, what the second one counts for, and the carry. -/
def Sums (f : Byte → Nat) (operation : Byte → Byte → Status → Outcome) : Prop :=
  ∀ ⦃a b p⦄, Valid a → Valid b → p.get .decimal = true →
    (operation a b p).value = ofValue ((value a + f b + carryIn p) % 100) ∧
      carryIn (operation a b p).status = (value a + f b + carryIn p) / 100

/-- Correcting a digit of a sum puts its tens where they count sixteen. -/
theorem correct_sum {d : Nat} (fits : d ≤ 19) :
    (if d > 9 then d + 6 else d) = d % 10 + 16 * (d / 10) := by
  split <;> omega

/-- What is carried from a digit of a sum is its tens. -/
theorem carry_sum {d : Nat} (fits : d ≤ 19) :
    (decide (d % 10 + 16 * (d / 10) > 0xF)).toNat = d / 10 := by
  by_cases carries : d % 10 + 16 * (d / 10) > 0xF
  · rw [decide_eq_true carries, Bool.toNat_true]
    omega
  · rw [decide_eq_false carries, Bool.toNat_false]
    omega

/-- The nibbles of a sum once they are corrected, the carries going out above them. -/
theorem ofNat_nibbles (low high : Nat) :
    BitVec.ofNat 8 (16 * (high % 10 + 16 * (high / 10)) + (low % 10 + 16 * (low / 10)) % 16) =
      ofValue ((low % 10 + 10 * high) % 100) := by
  have digits : (low % 10 + 10 * high) % 100 = low % 10 + 10 * (high % 10) := by omega
  have nibble : (low % 10 + 16 * (low / 10)) % 16 = low % 10 := by omega
  apply BitVec.eq_of_toNat_eq
  rw [digits, nibble, toNat_ofValue_digits (by omega) (by omega), BitVec.toNat_ofNat]
  omega

/-- Addition sums the values of its bytes. -/
theorem sums_add : Sums value (add true) := by
  intro a b p ⟨aLow, aHigh⟩ ⟨bLow, bHigh⟩ decimal
  have carry := carryIn_le p
  rw [add, isDecimal, decimal, Bool.and_true, if_pos rfl, addDecimal]
  dsimp only
  -- what each nibble comes to before it is corrected
  generalize lows : a.toNat % 16 + b.toNat % 16 + carryIn p = low
  rw [correct_sum (d := low) (by omega), carry_sum (by omega)]
  generalize highs : a.toNat / 16 + b.toNat / 16 + low / 10 = high
  rw [correct_sum (d := high) (by omega)]
  have total : value a + value b + carryIn p = low % 10 + 10 * high := by
    rw [value, value]
    omega
  rw [total]
  refine ⟨ofNat_nibbles low high, ?_⟩
  rw [carryIn, Status.get_set_self _ _ (by decide), carry_sum (by omega)]
  omega

/-- Correcting a digit of a difference borrows ten for what would be below zero. -/
theorem correct_difference {d : Int} (low : -10 ≤ d) (high : d ≤ 9) :
    (if d < 0 then (d - 6) % 16 - 16 else d) = d % 10 + 16 * (d / 10) := by
  split <;> omega

/-- The nibbles of a difference once they are corrected, the borrow going out above them. -/
theorem ofInt_nibbles {s : Nat} {low high : Int} (total : s = low % 10 + 10 * high + 100) :
    BitVec.ofInt 8 (low % 10 + 16 * (high % 10) + 256 * (high / 10)) = ofValue (s % 100) := by
  have digits : s % 100 = (low % 10).toNat + 10 * (high % 10).toNat := by omega
  apply BitVec.eq_of_toNat_eq
  rw [digits, toNat_ofValue_digits (by omega) (by omega), BitVec.toNat_ofInt]
  omega

/-- The carry is that of the binary difference, and yet the one that decimal digits need: packed
    bytes are in the order of the numbers they denote. -/
theorem sums_sub : Sums complement (sub true) := by
  intro a b p ⟨aLow, aHigh⟩ ⟨bLow, bHigh⟩ decimal
  have carry := carryIn_le p
  rw [sub, isDecimal, decimal, Bool.and_true, if_pos rfl, subDecimal]
  dsimp only
  -- what each nibble comes to before it is corrected, the tens rounded down
  generalize lows : (a.toNat % 16 : Nat) - (b.toNat % 16 : Nat) - (1 - (carryIn p : Int)) = low
  rw [correct_difference (d := low) (by omega) (by omega)]
  generalize highs : ((a.toNat / 16 : Nat) - (b.toNat / 16 : Nat) + low / 10 : Int) = high
  have total : (value a + complement b + carryIn p : Nat) = low % 10 + 10 * high + 100 := by
    rw [complement, value, value]
    omega
  have both : 16 * (a.toNat / 16 : Nat) - 16 * (b.toNat / 16 : Nat) +
      (low % 10 + 16 * (low / 10)) = low % 10 + 16 * high := by
    omega
  have corrected : (if low % 10 + 16 * high < 0 then low % 10 + 16 * high - 0x60
      else low % 10 + 16 * high) = low % 10 + 16 * (high % 10) + 256 * (high / 10) := by
    split <;> omega
  rw [both, corrected]
  refine ⟨ofInt_nibbles total, ?_⟩
  rw [carryIn, Status.get_withNZ, if_neg (by decide), if_neg (by decide),
    Status.get_set_of_ne _ _ (by decide), Status.get_set_self _ _ (by decide)]
  by_cases enough : 0 ≤ (a.toNat : Int) - b.toNat - (1 - (carryIn p : Int))
  · rw [decide_eq_true enough, Bool.toNat_true]
    omega
  · rw [decide_eq_false enough, Bool.toNat_false]
    omega

end Alu

namespace Bcd

open Alu (Sums carryIn)

/-! ## A byte after the other -/

/-- A place in a program where an operation is executed: the machine there, and the operand. -/
structure Site (β : Type) where
  machine : Machine β
  operand : Operand

variable {β : Type} [Bus β]

namespace Site

/-- What is in the accumulator. -/
def term (s : Site β) : Byte :=
  s.machine.regs.a

/-- What the operand reads. -/
def reads (s : Site β) : Byte :=
  (s.machine.loadOperand s.operand).1

/-- The machine after the operation, on a part that can do decimal arithmetic, with P as given. -/
def execute (op : Operation) (p : Status) (s : Site β) : Machine β :=
  ((s.machine.mapRegs (·.mapStatus fun _ => p)).execute true op s.operand).2

/-- Executes an operation at one site after the other, each with P as the one before left it.  Gives
    what is in the accumulator after each, and P after the last. -/
def chain (op : Operation) (p : Status) : List (Site β) → List Byte × Status
  | [] => ([], p)
  | s :: rest =>
      let m := s.execute op p
      let later := chain op m.regs.p rest
      (m.regs.a :: later.1, later.2)

/-- What P is does not count where the operand is read. -/
theorem reads_mapStatus (p : Status) (s : Site β) :
    ((s.machine.mapRegs (·.mapStatus fun _ => p)).loadOperand s.operand).1 = s.reads := by
  rw [reads]
  cases s.operand <;> rfl

/-- An operation of the accumulator puts its value there and its flags in P. -/
theorem execute_eq {op : Operation} {operation : Byte → Byte → Status → Alu.Outcome}
    (runs : op.effect true = .load fun b r => r.accumulate (operation r.a b r.p)) (p : Status)
    (s : Site β) : (s.execute op p).regs.a = (operation s.term s.reads p).value ∧
      (s.execute op p).regs.p = (operation s.term s.reads p).status := by
  rw [execute, Machine.execute_load runs, reads_mapStatus]
  exact ⟨rfl, rfl⟩

end Site

/-- In decimal mode an operation adds a packed byte to the accumulator, for what it counts. -/
structure Adds (f : Byte → Nat) (op : Operation) : Prop where
  keeps : .decimal ∉ op.flags
  sums : ∀ {β : Type} [Bus β] {s : Site β} {p : Status}, Valid s.term → Valid s.reads →
    p.get .decimal = true →
      (s.execute op p).regs.a = ofValue ((value s.term + f s.reads + carryIn p) % 100) ∧
        carryIn (s.execute op p).regs.p = (value s.term + f s.reads + carryIn p) / 100

/-- An operation that sums values, and leaves D alone, is one that a chain can be made of. -/
theorem Adds.of_sums {f : Byte → Nat} {op : Operation}
    {operation : Byte → Byte → Status → Alu.Outcome}
    (runs : op.effect true = .load fun b r => r.accumulate (operation r.a b r.p))
    (keeps : .decimal ∉ op.flags) (sums : Sums f operation) : Adds f op where
  keeps := keeps
  sums {_ _} s p term reads decimal := by
    obtain ⟨a, status⟩ := s.execute_eq runs p
    rw [a, status]
    exact sums term reads decimal

theorem adds_adc : Adds value .adc :=
  .of_sums rfl (by decide) Alu.sums_add

theorem adds_sbc : Adds complement .sbc :=
  .of_sums rfl (by decide) Alu.sums_sub

section

variable {f : Byte → Nat} {op : Operation} (adds : Adds f op)

include adds

/-- A link of a chain leaves D as it was. -/
theorem Adds.decimal_execute (p : Status) (s : Site β) :
    (s.execute op p).regs.p.get .decimal = p.get .decimal :=
  (Machine.sameBut_execute true op s.operand
    (s.machine.mapRegs (·.mapStatus fun _ => p))).get adds.keeps

/-- A chain leaves D as it was. -/
theorem Adds.decimal_chain (p : Status) (sites : List (Site β)) :
    (Site.chain op p sites).2.get .decimal = p.get .decimal := by
  induction sites generalizing p with
  | nil => rfl
  | cons s rest ih => exact (ih _).trans (adds.decimal_execute p s)

end

/-- The accumulators hold the bytes of one number, and the operands read those of another. -/
structure Terms (xs ys : List Byte) (sites : List (Site β)) : Prop where
  terms : sites.map Site.term = xs
  reads : sites.map Site.reads = ys

variable {xs ys : List Byte} {sites : List (Site β)}

theorem Terms.length_eq (terms : Terms xs ys sites) : ys.length = xs.length := by
  obtain ⟨rfl, rfl⟩ := terms
  rw [List.length_map, List.length_map]

/-- The bytes and the carry of a sum: that of the first number, of what the bytes of the second one
    count for, and of the carry at the start. -/
structure AddsUp (f : Byte → Nat) (p : Status) (xs ys results : List Byte) (q : Status) :
    Prop where
  valid : ∀ r ∈ results, Valid r
  length : results.length = xs.length
  balance : number results + 100 ^ xs.length * carryIn q =
    number xs + Nat.ofDigits 100 (ys.map f) + carryIn p

/-- A chain of sums of bytes adds up the numbers. -/
theorem Adds.addsUp {f : Byte → Nat} {op : Operation} (adds : Adds f op)
    (terms : Terms xs ys sites) (xsValid : ∀ b ∈ xs, Valid b) (ysValid : ∀ b ∈ ys, Valid b)
    {p : Status} (decimal : p.get .decimal = true) :
    AddsUp f p xs ys (Site.chain op p sites).1 (Site.chain op p sites).2 := by
  obtain ⟨rfl, rfl⟩ := terms
  induction sites generalizing p with
  | nil =>
      refine ⟨List.forall_mem_nil _, rfl, ?_⟩
      show 0 + 1 * carryIn p = 0 + 0 + carryIn p
      omega
  | cons s rest ih =>
      obtain ⟨result, carry⟩ :=
        adds.sums (xsValid _ List.mem_cons_self) (ysValid _ List.mem_cons_self) decimal
      have small : (value s.term + f s.reads + carryIn p) % 100 < 100 := Nat.mod_lt _ (by decide)
      have stays := (adds.decimal_execute p s).trans decimal
      have later := ih stays (fun b mem => xsValid b (List.mem_cons_of_mem _ mem))
        fun b mem => ysValid b (List.mem_cons_of_mem _ mem)
      rw [Site.chain]
      refine ⟨?_, congrArg (· + 1) later.length, ?_⟩
      · intro r mem
        rcases List.mem_cons.mp mem with rfl | mem
        · rw [result]
          exact valid_ofValue small
        · exact later.valid r mem
      · -- a hundred of the first byte is one carry of the others
        have balance := later.balance
        rw [carry] at balance
        simp only [List.map_cons, List.length_cons, number_cons, Nat.ofDigits_cons, Nat.pow_succ]
        rw [result, value_ofValue small, Nat.mul_right_comm]
        omega

namespace AddsUp

variable {f : Byte → Nat} {p q : Status} {results : List Byte}

/-- A sum of so many bytes is a number of so many bytes. -/
theorem number_lt (up : AddsUp f p xs ys results q) : number results < 100 ^ xs.length := by
  rw [← up.length]
  exact Bcd.number_lt up.valid

/-- The number that a chain leaves is the exact sum, less what does not fit. -/
theorem number_eq (up : AddsUp f p xs ys results q) :
    number results =
      (number xs + Nat.ofDigits 100 (ys.map f) + carryIn p) % 100 ^ xs.length :=
  (Alu.eq_mod_of_balance up.number_lt up.balance).1

/-- The carry of a chain is set where the exact sum does not fit. -/
theorem carry_iff (up : AddsUp f p xs ys results q) :
    q.get .carry = true ↔
      100 ^ xs.length ≤ number xs + Nat.ofDigits 100 (ys.map f) + carryIn p :=
  (Alu.eq_mod_of_balance up.number_lt up.balance).2

variable (ysValid : ∀ b ∈ ys, Valid b) (length : ys.length = xs.length)

include ysValid length

/-- To add what is missing is to subtract. -/
theorem difference (up : AddsUp complement p xs ys results q) :
    (number results : Int) =
        (number xs - number ys - (1 - carryIn p : Nat)) % 100 ^ xs.length ∧
      (q.get .carry = true ↔ number ys + (1 - carryIn p) ≤ number xs) := by
  have missing := number_add_complement ysValid
  rw [length] at missing
  obtain ⟨denotes, carry⟩ := Alu.sub_of_complement missing (Alu.carryIn_le p)
  constructor
  · rw [up.number_eq, denotes, Int.natCast_pow]
    rfl
  · rw [up.carry_iff, carry]

/-- To subtract what was added is to undo it. -/
theorem undo {p' q' : Status} {back : List Byte} (xsValid : ∀ b ∈ xs, Valid b)
    (sum : AddsUp value p xs ys results q) (difference : AddsUp complement p' results ys back q')
    (clear : carryIn p = 0) (set : carryIn p' = 1) : back = xs := by
  have missing := number_add_complement ysValid
  rw [length] at missing
  refine number_inj (difference.length.trans sum.length) difference.valid xsValid ?_
  calc number back
      = (number results + Nat.ofDigits 100 (ys.map complement) + 1) % 100 ^ xs.length := by
        rw [difference.number_eq, sum.length, set]
    _ = ((number xs + number ys) % 100 ^ xs.length +
          (Nat.ofDigits 100 (ys.map complement) + 1)) % 100 ^ xs.length := by
        rw [sum.number_eq, clear]
        rfl
    _ = (number xs + 100 ^ xs.length) % 100 ^ xs.length := by
        rw [Nat.mod_add_mod, ← missing]
        congr 1
        omega
    _ = number xs := by
        rw [Nat.add_mod_right, Nat.mod_eq_of_lt (Bcd.number_lt xsValid)]

end AddsUp

/-! ## Addition and subtraction -/

/-- **Addition is decimal.**  However many packed bytes are added, the carry going from each to the
    next, the results are packed bytes, as many.  They denote the sum, as far as it fits them, and
    the carry at the end tells whether it does not.  Arithmetic stays decimal throughout. -/
theorem decimal_addition {p : Status} (terms : Terms xs ys sites) (xsValid : ∀ b ∈ xs, Valid b)
    (ysValid : ∀ b ∈ ys, Valid b) (decimal : p.get .decimal = true) :
    let results := (Site.chain .adc p sites).1
    let sum := number xs + number ys + carryIn p
    (∀ r ∈ results, Valid r) ∧ results.length = xs.length ∧
      number results = sum % 100 ^ xs.length ∧
      ((Site.chain .adc p sites).2.get .carry = true ↔ 100 ^ xs.length ≤ sum) ∧
      ∀ k, (Site.chain .adc p (sites.take k)).2.get .decimal = true := by
  have up := adds_adc.addsUp terms xsValid ysValid decimal
  exact ⟨up.valid, up.length, up.number_eq, up.carry_iff,
    fun k => (adds_adc.decimal_chain p (sites.take k)).trans decimal⟩

/-- A byte in the accumulator, and another in the only cell of memory. -/
def Site.of (x y : Byte) : Site Ram :=
  ⟨⟨{ Registers.new with a := x }, (Ram.blank 1).write 0x0000#16 y⟩, .address 0x0000#16⟩

/-- 4599 + 6701 + 1: both bytes carry, and of the low one so does the low digit. -/
theorem decimal_addition_carries :
    let xs := [0x99#8, 0x45#8]
    let ys := [0x01#8, 0x67#8]
    let sites := [Site.of 0x99#8 0x01#8, Site.of 0x45#8 0x67#8]
    let p := (Status.reset.set .decimal true).set .carry true
    Terms xs ys sites ∧ (∀ b ∈ xs, Valid b) ∧ (∀ b ∈ ys, Valid b) ∧ p.get .decimal = true ∧
      number xs + number ys + carryIn p = 4599 + 6701 + 1 ∧
      (Site.chain .adc p sites).1 = [0x01#8, 0x13#8] ∧ number [0x01#8, 0x13#8] = 1301 ∧
      (Site.chain .adc p sites).2.get .carry = true ∧
      ∀ k, (Site.chain .adc p (sites.take k)).2.get .decimal = true := by
  intro xs ys sites p
  have terms : Terms xs ys sites := ⟨by decide, by decide⟩
  have xsValid : ∀ b ∈ xs, Valid b := by decide
  have ysValid : ∀ b ∈ ys, Valid b := by decide
  have decimal : p.get .decimal = true := by decide
  have sum : number xs + number ys + carryIn p = 4599 + 6701 + 1 := by decide
  have results : (Site.chain .adc p sites).1 = [0x01#8, 0x13#8] := by decide
  obtain ⟨-, -, total, carry, throughout⟩ := decimal_addition terms xsValid ysValid decimal
  rw [sum, results] at total
  rw [sum] at carry
  exact ⟨terms, xsValid, ysValid, decimal, sum, results, total.trans (by decide),
    carry.mpr (by decide), throughout⟩

/-- **Subtraction is decimal, and undoes addition.**  The results are packed bytes, as many as are
    subtracted, that denote the difference, wrapped to fit them; the carry at the end tells whether
    it did not wrap.  Subtracting from the results of an addition what was added, with the carry
    clear before the addition and set before the subtraction, gives back what it was added to. -/
theorem decimal_subtraction (xsValid : ∀ b ∈ xs, Valid b) (ysValid : ∀ b ∈ ys, Valid b) :
    (∀ {sites : List (Site β)} {p : Status}, Terms xs ys sites → p.get .decimal = true →
      let results := (Site.chain .sbc p sites).1
      let borrow := 1 - carryIn p
      (∀ r ∈ results, Valid r) ∧ results.length = xs.length ∧
        (number results : Int) = (number xs - number ys - borrow) % 100 ^ xs.length ∧
        ((Site.chain .sbc p sites).2.get .carry = true ↔ number ys + borrow ≤ number xs) ∧
        ∀ k, (Site.chain .sbc p (sites.take k)).2.get .decimal = true) ∧
    ∀ {added undone : List (Site β)} {p q : Status}, Terms xs ys added →
      p.get .decimal = true → p.get .carry = false →
      Terms (Site.chain .adc p added).1 ys undone → q.get .decimal = true → q.get .carry = true →
      (Site.chain .sbc q undone).1 = xs := by
  constructor
  · intro sites p terms decimal results borrow
    have up := adds_sbc.addsUp terms xsValid ysValid decimal
    obtain ⟨denotes, carry⟩ := up.difference ysValid terms.length_eq
    exact ⟨up.valid, up.length, denotes, carry,
      fun k => (adds_sbc.decimal_chain p (sites.take k)).trans decimal⟩
  · intro added undone p q forth pDecimal clear back qDecimal set
    have sum := adds_adc.addsUp forth xsValid ysValid pDecimal
    have difference := adds_sbc.addsUp back sum.valid ysValid qDecimal
    refine sum.undo ysValid forth.length_eq xsValid difference ?_ ?_
    · rw [carryIn, clear, Bool.toNat_false]
    · rw [carryIn, set, Bool.toNat_true]

/-- 1000 - 2001 - 1 wraps to 8998, borrowing through a zero byte; 1000 + 9999 - 9999 is 1000, the
    sum and the difference wrapping both. -/
theorem decimal_subtraction_borrows :
    let xs := [0x00#8, 0x10#8]
    let ys := [0x01#8, 0x20#8]
    let zs := [0x99#8, 0x99#8]
    let sites := [Site.of 0x00#8 0x01#8, Site.of 0x10#8 0x20#8]
    let added := [Site.of 0x00#8 0x99#8, Site.of 0x10#8 0x99#8]
    let undone := [Site.of 0x99#8 0x99#8, Site.of 0x09#8 0x99#8]
    let p := Status.reset.set .decimal true
    let q := p.set .carry true
    (∀ b ∈ xs, Valid b) ∧ (∀ b ∈ ys, Valid b) ∧ (∀ b ∈ zs, Valid b) ∧
      Terms xs ys sites ∧ Terms xs zs added ∧ Terms (Site.chain .adc p added).1 zs undone ∧
      p.get .decimal = true ∧ p.get .carry = false ∧ q.get .decimal = true ∧
      q.get .carry = true ∧
      (Site.chain .sbc p sites).1 = [0x98#8, 0x89#8] ∧
      (number [0x98#8, 0x89#8] : Int) = (1000 - 2001 - 1) % 10000 ∧
      (Site.chain .sbc p sites).2.get .carry = false ∧
      (∀ k, (Site.chain .sbc p (sites.take k)).2.get .decimal = true) ∧
      (Site.chain .sbc q undone).1 = xs := by
  intro xs ys zs sites added undone p q
  have xsValid : ∀ b ∈ xs, Valid b := by decide
  have ysValid : ∀ b ∈ ys, Valid b := by decide
  have zsValid : ∀ b ∈ zs, Valid b := by decide
  have terms : Terms xs ys sites := ⟨by decide, by decide⟩
  have forth : Terms xs zs added := ⟨by decide, by decide⟩
  have back : Terms (Site.chain .adc p added).1 zs undone := ⟨by decide, by decide⟩
  have pDecimal : p.get .decimal = true := by decide
  have clear : p.get .carry = false := by decide
  have qDecimal : q.get .decimal = true := by decide
  have set : q.get .carry = true := by decide
  have results : (Site.chain .sbc p sites).1 = [0x98#8, 0x89#8] := by decide
  obtain ⟨-, -, difference, carry, throughout⟩ :=
    (decimal_subtraction xsValid ysValid).1 terms pDecimal
  rw [results] at difference
  have borrows : (Site.chain .sbc p sites).2.get .carry = false := by
    rw [← Bool.not_eq_true, carry]
    decide
  have undoes :=
    (decimal_subtraction xsValid zsValid).2 forth pDecimal clear back qDecimal set
  exact ⟨xsValid, ysValid, zsValid, terms, forth, back, pDecimal, clear, qDecimal, set, results,
    difference.trans (by decide), borrows, throughout, undoes⟩

end Bcd

end Micro6502
