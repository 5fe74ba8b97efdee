import Micro6502.Proofs.PackedDecimal

/-! # Chains — numbers of any length, a byte at a time

    A number of many bytes is worked on one byte after the other, each
    operation on P as the one before left it.  Here are the numbers that
    bytes denote, with and without a sign, and what such a chain is:

    * `Alu.thread` chains functions of P alone, and `chain` operations at
      sites, each with a machine of its own but for P;
    * what is shown of a thread holds of a chain, as soon as every operation
      is known as a function of P (`thread_congr`, `after_load`). -/

namespace Micro6502

namespace Alu

/-- Computes one outcome after the other, each on P as the one before left it.  Gives the result
    bytes, and P after the last. -/
def thread (p : Status) : List (Status → Outcome) → List Byte × Status
  | [] => ([], p)
  | f :: fs =>
      let later := thread (f p).status fs
      ((f p).value :: later.1, later.2)

/-- Functions that agree where something holds of P give the same, if that is kept. -/
theorem thread_congr {ι : Type} (I : Status → Prop) {f g : ι → Status → Outcome}
    (agree : ∀ i p, I p → f i p = g i p) (keep : ∀ i p, I p → I (f i p).status) (is : List ι)
    {p : Status} (start : I p) : thread p (is.map f) = thread p (is.map g) := by
  induction is generalizing p with
  | nil => rfl
  | cons i is ih =>
      have rest := ih (keep i p start)
      rw [List.map_cons, List.map_cons, thread, thread, rest, agree i p start]

end Alu

namespace Multibyte

/-! ## The number that bytes denote -/

/-- The number that bytes denote, lowest byte first. -/
def number (bs : List Byte) : Nat :=
  Nat.ofDigits 256 (bs.map BitVec.toNat)

/-- The number that they denote in two's complement. -/
def signed (bs : List Byte) : Int :=
  if 2 * number bs < 256 ^ bs.length then number bs else number bs - (256 ^ bs.length : Nat)

variable {bs cs : List Byte}

theorem number_cons (b : Byte) (bs : List Byte) :
    number (b :: bs) = b.toNat + 256 * number bs :=
  Nat.ofDigits_cons

/-- Bytes further on count by the length of those before them. -/
theorem number_append (bs cs : List Byte) :
    number (bs ++ cs) = number bs + 256 ^ bs.length * number cs := by
  rw [number, List.map_append, Nat.ofDigits_append, List.length_map]
  rfl

theorem number_singleton (b : Byte) : number [b] = b.toNat := by
  rw [number_cons]
  rfl

theorem toNat_lt : ∀ v ∈ bs.map BitVec.toNat, v < 256 := by
  intro v mem
  obtain ⟨b, -, rfl⟩ := List.mem_map.mp mem
  exact b.isLt

/-- So many bytes make a number below 256 to that power. -/
theorem number_lt (bs : List Byte) : number bs < 256 ^ bs.length := by
  rw [number, ← List.length_map BitVec.toNat]
  exact Nat.ofDigits_lt_base_pow_length (by decide) toNat_lt

/-- Bytes, as many, that denote one number are the same. -/
theorem number_inj (length : bs.length = cs.length) (same : number bs = number cs) : bs = cs := by
  have values : bs.map BitVec.toNat = cs.map BitVec.toNat :=
    Nat.ofDigits_inj_of_len_eq (by decide) (by rw [List.length_map, List.length_map, length])
      toNat_lt toNat_lt same
  exact (List.map_inj_right fun _ _ => BitVec.eq_of_toNat_eq).mp values

/-- What a number misses to all ones. -/
theorem number_complement (bs : List Byte) :
    number bs + number (bs.map (~~~ ·)) + 1 = 256 ^ bs.length := by
  induction bs with
  | nil => rfl
  | cons b bs ih =>
      have small := b.isLt
      rw [List.map_cons, number_cons, number_cons, List.length_cons, Nat.pow_succ, ← ih,
        BitVec.toNat_not]
      omega

/-! ## Its sign -/

/-- Of two chains of one length, neither is empty where the other is not. -/
theorem ne_nil_of_length_eq (length : cs.length = bs.length) (nonempty : bs ≠ []) : cs ≠ [] := by
  rintro rfl
  exact nonempty (List.length_eq_zero_iff.mp length.symm)

/-- As many numbers have a top bit as have none. -/
theorem pow_length (nonempty : bs ≠ []) : 256 ^ bs.length = 2 * 2 ^ (8 * bs.length - 1) := by
  have positive := List.length_pos_iff.mpr nonempty
  rw [← Nat.pow_succ', show 256 = 2 ^ 8 from rfl, ← Nat.pow_mul]
  congr 1
  omega

theorem signed_singleton (b : Byte) : signed [b] = b.toInt := by
  rw [signed, number_singleton, BitVec.toInt_eq_toNat_cond]
  rfl

/-- The sign is in the last byte. -/
theorem signed_cons (b : Byte) (nonempty : bs ≠ []) :
    signed (b :: bs) = b.toNat + 256 * signed bs := by
  have small := b.isLt
  have half := pow_length nonempty
  rw [signed, signed, number_cons, List.length_cons, Nat.pow_succ, half]
  generalize 2 ^ (8 * bs.length - 1) = h
  split <;> split <;> omega

/-- So many bytes, taken as signed, are in the range of two's complement. -/
theorem signed_range (nonempty : bs ≠ []) :
    -(2 ^ (8 * bs.length - 1) : Nat) ≤ signed bs ∧ signed bs < (2 ^ (8 * bs.length - 1) : Nat) := by
  have lt := number_lt bs
  have half := pow_length nonempty
  rw [signed, half]
  rw [half] at lt
  generalize 2 ^ (8 * bs.length - 1) = h at lt
  split <;> constructor <;> omega

/-- The top bit is the sign. -/
theorem testBit_number (nonempty : bs ≠ []) :
    (number bs).testBit (8 * bs.length - 1) = decide (signed bs < 0) := by
  have lt := number_lt bs
  have half := pow_length nonempty
  rw [half] at lt
  rw [signed, half]
  by_cases top : 2 ^ (8 * bs.length - 1) ≤ number bs
  · rw [Nat.testBit_of_two_pow_le_and_two_pow_add_one_gt top (by omega), if_neg (by omega)]
    exact (decide_eq_true (by omega)).symm
  · rw [Nat.testBit_lt_two_pow (by omega), if_pos (by omega)]
    exact (decide_eq_false (by omega)).symm

/-- To complement all bytes is to take the signed number from minus one. -/
theorem signed_complement (nonempty : bs ≠ []) : signed (bs.map (~~~ ·)) = -1 - signed bs := by
  have missing := number_complement bs
  have half := pow_length nonempty
  rw [signed, signed, List.length_map, half]
  rw [half] at missing
  generalize 2 ^ (8 * bs.length - 1) = h at missing
  split <;> split <;> omega

/-! ## Operations at sites -/

open Alu (Outcome thread)
open Bcd (Site)

variable {β : Type} [Bus β]

/-- The machine of a site after an operation, entered with P as given. -/
def after (bcd : Bool) (op : Operation) (s : Site β) (p : Status) : Machine β :=
  ((s.machine.mapRegs (·.mapStatus fun _ => p)).execute bcd op s.operand).2

/-- What an operation leaves in the accumulator and in P. -/
def outcome (bcd : Bool) (op : Operation) (s : Site β) (p : Status) : Outcome :=
  ⟨(after bcd op s p).regs.a, (after bcd op s p).regs.p⟩

/-- Executes operations, each at its site, one after the other with P as the one before left it.
    Gives what is in the accumulator after each, and P after the last. -/
def chain (bcd : Bool) (p : Status) (turns : List (Operation × Site β)) : List Byte × Status :=
  thread p (turns.map fun t => outcome bcd t.1 t.2)

/-- An operation that loads changes the registers as it says, with the byte read at its site. -/
theorem after_load {bcd : Bool} {op : Operation} {f : Byte → Registers → Registers}
    (runs : op.effect bcd = .load f) (s : Site β) (p : Status) :
    (after bcd op s p).regs = f s.reads { s.machine.regs with p := p } := by
  rw [after, Machine.execute_load runs, Site.reads_mapStatus]
  rfl

end Multibyte

end Micro6502
