import Micro6502.Word

/-! # Hexadecimal text — fixed width, upper case

    `digits width n` writes the last `width` hexadecimal digits of `n`,
    most significant first.  Bytes take two digits and words four, so no
    digit of either is ever dropped.  `value?` reads digits back. -/

namespace Micro6502.Hex

/-- The digit that stands for `n`, for `n` below sixteen. -/
def digit (n : Nat) : Char :=
  if n < 10 then Char.ofNat (48 + n) else Char.ofNat (55 + n)

/-- The last `width` digits of `n`. -/
def digits : (width : Nat) → (n : Nat) → List Char
  | 0, _ => []
  | width + 1, n => digits width (n / 16) ++ [digit (n % 16)]

/-- A byte in two digits. -/
def byte (b : Byte) : String :=
  String.ofList (digits 2 b.toNat)

/-- A word in four digits. -/
def word (w : Word) : String :=
  String.ofList (digits 4 w.toNat)

/-- The number an upper-case digit stands for. -/
def digitValue? (c : Char) : Option Nat :=
  if '0' ≤ c ∧ c ≤ '9' then some (c.toNat - 48)
  else if 'A' ≤ c ∧ c ≤ 'F' then some (c.toNat - 55)
  else none

/-- The number a list of digits denotes, most significant first. -/
def value? : List Char → Option Nat :=
  List.foldl (fun acc c => acc.bind fun n => (digitValue? c).map fun d => 16 * n + d) (some 0)

/-- What is written for a value below sixteen is read as that value. -/
theorem digitValue?_digit {n : Nat} (h : n < 16) : digitValue? (digit n) = some n := by
  have all : ∀ k ∈ List.range 16, digitValue? (digit k) = some k := by decide
  exact all n (List.mem_range.mpr h)

/-- One more digit at the end is worth itself, and makes the digits before it worth sixteen times as
    much. -/
theorem value?_concat (ds : List Char) (c : Char) :
    value? (ds ++ [c]) =
      (value? ds).bind fun n => (digitValue? c).map fun d => 16 * n + d := by
  rw [value?, List.foldl_append]
  rfl

theorem length_digits (width n : Nat) : (digits width n).length = width := by
  induction width generalizing n with
  | zero => rfl
  | succ width ih => rw [digits, List.length_append, ih]; rfl

end Micro6502.Hex
