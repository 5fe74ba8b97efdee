import Mathlib.Data.List.Basic
import Mathlib.Data.List.Induction
import Micro6502.Proofs.Printed
import Micro6502.Value

/-! # Numerals — the text of a value tells which value it is

    A flag is shown as a word, a register in hexadecimal at its width, and a
    counter in decimal.  Which number a numeral denotes is said here by a
    reader (`HexNumeral`, `DecimalNumeral`, `Value.read`), who knows nothing
    of how numbers are written.  The route:

    * a number has one numeral of each width in hexadecimal, and one in
      decimal with no zero in front of it, and these are the ones that are
      written (`hexNumeral_iff`, `decimalNumeral_iff`), so the form of a value
      leaves no choice of text (`isWritten_iff`);
    * the front of a text tells its form, and the rest the number
      (`read_of_isWritten`), and those two tell the value, but for the width
      of a counter (`eq_or_countsAlike`). -/

namespace Micro6502

/-! ## Hexadecimal numerals -/

/-- So many upper-case hexadecimal digits, which denote `n`. -/
structure HexNumeral (width : Nat) (ds : List Char) (n : Nat) : Prop where
  length : ds.length = width
  value : Hex.value? ds = some n

/-- A digit is the one that is written for the number it stands for. -/
theorem Hex.digit_of_digitValue? {c : Char} {d : Nat} (h : digitValue? c = some d) :
    d < 16 ∧ digit d = c := by
  have low : ∀ {a b : Char}, a ≤ b ↔ a.toNat ≤ b.toNat := Iff.rfl
  rw [digitValue?] at h
  simp only [low] at h
  split at h
  · next decimal =>
      obtain rfl := Option.some.inj h
      have start : '0'.toNat = 48 := rfl
      have stop : '9'.toNat = 57 := rfl
      have back : 48 + (c.toNat - 48) = c.toNat := by omega
      refine ⟨by omega, ?_⟩
      rw [digit, if_pos (by omega), back, Char.ofNat_toNat]
  · split at h
    · next letter =>
        obtain rfl := Option.some.inj h
        have start : 'A'.toNat = 65 := rfl
        have stop : 'F'.toNat = 70 := rfl
        have back : 55 + (c.toNat - 55) = c.toNat := by omega
        refine ⟨by omega, ?_⟩
        rw [digit, if_neg (by omega), back, Char.ofNat_toNat]
    · exact absurd h (Option.some_ne_none _).symm

/-- Digits that denote a number are those that are written for it. -/
theorem Hex.eq_digits_of_value? {ds : List Char} {n : Nat} (h : value? ds = some n) :
    ds = digits ds.length n := by
  -- the writer splits off the last digit, so the reader's list is taken apart at its end too
  induction ds using List.reverseRecOn generalizing n with
  | nil => rfl
  | append_singleton ds c ih =>
      rw [value?_concat] at h
      obtain ⟨m, front, rest⟩ := Option.bind_eq_some_iff.mp h
      obtain ⟨d, last, rfl⟩ := Option.map_eq_some_iff.mp rest
      obtain ⟨small, written⟩ := digit_of_digitValue? last
      have quotient : (16 * m + d) / 16 = m := by omega
      have remainder : (16 * m + d) % 16 = d := by omega
      rw [List.length_append, List.length_singleton, digits, quotient, remainder, written,
        ← ih front]

/-- A number has one numeral of each width that it fits. -/
theorem hexNumeral_iff {width n : Nat} (fits : n < 16 ^ width) (ds : List Char) :
    HexNumeral width ds n ↔ ds = Hex.digits width n := by
  constructor
  · rintro ⟨rfl, value⟩
    exact Hex.eq_digits_of_value? value
  · rintro rfl
    refine ⟨Hex.length_digits width n, ?_⟩
    rw [Hex.value?_digits, Nat.mod_eq_of_lt fits]

/-! ## Decimal numerals -/

/-- Decimal digits that denote `n`. -/
structure DecimalNumeral (ds : List Char) (n : Nat) : Prop where
  nonempty : ds ≠ []
  digits : ∀ c ∈ ds, c.isDigit = true
  /-- A zero in front is all there is. -/
  plain : ds.head? = some '0' → ds = ['0']
  value : Nat.ofDigitChars 10 ds 0 = n

/-- A decimal digit is the digit of its value, which is below ten. -/
theorem digitChar_of_isDigit {c : Char} (h : c.isDigit = true) :
    c.toNat - 48 < 10 ∧ Nat.digitChar (c.toNat - 48) = c := by
  have range : 48 ≤ c.toNat ∧ c.toNat ≤ 57 := by
    simpa [Char.isDigit, UInt32.le_iff_toNat_le] using h
  have small : c.toNat - 48 < 10 := by omega
  refine ⟨small, Char.toNat_inj.mp ?_⟩
  rw [Nat.toNat_digitChar_of_lt_ten small]
  omega

/-- Digits with no zero in front are those that are written for the number they denote. -/
theorem toDigits_of_head_ne {ds : List Char} (nonempty : ds ≠ [])
    (digits : ∀ c ∈ ds, c.isDigit = true) (head : ds.head? ≠ some '0') :
    0 < Nat.ofDigitChars 10 ds 0 ∧ Nat.toDigits 10 (Nat.ofDigitChars 10 ds 0) = ds := by
  induction ds using List.reverseRecOn with
  | nil => exact absurd rfl nonempty
  | append_singleton ds c ih =>
      obtain ⟨small, written⟩ :=
        digitChar_of_isDigit (digits c (List.mem_append_right ds (List.mem_singleton_self c)))
      rw [Nat.ofDigitChars_append, Nat.ofDigitChars_cons, Nat.ofDigitChars_nil]
      show 0 < 10 * _ + (c.toNat - 48) ∧ Nat.toDigits 10 (10 * _ + (c.toNat - 48)) = _
      by_cases only : ds = []
      · subst only
        have zero : c ≠ '0' := fun zero => head (congrArg some zero)
        have positive : 0 < c.toNat - 48 := by
          refine Nat.pos_of_ne_zero fun none => zero ?_
          rw [← written, none]
          rfl
        rw [Nat.ofDigitChars_nil, Nat.mul_zero, Nat.zero_add, Nat.toDigits_of_lt_base small,
          written]
        exact ⟨positive, rfl⟩
      · -- a first digit other than zero is still the first, and keeps the number in front positive
        rw [List.head?_append_of_ne_nil _ only] at head
        obtain ⟨positive, front⟩ :=
          ih only (fun c mem => digits c (List.mem_append_left _ mem)) head
        rw [← Nat.toDigits_append_toDigits (by decide) positive small, front,
          Nat.toDigits_of_lt_base small, written]
        exact ⟨by omega, rfl⟩

/-- Only zero is written with a zero in front. -/
theorem eq_zero_of_head_toDigits {n : Nat} (h : (Nat.toDigits 10 n).head? = some '0') : n = 0 := by
  induction n using Nat.strongRecOn with
  | ind n ih =>
      by_cases small : n < 10
      · rw [Nat.toDigits_of_lt_base small] at h
        exact Nat.digitChar_eq_zero.mp (Option.some.inj h)
      · rw [Nat.toDigits_of_base_le (by decide) (Nat.le_of_not_lt small),
          List.head?_append_of_ne_nil _ Nat.toDigits_ne_nil] at h
        have quotient := ih (n / 10) (by omega) h
        omega

/-- A number has one decimal numeral. -/
theorem decimalNumeral_iff (ds : List Char) (n : Nat) :
    DecimalNumeral ds n ↔ ds = Nat.toDigits 10 n := by
  constructor
  · rintro ⟨nonempty, digits, plain, rfl⟩
    by_cases zero : ds.head? = some '0'
    · rw [plain zero]
      rfl
    · exact (toDigits_of_head_ne nonempty digits zero).2.symm
  · rintro rfl
    refine ⟨Nat.toDigits_ne_nil, ?_, ?_, Nat.ofDigitChars_ten_toDigits⟩
    · exact fun c mem => Nat.isDigit_of_mem_toDigits (by decide) (by decide) mem
    · intro zero
      rw [eq_zero_of_head_toDigits zero]
      rfl

namespace Value

/-! ## How values are written -/

/-- The texts that a value may be shown as. -/
def IsWritten (cs : List Char) : Value → Prop
  | .bool v => cs = if v then "true".toList else "false".toList
  | .byte v => ∃ ds, cs = '0' :: 'x' :: ds ∧ HexNumeral 2 ds v.toNat
  | .word v => ∃ ds, cs = '0' :: 'x' :: ds ∧ HexNumeral 4 ds v.toNat
  | .count32 v => DecimalNumeral cs v.toNat
  | .count64 v => DecimalNumeral cs v.toNat

theorem toList_marked (ds : List Char) :
    ("0x" ++ String.ofList ds).toList = '0' :: 'x' :: ds := by
  rw [String.toList_append, String.toList_ofList, String.toList_ofList]
  rfl

/-- Hexadecimal text has a mark in front. -/
theorem marked_iff {width n : Nat} (fits : n < 16 ^ width) (cs : List Char) :
    (∃ ds, cs = '0' :: 'x' :: ds ∧ HexNumeral width ds n) ↔
      cs = ("0x" ++ String.ofList (Hex.digits width n)).toList := by
  rw [toList_marked]
  constructor
  · rintro ⟨ds, rfl, numeral⟩
    rw [(hexNumeral_iff fits ds).mp numeral]
  · rintro rfl
    exact ⟨_, rfl, (hexNumeral_iff fits _).mpr rfl⟩

/-- A value may be shown as one text, and is shown as that. -/
theorem isWritten_iff (v : Value) (cs : List Char) : v.IsWritten cs ↔ cs = v.text.toList := by
  cases v with
  | bool v => cases v <;> rfl
  | byte v => exact marked_iff v.isLt cs
  | word v => exact marked_iff v.isLt cs
  | count32 v | count64 v =>
      show DecimalNumeral cs v.toNat ↔ cs = v.toNat.repr.toList
      rw [Nat.toList_repr]
      exact decimalNumeral_iff cs v.toNat

/-! ## What a reader takes from a text -/

/-- The forms of text. -/
inductive Form where
  | flag
  | hex (width : Nat)
  | decimal
  deriving DecidableEq, Repr

/-- The form that a value is shown in. -/
def form : Value → Form
  | .bool _ => .flag
  | .byte _ => .hex 2
  | .word _ => .hex 4
  | .count32 _ | .count64 _ => .decimal

/-- A value as a number. -/
def number : Value → Nat
  | .bool v => v.toNat
  | .byte v => v.toNat
  | .word v => v.toNat
  | .count32 v => v.toNat
  | .count64 v => v.toNat

/-- The form of a text by what stands in front, and the number it denotes. -/
def read (cs : List Char) : Form × Option Nat :=
  if cs.take 2 = ['0', 'x'] then (.hex (cs.length - 2), Hex.value? (cs.drop 2))
  else if cs.all Char.isDigit then (.decimal, some (Nat.ofDigitChars 10 cs 0))
  else (.flag, some (if cs = "true".toList then 1 else 0))

/-- A marked numeral is read as hexadecimal, with its digits counted. -/
theorem read_marked {width n : Nat} {ds : List Char} (h : HexNumeral width ds n) :
    read ('0' :: 'x' :: ds) = (.hex width, some n) := by
  have marked : ('0' :: 'x' :: ds).take 2 = ['0', 'x'] := rfl
  rw [read, if_pos marked]
  show (Form.hex ds.length, Hex.value? ds) = _
  rw [h.length, h.value]

theorem read_decimal {n : Nat} {cs : List Char} (h : DecimalNumeral cs n) :
    read cs = (.decimal, some n) := by
  have unmarked : cs.take 2 ≠ ['0', 'x'] := by
    intro marked
    have mem : 'x' ∈ cs.take 2 := marked ▸ by decide
    exact absurd (h.digits 'x' (List.mem_of_mem_take mem)) (by decide)
  rw [read, if_neg unmarked, if_pos (List.all_eq_true.mpr h.digits), h.value]

/-- A reader finds the form and the number of a value in its text. -/
theorem read_of_isWritten {v : Value} {cs : List Char} (h : v.IsWritten cs) :
    read cs = (v.form, some v.number) := by
  cases v with
  | bool v =>
      obtain rfl : cs = if v then "true".toList else "false".toList := h
      cases v <;> decide
  | byte v | word v =>
      obtain ⟨ds, rfl, numeral⟩ := h
      exact read_marked numeral
  | count32 v | count64 v => exact read_decimal h

/-! ## Values that share a text -/

/-- Two counters of different width with the same number. -/
inductive CountsAlike : Value → Value → Prop where
  | narrow {a : BitVec 32} {b : BitVec 64} (same : a.toNat = b.toNat) :
      CountsAlike (.count32 a) (.count64 b)
  | wide {a : BitVec 64} {b : BitVec 32} (same : a.toNat = b.toNat) :
      CountsAlike (.count64 a) (.count32 b)

/-- Form and number tell a value, but for the width of a counter. -/
theorem eq_or_countsAlike {v w : Value} (form : w.form = v.form) (number : w.number = v.number) :
    w = v ∨ w.CountsAlike v := by
  cases v with
  | bool a =>
      cases w with
      | bool b =>
          have same : b = a := by
            revert number
            cases a <;> cases b <;> decide
          exact Or.inl (congrArg bool same)
      | byte b | word b | count32 b | count64 b => cases form
  | byte a =>
      cases w with
      | byte b => exact Or.inl (congrArg byte (BitVec.eq_of_toNat_eq number))
      | bool b | word b | count32 b | count64 b => cases form
  | word a =>
      cases w with
      | word b => exact Or.inl (congrArg word (BitVec.eq_of_toNat_eq number))
      | bool b | byte b | count32 b | count64 b => cases form
  | count32 a =>
      cases w with
      | count32 b => exact Or.inl (congrArg count32 (BitVec.eq_of_toNat_eq number))
      | count64 b => exact Or.inr (.wide number)
      | bool b | byte b | word b => cases form
  | count64 a =>
      cases w with
      | count64 b => exact Or.inl (congrArg count64 (BitVec.eq_of_toNat_eq number))
      | count32 b => exact Or.inr (.narrow number)
      | bool b | byte b | word b => cases form

/-- **The text of a value tells the value.**  A value is shown as the one text of its form and
    number: `true` or `false`, `0x` and two or four upper-case hexadecimal digits, or decimal digits
    with no zero in front of others, which denote the number.  Two values are shown alike where they
    are the same, or counters of both widths with the same number, and nowhere else. -/
theorem text_tells_value (v : Value) :
    (∀ cs, v.IsWritten cs ↔ cs = v.text.toList) ∧
      ∀ w : Value, w.text = v.text ↔ w = v ∨ w.CountsAlike v := by
  refine ⟨isWritten_iff v, ?_⟩
  intro w
  constructor
  · intro same
    -- one text has one reading, which gives the form and the number of both values
    have mine := read_of_isWritten ((isWritten_iff v _).mpr rfl)
    have other := read_of_isWritten ((isWritten_iff w _).mpr rfl)
    rw [same, mine] at other
    obtain ⟨form, number⟩ := Prod.mk.inj other
    exact eq_or_countsAlike form.symm (Option.some.inj number).symm
  · rintro (rfl | alike)
    · rfl
    · cases alike with
      | narrow same | wide same => exact congrArg Nat.repr same

/-- Two registers of different width are not shown alike, though they hold the same number. -/
example : (byte 0x0A#8).text = "0x0A" ∧ (word 0x000A#16).text = "0x000A" := by
  decide

end Value

end Micro6502
