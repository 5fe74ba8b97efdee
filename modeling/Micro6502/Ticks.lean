/-! # Tick counts — exact, or refused

    A tick count fits in 64 bits.  A sum that does not is refused, never
    wrapped, so every count that exists is the true one (`add_eq_ok_iff`,
    `add_eq_error_iff`). -/

namespace Micro6502

/-- A number of clock ticks below 2^64. -/
structure Ticks where
  count : Nat
  count_lt : count < 0x10000000000000000
  deriving DecidableEq

namespace Ticks

/-- Why a count cannot be had. -/
inductive Error where
  /-- The sum does not fit. -/
  | overflow
  deriving DecidableEq, Repr

/-- The wording of a refusal. -/
def Error.message : Error → String
  | .overflow => "attempt to add with overflow"

/-- No ticks. -/
def zero : Ticks := ⟨0, by decide⟩

/-- A count, if it fits. -/
def ofNat? (n : Nat) : Option Ticks :=
  if h : n < 0x10000000000000000 then some ⟨n, h⟩ else none

/-- The ticks that an instruction of a given cost takes. -/
def ofCost (cost : BitVec 32) : Ticks :=
  ⟨cost.toNat, Nat.lt_trans cost.isLt (by decide)⟩

/-- The sum of two counts, refused where it does not fit. -/
def add (a b : Ticks) : Except Error Ticks :=
  if h : a.count + b.count < 0x10000000000000000 then .ok ⟨a.count + b.count, h⟩ else .error .overflow

/-- A count grown by another where it stands.  It is what it was if the sum is refused. -/
def grow (a b : Ticks) : Except Error Unit × Ticks :=
  match a.add b with
  | .ok sum => (.ok (), sum)
  | .error e => (.error e, a)

/-- Counts are ordered as the numbers they are. -/
def order (a b : Ticks) : Ordering := compare a.count b.count

/-- A count as text. -/
def text (t : Ticks) : String := t.count.repr ++ " ticks"

theorem count_inj {a b : Ticks} : a.count = b.count ↔ a = b := by
  constructor
  · intro same
    cases a
    cases b
    subst same
    rfl
  · intro same
    rw [same]

/-- The text of a count tells the count. -/
theorem text_inj {a b : Ticks} : a.text = b.text ↔ a = b := by
  constructor
  · intro same
    have digits : Nat.toDigits 10 a.count = Nat.toDigits 10 b.count := by
      rw [← Nat.toList_repr, ← Nat.toList_repr, (String.append_left_inj " ticks").mp same]
    have counts : a.count = b.count :=
      calc
        a.count = Nat.ofDigitChars 10 (Nat.toDigits 10 a.count) 0 :=
          Nat.ofDigitChars_ten_toDigits.symm
        _ = Nat.ofDigitChars 10 (Nat.toDigits 10 b.count) 0 := by rw [digits]
        _ = b.count := Nat.ofDigitChars_ten_toDigits
    exact count_inj.mp counts
  · intro same
    rw [same]

/-- A sum of ticks is given where it is the exact one, so never a wrapped one. -/
theorem add_eq_ok_iff (a b s : Ticks) : a.add b = .ok s ↔ s.count = a.count + b.count := by
  unfold add
  constructor
  · intro h
    split at h
    · exact (congrArg count (Except.ok.inj h)).symm
    · exact nomatch h
  · intro h
    have fits : a.count + b.count < 0x10000000000000000 := h ▸ s.count_lt
    rw [dif_pos fits]
    cases s
    subst h
    rfl

/-- A sum of ticks is refused just where it does not fit in 64 bits. -/
theorem add_eq_error_iff (a b : Ticks) (e : Error) :
    a.add b = .error e ↔ 0x10000000000000000 ≤ a.count + b.count := by
  cases e
  unfold add
  constructor
  · intro h
    split at h
    · exact nomatch h
    · omega
  · intro h
    rw [dif_neg (by omega)]

end Ticks

end Micro6502
