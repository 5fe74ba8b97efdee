import Mathlib.Algebra.Ring.Nat
import Micro6502.Ticks

/-! # Tick sums — exact over a whole run, or refused on the way

    A host adds up what it ran, one addition at a time: it puts a sum in the
    place of the count that it keeps, or grows the count where it stands.  A
    sum that does not fit is refused; the host may go on from there.
    The route:

    * one addition gives the exact sum, or is refused and leaves the count as
      it was, in either way of adding (`perform_of_lt`, `perform_of_le`);
    * so the count at the end of a run is that at its start and all that was
      not refused (`count_addAll`), and it never went down
      (`count_le_addAll`).

    The counts are ordered as numbers, so the order of what two runs end at is
    that of their exact sums. -/

namespace Micro6502

namespace Ticks

/-- What is added to a count. -/
inductive Addend where
  /-- Another count. -/
  | count (n : Ticks)
  /-- What an instruction cost. -/
  | cost (c : BitVec 32)
  deriving DecidableEq

namespace Addend

/-- The number that is added. -/
def number : Addend → Nat
  | .count n => n.count
  | .cost c => c.toNat

/-- The count that stands for it. -/
def ticks : Addend → Ticks
  | .count n => n
  | .cost c => ofCost c

@[simp] theorem count_ticks (n : Addend) : n.ticks.count = n.number := by
  cases n <;> rfl

end Addend

/-- An addition to a count that is kept. -/
inductive Addition where
  /-- The sum is put in the place of the count. -/
  | replace (n : Addend)
  /-- The count is grown where it stands. -/
  | grow (n : Addend)
  deriving DecidableEq

namespace Addition

/-- What an addition adds. -/
def addend : Addition → Addend
  | .replace n => n
  | .grow n => n

/-- The number that an addition adds. -/
def number (a : Addition) : Nat :=
  a.addend.number

end Addition

/-- Whether an addition was made, and the count after it. -/
def perform (t : Ticks) : Addition → Except Error Unit × Ticks
  | .replace n =>
      match t.add n.ticks with
      | .ok sum => (.ok (), sum)
      | .error e => (.error e, t)
  | .grow n => t.grow n.ticks

/-- The count after some additions, in order. -/
def addAll (t : Ticks) (as : List Addition) : Ticks :=
  as.foldl (fun t a => (t.perform a).2) t

/-- The numbers that some additions came to add: those of the additions that were not refused. -/
def added (t : Ticks) : List Addition → List Nat
  | [] => []
  | a :: as =>
      match t.perform a with
      | (.ok _, sum) => a.number :: sum.added as
      | (.error _, kept) => kept.added as

/-! ## One addition -/

/-- Both ways of adding are one: the sum is kept where there is one, and the count where not. -/
theorem perform_eq (t : Ticks) (a : Addition) : t.perform a = t.grow a.addend.ticks := by
  cases a <;> rfl

/-- A sum that fits is made, and is exact. -/
theorem perform_of_lt {t : Ticks} {a : Addition}
    (fits : t.count + a.number < 0x10000000000000000) :
    t.perform a = (.ok (), ⟨t.count + a.number, fits⟩) := by
  have sum : t.add a.addend.ticks = .ok ⟨t.count + a.number, fits⟩ := by
    rw [add_eq_ok_iff, Addend.count_ticks]
    rfl
  rw [perform_eq, grow, sum]

/-- A sum that does not fit is refused, and the count stays. -/
theorem perform_of_le {t : Ticks} {a : Addition}
    (beyond : 0x10000000000000000 ≤ t.count + a.number) :
    t.perform a = (.error .overflow, t) := by
  have refused : t.add a.addend.ticks = .error .overflow := by
    rw [add_eq_error_iff, Addend.count_ticks]
    exact beyond
  rw [perform_eq, grow, refused]

/-! ## A run of additions -/

theorem addAll_append (t : Ticks) (as bs : List Addition) :
    t.addAll (as ++ bs) = (t.addAll as).addAll bs :=
  List.foldl_append

/-- The count at the end is that at the start and all that was not refused. -/
theorem count_addAll (t : Ticks) (as : List Addition) :
    (t.addAll as).count = t.count + (t.added as).sum := by
  induction as generalizing t with
  | nil => rfl
  | cons a as ih =>
      show (((t.perform a).2).addAll as).count = _
      rw [ih, added]
      by_cases fits : t.count + a.number < 0x10000000000000000
      · rw [perform_of_lt fits]
        simp only [List.sum_cons]
        omega
      · rw [perform_of_le (Nat.le_of_not_lt fits)]

/-- No addition takes anything away. -/
theorem count_le_addAll (t : Ticks) (as : List Addition) : t.count ≤ (t.addAll as).count := by
  rw [count_addAll]
  exact Nat.le_add_right ..

/-- **Sums are exact or refused.**  After any additions to a count, a further one is refused where
    the exact sum is 2^64 or more, and the count is then what it was; otherwise it gives the exact
    sum.  So the count is that at the start and all that was not refused, exactly; it is never
    below what it was on the way; and what any two runs end at compares, and is equal or not, as
    the exact sums do. -/
theorem sums_are_exact_or_refused (t : Ticks) (as : List Addition) :
    let now := t.addAll as
    (∀ a, if 0x10000000000000000 ≤ now.count + a.number
        then now.perform a = (.error .overflow, now)
        else (now.perform a).1 = .ok () ∧ (now.perform a).2.count = now.count + a.number) ∧
      now.count = t.count + (t.added as).sum ∧
      (∀ i k, ((t.addAll (as.take i)).order (t.addAll (as.take (i + k)))).isLE = true) ∧
      ∀ (u : Ticks) (bs : List Addition),
        now.order (u.addAll bs) =
            compare (t.count + (t.added as).sum) (u.count + (u.added bs).sum) ∧
          (now = u.addAll bs ↔ t.count + (t.added as).sum = u.count + (u.added bs).sum) := by
  intro now
  refine ⟨?_, count_addAll t as, ?_, ?_⟩
  · intro a
    split
    next beyond => exact perform_of_le beyond
    next fits =>
      rw [perform_of_lt (Nat.lt_of_not_le fits)]
      exact ⟨rfl, rfl⟩
  · intro i k
    -- the longer of two prefixes goes on from where the shorter one ends
    rw [List.take_add, addAll_append, order, Nat.isLE_compare]
    exact count_le_addAll ..
  · intro u bs
    rw [← count_addAll, ← count_addAll]
    exact ⟨rfl, count_inj.symm⟩

/-- Right below 2^64 a cost still fits, one more tick does not, and nothing at all does again. -/
example :
    let t : Ticks := ⟨0xFFFFFFFFFFFFFFF8, by decide⟩
    let as : List Addition :=
      [.grow (.cost 7#32), .replace (.count ⟨1, by decide⟩), .grow (.cost 0xFFFFFFFF#32),
        .replace (.count zero)]
    (t.addAll as).count = 0xFFFFFFFFFFFFFFFF ∧ t.added as = [7, 0] := by
  decide

end Ticks

end Micro6502
