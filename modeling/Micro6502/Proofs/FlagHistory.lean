import Mathlib.Algebra.Ring.Nat
import Micro6502.Proofs.LastWriter
import Micro6502.Proofs.StatusByte

/-! # Flag histories — P is seven flags and a constant

    P is one byte, and whoever changes a flag changes that byte; the byte may
    lose the bit of `unused`, and hold that of `brk`.  To a reader it is
    seven flags that know nothing of each other.  What a change gives to a
    flag, if it writes it at all, is a matter of the change alone
    (`Change.valueOf?`).  The route:

    * after one change a flag reads as what that change gave it, or as before
      (`get_change`);
    * so the last of a run of changes to write a flag decides how it reads
      (`get_changeAll`);
    * a byte is the sum of its bits, so what P reads as is the sum of the
      masks of its flags (`sum_masks`). -/

namespace Micro6502

namespace Status

/-- A way to make P, or to change it. -/
inductive Change where
  | new
  | reset
  | ofByte (b : Byte)
  | pulled (b : Byte)
  | set (f : Flag) (v : Bool)
  | withNZ (b : Byte)
  deriving DecidableEq, Repr

namespace Change

/-- The value that a change gives to a flag, if it writes it. -/
def valueOf? (f : Flag) : Change → Option Bool
  | .new => some false
  | .reset => some (decide (f = .interruptDisable))
  | .ofByte b => some (b.getLsbD f.bit)
  | .pulled b => some (if f = .brk then false else b.getLsbD f.bit)
  | .set g v => if f = g then some v else none
  | .withNZ b =>
      if f = .negative then some (b.getLsbD 7)
      else if f = .zero then some (decide (b = 0))
      else none

/-- The value that the last of some changes to write a flag gives to it. -/
def last? (f : Flag) (cs : List Change) : Option Bool :=
  cs.reverse.findSome? (valueOf? f)

end Change

/-- P after a change. -/
def change (p : Status) : Change → Status
  | .new => new
  | .reset => reset
  | .ofByte b => ofByte b
  | .pulled b => pulled b
  | .set f v => p.set f v
  | .withNZ b => p.withNZ b

/-- P after some changes, in order. -/
def changeAll (p : Status) (cs : List Change) : Status :=
  cs.foldl change p

/-! ## How a flag reads after some changes -/

/-- A change gives a flag the value that it writes, or leaves it. -/
theorem get_change (p : Status) (c : Change) {f : Flag} (flag : f ≠ .unused) :
    (p.change c).get f = (c.valueOf? f).getD (p.get f) := by
  cases c with
  | new =>
      show Status.new.get f = false
      cases f with
      | unused => exact absurd rfl flag
      | _ => rfl
  | reset =>
      show Status.reset.get f = decide (f = .interruptDisable)
      cases f with
      | unused => exact absurd rfl flag
      | _ => rfl
  | ofByte b =>
      show (b ||| Flag.unused.mask ||| Flag.unused.mask).getLsbD f.bit = b.getLsbD f.bit
      rw [BitVec.getLsbD_or, BitVec.getLsbD_or, Flag.getLsbD_mask]
      simp [flag]
  | pulled b =>
      show (pulled b).get f = if f = .brk then false else b.getLsbD f.bit
      rw [get_pulled]
      by_cases brk : f = .brk <;> simp [brk, flag]
  | set g v =>
      show (p.set g v).get f = (if f = g then some v else none).getD (p.get f)
      by_cases same : f = g
      · subst same
        rw [if_pos rfl, get_set_self p v flag]
        rfl
      · rw [if_neg same, get_set_of_ne p v same]
        rfl
  | withNZ b =>
      show (p.withNZ b).get f = _
      rw [get_withNZ, Change.valueOf?, BitVec.msb_eq_getLsbD_last]
      by_cases negative : f = .negative
      · rw [if_pos negative, if_pos negative]
        rfl
      · rw [if_neg negative, if_neg negative]
        by_cases zero : f = .zero
        · rw [if_pos zero, if_pos zero]
          rfl
        · rw [if_neg zero, if_neg zero]
          rfl

/-- The last change to write a flag decides how it reads. -/
theorem get_changeAll (p : Status) (cs : List Change) {f : Flag} (flag : f ≠ .unused) :
    (p.changeAll cs).get f = (Change.last? f cs).getD (p.get f) :=
  read_foldl (fun _ => True) (·.get f) (Change.valueOf? f) (fun _ _ _ => trivial)
    (fun p c _ => get_change p c flag) trivial cs

/-! ## The byte as a sum of flags -/

/-- What the bit of a flag counts for in a byte. -/
theorem weight_eq (b : Byte) (f : Flag) :
    b.toNat / 2 ^ f.bit % 2 * 2 ^ f.bit = if b.getLsbD f.bit then f.mask.toNat else 0 := by
  have bit : b.getLsbD f.bit = decide (b.toNat / 2 ^ f.bit % 2 = 1) :=
    Nat.testBit_eq_decide_div_mod_eq
  have mask : f.mask.toNat = 2 ^ f.bit := by
    cases f <;> rfl
  rw [bit, mask]
  rcases Nat.mod_two_eq_zero_or_one (b.toNat / 2 ^ f.bit) with clear | full
  · simp [clear]
  · simp [full]

/-- A byte is the sum of the masks of the flags whose bits are set in it. -/
theorem sum_masks (b : Byte) :
    ((Flag.all.filter fun f => b.getLsbD f.bit).map fun f => f.mask.toNat).sum = b.toNat := by
  have weighed : ∀ flags : List Flag,
      ((flags.filter fun f => b.getLsbD f.bit).map fun f => f.mask.toNat).sum =
        (flags.map fun f => b.toNat / 2 ^ f.bit % 2 * 2 ^ f.bit).sum := by
    intro flags
    induction flags with
    | nil => rfl
    | cons f flags ih =>
        rw [List.map_cons, List.sum_cons, weight_eq, List.filter_cons, ← ih]
        by_cases full : b.getLsbD f.bit = true
        · rw [if_pos full, if_pos full, List.map_cons, List.sum_cons]
        · rw [if_neg full, if_neg full, Nat.zero_add]
  have small := b.isLt
  rw [weighed]
  simp only [Flag.all, Flag.bit, List.map_cons, List.map_nil, List.sum_cons, List.sum_nil]
  omega

/-- A bit of the byte on the stack is that of P, but for the bit that says who pushed it. -/
theorem getLsbD_pushed_bit (p : Status) (software : Bool) (i : Nat) :
    (p.pushed software).getLsbD i = if i = 4 then software else p.bits.getLsbD i := by
  by_cases inside : i < 8
  · obtain ⟨f, rfl⟩ := Flag.exists_bit inside
    have brk : f.bit = 4 ↔ f = .brk := Flag.bit_inj (g := .brk)
    rw [getLsbD_pushed, getLsbD_bits]
    simp only [brk]
  · have beyond : 8 ≤ i := Nat.le_of_not_lt inside
    rw [BitVec.getLsbD_of_ge _ i beyond, BitVec.getLsbD_of_ge _ i beyond, if_neg (by omega)]

/-- **P is seven flags and a constant.**  Whatever P is at first, and after any changes to it, each
    flag but `unused` reads as the last change to write it left it, or as at first if none did, and
    `unused` reads as set; P reads as the sum of the masks of the flags that read as set, and what
    goes on the stack is that byte with bit 4 for who pushed it. -/
theorem flags_keep_apart (p : Status) (cs : List Change) :
    let q := p.changeAll cs
    (∀ f, f ≠ .unused → q.get f = (Change.last? f cs).getD (p.get f)) ∧
      q.get .unused = true ∧
      q.bits.toNat = ((Flag.all.filter fun f => q.get f).map fun f => f.mask.toNat).sum ∧
      ∀ software i,
        (q.pushed software).getLsbD i = if i = 4 then software else q.bits.getLsbD i := by
  intro q
  refine ⟨?_, get_unused q, (sum_masks q.bits).symm, getLsbD_pushed_bit q⟩
  intro f flag
  exact get_changeAll p cs flag

/-- A value of P that was pulled, and then lost the stored bit of `unused` and came to hold that of
    `brk`: V is as it was pulled, though later changes went to the same byte. -/
theorem flags_keep_apart_lostBit :
    let cs : List Change :=
      [.pulled 0xFF#8, .set .unused false, .set .brk true, .withNZ 0x00#8, .set .carry false]
    let q := new.changeAll cs
    q.raw = 0x5E#8 ∧ Flag.overflow ≠ .unused ∧ Change.last? .overflow cs = some true ∧
      q.get .overflow = true ∧ q.get .unused = true ∧
      q.bits.toNat = ((Flag.all.filter fun f => q.get f).map fun f => f.mask.toNat).sum ∧
      q.bits.toNat = 2 + 4 + 8 + 16 + 32 + 64 ∧ (q.pushed false).getLsbD 4 = false := by
  intro cs q
  have flag : Flag.overflow ≠ .unused := by decide
  have written : Change.last? .overflow cs = some true := by decide
  obtain ⟨reads, unused, sum, copy⟩ := flags_keep_apart new cs
  have overflow := reads .overflow flag
  rw [written] at overflow
  exact ⟨by decide, flag, written, overflow, unused, sum, by decide,
    (copy false 4).trans (if_pos rfl)⟩

end Status

end Micro6502
