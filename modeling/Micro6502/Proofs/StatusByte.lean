import Micro6502.Status

/-! # P on the stack — the round trip of the status byte

    A byte is what its eight bits are, and each bit of P is a flag; so an
    equation between status bytes is checked flag by flag (`eq_of_flags`).
    What goes on the stack has the bit of `brk` for who pushed it, and what
    comes back has that bit clear and every other as it was
    (`bits_pulled_pushed`). -/

namespace Micro6502

/-- Every bit of a byte is that of a flag. -/
theorem Flag.exists_bit {i : Nat} (h : i < 8) : ∃ f : Flag, f.bit = i := by
  have all : ∀ j < 8, ∃ f ∈ Flag.all, f.bit = j := by decide
  obtain ⟨f, -, hf⟩ := all i h
  exact ⟨f, hf⟩

/-- Two bytes are equal if each flag is the same in both. -/
theorem eq_of_flags {a b : Byte} (h : ∀ f : Flag, a.getLsbD f.bit = b.getLsbD f.bit) : a = b := by
  apply BitVec.eq_of_getLsbD_eq
  intro i hi
  obtain ⟨f, rfl⟩ := Flag.exists_bit hi
  exact h f

namespace Status

/-- Of two changes to one flag the later one counts. -/
theorem set_set (p : Status) (f : Flag) (v w : Bool) : (p.set f v).set f w = p.set f w := by
  refine congrArg mk (eq_of_flags fun g => ?_)
  show ((p.set f v).set f w).raw.getLsbD g.bit = (p.set f w).raw.getLsbD g.bit
  rw [getLsbD_raw_set, getLsbD_raw_set, getLsbD_raw_set]
  by_cases same : g = f
  · rw [if_pos same, if_pos same]
  · rw [if_neg same, if_neg same, if_neg same]

theorem getLsbD_bits (p : Status) (f : Flag) : p.bits.getLsbD f.bit = p.get f := rfl

/-- What is stored of `unused` is not seen. -/
theorem bits_set_unused (p : Status) (v : Bool) : (p.set .unused v).bits = p.bits := by
  refine eq_of_flags fun f => ?_
  rw [getLsbD_bits, getLsbD_bits]
  by_cases h : f = .unused
  · rw [h, get_unused, get_unused]
  · rw [get_set_of_ne p v h]

/-- P loaded with what it reads as reads the same. -/
theorem bits_ofByte_bits (p : Status) : (ofByte p.bits).bits = p.bits := by
  show p.raw ||| Flag.unused.mask ||| Flag.unused.mask ||| Flag.unused.mask = _
  rw [BitVec.or_assoc, BitVec.or_self, BitVec.or_assoc, BitVec.or_self]
  rfl

/-- Taking a mask away clears the bit of its flag and leaves the others. -/
theorem getLsbD_and_not_mask (b : Byte) (f g : Flag) :
    (b &&& ~~~f.mask).getLsbD g.bit = (b.getLsbD g.bit && decide (g ≠ f)) := by
  rw [BitVec.getLsbD_and, BitVec.getLsbD_not, Flag.getLsbD_mask]
  simp [g.bit_lt]

/-- The byte on the stack shows each flag, and in the bit of `brk` who pushed it. -/
theorem getLsbD_pushed (p : Status) (software : Bool) (f : Flag) :
    (p.pushed software).getLsbD f.bit = if f = .brk then software else p.get f := by
  cases software
  · show (p.bits &&& ~~~Flag.brk.mask).getLsbD f.bit = _
    rw [getLsbD_and_not_mask, getLsbD_bits]
    by_cases h : f = .brk <;> simp [h]
  · show (p.bits ||| Flag.brk.mask).getLsbD f.bit = _
    rw [BitVec.getLsbD_or, Flag.getLsbD_mask, getLsbD_bits]
    by_cases h : f = .brk <;> simp [h]

/-- What a hardware interrupt pushes has `unused` set and `brk` clear, and shows P otherwise. -/
theorem getLsbD_pushed_hardware (p : Status) (f : Flag) :
    (p.pushed false).getLsbD f.bit =
      if f = .unused then true else if f = .brk then false else p.get f := by
  rw [getLsbD_pushed]
  by_cases hu : f = .unused
  · rw [if_pos hu, hu, get_unused]
    rfl
  · rw [if_neg hu]

/-- A pulled byte shows as it was on the stack, with `unused` set and `brk` clear. -/
theorem get_pulled (b : Byte) (f : Flag) :
    (pulled b).get f = (decide (f ≠ .brk) && (b.getLsbD f.bit || decide (f = .unused))) := by
  have raw : (pulled b).raw.getLsbD f.bit =
      ((b.getLsbD f.bit || decide (f = .unused)) && decide (f ≠ .brk)) := by
    show ((b ||| Flag.unused.mask) &&& ~~~Flag.brk.mask).getLsbD f.bit = _
    rw [getLsbD_and_not_mask, BitVec.getLsbD_or, Flag.getLsbD_mask]
  rw [get_eq, raw]
  by_cases hb : f = .brk
  · simp [hb]
  · by_cases hu : f = .unused <;> simp [hb, hu]

/-- P comes back from the stack as it reads, but for `brk`, whoever pushed it. -/
theorem bits_pulled_pushed (p : Status) (software : Bool) :
    (pulled (p.pushed software)).bits = p.bits &&& ~~~Flag.brk.mask := by
  refine eq_of_flags fun f => ?_
  rw [getLsbD_bits, get_pulled, getLsbD_pushed, getLsbD_and_not_mask, getLsbD_bits]
  by_cases hb : f = .brk
  · simp [hb]
  · by_cases hu : f = .unused <;> simp [hb, hu]

end Status

end Micro6502
