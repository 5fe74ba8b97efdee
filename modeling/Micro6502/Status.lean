import Micro6502.Word

/-! # The status register P — seven flags and a bit that reads as one

    P holds one flag a bit.  Bit 5 (`unused`) has no flag behind it and
    reads as one.  Bit 4 (`brk`) tells a software break from a hardware
    interrupt; only the copy of P on the stack uses it.

    The stored byte is kept as it was last changed, so clearing `unused`
    is remembered and seen by equality, while `bits`, `get` and `pushed`
    read the bit as one.  `get_set` and `get_withNZ` say what each
    change does to each flag. -/

namespace Micro6502

/-- A bit of P, named by its meaning. -/
inductive Flag where
  /-- Carry out of bit 7, or no borrow after a subtraction. -/
  | carry
  /-- The result was zero. -/
  | zero
  /-- IRQ requests wait while this is set. -/
  | interruptDisable
  /-- Additions and subtractions are decimal while this is set. -/
  | decimal
  /-- Set in the pushed copy of P by a software break. -/
  | brk
  /-- Always reads as one. -/
  | unused
  /-- Signed overflow. -/
  | overflow
  /-- Bit 7 of the result. -/
  | negative
  deriving DecidableEq, Repr

namespace Flag

/-- All flags, lowest bit first. -/
def all : List Flag :=
  [.carry, .zero, .interruptDisable, .decimal, .brk, .unused, .overflow, .negative]

/-- The position of a flag in P. -/
def bit : Flag → Nat
  | .carry => 0
  | .zero => 1
  | .interruptDisable => 2
  | .decimal => 3
  | .brk => 4
  | .unused => 5
  | .overflow => 6
  | .negative => 7

/-- The byte with this flag's bit set and no other. -/
def mask (f : Flag) : Byte :=
  BitVec.twoPow 8 f.bit

theorem mem_all (f : Flag) : f ∈ all := by
  cases f <;> decide

theorem bit_lt (f : Flag) : f.bit < 8 := by
  cases f <;> decide

theorem bit_inj {f g : Flag} : f.bit = g.bit ↔ f = g := by
  cases f <;> cases g <;> decide

/-- A mask has the bit of its own flag and no other. -/
theorem getLsbD_mask (f g : Flag) : f.mask.getLsbD g.bit = decide (g = f) := by
  cases f <;> cases g <;> decide

end Flag

/-- The status register, as the byte that is stored. -/
structure Status where
  raw : Byte
  deriving DecidableEq, Repr

namespace Status

/-- No flag set. -/
def new : Status := ⟨Flag.unused.mask⟩

/-- P after a reset: IRQ requests wait, no other flag is set. -/
def reset : Status := ⟨0x24#8⟩

/-- P loaded with a byte, its unused bit forced on. -/
def ofByte (b : Byte) : Status := ⟨b ||| Flag.unused.mask⟩

/-- P pulled from the stack: the break bit has no storage and is dropped. -/
def pulled (b : Byte) : Status := ⟨(b ||| Flag.unused.mask) &&& ~~~Flag.brk.mask⟩

/-- The byte that P reads as. -/
def bits (p : Status) : Byte := p.raw ||| Flag.unused.mask

/-- The byte that goes on the stack: the break bit says who pushed it. -/
def pushed (p : Status) (software : Bool) : Byte :=
  if software then p.bits ||| Flag.brk.mask else p.bits &&& ~~~Flag.brk.mask

/-- Whether a flag reads as set. -/
def get (p : Status) (f : Flag) : Bool := p.bits.getLsbD f.bit

/-- P with one flag set or cleared. -/
def set (p : Status) (f : Flag) (v : Bool) : Status :=
  ⟨if v then p.raw ||| f.mask else p.raw &&& ~~~f.mask⟩

/-- P with Z and N describing a result byte. -/
def withNZ (p : Status) (b : Byte) : Status :=
  (p.set .zero (b == 0)).set .negative b.msb

/-- A flag reads as its stored bit, but for `unused`, which reads as set. -/
theorem get_eq (p : Status) (f : Flag) :
    p.get f = (p.raw.getLsbD f.bit || decide (f = .unused)) := by
  rw [get, bits, BitVec.getLsbD_or, Flag.getLsbD_mask]

@[simp] theorem get_unused (p : Status) : p.get .unused = true := by
  simp [get_eq]

/-- Writing a flag stores its bit and leaves those of the others. -/
theorem getLsbD_raw_set (p : Status) (f g : Flag) (v : Bool) :
    (p.set f v).raw.getLsbD g.bit = if g = f then v else p.raw.getLsbD g.bit := by
  cases v
  · show (p.raw &&& ~~~f.mask).getLsbD g.bit = _
    rw [BitVec.getLsbD_and, BitVec.getLsbD_not, Flag.getLsbD_mask]
    by_cases h : g = f <;> simp [h, g.bit_lt]
  · show (p.raw ||| f.mask).getLsbD g.bit = _
    rw [BitVec.getLsbD_or, Flag.getLsbD_mask]
    by_cases h : g = f <;> simp [h]

/-- A change to one flag is seen by that flag and by no other. -/
theorem get_set (p : Status) (f g : Flag) (v : Bool) :
    (p.set f v).get g = if g = f then v || decide (f = .unused) else p.get g := by
  rw [get_eq, get_eq, getLsbD_raw_set]
  by_cases h : g = f
  · rw [if_pos h, if_pos h, h]
  · rw [if_neg h, if_neg h]

/-- A flag that was written reads as written, `unused` apart. -/
@[simp] theorem get_set_self {f : Flag} (p : Status) (v : Bool) (h : f ≠ .unused) :
    (p.set f v).get f = v := by
  rw [get_eq, getLsbD_raw_set]
  simp [h]

theorem get_set_of_ne {f g : Flag} (p : Status) (v : Bool) (h : g ≠ f) :
    (p.set f v).get g = p.get g := by
  rw [get_eq, get_eq, getLsbD_raw_set, if_neg h]

/-- Describing a result changes how N and Z read, and no other flag. -/
theorem get_withNZ (p : Status) (b : Byte) (g : Flag) :
    (p.withNZ b).get g =
      if g = .negative then b.msb else if g = .zero then b == 0 else p.get g := by
  by_cases hn : g = .negative
  · rw [if_pos hn, hn, withNZ, get_set_self _ _ (by decide)]
  · rw [if_neg hn, withNZ, get_set_of_ne _ _ hn]
    by_cases hz : g = .zero
    · rw [if_pos hz, hz, get_set_self _ _ (by decide)]
    · rw [if_neg hz, get_set_of_ne _ _ hz]

end Status

end Micro6502
