import Micro6502.Addressing.Resolve
import Micro6502.Bus.Ram

/-! # Effective addresses — where an operand is, in numbers

    The resolver works on bytes and words, which wrap by themselves.  Here
    the address of an operand is a number that the operand bytes, memory and
    the index registers determine, and each wraparound is a remainder that
    is written out: at 256 in page zero, at the end of its page for a
    pointer, at 64K for a full address, and at both ends for a branch.  The
    route:

    * memory is looked up by numbers (`Ram.byteAt`), and what the moves of
      the machine read are the numbers there (`toNat_fetch`,
      `toNat_fetchWord`, `toNat_readPointer`);
    * an index or a distance is added as a number, and then the remainder
      is taken (`toNat_add_index`, `toNat_add_distance`);
    * so each mode finds its operand at its effective address
      (`location_resolve`), and pays where the index changes the high byte
      (`extraCycles_resolve`). -/

namespace Micro6502

/-- The number that a byte stands for in two's complement. -/
def signedByte (n : Nat) : Int :=
  if n < 128 then n else n - 256

/-- The byte at an address, both as numbers; after the last address comes the first again. -/
def Ram.byteAt (r : Ram) (n : Nat) : Nat :=
  (r.peek (BitVec.ofNat 16 n)).toNat

/-- The number of the address where an operand is, if it is in memory. -/
def Operand.location? : Operand → Option Nat
  | .accumulator => none
  | .address a => some a.toNat

namespace Mode

/-! ## What the modes specify

In all of this `memory` has the byte at each address, and the operand bytes are from `start` on. -/

section

variable (memory : Nat → Nat) (start : Nat) (r : Registers)

/-- The full address that two operand bytes make. -/
def fullAddress : Nat :=
  memory start + 256 * memory (start + 1)

/-- The full address stored at a pointer in page zero, the end of which is followed by its start. -/
def storedAt (pointer : Nat) : Nat :=
  memory pointer + 256 * memory ((pointer + 1) % 256)

/-- The address that is a signed byte away from what comes after that byte. -/
def branchTarget : Nat :=
  ((start + 1 + signedByte (memory start)) % 0x10000).toNat

/-- The full address to which a mode adds an index, and that index. -/
def indexing : Mode → Option (Nat × Nat)
  | .absoluteX => some (fullAddress memory start, r.x.toNat)
  | .absoluteY => some (fullAddress memory start, r.y.toNat)
  | .indirectY => some (storedAt memory (memory start), r.y.toNat)
  | _ => none

/-- The address of the operand; the accumulator has none. -/
def effectiveAddress : Mode → Option Nat
  | .implied => none
  | .immediate => some (start % 0x10000)
  | .zeroPage => some (memory start)
  | .zeroPageX => some ((memory start + r.x.toNat) % 256)
  | .zeroPageY => some ((memory start + r.y.toNat) % 256)
  | .relative => some (branchTarget memory start)
  | .absolute => some (fullAddress memory start)
  | .absoluteX => some ((fullAddress memory start + r.x.toNat) % 0x10000)
  | .absoluteY => some ((fullAddress memory start + r.y.toNat) % 0x10000)
  | .indirect =>
      let w := fullAddress memory start
      -- the address after `w` that has its high byte
      some (memory w + 256 * memory (256 * (w / 256) + (w + 1) % 256))
  | .indirectX => some (storedAt memory ((memory start + r.x.toNat) % 256))
  | .indirectY => some ((storedAt memory (memory start) + r.y.toNat) % 0x10000)

/-- Whether adding its index gives a full address another high byte. -/
def turnsPage (mode : Mode) : Bool :=
  (mode.indexing memory start r).any fun (base, index) =>
    (base + index) % 0x10000 / 256 != base / 256

end

end Mode

/-! ## Words as numbers -/

namespace Word

/-- A byte, extended with its sign, counts as the signed number that it stands for. -/
theorem toNat_add_distance (a : Word) (distance : Byte) :
    (a + distance.signExtend 16).toNat =
      ((a.toNat + signedByte distance.toNat) % 0x10000).toNat := by
  have high := a.isLt
  have small := distance.isLt
  rw [BitVec.toNat_add, BitVec.toNat_signExtend, BitVec.toNat_setWidth, BitVec.msb_eq_decide,
    signedByte]
  by_cases negative : distance.toNat < 128
  · rw [if_pos negative, decide_eq_false (by omega), if_neg Bool.false_ne_true]
    omega
  · rw [if_neg negative, decide_eq_true (by omega), if_pos rfl]
    omega

/-- The next address in a page wraps at its end. -/
theorem toNat_nextInPage (w : Word) :
    (Machine.nextInPage w).toNat = 256 * (w.toNat / 256) + (w.toNat + 1) % 256 := by
  have one : (1 : Byte).toNat = 1 := rfl
  rw [Machine.nextInPage, toNat_ofBytes, BitVec.toNat_add, toNat_low, toNat_high, one]
  omega

end Word

namespace Ram

theorem byteAt_lt (r : Ram) (n : Nat) : r.byteAt n < 256 :=
  (r.peek _).isLt

theorem byteAt_toNat (r : Ram) (a : Word) : r.byteAt a.toNat = (r.peek a).toNat := by
  rw [byteAt, BitVec.ofNat_toNat, BitVec.setWidth_eq]

/-- The byte after an address is at the next address, which wraps at the end of memory. -/
theorem byteAt_toNat_add_one (r : Ram) (a : Word) :
    r.byteAt (a.toNat + 1) = (r.peek (a + 1)).toNat := by
  rw [byteAt, BitVec.ofNat_add, BitVec.ofNat_toNat, BitVec.setWidth_eq]
  rfl

end Ram

namespace Machine

/-! ## What the machine reads -/

variable (m : Machine Ram)

theorem toNat_fetch : m.fetch.1.toNat = m.bus.byteAt m.regs.pc.toNat :=
  (m.bus.byteAt_toNat m.regs.pc).symm

/-- The word fetched is the address in the two bytes at the program counter. -/
theorem toNat_fetchWord :
    m.fetchWord.1.toNat = Mode.fullAddress m.bus.byteAt m.regs.pc.toNat := by
  rw [Mode.fullAddress, Ram.byteAt_toNat, Ram.byteAt_toNat_add_one]
  exact Word.toNat_ofBytes _ _

/-- Two bytes read are a word, the low one first. -/
theorem toNat_readPair (lo hi : Word) :
    (m.readPair lo hi).1.toNat = m.bus.byteAt lo.toNat + 256 * m.bus.byteAt hi.toNat := by
  rw [Ram.byteAt_toNat, Ram.byteAt_toNat]
  exact Word.toNat_ofBytes _ _

/-- A pointer in the zero page gives the address stored there, its second byte in the zero page too.
    -/
theorem toNat_readPointer (pointer : Byte) :
    (m.readPointer pointer).1.toNat = Mode.storedAt m.bus.byteAt pointer.toNat := by
  rw [readPointer, toNat_readPair, Word.toNat_zeroPage, Word.toNat_zeroPage, BitVec.toNat_add]
  rfl

/-! ## Where each mode finds its operand -/

/-- Addressing finds the effective address of its mode, worked out in numbers. -/
theorem location_resolve (mode : Mode) :
    (m.resolve mode).1.operand.location? =
      mode.effectiveAddress m.bus.byteAt m.regs.pc.toNat m.regs := by
  cases mode with
  | implied => rfl
  | immediate => exact congrArg some (Nat.mod_eq_of_lt m.regs.pc.isLt).symm
  | zeroPage =>
      show some (Word.zeroPage m.fetch.1).toNat = _
      rw [Word.toNat_zeroPage, toNat_fetch]
      rfl
  | zeroPageX =>
      show some (Word.zeroPage (m.fetch.1 + m.regs.x)).toNat = _
      rw [Word.toNat_zeroPage, BitVec.toNat_add, toNat_fetch]
      rfl
  | zeroPageY =>
      show some (Word.zeroPage (m.fetch.1 + m.regs.y)).toNat = _
      rw [Word.toNat_zeroPage, BitVec.toNat_add, toNat_fetch]
      rfl
  | relative =>
      -- the distance counts from the byte after the operand
      have next : (m.regs.pc + 1).toNat = (m.regs.pc.toNat + 1) % 0x10000 := BitVec.toNat_add ..
      show some (m.regs.pc + 1 + m.fetch.1.signExtend 16).toNat = _
      rw [Word.toNat_add_distance, toNat_fetch, next, Mode.effectiveAddress, Mode.branchTarget]
      congr 2
      omega
  | absolute => exact congrArg some m.toNat_fetchWord
  | absoluteX =>
      show some (m.fetchWord.1 + m.regs.x.setWidth 16).toNat = _
      rw [Word.toNat_add_index, toNat_fetchWord]
      rfl
  | absoluteY =>
      show some (m.fetchWord.1 + m.regs.y.setWidth 16).toNat = _
      rw [Word.toNat_add_index, toNat_fetchWord]
      rfl
  | indirect =>
      show some (m.fetchWord.2.readPair m.fetchWord.1 (nextInPage m.fetchWord.1)).1.toNat = _
      rw [toNat_readPair, Word.toNat_nextInPage, toNat_fetchWord]
      rfl
  | indirectX =>
      show some (m.fetch.2.readPointer (m.fetch.1 + m.regs.x)).1.toNat = _
      rw [toNat_readPointer, BitVec.toNat_add, toNat_fetch]
      rfl
  | indirectY =>
      show some ((m.fetch.2.readPointer m.fetch.1).1 + m.regs.y.setWidth 16).toNat = _
      rw [Word.toNat_add_index, toNat_readPointer, toNat_fetch]
      rfl

/-- Addressing adds a cycle where the index turns the page. -/
theorem extraCycles_resolve (mode : Mode) :
    (m.resolve mode).1.extraCycles =
      (mode.turnsPage m.bus.byteAt m.regs.pc.toNat m.regs).toNat := by
  cases mode with
  | absoluteX =>
      show (Resolved.indexed m.fetchWord.1 m.regs.x).extraCycles = _
      rw [Resolved.extraCycles_indexed, toNat_fetchWord]
      rfl
  | absoluteY =>
      show (Resolved.indexed m.fetchWord.1 m.regs.y).extraCycles = _
      rw [Resolved.extraCycles_indexed, toNat_fetchWord]
      rfl
  | indirectY =>
      show (Resolved.indexed (m.fetch.2.readPointer m.fetch.1).1 m.regs.y).extraCycles = _
      rw [Resolved.extraCycles_indexed, toNat_readPointer, toNat_fetch]
      rfl
  | _ => rfl

theorem bus_resolve (mode : Mode) : (m.resolve mode).2.bus = m.bus := by
  cases mode <;> rfl

/-- **Effective addresses.**  From every register file and on every contents of memory, finding the
    operand of a mode gives the address that its wraparound rules say, wherever the operand bytes
    and pointers are; it costs a cycle where an index gives a full address another high byte, and
    nowhere else; the program counter goes past the operand bytes; and no other register and no
    cell of memory is changed. -/
theorem operand_is_at_effective_address (mode : Mode) :
    (m.resolve mode).1.operand.location? =
        mode.effectiveAddress m.bus.byteAt m.regs.pc.toNat m.regs ∧
      (m.resolve mode).1.extraCycles =
        (if mode.turnsPage m.bus.byteAt m.regs.pc.toNat m.regs then 1 else 0) ∧
      (m.resolve mode).2.regs =
        { m.regs with pc := BitVec.ofNat 16 (m.regs.pc.toNat + mode.operandLength) } ∧
      (m.resolve mode).2.bus = m.bus := by
  refine ⟨m.location_resolve mode, ?_, ?_, m.bus_resolve mode⟩
  · rw [extraCycles_resolve]
    cases mode.turnsPage m.bus.byteAt m.regs.pc.toNat m.regs <;> rfl
  · rw [regs_resolve, BitVec.ofNat_add, BitVec.ofNat_toNat, BitVec.setWidth_eq]

end Machine

end Micro6502
