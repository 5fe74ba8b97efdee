/-! # Bytes and words — the two widths a 6502 moves

    A byte is eight bits and a word, which is also an address, is sixteen.
    A word is stored as two bytes, low byte first.

    * `Word.ofBytes` puts a word together, `Word.low` and `Word.high` take
      it apart, and the three are inverse to each other;
    * the high byte of an address is its page; `pageCrossed` compares pages. -/

namespace Micro6502

/-- Eight bits. -/
abbrev Byte := BitVec 8

/-- Sixteen bits: a word of data, or an address. -/
abbrev Word := BitVec 16

namespace Word

/-- The word with low byte `lo` and high byte `hi`. -/
def ofBytes (lo hi : Byte) : Word :=
  BitVec.ofNat 16 (lo.toNat + 256 * hi.toNat)

/-- The low byte: the offset of an address in its page. -/
def low (w : Word) : Byte :=
  BitVec.ofNat 8 w.toNat

/-- The high byte: the page of an address. -/
def high (w : Word) : Byte :=
  BitVec.ofNat 8 (w.toNat / 256)

/-- The address of a byte's cell in page zero. -/
def zeroPage (b : Byte) : Word :=
  b.setWidth 16

theorem toNat_ofBytes (lo hi : Byte) :
    (ofBytes lo hi).toNat = lo.toNat + 256 * hi.toNat := by
  have hlo := lo.isLt
  have hhi := hi.isLt
  show (lo.toNat + 256 * hi.toNat) % 2 ^ 16 = _
  omega

theorem toNat_low (w : Word) : (low w).toNat = w.toNat % 256 := rfl

theorem toNat_high (w : Word) : (high w).toNat = w.toNat / 256 := by
  have hw := w.isLt
  show w.toNat / 256 % 2 ^ 8 = _
  omega

theorem toNat_zeroPage (b : Byte) : (zeroPage b).toNat = b.toNat := by
  have hb := b.isLt
  show (b.setWidth 16).toNat = _
  rw [BitVec.toNat_setWidth]
  omega

/-- An index is added as a number, and wraps at the end of the addresses. -/
theorem toNat_add_index (base : Word) (index : Byte) :
    (base + index.setWidth 16).toNat = (base.toNat + index.toNat) % 0x10000 := by
  have small := index.isLt
  rw [BitVec.toNat_add, BitVec.toNat_setWidth, Nat.mod_eq_of_lt (a := index.toNat) (by omega)]

@[simp] theorem low_ofBytes (lo hi : Byte) : low (ofBytes lo hi) = lo := by
  apply BitVec.eq_of_toNat_eq
  rw [toNat_low, toNat_ofBytes]
  have hlo := lo.isLt
  omega

@[simp] theorem high_ofBytes (lo hi : Byte) : high (ofBytes lo hi) = hi := by
  apply BitVec.eq_of_toNat_eq
  rw [toNat_high, toNat_ofBytes]
  have hlo := lo.isLt
  omega

@[simp] theorem ofBytes_low_high (w : Word) : ofBytes (low w) (high w) = w := by
  apply BitVec.eq_of_toNat_eq
  rw [toNat_ofBytes, toNat_low, toNat_high]
  omega

end Word

/-- Whether two addresses lie in different pages. -/
def pageCrossed (a b : Word) : Bool :=
  Word.high a != Word.high b

/-- Two addresses are in different pages where their quotients by 256 differ. -/
theorem pageCrossed_eq_true_iff (a b : Word) :
    pageCrossed a b = true ↔ a.toNat / 256 ≠ b.toNat / 256 := by
  rw [← Word.toNat_high, ← Word.toNat_high]
  simp [pageCrossed, BitVec.toNat_eq]

end Micro6502
