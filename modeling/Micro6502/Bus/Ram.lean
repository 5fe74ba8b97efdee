import Micro6502.Bus

/-! # Flat memory mapped from address zero

    `Ram` backs the addresses below `mapped` with cells.  Above them a read
    gives zero and a write is dropped.  A host looks and writes beside the
    processor through `peek`, `load` and their word forms.

    `peek_write` and `peek_load` are the laws all else follows from: what
    was last written to a mapped address is what is read there. -/

namespace Micro6502

/-- At most 64K cells, at the addresses from zero on. -/
structure Ram where
  cells : Array Byte
  size_le : cells.size ≤ 0x10000

namespace Ram

/-- Zeroed memory at the first `m` addresses, or at all of them if there are fewer. -/
def blank (m : Nat) : Ram where
  cells := Array.replicate (min m 0x10000) 0
  size_le := by rw [Array.size_replicate]; exact Nat.min_le_right ..

/-- Zeroed memory at every address. -/
def full : Ram := blank 0x10000

/-- How many addresses are backed by cells. -/
def mapped (r : Ram) : Nat := r.cells.size

/-- The byte at an address; zero where nothing is mapped. -/
def peek (r : Ram) (a : Word) : Byte :=
  r.cells.getD a.toNat 0

/-- Memory with the cell of index `i` replaced, if there is one. -/
def setCell (r : Ram) (i : Nat) (b : Byte) : Ram :=
  let ⟨cells, size_le⟩ := r
  ⟨cells.setIfInBounds i b, by rw [Array.size_setIfInBounds]; exact size_le⟩

/-- Memory after a byte was written; nothing changes where nothing is mapped. -/
def write (r : Ram) (a : Word) (b : Byte) : Ram :=
  r.setCell a.toNat b

/-- Bytes copied to the cells from index `i` on; those past the mapped end are dropped. -/
def loadFrom (r : Ram) (i : Nat) : List Byte → Ram
  | [] => r
  | b :: bs => (r.setCell i b).loadFrom (i + 1) bs

/-- Bytes copied to memory from an address on, without wrapping past the last one. -/
def load (r : Ram) (a : Word) (bs : List Byte) : Ram :=
  r.loadFrom a.toNat bs

/-- The word at an address, low byte first; the address after the last is zero. -/
def peekWord (r : Ram) (a : Word) : Word :=
  Word.ofBytes (r.peek a) (r.peek (a + 1))

/-- Memory after a word was stored, low byte first. -/
def pokeWord (r : Ram) (a : Word) (w : Word) : Ram :=
  (r.write a (Word.low w)).write (a + 1) (Word.high w)

/-- The bytes at `len` addresses from `a` on, wrapping at the end of the address space. -/
def dump (r : Ram) (a : Word) : (len : Nat) → List Byte
  | 0 => []
  | len + 1 => r.peek a :: r.dump (a + 1) len

instance : Bus Ram where
  read r a := (r.peek a, r)
  write := write

/-! ## What each change does to each cell -/

@[simp] theorem mapped_blank (m : Nat) : (blank m).mapped = min m 0x10000 :=
  Array.size_replicate

@[simp] theorem mapped_setCell (r : Ram) (i : Nat) (b : Byte) :
    (r.setCell i b).mapped = r.mapped :=
  Array.size_setIfInBounds

@[simp] theorem mapped_write (r : Ram) (a : Word) (b : Byte) : (r.write a b).mapped = r.mapped :=
  mapped_setCell ..

theorem peek_blank (m : Nat) (a : Word) : (blank m).peek a = 0 := by
  rw [peek, blank, Array.getD_eq_getD_getElem?, Array.getElem?_replicate]
  split <;> rfl

theorem peek_of_mapped_le {r : Ram} {a : Word} (h : r.mapped ≤ a.toNat) : r.peek a = 0 := by
  rw [peek, Array.getD_eq_getD_getElem?, Array.getElem?_eq_none h]
  rfl

/-- A cell that is set reads as the value put there if it is mapped, and no other cell changes. -/
theorem peek_setCell (r : Ram) (i : Nat) (b : Byte) (x : Word) :
    (r.setCell i b).peek x = if i = x.toNat ∧ i < r.mapped then b else r.peek x := by
  show (r.cells.setIfInBounds i b).getD x.toNat 0 = _
  rw [peek, mapped, Array.getD_eq_getD_getElem?, Array.getElem?_setIfInBounds,
    Array.getD_eq_getD_getElem?]
  by_cases hi : i = x.toNat
  · by_cases hm : i < r.cells.size
    · simp [hi ▸ hm, hi]
    · simp [hi, hi ▸ hm]
  · simp [hi]

theorem mapped_loadFrom (r : Ram) (i : Nat) (bs : List Byte) :
    (r.loadFrom i bs).mapped = r.mapped := by
  induction bs generalizing r i with
  | nil => rfl
  | cons b bs ih => rw [loadFrom, ih, mapped_setCell]

@[simp] theorem mapped_load (r : Ram) (a : Word) (bs : List Byte) :
    (r.load a bs).mapped = r.mapped :=
  mapped_loadFrom ..

/-- The cells that a load covers read as the bytes loaded, as far as they are mapped; no other cell
    changes. -/
theorem peek_loadFrom (r : Ram) (i : Nat) (bs : List Byte) (x : Word) :
    (r.loadFrom i bs).peek x =
      if i ≤ x.toNat ∧ x.toNat < i + bs.length ∧ x.toNat < r.mapped then bs.getD (x.toNat - i) 0
      else r.peek x := by
  induction bs generalizing r i with
  | nil =>
      rw [if_neg (by rintro ⟨h, h', -⟩; exact Nat.not_lt.mpr h h')]
      rfl
  | cons b bs ih =>
      -- the rest is loaded after the first cell is set, and covers only cells above it
      rw [loadFrom, ih, mapped_setCell, peek_setCell, List.length_cons]
      by_cases hi : i = x.toNat
      · subst hi
        rw [if_neg (by omega), Nat.sub_self, List.getD_cons_zero]
        by_cases hm : x.toNat < r.mapped
        · rw [if_pos ⟨rfl, hm⟩, if_pos (by omega)]
        · rw [if_neg (by omega), if_neg (by omega)]
      · rw [if_neg (show ¬(i = x.toNat ∧ i < r.mapped) from fun h => hi h.1)]
        by_cases hc : i + 1 ≤ x.toNat ∧ x.toNat < i + 1 + bs.length ∧ x.toNat < r.mapped
        · rw [if_pos hc, if_pos (by omega)]
          obtain ⟨k, hk⟩ : ∃ k, x.toNat - i = k + 1 := ⟨x.toNat - i - 1, by omega⟩
          rw [hk, List.getD_cons_succ]
          congr 1
          omega
        · rw [if_neg hc, if_neg (by omega)]

/-- A block of bytes is read back where it was copied to, as far as memory is mapped. -/
theorem peek_load (r : Ram) (a : Word) (bs : List Byte) (x : Word) :
    (r.load a bs).peek x =
      if a.toNat ≤ x.toNat ∧ x.toNat < a.toNat + bs.length ∧ x.toNat < r.mapped then
        bs.getD (x.toNat - a.toNat) 0
      else r.peek x :=
  peek_loadFrom ..

/-- The last write to a mapped address is what is read there. -/
theorem peek_write (r : Ram) (a : Word) (b : Byte) (x : Word) :
    (r.write a b).peek x = if a = x ∧ a.toNat < r.mapped then b else r.peek x := by
  rw [write, peek_setCell]
  simp only [BitVec.toNat_eq]

end Ram

end Micro6502
