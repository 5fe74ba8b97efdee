import Micro6502.Bus.Ram
import Micro6502.Proofs.Checked

/-! # Last writer — memory holds what was put there last

    A host and a processor change memory byte by byte, word by word and
    block by block.  Which byte a change puts at an address, if it covers it
    at all, is a matter of the change alone (`Change.byteAt?`), and so is
    which of several changes is the last to cover it (`Change.lastAt?`).
    The route:

    * one change leaves at a mapped address the byte it puts there, or what
      was there before it (`peek_change`);
    * over a run of changes the last one to cover an address decides
      (`peek_changeAll`), which holds of all that is read of a state that
      each step of a run either writes or leaves (`read_foldl`).

    A block may go past the mapped end, and is then cut off.  The cut is made
    with slices, which refuse a range that they do not have; `load?` is the
    copy with each range checked, and it is never refused (`load?_eq`). -/

namespace Micro6502

/-- Where each step writes what is read of a state, or leaves it, the last step to write decides. -/
theorem read_foldl {σ α ω : Type} {step : σ → α → σ} (Fine : σ → Prop) (read : σ → ω)
    (written? : α → Option ω) (keeps : ∀ s a, Fine s → Fine (step s a))
    (each : ∀ s a, Fine s → read (step s a) = (written? a).getD (read s)) {s : σ} (fine : Fine s)
    (as : List α) : read (as.foldl step s) = (as.reverse.findSome? written?).getD (read s) := by
  induction as generalizing s with
  | nil => rfl
  | cons a as ih =>
      rw [List.foldl_cons, ih (keeps s a fine), each s a fine, List.reverse_cons,
        List.findSome?_append, List.findSome?_singleton]
      cases as.reverse.findSome? written? <;> rfl

namespace Ram

/-- A change to memory. -/
inductive Change where
  | write (a : Word) (b : Byte)
  | pokeWord (a w : Word)
  | load (a : Word) (bs : List Byte)
  deriving DecidableEq, Repr

namespace Change

/-- The byte that a change puts at an address, if it covers it.  A word wraps from the last address
to the first; a block does not. -/
def byteAt? (x : Word) : Change → Option Byte
  | .write a b => if a = x then some b else none
  | .pokeWord a w =>
      if a = x then some (Word.low w) else if a + 1 = x then some (Word.high w) else none
  | .load a bs => if a.toNat ≤ x.toNat then bs[x.toNat - a.toNat]? else none

/-- The byte that the last of some changes to cover an address puts there. -/
def lastAt? (x : Word) (cs : List Change) : Option Byte :=
  cs.reverse.findSome? (byteAt? x)

end Change

/-- Memory after a change. -/
def change (r : Ram) : Change → Ram
  | .write a b => r.write a b
  | .pokeWord a w => r.pokeWord a w
  | .load a bs => r.load a bs

/-- Memory after some changes, in order. -/
def changeAll (r : Ram) (cs : List Change) : Ram :=
  cs.foldl change r

/-! ## What is where after some changes -/

theorem mapped_change (r : Ram) (c : Change) : (r.change c).mapped = r.mapped := by
  cases c with
  | write a b => exact mapped_write r a b
  | pokeWord a w => exact (mapped_write ..).trans (mapped_write ..)
  | load a bs => exact mapped_load r a bs

theorem mapped_changeAll (r : Ram) (cs : List Change) : (r.changeAll cs).mapped = r.mapped := by
  induction cs generalizing r with
  | nil => rfl
  | cons c cs ih => exact (ih (r.change c)).trans (mapped_change r c)

/-- A write is seen at its own address, and nowhere else. -/
theorem peek_write_of_mapped (r : Ram) (a : Word) (b : Byte) {x : Word}
    (mapped : x.toNat < r.mapped) :
    (r.write a b).peek x = if a = x then b else r.peek x := by
  rw [peek_write]
  by_cases here : a = x
  · subst here
    rw [if_pos ⟨rfl, mapped⟩, if_pos rfl]
  · rw [if_neg fun both => here both.1, if_neg here]

/-- A change leaves the byte that it puts at a mapped address, or what was there. -/
theorem peek_change (r : Ram) (c : Change) {x : Word} (mapped : x.toNat < r.mapped) :
    (r.change c).peek x = (c.byteAt? x).getD (r.peek x) := by
  cases c with
  | write a b =>
      show (r.write a b).peek x = _
      rw [peek_write_of_mapped r a b mapped, Change.byteAt?]
      split <;> rfl
  | pokeWord a w =>
      -- the high byte is written last, at another address than the low one
      have apart : a + 1 ≠ a := by simp
      have still : x.toNat < (r.write a (Word.low w)).mapped := by
        rw [mapped_write]
        exact mapped
      show ((r.write a (Word.low w)).write (a + 1) (Word.high w)).peek x = _
      rw [peek_write_of_mapped _ _ _ still, peek_write_of_mapped r _ _ mapped, Change.byteAt?]
      by_cases low : a = x
      · subst low
        rw [if_neg apart, if_pos rfl, if_pos rfl]
        rfl
      · rw [if_neg low, if_neg low]
        split <;> rfl
  | load a bs =>
      show (r.load a bs).peek x = _
      rw [peek_load, Change.byteAt?]
      by_cases after : a.toNat ≤ x.toNat
      · rw [if_pos after]
        by_cases inside : x.toNat - a.toNat < bs.length
        · rw [if_pos ⟨after, by omega, mapped⟩, List.getD_eq_getElem?_getD,
            List.getElem?_eq_getElem inside]
          rfl
        · rw [if_neg (by omega), List.getElem?_eq_none (Nat.le_of_not_lt inside)]
          rfl
      · rw [if_neg fun all => after all.1, if_neg after]
        rfl

/-- The last change to cover a mapped address decides what is there. -/
theorem peek_changeAll (r : Ram) (cs : List Change) {x : Word} (mapped : x.toNat < r.mapped) :
    (r.changeAll cs).peek x = (Change.lastAt? x cs).getD (r.peek x) := by
  have still : ∀ (r : Ram) (c : Change), x.toNat < r.mapped → x.toNat < (r.change c).mapped := by
    intro r c mapped
    rw [mapped_change]
    exact mapped
  exact read_foldl (x.toNat < ·.mapped) (·.peek x) (Change.byteAt? x) still
    (fun r c => peek_change r c) mapped cs

/-! ## Copying with every range checked -/

/-- Two memories are the same if as much is mapped and the same bytes are there. -/
theorem eq_of_peek {r r' : Ram} (mapped : r'.mapped = r.mapped)
    (bytes : ∀ x, r'.peek x = r.peek x) : r' = r := by
  obtain ⟨cells, size_le⟩ := r
  obtain ⟨cells', size_le'⟩ := r'
  congr
  refine Array.ext mapped fun i below' below => ?_
  -- every cell has an address, as there are no more of them than addresses
  have address : (BitVec.ofNat 16 i).toNat = i := by
    rw [BitVec.toNat_ofNat]
    exact Nat.mod_eq_of_lt (Nat.lt_of_lt_of_le below size_le)
  have same := bytes (BitVec.ofNat 16 i)
  rw [peek, peek, address] at same
  simpa [Array.getD, below, below'] using same

/-- Cells with those from `start` up to `stop` replaced. -/
def splice (cells : Array Byte) (start stop : Nat) (bs : List Byte) : Array Byte :=
  cells.extract 0 start ++ bs.toArray ++ cells.extract stop cells.size

section

variable {cells : Array Byte} {start stop : Nat} {bs : List Byte}

/-- Putting a slice in place of one as long leaves as many cells. -/
theorem size_splice (ordered : start ≤ stop) (inside : stop ≤ cells.size)
    (length : bs.length = stop - start) : (splice cells start stop bs).size = cells.size := by
  simp only [splice, Array.size_append, Array.size_extract, List.size_toArray]
  omega

/-- A slice that is put in place is seen between its bounds, and the cells around it are as before.
    -/
theorem getElem?_splice (ordered : start ≤ stop) (inside : stop ≤ cells.size)
    (length : bs.length = stop - start) (i : Nat) :
    (splice cells start stop bs)[i]? =
      if start ≤ i ∧ i < stop then bs[i - start]? else cells[i]? := by
  have head : (cells.extract 0 start).size = start := by
    rw [Array.size_extract]
    omega
  have body : (cells.extract 0 start ++ bs.toArray).size = stop := by
    rw [Array.size_append, head, List.size_toArray]
    omega
  rw [splice, Array.getElem?_append, body, Array.getElem?_append, head]
  by_cases before : i < start
  · rw [if_pos (by omega), if_pos before, if_neg (by omega), Array.getElem?_extract,
      if_pos (by omega), Nat.zero_add]
  · by_cases within : i < stop
    · rw [if_pos within, if_neg before, if_pos ⟨by omega, within⟩, List.getElem?_toArray]
    · rw [if_neg within, if_neg fun both => within both.2, Array.getElem?_extract,
        Nat.add_sub_cancel' (Nat.le_of_not_lt within)]
      by_cases last : i < cells.size
      · rw [if_pos (by omega)]
      · rw [if_neg (by omega), Array.getElem?_eq_none (Nat.le_of_not_lt last)]

end

/-- The first of some bytes, refused where there are not so many. -/
def first? (n : Nat) (bs : List Byte) : Option (List Byte) :=
  if n ≤ bs.length then some (bs.take n) else none

/-- Memory with the cells from `start` up to `stop` replaced, refused where there are no such cells
or not one byte for each. -/
def overwrite? (r : Ram) (start stop : Nat) (bs : List Byte) : Option Ram :=
  if fits : start ≤ stop ∧ stop ≤ r.cells.size ∧ bs.length = stop - start then
    some ⟨splice r.cells start stop bs, by
      rw [size_splice fits.1 fits.2.1 fits.2.2]
      exact r.size_le⟩
  else none

/-- A block of bytes copied at once: as many as there are cells for, to the cells they are for. -/
def load? (r : Ram) (a : Word) (bs : List Byte) : Option Ram :=
  if r.mapped ≤ a.toNat then some r
  else do
    let stop := min (a.toNat + bs.length) r.mapped
    let count ← minus? stop a.toNat
    let kept ← first? count bs
    r.overwrite? a.toNat stop kept

/-- Memory after a change, with every range checked. -/
def change? (r : Ram) : Change → Option Ram
  | .load a bs => r.load? a bs
  | c => some (r.change c)

/-- Memory after some changes, with every range checked. -/
def changeAll? (r : Ram) (cs : List Change) : Option Ram :=
  cs.foldlM change? r

/-- Cells that are there are replaced, byte for byte, and no others. -/
theorem exists_overwrite? {r : Ram} {start stop : Nat} {bs : List Byte} (ordered : start ≤ stop)
    (inside : stop ≤ r.mapped) (length : bs.length = stop - start) :
    ∃ r', r.overwrite? start stop bs = some r' ∧ r'.mapped = r.mapped ∧
      ∀ x, r'.peek x =
        if start ≤ x.toNat ∧ x.toNat < stop then bs.getD (x.toNat - start) 0 else r.peek x := by
  refine ⟨_, dif_pos ⟨ordered, inside, length⟩, size_splice ordered inside length, ?_⟩
  intro x
  rw [peek, peek, Array.getD_eq_getD_getElem?, Array.getD_eq_getD_getElem?,
    List.getD_eq_getElem?_getD, getElem?_splice ordered inside length]
  split <;> rfl

/-- Cutting a block off at the mapped end leaves it what it is, cell by cell. -/
theorem load?_eq (r : Ram) (a : Word) (bs : List Byte) : r.load? a bs = some (r.load a bs) := by
  by_cases beyond : r.mapped ≤ a.toNat
  · have dropped : r = r.load a bs := by
      refine eq_of_peek (mapped_load r a bs).symm fun x => ?_
      rw [peek_load, if_neg (by omega)]
    rw [load?, if_pos beyond]
    exact congrArg some dropped
  · have ordered : a.toNat ≤ min (a.toNat + bs.length) r.mapped := by omega
    have enough : min (a.toNat + bs.length) r.mapped - a.toNat ≤ bs.length := by omega
    obtain ⟨r', copied, mapped, bytes⟩ := exists_overwrite? (r := r) ordered (Nat.min_le_right ..)
      (List.length_take_of_le enough)
    have same : r' = r.load a bs := by
      refine eq_of_peek (mapped.trans (mapped_load r a bs).symm) fun x => ?_
      rw [bytes, peek_load]
      by_cases covered : a.toNat ≤ x.toNat ∧ x.toNat < min (a.toNat + bs.length) r.mapped
      · rw [if_pos covered, if_pos (by omega), List.getD_eq_getElem?_getD,
          List.getElem?_take_of_lt (by omega), List.getD_eq_getElem?_getD]
      · rw [if_neg covered, if_neg (by omega)]
    rw [load?, if_neg beyond]
    show (minus? _ _ >>= _) = _
    rw [minus?_bind _ ordered]
    show (first? _ _ >>= _) = _
    rw [first?, if_pos enough]
    exact copied.trans (congrArg some same)

/-- No change asks for a slice that is not there. -/
theorem change?_eq (r : Ram) (c : Change) : r.change? c = some (r.change c) := by
  cases c with
  | load a bs => exact load?_eq r a bs
  | _ => rfl

/-- No list of changes asks for a slice that is not there. -/
theorem changeAll?_eq (r : Ram) (cs : List Change) : r.changeAll? cs = some (r.changeAll cs) := by
  induction cs generalizing r with
  | nil => rfl
  | cons c cs ih =>
      rw [changeAll?, List.foldlM_cons, change?_eq]
      exact ih (r.change c)

/-- **The last writer wins.**  After any changes to zeroed memory that maps as much as it can of
    what was asked for, as much is mapped still.  A mapped address holds the byte that the last
    change to cover it put there, or zero if none did, and an unmapped one reads zero.  A read
    gives what is there and changes nothing, a word is the byte there and the one after it, and no
    range was refused on the way. -/
theorem last_writer_wins (m : Nat) (cs : List Change) :
    let r := (blank m).changeAll cs
    r.mapped = min m 0x10000 ∧
      (∀ x, r.peek x = if x.toNat < r.mapped then (Change.lastAt? x cs).getD 0 else 0) ∧
      (∀ x, Bus.read r x = (r.peek x, r)) ∧
      (∀ x, Word.low (r.peekWord x) = r.peek x ∧ Word.high (r.peekWord x) = r.peek (x + 1)) ∧
      (blank m).changeAll? cs = some r := by
  intro r
  have size : r.mapped = (blank m).mapped := mapped_changeAll (blank m) cs
  refine ⟨size.trans (mapped_blank m), ?_, fun _ => rfl, ?_, changeAll?_eq (blank m) cs⟩
  · intro x
    by_cases mapped : x.toNat < r.mapped
    · rw [if_pos mapped, peek_changeAll (blank m) cs (size ▸ mapped), peek_blank]
    · rw [if_neg mapped, peek_of_mapped_le (Nat.le_of_not_lt mapped)]
  · intro x
    exact ⟨Word.low_ofBytes .., Word.high_ofBytes ..⟩

/-- A block is cut off at the mapped end, and a word at the last address goes on at the first. -/
example :
    ((blank 3).changeAll [.load 1#16 [7, 8, 9], .pokeWord 0xFFFF#16 0x0403#16]).cells =
      #[4, 7, 8] := by
  decide

end Ram

end Micro6502
