import Micro6502.Bus.Ram
import Micro6502.Machine

/-! # The stack — a list of bytes in a page that wraps

    On memory that is mapped everywhere the stack page is a stack: its newest
    bytes are those in the slots above S, and S wraps inside the page.

    * `liveSlots s d` are the addresses of the newest `d` bytes, and
      `liveBytes` are the bytes there, newest first;
    * a push puts its byte before them (`liveBytes_push`), as long as there
      is a slot that none of them has;
    * a pull takes the first of them away (`liveBytes_succ`). -/

namespace Micro6502

/-- The address of a slot of the stack page. -/
def stackSlot (s : Byte) : Word :=
  Word.ofBytes s (Word.high stackPage)

/-- The slots of the stack are the second page. -/
theorem toNat_stackSlot (s : Byte) : (stackSlot s).toNat = 0x100 + s.toNat := by
  rw [stackSlot, Word.toNat_ofBytes, Nat.add_comm]
  rfl

/-- Different values of S are different slots. -/
theorem stackSlot_inj {s t : Byte} : stackSlot s = stackSlot t ↔ s = t := by
  refine ⟨fun h => ?_, fun h => h ▸ rfl⟩
  have low := congrArg Word.low h
  rw [stackSlot, stackSlot, Word.low_ofBytes, Word.low_ofBytes] at low
  exact low

theorem sub_one_sub_one (s : Byte) : s - 1 - 1 = s - 2 := BitVec.sub_sub s 1 1

theorem add_one_add_one {width : Nat} (v : BitVec width) : v + 1 + 1 = v + 2 := by
  rw [BitVec.add_assoc]
  exact congrArg (v + ·) (BitVec.ofNat_add 1 1).symm

/-- The addresses of the newest `d` bytes of the stack, newest first. -/
def liveSlots (s : Byte) : (d : Nat) → List Word
  | 0 => []
  | d + 1 => stackSlot (s + 1) :: liveSlots (s + 1) d

/-- The live slots are those right above S, round the end of the page. -/
theorem mem_liveSlots {s : Byte} {d : Nat} {a : Word} :
    a ∈ liveSlots s d ↔ ∃ i, i < d ∧ a = stackSlot (s + BitVec.ofNat 8 (i + 1)) := by
  induction d generalizing s with
  | zero => exact ⟨nofun, fun ⟨_, h, _⟩ => absurd h (Nat.not_lt_zero _)⟩
  | succ d ih =>
      have shift : ∀ i, s + 1 + BitVec.ofNat 8 (i + 1) = s + BitVec.ofNat 8 (i + 1 + 1) := by
        intro i
        rw [BitVec.ofNat_add (i + 1) 1, BitVec.add_assoc]
        exact congrArg (s + ·) (BitVec.add_comm _ _)
      rw [liveSlots, List.mem_cons, ih]
      constructor
      · rintro (rfl | ⟨i, hi, rfl⟩)
        · exact ⟨0, Nat.succ_pos d, rfl⟩
        · exact ⟨i + 1, Nat.succ_lt_succ hi, by rw [shift]⟩
      · rintro ⟨i, hi, rfl⟩
        cases i with
        | zero => exact Or.inl rfl
        | succ i => exact Or.inr ⟨i, Nat.lt_of_succ_lt_succ hi, by rw [shift]⟩

/-- The free slot is none of the newest bytes', as long as not every slot has one. -/
theorem stackSlot_notMem_liveSlots (s : Byte) {d : Nat} (room : d < 256) :
    stackSlot s ∉ liveSlots s d := by
  rw [mem_liveSlots]
  rintro ⟨i, hi, h⟩
  have same := congrArg BitVec.toNat (stackSlot_inj.mp h)
  rw [BitVec.toNat_add, BitVec.toNat_ofNat] at same
  have hs := s.isLt
  omega

/-- An address is off the stack page. -/
def OffStackPage (a : Word) : Prop :=
  a.toNat < 0x100 ∨ 0x1FF < a.toNat

/-- What is off the stack page is no slot. -/
theorem OffStackPage.ne_stackSlot {a : Word} (h : OffStackPage a) (s : Byte) :
    stackSlot s ≠ a := by
  rintro rfl
  have hs := s.isLt
  have ha := toNat_stackSlot s
  rcases h with below | above
  · omega
  · omega

/-- What is off the stack page is not live. -/
theorem OffStackPage.notMem_liveSlots {a : Word} (h : OffStackPage a) (s : Byte) (d : Nat) :
    a ∉ liveSlots s d := by
  rw [mem_liveSlots]
  rintro ⟨i, -, rfl⟩
  exact h.ne_stackSlot _ rfl

namespace Machine

/-- The newest `d` bytes of the stack, newest first. -/
def liveBytes (m : Machine Ram) (d : Nat) : List Byte :=
  (liveSlots m.regs.s d).map m.bus.peek

/-- Live bytes are the same where S is, and memory at the live slots. -/
theorem liveBytes_congr {m m' : Machine Ram} {d : Nat} (hs : m'.regs.s = m.regs.s)
    (hb : ∀ a ∈ liveSlots m.regs.s d, m'.bus.peek a = m.bus.peek a) :
    m'.liveBytes d = m.liveBytes d := by
  rw [liveBytes, liveBytes, hs]
  exact List.map_congr_left hb

/-- A pull gives the newest byte, and leaves the others. -/
theorem liveBytes_succ (m : Machine Ram) (d : Nat) :
    m.liveBytes (d + 1) = m.pull.1 :: m.pull.2.liveBytes d := rfl

/-- Three pulls give the newest three bytes, and leave the others. -/
theorem pulls_of_liveBytes {m : Machine Ram} {d : Nat} {b₀ b₁ b₂ : Byte} {rest : List Byte}
    (h : m.liveBytes (d + 3) = b₀ :: b₁ :: b₂ :: rest) :
    m.pull.1 = b₀ ∧ m.pull.2.pull.1 = b₁ ∧ m.pull.2.pull.2.pull.1 = b₂ ∧
      m.pull.2.pull.2.pull.2.liveBytes d = rest := by
  rw [liveBytes_succ, liveBytes_succ, liveBytes_succ] at h
  obtain ⟨first, h⟩ := List.cons.inj h
  obtain ⟨second, h⟩ := List.cons.inj h
  obtain ⟨third, others⟩ := List.cons.inj h
  exact ⟨first, second, third, others⟩

@[simp] theorem mapped_push (m : Machine Ram) (b : Byte) :
    (m.push b).bus.mapped = m.bus.mapped :=
  Ram.mapped_write ..

/-- A push is seen in its own slot, and nowhere else. -/
theorem peek_push {m : Machine Ram} (full : m.bus.mapped = 0x10000) (b : Byte) (a : Word) :
    (m.push b).bus.peek a = if stackSlot m.regs.s = a then b else m.bus.peek a := by
  show (m.bus.write (stackSlot m.regs.s) b).peek a = _
  have inside : (stackSlot m.regs.s).toNat < m.bus.mapped := full ▸ (stackSlot m.regs.s).isLt
  rw [Ram.peek_write]
  simp only [inside, and_true]

theorem peek_push_of_off {m : Machine Ram} (full : m.bus.mapped = 0x10000) (b : Byte) {a : Word}
    (h : OffStackPage a) : (m.push b).bus.peek a = m.bus.peek a := by
  rw [peek_push full, if_neg (h.ne_stackSlot _)]

/-- A push puts its byte before the bytes that are there. -/
theorem liveBytes_push {m : Machine Ram} {d : Nat} (full : m.bus.mapped = 0x10000)
    (room : d < 256) (b : Byte) : (m.push b).liveBytes (d + 1) = b :: m.liveBytes d := by
  have up : m.regs.s - 1 + 1 = m.regs.s := BitVec.sub_add_cancel _ _
  -- the slot that is written is the free one, so no byte that is live is lost
  have old : (liveSlots m.regs.s d).map (m.push b).bus.peek = m.liveBytes d := by
    refine List.map_congr_left fun a ha => ?_
    have apart : stackSlot m.regs.s ≠ a := by
      rintro rfl
      exact stackSlot_notMem_liveSlots _ room ha
    rw [peek_push full, if_neg apart]
  show (m.push b).bus.peek (stackSlot (m.regs.s - 1 + 1)) ::
    (liveSlots (m.regs.s - 1 + 1) d).map (m.push b).bus.peek = _
  rw [up, old, peek_push full, if_pos rfl]

/-! ## Many bytes at once -/

section

variable {β : Type} [Bus β]

/-- The machine with some bytes pushed, given newest first. -/
def pushAll (m : Machine β) : List Byte → Machine β
  | [] => m
  | b :: bs => (m.pushAll bs).push b

theorem s_pushAll (m : Machine β) (bs : List Byte) :
    (m.pushAll bs).regs.s = m.regs.s - BitVec.ofNat 8 bs.length := by
  induction bs with
  | nil => exact (BitVec.sub_zero _).symm
  | cons b bs ih =>
      show (m.pushAll bs).regs.s - 1 = _
      rw [ih, BitVec.sub_sub, List.length_cons, BitVec.ofNat_add]
      rfl

end

theorem mapped_pushAll (m : Machine Ram) (bs : List Byte) :
    (m.pushAll bs).bus.mapped = m.bus.mapped := by
  induction bs with
  | nil => rfl
  | cons b bs ih => exact (mapped_push (m.pushAll bs) b).trans ih

theorem peek_pushAll_of_off {m : Machine Ram} (full : m.bus.mapped = 0x10000) (bs : List Byte)
    {a : Word} (h : OffStackPage a) : (m.pushAll bs).bus.peek a = m.bus.peek a := by
  induction bs with
  | nil => rfl
  | cons b bs ih =>
      have fullAfter := (mapped_pushAll m bs).trans full
      exact (peek_push_of_off fullAfter b h).trans ih

/-- Bytes pushed come before the bytes that are there, as long as there is room for all. -/
theorem liveBytes_pushAll {m : Machine Ram} {d : Nat} (full : m.bus.mapped = 0x10000)
    (bs : List Byte) (room : d + bs.length ≤ 256) :
    (m.pushAll bs).liveBytes (d + bs.length) = bs ++ m.liveBytes d := by
  induction bs with
  | nil => rfl
  | cons b bs ih =>
      rw [List.length_cons] at room
      have fullAfter := (mapped_pushAll m bs).trans full
      show ((m.pushAll bs).push b).liveBytes (d + bs.length + 1) = _
      rw [liveBytes_push fullAfter (by omega), ih (by omega)]
      rfl

end Machine

end Micro6502
