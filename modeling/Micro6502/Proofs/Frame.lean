import Micro6502.Processor
import Micro6502.Proofs.Stack
import Micro6502.Proofs.StatusByte

/-! # Frames — the five matched pairs of the stack

    A frame is what one of the matched pairs leaves on the stack from its
    entry to its leaving: a saved accumulator or status register, the way
    back of a call, or what an interrupt saves.

    * To the stack, an entry is its bytes pushed (`bus_enter`,
      `s_enter_eq_pushAll`), so it puts them before the live bytes
      (`liveBytes_enter`) and writes nowhere else (`peek_enter_of_off`);
    * a leaving that finds them there takes them away and restores what
      they were (`leave_of_liveBytes`). -/

namespace Micro6502

/-- The matched pairs that use the stack, each named for what it puts there. -/
inductive Frame where
  /-- The accumulator: PHA and PLA. -/
  | accumulator
  /-- The status register: PHP and PLP. -/
  | status
  /-- The way back from a subroutine: JSR and RTS. -/
  | call (target : Word)
  /-- The way back from a software break, and P: BRK and RTI. -/
  | softwareBreak
  /-- The way back from a hardware interrupt, and P: its entry and RTI. -/
  | interrupt (kind : Interrupt)

namespace Frame

/-- How many bytes a frame takes. -/
def size : Frame → Nat
  | .accumulator | .status => 1
  | .call _ => 2
  | .softwareBreak | .interrupt _ => 3

/-- The bytes of a frame that is entered with registers `r`, newest first. -/
def bytes (r : Registers) : Frame → List Byte
  | .accumulator => [r.a]
  | .status => [r.p.pushed true]
  | .call _ => [Word.low (r.pc - 1), Word.high (r.pc - 1)]
  | .softwareBreak => [r.p.pushed true, Word.low (r.pc + 1), Word.high (r.pc + 1)]
  | .interrupt _ => [r.p.pushed false, Word.low r.pc, Word.high r.pc]

/-- What leaving a frame restores, from the registers it was entered with: `r` before, `r'` after. -/
def Restores (r r' : Registers) : Frame → Prop
  | .accumulator => r'.a = r.a
  | .status => r'.p.bits = r.p.bits &&& ~~~Flag.brk.mask
  | .call _ => r'.pc = r.pc
  | .softwareBreak => r'.p.bits = r.p.bits &&& ~~~Flag.brk.mask ∧ r'.pc = r.pc + 1
  | .interrupt _ => r'.p.bits = r.p.bits &&& ~~~Flag.brk.mask ∧ r'.pc = r.pc

variable {β : Type} [Bus β] (bcd : Bool)

/-- The machine after a frame is entered. -/
def enter (m : Machine β) : Frame → Machine β
  | .accumulator => (m.execute bcd .pha .accumulator).2
  | .status => (m.execute bcd .php .accumulator).2
  | .call target => (m.execute bcd .jsr (.address target)).2
  | .softwareBreak => (m.execute bcd .brk .accumulator).2
  | .interrupt kind => m.enterService m.regs.pc kind.vector false

/-- The machine after a frame is left. -/
def leave (m : Machine β) : Frame → Machine β
  | .accumulator => (m.execute bcd .pla .accumulator).2
  | .status => (m.execute bcd .plp .accumulator).2
  | .call _ => (m.execute bcd .rts .accumulator).2
  | .softwareBreak | .interrupt _ => (m.execute bcd .rti .accumulator).2

theorem length_bytes (r : Registers) (f : Frame) : (f.bytes r).length = f.size := by
  cases f <;> rfl

/-- To S, an entry is no more than its bytes pushed. -/
theorem s_enter_eq_pushAll (m : Machine β) (f : Frame) :
    (f.enter bcd m).regs.s = (m.pushAll (f.bytes m.regs)).regs.s := by
  cases f <;> rfl

theorem s_enter (m : Machine β) (f : Frame) :
    (f.enter bcd m).regs.s = m.regs.s - BitVec.ofNat 8 f.size := by
  rw [s_enter_eq_pushAll, Machine.s_pushAll, length_bytes]

theorem s_leave (m : Machine β) (f : Frame) :
    (f.leave bcd m).regs.s = m.regs.s + BitVec.ofNat 8 f.size := by
  have two : m.regs.s + 1 + 1 = m.regs.s + BitVec.ofNat 8 2 := BitVec.add_assoc _ _ _
  have three : m.regs.s + 1 + 1 + 1 = m.regs.s + BitVec.ofNat 8 3 := by
    rw [two]
    exact BitVec.add_assoc _ _ _
  cases f with
  | accumulator => rfl
  | status => rfl
  | call target => exact two
  | softwareBreak => exact three
  | interrupt kind => exact three

/-! ## Entering and leaving a frame in memory -/

/-- To memory, an entry is no more than its bytes pushed. -/
theorem bus_enter (m : Machine Ram) (f : Frame) :
    (f.enter bcd m).bus = (m.pushAll (f.bytes m.regs)).bus := by
  cases f <;> rfl

theorem mapped_enter (m : Machine Ram) (f : Frame) :
    (f.enter bcd m).bus.mapped = m.bus.mapped := by
  rw [bus_enter, Machine.mapped_pushAll]

/-- An entry writes to the stack page alone. -/
theorem peek_enter_of_off {m : Machine Ram} (full : m.bus.mapped = 0x10000) (f : Frame) {a : Word}
    (h : OffStackPage a) : (f.enter bcd m).bus.peek a = m.bus.peek a := by
  rw [bus_enter, Machine.peek_pushAll_of_off full _ h]

/-- A leaving writes nothing. -/
theorem bus_leave (m : Machine Ram) (f : Frame) : (f.leave bcd m).bus = m.bus := by
  cases f <;> rfl

/-- An entry puts its bytes before the live bytes, as long as there is room. -/
theorem liveBytes_enter {m : Machine Ram} {d : Nat} (full : m.bus.mapped = 0x10000) (f : Frame)
    (room : d + f.size ≤ 256) :
    (f.enter bcd m).liveBytes (d + f.size) = f.bytes m.regs ++ m.liveBytes d := by
  rw [← length_bytes m.regs] at room ⊢
  rw [← Machine.liveBytes_pushAll full _ room]
  show (liveSlots _ _).map _ = (liveSlots _ _).map _
  rw [s_enter_eq_pushAll, bus_enter]

/-- RTI restores what an entry to a service routine left. -/
theorem return_of_liveBytes {m : Machine Ram} {d : Nat} {p : Status} {back : Word}
    {software : Bool} {rest : List Byte}
    (h : m.liveBytes (d + 3) = p.pushed software :: Word.low back :: Word.high back :: rest) :
    (m.execute bcd .rti .accumulator).2.liveBytes d = rest ∧
      (m.execute bcd .rti .accumulator).2.regs.p.bits = p.bits &&& ~~~Flag.brk.mask ∧
      (m.execute bcd .rti .accumulator).2.regs.pc = back := by
  obtain ⟨status, low, high, others⟩ := Machine.pulls_of_liveBytes h
  refine ⟨others, ?_, ?_⟩
  · show (Status.pulled m.pull.1).bits = _
    rw [status, Status.bits_pulled_pushed]
  · show Word.ofBytes m.pull.2.pull.1 m.pull.2.pull.2.pull.1 = back
    rw [low, high, Word.ofBytes_low_high]

/-- A leaving that finds the bytes of its frame takes them away and restores what they were. -/
theorem leave_of_liveBytes {m : Machine Ram} {d : Nat} {f : Frame} {r : Registers}
    {rest : List Byte} (h : m.liveBytes (d + f.size) = f.bytes r ++ rest) :
    (f.leave bcd m).liveBytes d = rest ∧ f.Restores r (f.leave bcd m).regs := by
  cases f with
  | accumulator =>
      obtain ⟨top, others⟩ := List.cons.inj h
      exact ⟨others, top⟩
  | status =>
      obtain ⟨top, others⟩ := List.cons.inj h
      refine ⟨others, ?_⟩
      show (Status.pulled m.pull.1).bits = _
      rw [show m.pull.1 = r.p.pushed true from top, Status.bits_pulled_pushed]
  | call target =>
      -- what was pushed is the last byte of the call, one before the way back
      obtain ⟨low, others⟩ := List.cons.inj h
      obtain ⟨high, others⟩ := List.cons.inj others
      refine ⟨others, ?_⟩
      show Word.ofBytes m.pull.1 m.pull.2.pull.1 + 1 = r.pc
      rw [show m.pull.1 = Word.low (r.pc - 1) from low,
        show m.pull.2.pull.1 = Word.high (r.pc - 1) from high, Word.ofBytes_low_high]
      exact BitVec.sub_add_cancel _ _
  | softwareBreak => exact return_of_liveBytes bcd h
  | interrupt kind => exact return_of_liveBytes bcd h

end Frame

end Micro6502
