import Micro6502.Proofs.BareHandler

/-! # Software breaks — an IRQ that marks its copy of P

    A BRK skips the byte after it and enters the service routine of IRQ
    requests; a request that is accepted at the byte after that does the
    same.  The one is fetched, decoded and run, the other is settled before
    anything is fetched.  The route:

    * both steps are entries to one service routine with one way back
      (`step_of_brk`, `step_of_service`), where P reads the same, though the
      fetch of an opcode stores its unused bit anew;
    * an entry writes its copy of P last, so memory after it is the way back
      pushed, and one cell (`peek_enterService`), which is none of the
      vector's (`pc_entered`);
    * so what the two leave differs in that cell alone, and there in the bit
      that says who pushed it (`markedApart_enterService`). -/

namespace Micro6502

namespace Machine

/-- Two machines are the same to a program, but for their copies of one P at `slot`: the first has
    the mark of a software break there, and the second has not. -/
structure MarkedApart (copied : Status) (slot : Word) (m n : Machine Ram) : Prop where
  a : n.regs.a = m.regs.a
  x : n.regs.x = m.regs.x
  y : n.regs.y = m.regs.y
  s : n.regs.s = m.regs.s
  pc : n.regs.pc = m.regs.pc
  p : n.regs.p.bits = m.regs.p.bits
  memory : ∀ i, i ≠ slot → n.bus.peek i = m.bus.peek i
  marked : ∀ f : Flag, (m.bus.peek slot).getLsbD f.bit = if f = .brk then true else copied.get f
  unmarked : ∀ f : Flag, (n.bus.peek slot).getLsbD f.bit = if f = .brk then false else copied.get f

/-! ## What an entry leaves in memory -/

theorem bus_pushWord (m : Machine Ram) (w : Word) :
    (m.pushWord w).bus = (m.bus.write (stackSlot m.regs.s) (Word.high w)).write
      (stackSlot (m.regs.s - 1)) (Word.low w) := rfl

/-- An entry puts its copy of P in the last of its slots; elsewhere memory is as the way back left
    it. -/
theorem peek_enterService {m : Machine Ram} (full : m.bus.mapped = 0x10000) (back vector : Word)
    (software : Bool) (i : Word) :
    (m.enterService back vector software).bus.peek i =
      if stackSlot (m.regs.s - 2) = i then m.regs.p.pushed software
      else (m.pushWord back).bus.peek i := by
  have still : (m.pushWord back).bus.mapped = 0x10000 := by
    rw [pushWord, mapped_push, mapped_push, full]
  show ((m.pushWord back).push (m.regs.p.pushed software)).bus.peek i = _
  rw [peek_push still, ← sub_one_sub_one]
  rfl

/-- The vector is off the stack page, so an entry follows it as the way back left it. -/
theorem pc_entered {m : Machine Ram} (full : m.bus.mapped = 0x10000) (back : Word)
    (software : Bool) :
    (m.enterService back irqVector software).regs.pc =
      (m.pushWord back).bus.peekWord irqVector := by
  have low : OffStackPage irqVector := Or.inr (by decide)
  have high : OffStackPage (irqVector + 1) := Or.inr (by decide)
  have followed : (m.enterService back irqVector software).regs.pc =
      (m.enterService back irqVector software).bus.peekWord irqVector := by
    rw [enterService, readWord_eq]
    rfl
  rw [followed, Ram.peekWord, peek_enterService full, peek_enterService full,
    if_neg (low.ne_stackSlot _), if_neg (high.ne_stackSlot _)]
  rfl

/-- Entries with one way back, from machines where P reads the same and which differ else in the
    program counter alone, are apart by the mark in the copy of P. -/
theorem markedApart_enterService {m n : Machine Ram} {p : Status} (full : m.bus.mapped = 0x10000)
    (bus : n.bus = m.bus) (regs : n.regs = { m.regs with p := n.regs.p, pc := n.regs.pc })
    (reads : m.regs.p.bits = p.bits) (reads' : n.regs.p.bits = p.bits) (back : Word) :
    MarkedApart p (stackSlot (m.regs.s - 2)) (m.enterService back irqVector true)
      (n.enterService back irqVector false) := by
  have full' : n.bus.mapped = 0x10000 := by rw [bus, full]
  have s : n.regs.s = m.regs.s := by rw [regs]
  have shown : ∀ f, m.regs.p.get f = p.get f := fun f => congrArg (·.getLsbD f.bit) reads
  have shown' : ∀ f, n.regs.p.get f = p.get f := fun f => congrArg (·.getLsbD f.bit) reads'
  -- the way back goes on the stack before P is looked at
  have way : (n.pushWord back).bus = (m.pushWord back).bus := by
    rw [bus_pushWord, bus_pushWord, bus, s]
  constructor
  -- an entry takes these over, or counts down from them
  case a | x | y | s => rw [regs_enterService n, regs_enterService m, regs]
  case pc => rw [pc_entered full, pc_entered full', way]
  case p =>
      rw [regs_enterService n, regs_enterService m]
      refine eq_of_flags fun f => ?_
      show (n.regs.p.set .interruptDisable true).get f = (m.regs.p.set .interruptDisable true).get f
      rw [Status.get_set, Status.get_set, shown, shown']
  case memory =>
      intro i other
      rw [peek_enterService full, peek_enterService full', s, way, if_neg other.symm,
        if_neg other.symm]
  case marked =>
      intro f
      rw [peek_enterService full, if_pos rfl, Status.getLsbD_pushed, shown]
  case unmarked =>
      intro f
      rw [peek_enterService full', s, if_pos rfl, Status.getLsbD_pushed, shown']

end Machine

namespace Processor

/-! ## The two steps -/

/-- A step at a BRK is an entry to the service routine of IRQ requests, with the byte after it
    skipped. -/
theorem step_of_brk {β : Type} [Bus β] {c : Processor β} (boundary : c.remaining = 0)
    (turn : c.nextTurn = .instruction) (opcode : c.toMachine.fetchOpcode.1 = 0x00#8) :
    c.step.1 = 7 ∧
      c.step.2.toMachine =
        c.toMachine.fetchOpcode.2.enterService (c.regs.pc + 2) irqVector true := by
  have decoded : Opcode.decode c.toMachine.fetchOpcode.1 = ⟨.brk, .implied, 7, true⟩ := by
    rw [opcode]
    decide
  obtain ⟨cost, entered⟩ := step_of_implied boundary turn decoded
  refine ⟨cost, ?_⟩
  rw [entered, ← add_one_add_one c.regs.pc]
  rfl

/-- **A software break is an IRQ with a mark.**  From every register file with IRQ requests enabled
    and every memory, a step at a BRK and a step that accepts an IRQ two bytes further on cost seven
    cycles each, and what they leave is the same but for the mark in the copy of P that they
    pushed. -/
theorem break_is_marked_irq {c d : Processor Ram} (full : c.bus.mapped = 0x10000)
    (idle : c.remaining = 0) (idle' : d.remaining = 0) (turn : c.nextTurn = .instruction)
    (opcode : c.bus.peek c.regs.pc = 0x00#8) (accepted : d.Accepts .irq) (bus : d.bus = c.bus)
    (regs : d.regs = { c.regs with pc := c.regs.pc + 2 }) :
    c.step.1 = 7 ∧ d.step.1 = 7 ∧
      Machine.MarkedApart c.regs.p (stackSlot (c.regs.s - 2)) c.step.2.toMachine
        d.step.2.toMachine := by
  obtain ⟨cost, broken⟩ := step_of_brk idle turn opcode
  obtain ⟨cost', entered, -⟩ := step_of_service idle' (nextTurn_of_accepts accepted)
  -- the request comes in where a BRK goes back to
  have way : d.regs.pc = c.regs.pc + 2 := by rw [regs]
  refine ⟨cost, cost', ?_⟩
  rw [broken, entered, way]
  refine Machine.markedApart_enterService (m := c.toMachine.fetchOpcode.2) (n := d.toMachine)
    full bus ?_ ?_ ?_ _
  · rw [regs]
    rfl
  · exact Status.bits_set_unused c.regs.p true
  · rw [regs]

/-- A processor at a BRK in the last cell of memory, its stack about to wrap and P as a host may
    leave it. -/
def atBreak : Processor Ram :=
  ⟨⟨{ Registers.new with s := 0x01#8, p := ⟨Flag.brk.mask⟩, pc := 0xFFFF#16 }, .full⟩,
    {}, 0, 0, {}, []⟩

/-- The same with an IRQ latched, where the BRK goes back to. -/
def atRequest : Processor Ram :=
  ⟨⟨{ Registers.new with s := 0x01#8, p := ⟨Flag.brk.mask⟩, pc := 0x0001#16 }, .full⟩,
    {}, 0, 0, ⟨false, true⟩, []⟩

/-- The copies of P are in the top slot of the stack page, and differ in the mark. -/
theorem break_is_marked_irq_wrapped :
    atBreak.remaining = 0 ∧ atRequest.remaining = 0 ∧ atBreak.nextTurn = .instruction ∧
      atBreak.bus.mapped = 0x10000 ∧ atBreak.bus.peek atBreak.regs.pc = 0x00#8 ∧
      atRequest.Accepts .irq ∧ atBreak.step.1 = 7 ∧ atRequest.step.1 = 7 ∧
      Machine.MarkedApart ⟨Flag.brk.mask⟩ 0x01FF#16 atBreak.step.2.toMachine
        atRequest.step.2.toMachine := by
  have full : atBreak.bus.mapped = 0x10000 := Ram.mapped_blank 0x10000
  have opcode : atBreak.bus.peek atBreak.regs.pc = 0x00#8 := Ram.peek_blank 0x10000 0xFFFF#16
  have turn : atBreak.nextTurn = .instruction := by decide
  have accepted : atRequest.Accepts .irq := ⟨rfl, rfl, by decide⟩
  exact ⟨rfl, rfl, turn, full, opcode, accepted,
    break_is_marked_irq full rfl rfl turn opcode accepted rfl rfl⟩

end Processor

end Micro6502
