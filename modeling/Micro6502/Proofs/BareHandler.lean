import Micro6502.Proofs.Cost
import Micro6502.Proofs.Frame
import Micro6502.Proofs.HostSchedule
import Micro6502.Proofs.Monitored

/-! # A bare handler — an interrupt that leaves no trace

    The shortest service routine is a lone RTI.  An interrupt that it serves
    takes two steps, after which the program goes on as if nothing had been:
    the registers are back, and memory differs in the three slots that the
    entry pushed to.  The route:

    * the two steps are an entry and an RTI: the entry disables IRQ requests,
      so one that is latched still cannot come between (`step_of_service`,
      `nextTurn_of_masked`, `step_of_rti`);
    * what the entry pushed is on top of the stack, so the RTI pulls it
      (`pulls_entered`), wherever S wraps;
    * a monitor on the bus sees these pushes and pulls, the vector and the
      opcode, and nothing else. -/

namespace Micro6502

/-- The slots that an interrupt with S at `s` pushes to, in order. -/
def frameSlots (s : Byte) : List Word :=
  [stackSlot s, stackSlot (s - 1), stackSlot (s - 2)]

namespace Machine

/-! ## The entry and the RTI in memory -/

/-- Memory once a hardware interrupt has pushed the program counter and P. -/
def interrupted (m : Machine Ram) : Ram :=
  let s := m.regs.s
  let high := m.bus.write (stackSlot s) (Word.high m.regs.pc)
  let low := high.write (stackSlot (s - 1)) (Word.low m.regs.pc)
  low.write (stackSlot (s - 2)) (m.regs.p.pushed false)

/-- Outside the three bytes of its frame an interrupt leaves memory as it was. -/
theorem peek_interrupted (m : Machine Ram) {a : Word} (h : a ∉ frameSlots m.regs.s) :
    m.interrupted.peek a = m.bus.peek a := by
  have first : stackSlot m.regs.s ≠ a := by
    rintro rfl
    exact h (List.mem_cons_self ..)
  have second : stackSlot (m.regs.s - 1) ≠ a := by
    rintro rfl
    exact h (List.mem_cons_of_mem _ (List.mem_cons_self ..))
  have third : stackSlot (m.regs.s - 2) ≠ a := by
    rintro rfl
    exact h (List.mem_cons_of_mem _ (List.mem_cons_of_mem _ (List.mem_cons_self ..)))
  rw [interrupted, Ram.peek_write, Ram.peek_write, Ram.peek_write,
    if_neg fun written => third written.1, if_neg fun written => second written.1,
    if_neg fun written => first written.1]

/-- The memory after the two pushes of an entry is that of an interrupt. -/
theorem bus_pushed (m : Machine Ram) :
    ((m.pushWord m.regs.pc).push (m.regs.p.pushed false)).bus = m.interrupted := by
  show Ram.write _ (stackSlot (m.regs.s - 1 - 1)) _ = Ram.write _ (stackSlot (m.regs.s - 2)) _
  rw [sub_one_sub_one]
  rfl

/-- Reading the vector changes no memory, so the entry leaves what its pushes left. -/
theorem bus_enterService (m : Machine Ram) (vector : Word) :
    (m.enterService m.regs.pc vector false).bus = m.interrupted :=
  bus_pushed m

theorem readWord_eq (m : Machine Ram) (a : Word) : m.readWord a = (m.bus.peekWord a, m) := rfl

/-- The service routine starts where the vector points, read after the pushes. -/
theorem pc_enterService (m : Machine Ram) (vector : Word) :
    (m.enterService m.regs.pc vector false).regs.pc = m.interrupted.peekWord vector := by
  rw [← bus_pushed, enterService, readWord_eq]
  rfl

theorem liveBytes_fetchOpcode (m : Machine Ram) (d : Nat) :
    m.fetchOpcode.2.liveBytes d = m.liveBytes d := rfl

theorem bus_fetchOpcode (m : Machine Ram) : m.fetchOpcode.2.bus = m.bus := rfl

theorem bus_rti (m : Machine Ram) (bcd : Bool) :
    (m.execute bcd .rti .accumulator).2.bus = m.bus :=
  Frame.bus_leave bcd m (.interrupt .irq)

/-- What an interrupt pushed is what the next three pulls give, the fetch between being no pull. -/
theorem pulls_entered {m : Machine Ram} (full : m.bus.mapped = 0x10000) (kind : Interrupt) :
    let handler := (m.enterService m.regs.pc kind.vector false).fetchOpcode.2
    handler.pull.1 = m.regs.p.pushed false ∧
      handler.pull.2.pull.1 = Word.low m.regs.pc ∧
      handler.pull.2.pull.2.pull.1 = Word.high m.regs.pc := by
  intro handler
  -- no byte need be live before, so there is room wherever S is
  have pushed : ((Frame.interrupt kind).enter true m).liveBytes (0 + 3) =
      (Frame.interrupt kind).bytes m.regs ++ m.liveBytes 0 :=
    Frame.liveBytes_enter true full (.interrupt kind) (Nat.le_of_ble_eq_true rfl)
  have top : handler.liveBytes (0 + 3) = (Frame.interrupt kind).bytes m.regs ++ m.liveBytes 0 :=
    (liveBytes_fetchOpcode _ _).trans pushed
  obtain ⟨status, low, high, -⟩ := pulls_of_liveBytes top
  exact ⟨status, low, high⟩

/-- After an entry and an RTI the registers are as before but for P, which came off the stack. -/
theorem rti_after_entry {m : Machine Ram} (full : m.bus.mapped = 0x10000) (kind : Interrupt)
    (bcd : Bool) :
    let handler := (m.enterService m.regs.pc kind.vector false).fetchOpcode.2
    (handler.execute bcd .rti .accumulator).2.regs =
        { m.regs with p := .pulled (m.regs.p.pushed false) } ∧
      (handler.execute bcd .rti .accumulator).2.bus = m.interrupted := by
  intro handler
  obtain ⟨status, low, high⟩ := pulls_entered full kind
  constructor
  · rw [regs_rti, regs_fetchOpcode, regs_enterService, status, low, high, Word.ofBytes_low_high,
      BitVec.sub_add_cancel, BitVec.sub_add_cancel, BitVec.sub_add_cancel]
  · rw [bus_rti, bus_fetchOpcode, bus_enterService]

/-! ## What a monitor sees of them -/

/-- An entry is three writes down the stack, and two reads of the vector. -/
theorem accesses_enterService (m : Machine (Monitor Ram)) (vector : Word) :
    (m.enterService m.regs.pc vector false).bus.accesses = m.bus.accesses ++
      [.write (stackSlot m.regs.s) (Word.high m.regs.pc),
        .write (stackSlot (m.regs.s - 1)) (Word.low m.regs.pc),
        .write (stackSlot (m.regs.s - 2)) (m.regs.p.pushed false),
        .read vector (m.behind.interrupted.peek vector),
        .read (vector + 1) (m.behind.interrupted.peek (vector + 1))] := by
  have memory : (m.behind.enterService m.regs.pc vector false).bus = m.behind.interrupted :=
    bus_enterService m.behind vector
  rw [← sub_one_sub_one, ← memory]
  exact Monitor.accesses_of_recorded (show _ = [_, _, _, _, _] ++ m.bus.recorded from rfl)

/-- An RTI is a read of its opcode, and three reads up the stack. -/
theorem accesses_rti (m : Machine (Monitor Ram)) (bcd : Bool) :
    (m.fetchOpcode.2.execute bcd .rti .accumulator).2.bus.accesses = m.bus.accesses ++
      [.read m.regs.pc m.fetchOpcode.1,
        .read (stackSlot (m.regs.s + 1)) m.behind.fetchOpcode.2.pull.1,
        .read (stackSlot (m.regs.s + 1 + 1)) m.behind.fetchOpcode.2.pull.2.pull.1,
        .read (stackSlot (m.regs.s + 1 + 1 + 1)) m.behind.fetchOpcode.2.pull.2.pull.2.pull.1] := by
  exact Monitor.accesses_of_recorded (show _ = [_, _, _, _] ++ m.bus.recorded from rfl)

theorem fetchOpcode_monitored (m : Machine (Monitor Ram)) :
    m.fetchOpcode.1 = m.behind.bus.peek m.behind.regs.pc := rfl

/-- The first opcode of a service routine is the byte where the vector points, as memory is after
    the pushes. -/
theorem fetchOpcode_entered (m : Machine (Monitor Ram)) (vector : Word) :
    (m.enterService m.regs.pc vector false).fetchOpcode.1 =
      m.behind.interrupted.peek (m.behind.interrupted.peekWord vector) := by
  have bus : (m.behind.enterService m.regs.pc vector false).bus = m.behind.interrupted :=
    bus_enterService m.behind vector
  have pc : (m.behind.enterService m.regs.pc vector false).regs.pc =
      m.behind.interrupted.peekWord vector := pc_enterService m.behind vector
  rw [fetchOpcode_monitored, behind_enterService, bus, pc]

/-- After an entry, what an RTI reads is the opcode at the vector and what the entry pushed. -/
theorem accesses_rti_entered {m : Machine (Monitor Ram)} (full : m.behind.bus.mapped = 0x10000)
    (kind : Interrupt) (bcd : Bool) :
    let entered := m.enterService m.regs.pc kind.vector false
    let handler := m.behind.interrupted.peekWord kind.vector
    (entered.fetchOpcode.2.execute bcd .rti .accumulator).2.bus.accesses =
      entered.bus.accesses ++
        [.read handler (m.behind.interrupted.peek handler),
          .read (stackSlot (m.regs.s - 2)) (m.regs.p.pushed false),
          .read (stackSlot (m.regs.s - 1)) (Word.low m.regs.pc),
          .read (stackSlot m.regs.s) (Word.high m.regs.pc)] := by
  intro entered handler
  obtain ⟨status, low, high⟩ := pulls_entered full kind
  have opcode : entered.fetchOpcode.1 = m.behind.interrupted.peek handler :=
    fetchOpcode_entered m kind.vector
  have pc : entered.regs.pc = handler := pc_enterService m.behind kind.vector
  have s : entered.regs.s = m.regs.s - 1 - 1 - 1 := rfl
  have behind : entered.behind.fetchOpcode.2 =
      (m.behind.enterService m.behind.regs.pc kind.vector false).fetchOpcode.2 := rfl
  rw [accesses_rti, opcode, pc, s, behind, status, low, high, BitVec.sub_add_cancel,
    BitVec.sub_add_cancel, BitVec.sub_add_cancel, sub_one_sub_one]
  rfl

end Machine

namespace Processor

/-! ## The two steps -/

/-- An interrupt is accepted at a boundary: an NMI where it is latched, an IRQ where it is latched,
    no NMI is, and IRQ requests are not disabled. -/
def Accepts {β : Type} (c : Processor β) : Interrupt → Prop
  | .nmi => c.pending.nmi = true
  | .irq => c.pending.nmi = false ∧ c.pending.irq = true ∧
      c.regs.p.get .interruptDisable = false

/-- A processor that accepts an interrupt takes it at its next turn. -/
theorem nextTurn_of_accepts {β : Type} {c : Processor β} {kind : Interrupt}
    (h : c.Accepts kind) : c.nextTurn = .service kind := by
  cases kind with
  | nmi => exact (nextTurn_eq_service_nmi_iff c).mpr h
  | irq => exact (nextTurn_eq_service_irq_iff c).mpr h

/-- What is accepted is no NMI that is latched after its release. -/
theorem nmi_release_of_accepts {β : Type} {c : Processor β} {kind : Interrupt}
    (h : c.Accepts kind) : (c.pending.release kind).nmi = false := by
  cases kind with
  | nmi => rfl
  | irq => exact h.1

/-- While IRQ requests are disabled and no NMI is latched, the program goes on. -/
theorem nextTurn_of_masked {β : Type} {c : Processor β} (quiet : c.pending.nmi = false)
    (masked : c.regs.p.get .interruptDisable = true) : c.nextTurn = .instruction :=
  (nextTurn_eq_instruction_iff c).mpr ⟨quiet, Or.inr masked⟩

/-- Requests for an IRQ latch it or do nothing. -/
theorem actAll_of_irq {β : Type} {c : Processor β} {during : List (HostAction β)}
    (quiet : ∀ a ∈ during, a = .request .irq) :
    ∃ irq, c.actAll during = { c with pending := ⟨c.pending.nmi, irq⟩ } := by
  induction during generalizing c with
  | nil => exact ⟨c.pending.irq, rfl⟩
  | cons a rest ih =>
      have first : a = .request .irq := quiet a (List.mem_cons_self ..)
      have others : ∀ b ∈ rest, b = .request .irq :=
        fun b hb => quiet b (List.mem_cons_of_mem a hb)
      obtain ⟨irq, rest_eq⟩ := ih (c := c.act a) others
      refine ⟨irq, ?_⟩
      show (c.act a).actAll rest = _
      rw [rest_eq, first]
      rfl

variable {β : Type} [Bus β]

/-- A step that finds the opcode of RTI takes six cycles and is that operation. -/
theorem step_of_rti {c : Processor β} (boundary : c.remaining = 0)
    (turn : c.nextTurn = .instruction) (opcode : c.toMachine.fetchOpcode.1 = 0x40#8) :
    c.step.1 = 6 ∧
      c.step.2.toMachine = (c.toMachine.fetchOpcode.2.execute c.config.variant.hasDecimal
        .rti .accumulator).2 := by
  have decoded : Opcode.decode c.toMachine.fetchOpcode.1 = ⟨.rti, .implied, 6, true⟩ := by
    rw [opcode]
    decide
  exact step_of_implied boundary turn decoded

/-- Between the entry and the handler nothing comes in, whatever IRQ is or becomes latched. -/
theorem handler_is_next {c : Processor β} {kind : Interrupt} {during : List (HostAction β)}
    (boundary : c.remaining = 0) (accepted : c.Accepts kind)
    (quiet : ∀ a ∈ during, a = .request .irq) :
    (c.step.2.actAll during).remaining = 0 ∧
      (c.step.2.actAll during).nextTurn = .instruction ∧
      (c.step.2.actAll during).toMachine =
        c.toMachine.enterService c.regs.pc kind.vector false := by
  obtain ⟨-, entered, released⟩ := step_of_service boundary (nextTurn_of_accepts accepted)
  obtain ⟨irq, waiting⟩ := actAll_of_irq (c := c.step.2) quiet
  rw [waiting]
  -- an NMI that was taken is released, and an IRQ finds itself masked by the entry
  refine ⟨remaining_step c, nextTurn_of_masked ?_ ?_, entered⟩
  · show c.step.2.pending.nmi = false
    rw [released]
    exact nmi_release_of_accepts accepted
  · show c.step.2.toMachine.regs.p.get .interruptDisable = true
    rw [entered]
    exact Machine.masked_enterService ..

/-- The second step: at the RTI of a bare handler. -/
theorem step_of_bare_handler {c d : Processor (Monitor Ram)} {kind : Interrupt}
    (full : c.toMachine.behind.bus.mapped = 0x10000) (ready : d.remaining = 0)
    (turn : d.nextTurn = .instruction)
    (atHandler : d.toMachine = c.toMachine.enterService c.regs.pc kind.vector false)
    (bare : c.toMachine.behind.interrupted.peek
      (c.toMachine.behind.interrupted.peekWord kind.vector) = 0x40#8) :
    d.step.1 = 6 ∧
      d.step.2.bus.accesses =
        (c.toMachine.enterService c.regs.pc kind.vector false).bus.accesses ++
          [.read (c.toMachine.behind.interrupted.peekWord kind.vector) 0x40#8,
            .read (stackSlot (c.regs.s - 2)) (c.regs.p.pushed false),
            .read (stackSlot (c.regs.s - 1)) (Word.low c.regs.pc),
            .read (stackSlot c.regs.s) (Word.high c.regs.pc)] ∧
      d.step.2.regs = { c.regs with p := .pulled (c.regs.p.pushed false) } ∧
      d.step.2.bus.behind = c.toMachine.behind.interrupted := by
  have opcode : d.toMachine.fetchOpcode.1 = 0x40#8 := by
    rw [atHandler, Machine.fetchOpcode_entered]
    exact bare
  obtain ⟨cost, returned⟩ := step_of_rti ready turn opcode
  rw [atHandler] at returned
  obtain ⟨regs, memory⟩ := Machine.rti_after_entry full kind d.config.variant.hasDecimal
  have behind : d.step.2.toMachine.behind =
      ((c.toMachine.behind.enterService c.toMachine.behind.regs.pc kind.vector
        false).fetchOpcode.2.execute d.config.variant.hasDecimal .rti .accumulator).2 := by
    rw [returned, Machine.behind_rti, Machine.behind_fetchOpcode, Machine.behind_enterService]
    rfl
  rw [← behind] at regs memory
  refine ⟨cost, ?_, regs, memory⟩
  show d.step.2.toMachine.bus.accesses = _
  rw [returned, Machine.accesses_rti_entered full, bare]

/-! ## Nothing is left of it -/

/-- An interrupt passed without a trace: `entry` is its step with the cost, `back` is the step of
    the RTI. -/
structure PassedThrough (kind : Interrupt) (c : Processor (Monitor Ram))
    (entry back : Nat × Processor (Monitor Ram)) : Prop where
  entryCost : entry.1 = 7
  backCost : back.1 = 6
  entryAccesses : entry.2.bus.accesses = c.bus.accesses ++
    [.write (stackSlot c.regs.s) (Word.high c.regs.pc),
      .write (stackSlot (c.regs.s - 1)) (Word.low c.regs.pc),
      .write (stackSlot (c.regs.s - 2)) (c.regs.p.pushed false),
      .read kind.vector (c.toMachine.behind.interrupted.peek kind.vector),
      .read (kind.vector + 1) (c.toMachine.behind.interrupted.peek (kind.vector + 1))]
  backAccesses : back.2.bus.accesses = entry.2.bus.accesses ++
    [.read (c.toMachine.behind.interrupted.peekWord kind.vector) 0x40#8,
      .read (stackSlot (c.regs.s - 2)) (c.regs.p.pushed false),
      .read (stackSlot (c.regs.s - 1)) (Word.low c.regs.pc),
      .read (stackSlot c.regs.s) (Word.high c.regs.pc)]
  /-- On the stack, bit 5 of P is set, bit 4 is clear, and the other bits are those of P. -/
  pushed : ∀ f : Flag, (c.regs.p.pushed false).getLsbD f.bit =
    if f = .unused then true else if f = .brk then false else c.regs.p.get f
  masked : entry.2.regs.p.get .interruptDisable = true
  a : back.2.regs.a = c.regs.a
  x : back.2.regs.x = c.regs.x
  y : back.2.regs.y = c.regs.y
  s : back.2.regs.s = c.regs.s
  pc : back.2.regs.pc = c.regs.pc
  p : back.2.regs.p.bits = c.regs.p.bits &&& ~~~Flag.brk.mask
  memory : ∀ a, a ∉ frameSlots c.regs.s → back.2.bus.behind.peek a = c.bus.behind.peek a

/-- **A bare handler is transparent.**  From every register file and memory, an interrupt that is
    accepted at a boundary and whose vector leads to an RTI passes without a trace in two steps,
    with however many IRQ requests between them. -/
theorem bare_handler_is_transparent (c : Processor (Monitor Ram)) (kind : Interrupt)
    (during : List (HostAction (Monitor Ram))) (full : c.bus.behind.mapped = 0x10000)
    (boundary : c.remaining = 0) (accepted : c.Accepts kind)
    (quiet : ∀ a ∈ during, a = .request .irq)
    (bare : c.toMachine.behind.interrupted.peek
      (c.toMachine.behind.interrupted.peekWord kind.vector) = 0x40#8) :
    c.PassedThrough kind c.step (c.step.2.actAll during).step := by
  obtain ⟨entryCost, entered, -⟩ := step_of_service boundary (nextTurn_of_accepts accepted)
  obtain ⟨ready, turn, atHandler⟩ := handler_is_next boundary accepted quiet
  obtain ⟨backCost, accesses, regs, memory⟩ := step_of_bare_handler full ready turn atHandler bare
  have entryBus : c.step.2.bus = (c.toMachine.enterService c.regs.pc kind.vector false).bus :=
    congrArg Machine.bus entered
  refine ⟨entryCost, backCost, ?_, ?_, ?_, ?_, ?_, ?_, ?_, ?_, ?_, ?_, ?_⟩
  · rw [entryBus]
    exact Machine.accesses_enterService c.toMachine kind.vector
  · rw [entryBus]
    exact accesses
  · exact fun f => Status.getLsbD_pushed_hardware c.regs.p f
  · show c.step.2.toMachine.regs.p.get .interruptDisable = true
    rw [entered]
    exact Machine.masked_enterService ..
  · rw [regs]
  · rw [regs]
  · rw [regs]
  · rw [regs]
  · rw [regs]
  · rw [regs]
    exact Status.bits_pulled_pushed c.regs.p false
  · intro a off
    rw [memory]
    exact Machine.peek_interrupted c.toMachine.behind off

/-- A processor whose stack is about to wrap, with both interrupts latched and P as a host may
    leave it; at address zero, where the vectors lead, is an RTI. -/
def aboutToInterrupt : Processor (Monitor Ram) :=
  ⟨⟨{ Registers.new with s := 0x01#8, p := ⟨Flag.brk.mask⟩, pc := 0x8000#16 },
    .attach (Ram.full.write 0 0x40#8)⟩, {}, 0, 0, ⟨true, true⟩, []⟩

/-- The NMI passes without a trace, though an IRQ is latched all the time. -/
theorem bare_handler_is_transparent_nearWrap :
    aboutToInterrupt.bus.behind.mapped = 0x10000 ∧ aboutToInterrupt.remaining = 0 ∧
      aboutToInterrupt.Accepts .nmi ∧
      aboutToInterrupt.toMachine.behind.interrupted.peek
        (aboutToInterrupt.toMachine.behind.interrupted.peekWord Interrupt.nmi.vector) = 0x40#8 ∧
      aboutToInterrupt.PassedThrough .nmi aboutToInterrupt.step
        (aboutToInterrupt.step.2.actAll [.request .irq]).step := by
  have bus : aboutToInterrupt.toMachine.behind.bus = Ram.full.write 0 0x40#8 := rfl
  have full : aboutToInterrupt.toMachine.behind.bus.mapped = 0x10000 := by
    rw [bus, Ram.mapped_write]
    exact Ram.mapped_blank 0x10000
  have quiet : ∀ a ∈ ([.request .irq] : List (HostAction (Monitor Ram))), a = .request .irq :=
    fun a ha => List.mem_singleton.mp ha
  -- off the stack, memory is zero but for the RTI
  have memory : ∀ a, a ∉ frameSlots 0x01#8 →
      aboutToInterrupt.toMachine.behind.interrupted.peek a = if 0 = a then 0x40#8 else 0 := by
    intro a off
    rw [Machine.peek_interrupted _ off, bus, Ram.peek_write, Ram.full, Ram.peek_blank,
      Ram.mapped_blank]
    simp
  have vector : aboutToInterrupt.toMachine.behind.interrupted.peekWord Interrupt.nmi.vector = 0 := by
    rw [Ram.peekWord, memory _ (by decide), memory _ (by decide)]
    decide
  have bare : aboutToInterrupt.toMachine.behind.interrupted.peek
      (aboutToInterrupt.toMachine.behind.interrupted.peekWord Interrupt.nmi.vector) = 0x40#8 := by
    rw [vector, memory 0 (by decide), if_pos rfl]
  exact ⟨full, rfl, rfl, bare,
    bare_handler_is_transparent aboutToInterrupt .nmi [.request .irq] full rfl rfl quiet bare⟩

end Processor

end Micro6502
