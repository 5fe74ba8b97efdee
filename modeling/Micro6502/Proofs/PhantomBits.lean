import Micro6502.Bus.Ram
import Micro6502.Proofs.Alike
import Micro6502.Proofs.FlagFrame
import Micro6502.Proofs.Footprint
import Micro6502.Proofs.Lockstep

/-! # Phantom bits — what P stores without a flag behind it decides nothing

    Of the byte that P stores, `unused` and `brk` are bits that execution
    never looks at.  The route:

    * processors whose machines are alike take the same turns, and whatever
      they begin keeps them alike, so they are in lock step
      (`lockstep_alike`);
    * a copy of P that goes on the stack has `unused` set, and `brk` for who
      pushed it: software, or an interrupt (`pushesStatus_of_breakBit`);
    * no operation sets `brk` in P itself, so it stays clear if the host
      leaves it (`maintained_clear`). -/

namespace Micro6502

/-- Whether a command sets the break bit of P. -/
def Command.setsBreak {β : Type} : Command β → Bool
  | .setFlag f v => decide (f = .brk) && v
  | .setRegisters r => r.p.get .brk
  | _ => false

namespace Processor

variable {β : Type}

/-! ## Two processors that differ in the phantom bits -/

/-- Two processors are the same but for their journals and for P, which is alike. -/
structure Alike (c c' : Processor β) : Prop where
  machine : c.toMachine.Alike c'.toMachine
  config : c'.config = c.config
  remaining : c'.remaining = c.remaining
  elapsed : c'.elapsed = c.elapsed
  pending : c'.pending = c.pending

namespace Alike

variable {c c' : Processor β}

/-- What is next is the same for processors that are alike. -/
theorem nextTurn (alike : c.Alike c') : c'.nextTurn = c.nextTurn := by
  obtain ⟨q, same, regs⟩ := alike.machine.regs
  have mask : c'.regs.p.get .interruptDisable = c.regs.p.get .interruptDisable := by
    rw [regs]
    exact same .interruptDisable (by decide)
  rw [Processor.nextTurn, Processor.nextTurn, alike.pending, mask]

variable [Bus β]

/-- What is due costs alike processors the same, and leaves them alike. -/
theorem begin (alike : c.Alike c') :
    c'.begin.1 = c.begin.1 ∧ c.begin.2.Alike c'.begin.2 := by
  cases turn : c.nextTurn with
  | service kind =>
      rw [begin_of_service turn, begin_of_service (alike.nextTurn.trans turn),
        Processor.service, Processor.service]
      refine ⟨rfl, ?_, alike.config, alike.remaining, alike.elapsed, ?_⟩
      · show Machine.Alike (Machine.enterService _ c.regs.pc _ _)
          (Machine.enterService _ c'.regs.pc _ _)
        rw [alike.machine.pc]
        exact alike.machine.enterService _ _ _
      · exact congrArg (Pending.release · kind) alike.pending
  | instruction =>
      obtain ⟨opcode, fetched⟩ := alike.machine.fetchOpcode
      obtain ⟨cost, done⟩ := fetched.runDecoded c.config.variant.hasDecimal
        (Opcode.decode c.toMachine.fetchOpcode.1)
      have same : c'.config.variant.hasDecimal = c.config.variant.hasDecimal :=
        congrArg (·.variant.hasDecimal) alike.config
      rw [begin_of_instruction turn, begin_of_instruction (alike.nextTurn.trans turn),
        Processor.instruction, Processor.instruction]
      dsimp only
      rw [opcode, same]
      exact ⟨cost, done, alike.config, alike.remaining, alike.elapsed, alike.pending⟩

end Alike

variable [Bus β]

/-- Processors that differ in the phantom bits stay so, whatever a host does to both. -/
theorem lockstep_alike :
    Lockstep (fun _ => True) (fun _ => True) (Alike : Processor β → Processor β → Prop) where
  remaining := Alike.remaining
  counted left alike :=
    ⟨alike.machine, alike.config, rfl, congrArg (· + 1) alike.elapsed, alike.pending⟩
  begin alike _ := alike.begin
  host := by
    intro c c' cmd off _ alike
    obtain ⟨machine, config, remaining, elapsed, pending⟩ := alike
    cases cmd with
    | tick | advance t | step => exact nomatch off
    | request kind =>
        exact ⟨machine, config, remaining, elapsed, congrArg (Pending.latch · kind) pending⟩
    | reset =>
        obtain ⟨q, -, same⟩ := machine
        have reset : c'.reset.toMachine = c.reset.toMachine := by
          show ((c'.toMachine.mapRegs fun _ => .new).readWord resetVector).2.jump _ = _
          rw [same]
          rfl
        refine ⟨?_, config, rfl, elapsed, rfl⟩
        exact ⟨_, Status.Alike.refl _, reset⟩
    | setRegisters r =>
        obtain ⟨q, -, same⟩ := machine
        refine ⟨⟨_, Status.Alike.refl _, ?_⟩, config, remaining, elapsed, pending⟩
        show (⟨_, c'.toMachine.bus⟩ : Machine β) = _
        rw [same]
        rfl
    | setFlag f v =>
        refine ⟨machine.mapRegs ?_, config, remaining, elapsed, pending⟩
        rintro r _ ⟨q, same, rfl⟩
        exact ⟨_, same.set f v, rfl⟩
    | alterBus f => exact ⟨machine.mapBus f, config, remaining, elapsed, pending⟩

end Processor

/-! ## Copies of P on the stack -/

namespace Machine

open Monitor (Sees)

variable {β : Type}

/-- From `m` to `m'` the last byte written was `copy`, and it is on top of the stack. -/
def LeavesOnTop (m m' : Machine (Monitor β)) (copy : Byte) : Prop :=
  ∃ before after,
    m'.bus.accesses =
      m.bus.accesses ++ (before ++ .write (stackSlot (m'.regs.s + 1)) copy :: after) ∧
    ∀ x ∈ after, x.isRead = true

variable [Bus β]

/-- What is seen before a push does not change what is left on top. -/
theorem LeavesOnTop.after {m m₁ m' : Machine (Monitor β)} {copy : Byte} {as : List Access}
    (left : m₁.LeavesOnTop m' copy) (sees : Sees m.bus m₁.bus as) : m.LeavesOnTop m' copy := by
  obtain ⟨before, after, accesses, reads⟩ := left
  refine ⟨as ++ before, after, ?_, reads⟩
  rw [accesses, sees.seen, List.append_assoc, List.append_assoc]

/-- A push leaves its byte on top. -/
theorem leavesOnTop_push (m : Machine (Monitor β)) (b : Byte) : m.LeavesOnTop (m.push b) b := by
  have top : (m.push b).regs.s + 1 = m.regs.s := BitVec.sub_add_cancel m.regs.s 1
  refine ⟨[], [], ?_, nofun⟩
  rw [top]
  exact (sees_push m b).seen

/-- Entering a service routine leaves P on top, and only reads the vector after that. -/
theorem leavesOnTop_enterService (m : Machine (Monitor β)) (back vector : Word) (software : Bool) :
    m.LeavesOnTop (m.enterService back vector software) (m.regs.p.pushed software) := by
  have top : (m.enterService back vector software).regs.s + 1 = m.regs.s - 2 := by
    rw [regs_enterService, ← sub_one_sub_one]
    exact BitVec.sub_add_cancel (m.regs.s - 1 - 1) 1
  obtain ⟨low, high, entered⟩ := sees_enterService m back vector software
  refine ⟨[.write (stackSlot m.regs.s) (Word.high back),
    .write (stackSlot (m.regs.s - 1)) (Word.low back)],
    [.read vector low, .read (vector + 1) high], ?_, ?_⟩
  · rw [top]
    exact entered.seen
  · exact List.forall_mem_cons.mpr ⟨rfl, List.forall_mem_singleton.mpr rfl⟩

end Machine

namespace Status

/-- The copy of P on the stack has no say from the stored bit of `unused`. -/
theorem pushed_set_unused (p : Status) (v software : Bool) :
    (p.set .unused v).pushed software = p.pushed software := by
  rw [pushed, pushed, bits_set_unused]

end Status

namespace Processor

variable {β : Type} [Bus β]

/-- The break bit of the copy of P that goes on the stack at the next tick at a boundary, if one
does: a hardware interrupt, PHP and BRK push one. -/
def breakBit (c : Processor β) : Option Bool :=
  match c.nextTurn with
  | .service _ => some false
  | .instruction =>
      match (Opcode.decode (Bus.read c.bus c.regs.pc).1).operation with
      | .php | .brk => some true
      | _ => none

/-- The next tick leaves a copy of P on the stack, with `unused` set and `software` for `brk`. -/
def PushesStatus (c : Processor (Monitor β)) (software : Bool) : Prop :=
  ∃ copy, c.toMachine.LeavesOnTop c.tick.toMachine copy ∧
    copy.getLsbD Flag.unused.bit = true ∧ copy.getLsbD Flag.brk.bit = software ∧
    ∀ f, f ≠ .brk → copy.getLsbD f.bit = c.regs.p.get f

/-- A tick that leaves on top what P pushes has pushed it with `unused` set and the flags as they
    read. -/
theorem pushesStatus_of_pushed {c : Processor (Monitor β)} {software : Bool}
    (left : c.toMachine.LeavesOnTop c.tick.toMachine (c.regs.p.pushed software)) :
    c.PushesStatus software := by
  have others : ∀ f, f ≠ .brk → (c.regs.p.pushed software).getLsbD f.bit = c.regs.p.get f := by
    intro f flag
    rw [Status.getLsbD_pushed, if_neg flag]
  refine ⟨_, left, ?_, ?_, others⟩
  · rw [others .unused (by decide), Status.get_unused]
  · rw [Status.getLsbD_pushed, if_pos rfl]

/-- What an instruction leaves on top of the stack, once its operand is found, it leaves in all. -/
theorem leavesOnTop_tick {c : Processor (Monitor β)} {copy : Byte} (boundary : c.remaining = 0)
    (turn : c.nextTurn = .instruction) {d : Descriptor}
    (due : Opcode.decode c.toMachine.fetchOpcode.1 = d)
    (left : ∀ m : Machine (Monitor β), m.regs.p = c.regs.p.set .unused true → ∀ o,
      m.LeavesOnTop (m.execute c.config.variant.hasDecimal d.operation o).2 copy) :
    c.toMachine.LeavesOnTop c.tick.toMachine copy := by
  obtain ⟨f, reads, -⟩ := Machine.sees_resolve d.mode c.toMachine.fetchOpcode.2
  rw [tick_of_boundary boundary, begin_of_instruction turn]
  subst due
  refine Machine.LeavesOnTop.after ?_ ((Machine.sees_fetch c.toMachine).trans reads)
  exact left _ (Machine.p_resolve _ _) _

/-- A tick that pushes P, for whatever reason, marks it as that reason says. -/
theorem pushesStatus_of_breakBit {c : Processor (Monitor β)} {software : Bool}
    (boundary : c.remaining = 0) (pushes : c.breakBit = some software) :
    c.PushesStatus software := by
  apply pushesStatus_of_pushed
  rw [breakBit] at pushes
  cases turn : c.nextTurn with
  | service kind =>
      rw [turn] at pushes
      obtain rfl : false = software := Option.some.inj pushes
      rw [tick_of_boundary boundary, begin_of_service turn]
      exact Machine.leavesOnTop_enterService c.toMachine c.regs.pc kind.vector false
  | instruction =>
      rw [turn] at pushes
      generalize due : Opcode.decode (Bus.read c.bus c.regs.pc).1 = d at pushes
      refine leavesOnTop_tick boundary turn due ?_
      -- what comes before the push leaves P as it is pushed
      intro m unused o
      have copy : c.regs.p.pushed software = m.regs.p.pushed software := by
        rw [unused, Status.pushed_set_unused]
      rw [copy]
      dsimp only at pushes
      split at pushes
      case h_1 php =>
          obtain rfl : true = software := Option.some.inj pushes
          rw [php]
          exact Machine.leavesOnTop_push m _
      case h_2 brk =>
          obtain rfl : true = software := Option.some.inj pushes
          rw [brk]
          exact Machine.leavesOnTop_enterService m _ irqVector true
      case h_3 => exact nomatch pushes

/-! ## The break bit of P itself -/

/-- No operation sets the break bit of P, not even one that pulls it. -/
theorem clear_execute {m : Machine β} (clear : m.regs.p.get .brk = false) (bcd : Bool)
    (op : Operation) (o : Operand) : (m.execute bcd op o).2.regs.p.get .brk = false := by
  have same := Machine.sameBut_execute bcd op o m .brk
  have pulled : ∀ b, (Status.pulled b).get .brk = false := fun b => Status.get_pulled b .brk
  cases op with
  | plp => exact pulled _
  | rti => exact pulled _
  | _ =>
      rw [Status.get_eq, same (by decide), ← Status.get_eq]
      exact clear

/-- `brk` stays clear in P if the host leaves it so. -/
theorem maintained_clear :
    Maintained (fun cmd : Command β => cmd.setsBreak = false)
      fun c => c.regs.p.get .brk = false where
  counted _ clear := clear
  begin := by
    intro c clear
    cases turn : c.nextTurn with
    | service kind =>
        rw [begin_of_service turn]
        exact (Status.get_set_of_ne c.regs.p true (by decide)).trans clear
    | instruction =>
        rw [begin_of_instruction turn]
        refine clear_execute ?_ _ _ _
        rw [Machine.p_resolve]
        exact (Status.get_set_of_ne c.regs.p true (by decide)).trans clear
  host := by
    intro c cmd off may clear
    cases cmd with
    | tick | advance t | step => exact nomatch off
    | request kind | alterBus f => exact clear
    | reset =>
        show Status.reset.get .brk = false
        decide
    | setRegisters r =>
        show (Status.ofByte r.p.bits).bits.getLsbD Flag.brk.bit = false
        rw [Status.bits_ofByte_bits]
        exact may
    | setFlag f v =>
        show (c.regs.p.set f v).get .brk = false
        rw [Status.get_set]
        split
        case isTrue flag =>
            subst flag
            exact Bool.or_eq_false_iff.mpr ⟨may, rfl⟩
        case isFalse => exact clear

/-- **Phantom bits are inert.**  Two processors that are the same but for the bits of P without a
    flag stay so under every run of commands: each command takes both as long, and at the end their
    registers, flags, buses with all accesses made, requests and counters are the same.  Every copy
    of P that goes on the stack has `unused` set, and `brk` set if software pushed it and clear if an
    interrupt did.  From power-on, with no command that sets `brk`, P reads with `unused` set and
    `brk` clear at the end of every run. -/
theorem phantom_bits_are_inert {c c' : Processor (Monitor β)} (alike : c.Alike c')
    (cmds : List (Command (Monitor β))) :
    (c'.costs cmds = c.costs cmds ∧ (c.applyAll cmds).Alike (c'.applyAll cmds)) ∧
      (∀ (d : Processor (Monitor β)) (software : Bool), d.remaining = 0 →
        d.breakBit = some software → d.PushesStatus software) ∧
      ∀ (bus : Monitor β) (config : Config), (∀ cmd ∈ cmds, cmd.setsBreak = false) →
        let p := ((powerOn bus config).applyAll cmds).regs.p
        p.bits.getLsbD Flag.unused.bit = true ∧ p.bits.getLsbD Flag.brk.bit = false := by
  refine ⟨?_, ?_, ?_⟩
  · exact lockstep_alike.applyAll cmds (fun _ _ => trivial) alike fun _ _ => trivial
  · intro d software boundary pushes
    exact pushesStatus_of_breakBit boundary pushes
  · intro bus config unset p
    refine ⟨Status.get_unused p, ?_⟩
    have start : (powerOn bus config).regs.p.get .brk = false := by
      show Status.reset.get .brk = false
      decide
    exact maintained_clear.applyAll cmds unset start

/-- A processor at a PHP, after its reset. -/
def atStatusPush : Processor (Monitor Ram) :=
  powerOn (.attach ((Ram.blank 1).load 0 [0x08#8])) {}

/-- The same with the other values stored in both bits. -/
def atMarkedStatusPush : Processor (Monitor Ram) :=
  (atStatusPush.setFlag .brk true).setFlag .unused false

/-- A PHP and an interrupt push the copies that they push without the marks. -/
theorem phantom_bits_are_inert_marked :
    let cmds : List (Command (Monitor Ram)) := [.step, .request .nmi, .step]
    atStatusPush.regs.p.raw = 0x24#8 ∧ atMarkedStatusPush.regs.p.raw = 0x14#8 ∧
      atStatusPush.Alike atMarkedStatusPush ∧
      atMarkedStatusPush.costs cmds = atStatusPush.costs cmds ∧ atStatusPush.costs cmds = [3, 0, 7] ∧
      (atStatusPush.applyAll cmds).Alike (atMarkedStatusPush.applyAll cmds) ∧
      (atMarkedStatusPush.applyAll cmds).bus.accesses = atStatusPush.bus.accesses ++
        [.read 0x0000#16 0x08#8, .write 0x01FD#16 0x34#8, .write 0x01FC#16 0x00#8,
          .write 0x01FB#16 0x01#8, .write 0x01FA#16 0x24#8, .read 0xFFFA#16 0x00#8,
          .read 0xFFFB#16 0x00#8] ∧
      atMarkedStatusPush.breakBit = some true ∧ atMarkedStatusPush.PushesStatus true ∧
      (atStatusPush.applyAll cmds).regs.p.bits.getLsbD Flag.brk.bit = false := by
  intro cmds
  have alike : atStatusPush.Alike atMarkedStatusPush := by
    refine ⟨⟨⟨0x14#8⟩, ?_, rfl⟩, rfl, rfl, rfl, rfl⟩
    intro f flag
    cases f with
    | brk => exact absurd rfl flag
    | _ => decide
  have unset : ∀ cmd ∈ cmds, cmd.setsBreak = false :=
    List.forall_mem_cons.mpr ⟨rfl, List.forall_mem_cons.mpr
      ⟨rfl, List.forall_mem_singleton.mpr rfl⟩⟩
  have pushes : atMarkedStatusPush.breakBit = some true := by decide
  obtain ⟨⟨costs, after⟩, copies, clear⟩ := phantom_bits_are_inert alike cmds
  obtain ⟨-, brk⟩ := clear (.attach ((Ram.blank 1).load 0 [0x08#8])) {} unset
  exact ⟨rfl, rfl, alike, costs, by decide, after, by decide, pushes,
    copies atMarkedStatusPush true rfl pushes, brk⟩

end Processor

end Micro6502
