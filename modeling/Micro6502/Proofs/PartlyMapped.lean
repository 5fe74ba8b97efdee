import Micro6502.Proofs.CutMemory
import Micro6502.Proofs.FreshStart

/-! # Partly mapped memory — a full one that is zero above

    A processor on memory mapped up to some address goes through what it
    would go through on memory mapped in full and zero from there on, until
    the latter keeps something else there.  The route:

    * what is begun at a boundary is the same with the zeros cut off
      (`CutFrom.begin`), so both processors are in lock step
      (`lockstep_cutFrom`) while no more than zeros are written there;
    * all that a run begins is in the list of its accesses
      (`maintained_seen`), so the list of either run tells
      (`onlyZerosFrom_of_part`). -/

namespace Micro6502

open Access (OnlyZerosFrom)

/-- Whether a command changes the bus behind the processor's back. -/
def Command.altersBus {β : Type} : Command β → Bool
  | .alterBus _ => true
  | _ => false

/-- A monitor does not hide which commands change the bus. -/
theorem Command.altersBus_behindMonitor {β : Type} (cmd : Command β) :
    cmd.behindMonitor.altersBus = cmd.altersBus := by
  cases cmd <;> rfl

namespace Processor

/-! ## The accesses of a run -/

section

variable {β : Type} [Bus β]

/-- A monitor sees all the accesses of what is due. -/
theorem sees_begin (c : Processor (Monitor β)) : ∃ as, Monitor.Sees c.bus c.begin.2.bus as := by
  cases turn : c.nextTurn with
  | service kind =>
      rw [begin_of_service turn]
      obtain ⟨low, high, sees⟩ :=
        Machine.sees_enterService c.toMachine c.regs.pc kind.vector false
      exact ⟨_, sees⟩
  | instruction =>
      rw [begin_of_instruction turn]
      obtain ⟨f, g, sees⟩ := Machine.sees_runDecoded c.config.variant.hasDecimal c.toMachine
      exact ⟨_, sees⟩

/-- What a monitor saw stays seen, unless the host changes the monitor. -/
theorem maintained_seen (as : List Access) :
    Maintained (fun cmd => cmd.altersBus = false)
      fun c : Processor (Monitor β) => as <+: c.bus.accesses where
  counted _ seen := seen
  begin := by
    intro c seen
    obtain ⟨more, sees⟩ := sees_begin c
    exact seen.trans ⟨more, sees.seen.symm⟩
  host := by
    intro c cmd off may seen
    cases cmd with
    | tick | advance t | step => exact nomatch off
    | alterBus f => exact nomatch may
    | reset =>
        have sees := Machine.sees_readPair (c.toMachine.mapRegs fun _ => .new) resetVector
          (resetVector + 1)
        exact seen.trans ⟨_, sees.seen.symm⟩
    | request kind | setRegisters r | setFlag f v => exact seen

/-- The accesses that a run makes, in order. -/
def accessesIn (c : Processor β) (cmds : List (Command β)) : List Access :=
  (c.monitored.applyAll (cmds.map Command.behindMonitor)).bus.accesses

/-- Commands cost the same without the monitor. -/
theorem costs_behindMonitor (c : Processor (Monitor β)) (cmds : List (Command β)) :
    c.costs (cmds.map Command.behindMonitor) = c.unmonitored.costs cmds := by
  induction cmds generalizing c with
  | nil => rfl
  | cons cmd cmds ih =>
      rw [List.map_cons, costs, costs, ih, ticksOf_behindMonitor, unmonitored_apply]

end

/-! ## Two processors, one with the zeros cut off -/

variable {n : Nat} {c c' : Processor (Monitor Ram)}

/-- Two processors are the same but for their journals and what is mapped from `n` on: all of it
    for the first, where it is zero, and nothing for the second. -/
structure CutFrom (n : Nat) (c c' : Processor (Monitor Ram)) : Prop where
  machine : c'.toMachine = c.toMachine.cut n
  zero : c.bus.behind.ZeroFrom n
  config : c'.config = c.config
  remaining : c'.remaining = c.remaining
  elapsed : c'.elapsed = c.elapsed
  pending : c'.pending = c.pending

/-- A cut of the memory does not change what is next. -/
theorem CutFrom.nextTurn (cut : CutFrom n c c') : c'.nextTurn = c.nextTurn := by
  rw [Processor.nextTurn, Processor.nextTurn, cut.pending, cut.machine]
  rfl

/-- What is begun is the same, while zeros alone are written from `n` on. -/
theorem CutFrom.begin (cut : CutFrom n c c')
    (spares : Machine.SparesFrom n c.begin.2.toMachine c'.begin.2.toMachine) :
    c'.begin.1 = c.begin.1 ∧ CutFrom n c.begin.2 c'.begin.2 := by
  obtain ⟨as, sees⟩ := sees_begin c
  cases turn : c.nextTurn with
  | service kind =>
      rw [begin_of_service turn] at sees
      rw [begin_of_service turn, begin_of_service (cut.nextTurn.trans turn), service, service]
        at spares ⊢
      dsimp only at spares ⊢
      rw [cut.machine] at spares ⊢
      -- the pushes put zeros in the place of zeros, so the cut is one of the same memory still
      have entered := Machine.enterService_cut cut.zero spares
      rw [show (c.toMachine.cut n).regs.pc = c.regs.pc from rfl, entered] at spares
      exact ⟨rfl, entered, sees.zeroFrom spares.onlyZeros cut.zero, cut.config, cut.remaining,
        cut.elapsed, congrArg (Pending.release · kind) cut.pending⟩
  | instruction =>
      rw [begin_of_instruction turn] at sees
      rw [begin_of_instruction turn, begin_of_instruction (cut.nextTurn.trans turn), instruction,
        instruction] at spares ⊢
      dsimp only at spares ⊢
      rw [cut.machine, cut.config, Machine.fetchOpcode_cut cut.zero] at spares ⊢
      dsimp only at spares ⊢
      have ran := Machine.runDecoded_cut (m := c.toMachine.fetchOpcode.2) cut.zero spares
      rw [ran] at spares ⊢
      exact ⟨rfl, rfl, sees.zeroFrom spares.onlyZeros cut.zero, rfl, cut.remaining, cut.elapsed,
        cut.pending⟩

/-- Commands of the clock and of a host that leaves the bus alone keep the zeros cut off, while
    zeros alone are written from `n` on. -/
theorem lockstep_cutFrom (n : Nat) :
    Lockstep (fun s => OnlyZerosFrom n s.begin.2.bus.accesses) (fun cmd => cmd.altersBus = false)
      (CutFrom n) where
  remaining := CutFrom.remaining
  counted left cut :=
    ⟨cut.machine, cut.zero, cut.config, rfl, congrArg (· + 1) cut.elapsed, cut.pending⟩
  begin cut zeros := cut.begin (.inl zeros)
  host := by
    intro c c' cmd off may cut
    obtain ⟨machine, zero, config, remaining, elapsed, pending⟩ := cut
    cases cmd with
    | tick | advance t | step => exact nomatch off
    | alterBus f => exact nomatch may
    | request kind =>
        exact ⟨machine, zero, config, remaining, elapsed, congrArg (Pending.latch · kind) pending⟩
    | reset =>
        have start := Machine.readPair_cut (m := c.toMachine.mapRegs fun _ => .new) zero resetVector
          (resetVector + 1)
        refine ⟨?_, zero, config, rfl, elapsed, rfl⟩
        show ((c'.toMachine.mapRegs fun _ => .new).readWord resetVector).2.jump _ = _
        rw [machine]
        exact congrArg (fun r : Word × Machine (Monitor Ram) => r.2.jump r.1) start
    | setRegisters r =>
        refine ⟨?_, zero, config, remaining, elapsed, pending⟩
        exact congrArg (Machine.mapRegs fun _ => r.mapStatus fun p => .ofByte p.bits) machine
    | setFlag f v =>
        refine ⟨?_, zero, config, remaining, elapsed, pending⟩
        exact congrArg (Machine.mapRegs fun r => r.mapStatus (Status.set · f v)) machine

/-- A cut of the memory does not change what was seen. -/
theorem CutFrom.accesses (cut : CutFrom n c c') : c'.bus.accesses = c.bus.accesses := by
  show c'.toMachine.bus.accesses = _
  rw [cut.machine]
  rfl

/-- Over a run each command takes both processors as long, if on one of the two memories the run
    writes zeros alone from `n` on. -/
theorem CutFrom.applyAll (cut : CutFrom n c c') {cmds : List (Command (Monitor Ram))}
    (own : ∀ cmd ∈ cmds, cmd.altersBus = false)
    (spares : Machine.SparesFrom n (c.applyAll cmds).toMachine (c'.applyAll cmds).toMachine) :
    c'.costs cmds = c.costs cmds ∧ CutFrom n (c.applyAll cmds) (c'.applyAll cmds) := by
  -- what was begun in a run made no access that is not in the list at the end
  have begun : ∀ {d s : Processor (Monitor Ram)}, OnlyZerosFrom n (d.applyAll cmds).bus.accesses →
      .begun s ∈ d.ledger cmds → OnlyZerosFrom n s.begin.2.bus.accesses := by
    intro d s zeros begun a b written
    have seen := (maintained_seen s.begin.2.bus.accesses).applyAll_of_begun cmds own begun
      (List.prefix_refl _)
    exact zeros a b (seen.subset written)
  rcases spares with whole | part
  · exact (lockstep_cutFrom n).applyAll cmds own cut fun s => begun whole
  · have sim : Lockstep (fun s => OnlyZerosFrom n s.begin.2.bus.accesses)
        (fun cmd => cmd.altersBus = false) (fun c' c => CutFrom n c c') :=
      (lockstep_cutFrom n).flip fun cut zeros => cut.begin (.inr zeros)
    obtain ⟨costs, final⟩ := sim.applyAll cmds own cut fun s => begun part
    exact ⟨costs.symm, final⟩

/-! ## Memory mapped in full, and in part -/

/-- Two processors are the same, but the memory of the first is mapped in full, where it is zero
    from `m` on, and that of the second below `m` alone, where it has the same bytes. -/
structure MappedBelow (m : Nat) (whole part : Processor Ram) : Prop where
  regs : part.regs = whole.regs
  config : part.config = whole.config
  remaining : part.remaining = whole.remaining
  elapsed : part.elapsed = whole.elapsed
  pending : part.pending = whole.pending
  full : whole.bus.mapped = 0x10000
  mapped : part.bus.mapped = min m 0x10000
  below : ∀ a : Word, a.toNat < m → part.bus.peek a = whole.bus.peek a
  above : ∀ a : Word, m ≤ a.toNat → whole.bus.peek a = 0

variable {m : Nat} {whole part : Processor Ram}

/-- Memory that is mapped below an address alone is a cut of memory that is mapped in full and zero
    from there on. -/
theorem MappedBelow.cutFrom (h : MappedBelow m whole part) :
    CutFrom m whole.monitored part.monitored := by
  have zero : whole.bus.ZeroFrom m := ⟨h.full, h.above⟩
  have bus : part.bus = whole.bus.cut m := by
    refine Ram.eq_of_peek ?_ fun a => ?_
    · rw [h.mapped, Ram.mapped_cut, h.full]
    · rw [Ram.peek_cut]
      split
      case isTrue here => exact h.below a here
      case isFalse beyond =>
          refine Ram.peek_of_mapped_le ?_
          rw [h.mapped]
          omega
  refine ⟨?_, zero, h.config, h.remaining, h.elapsed, h.pending⟩
  show (⟨part.regs, .attach part.bus⟩ : Machine (Monitor Ram)) = _
  rw [h.regs, bus]
  rfl

/-- A cut of a full memory that is zero from there on is mapped below the cut alone. -/
theorem CutFrom.mappedBelow {c c' : Processor (Monitor Ram)} (cut : CutFrom m c c') :
    MappedBelow m c.unmonitored c'.unmonitored := by
  have bus : c'.unmonitored.bus = c.bus.behind.cut m := by
    show c'.toMachine.bus.behind = _
    rw [cut.machine]
    rfl
  have regs : c'.regs = c.regs := by
    rw [cut.machine]
    rfl
  refine ⟨regs, cut.config, cut.remaining, cut.elapsed, cut.pending, cut.zero.full, ?_, ?_,
    cut.zero.zero⟩
  · rw [bus, Ram.mapped_cut, cut.zero.full]
  · intro a here
    rw [bus, Ram.peek_cut, if_pos here]
    rfl

variable {cmds : List (Command Ram)} (start : MappedBelow m whole part)
  (own : ∀ cmd ∈ cmds, cmd.altersBus = false)

include start own

/-- Processors on the two memories make the same accesses at the same cost, and stay related, as
    long as one of them writes only zeros where memory is not mapped. -/
theorem MappedBelow.applyAll
    (spares : OnlyZerosFrom m (whole.accessesIn cmds) ∨ OnlyZerosFrom m (part.accessesIn cmds)) :
    part.accessesIn cmds = whole.accessesIn cmds ∧ part.costs cmds = whole.costs cmds ∧
      MappedBelow m (whole.applyAll cmds) (part.applyAll cmds) := by
  have watched : ∀ cmd ∈ cmds.map Command.behindMonitor, cmd.altersBus = false := by
    intro cmd mem
    obtain ⟨first, given, rfl⟩ := List.mem_map.mp mem
    rw [Command.altersBus_behindMonitor]
    exact own first given
  obtain ⟨costs, final⟩ := start.cutFrom.applyAll watched spares
  have ends := final.mappedBelow
  rw [costs_behindMonitor, costs_behindMonitor] at costs
  rw [unmonitored_applyAll, unmonitored_applyAll] at ends
  exact ⟨final.accesses, costs, ends⟩

/-- Whether a run writes zeros alone from `m` on can be told from the run on the part. -/
theorem MappedBelow.onlyZerosFrom_of_part (zeros : OnlyZerosFrom m (part.accessesIn cmds)) :
    OnlyZerosFrom m (whole.accessesIn cmds) := by
  rw [← (start.applyAll own (.inr zeros)).1]
  exact zeros

/-- **A mapped part is enough.**  Take memory mapped in full that is zero from `m` on, and memory
    mapped below `m` alone with the same bytes there.  Under every run of commands, as long as the
    one on full memory writes zeros alone from `m` on, both processors make the same accesses, each
    command takes both as long, and at the end they are the same in registers, requests and
    counters, with memories that are still so.  Every prefix of a run being a run, this holds at
    every point. -/
theorem mapped_part_is_enough (zeros : OnlyZerosFrom m (whole.accessesIn cmds)) :
    part.accessesIn cmds = whole.accessesIn cmds ∧ part.costs cmds = whole.costs cmds ∧
      MappedBelow m (whole.applyAll cmds) (part.applyAll cmds) :=
  start.applyAll own (.inl zeros)

omit start own

/-- A processor that was not reset yet, on memory with a program at address zero: PLA, PHA,
JMP $8000. -/
def unstarted (bus : Ram) : Processor Ram :=
  ⟨⟨.new, bus.load 0 [0x68#8, 0x48#8, 0x4C#8, 0x00#8, 0x80#8]⟩, {}, 0, 0, {}, []⟩

-- The values are named: `rfl` on two sides that differ in memory alone compares all the cells.
/-- A memory of zeros, mapped in part or in full, holds the same program. -/
theorem mappedBelow_unstarted {m : Nat} (fits : 5 ≤ m) :
    MappedBelow m (unstarted .full) (unstarted (.blank m)) where
  regs := Eq.refl Registers.new
  config := Eq.refl ({} : Config)
  remaining := Eq.refl 0
  elapsed := Eq.refl 0
  pending := Eq.refl ({} : Pending)
  full := (Ram.mapped_load ..).trans (Ram.mapped_blank 0x10000)
  mapped := (Ram.mapped_load ..).trans (Ram.mapped_blank m)
  below := by
    intro a below
    rw [unstarted, unstarted, Ram.peek_load, Ram.peek_load, Ram.full, Ram.peek_blank,
      Ram.peek_blank, Ram.mapped_blank, Ram.mapped_blank]
    simp only [show a.toNat < min m 0x10000 by omega, show a.toNat < min 0x10000 0x10000 by omega]
  above := by
    intro a above
    have past : ¬((0#16).toNat ≤ a.toNat ∧ a.toNat < (0#16).toNat + 5 ∧
        a.toNat < Ram.full.mapped) := by
      rw [show (0#16).toNat = 0 from rfl]
      omega
    rw [unstarted, Ram.peek_load]
    exact (if_neg past).trans (Ram.peek_blank ..)

/-- What the program does where the vectors, the top of the stack and the address it jumps to hold
zeros. -/
def straddling : List Access :=
  [.read 0xFFFC#16 0x00#8, .read 0xFFFD#16 0x00#8, .read 0x0000#16 0x68#8, .read 0x01FE#16 0x00#8,
    .read 0x0001#16 0x48#8, .write 0x01FE#16 0x00#8, .read 0x0002#16 0x4C#8,
    .read 0x0003#16 0x00#8, .read 0x0004#16 0x80#8, .read 0x8000#16 0x00#8,
    .write 0x01FD#16 0x80#8, .write 0x01FC#16 0x02#8, .write 0x01FB#16 0x36#8,
    .read 0xFFFE#16 0x00#8, .read 0xFFFF#16 0x00#8]

set_option maxRecDepth 8000 in
/-- With memory mapped below $01FE: a byte is pulled from the stack and pushed again where nothing
    is mapped, and a break is run there, through a vector that is not mapped either. -/
theorem mapped_part_is_enough_break :
    let whole := unstarted .full
    let part := unstarted (.blank 0x1FE)
    let cmds : List (Command Ram) := [.reset, .step, .step, .step, .step]
    MappedBelow 0x1FE whole part ∧ (∀ cmd ∈ cmds, cmd.altersBus = false) ∧
      OnlyZerosFrom 0x1FE (whole.accessesIn cmds) ∧
      part.accessesIn cmds = whole.accessesIn cmds ∧ part.costs cmds = whole.costs cmds ∧
      MappedBelow 0x1FE (whole.applyAll cmds) (part.applyAll cmds) ∧
      whole.accessesIn cmds = straddling ∧ whole.costs cmds = [0, 4, 3, 3, 7] ∧
      (whole.applyAll cmds).bus.peek 0x01FD#16 = 0x80#8 := by
  intro whole part cmds
  have start : MappedBelow 0x1FE whole part := mappedBelow_unstarted (by decide)
  have own : ∀ cmd ∈ cmds, cmd.altersBus = false := by decide
  have accesses : part.accessesIn cmds = straddling := by decide +kernel
  have costs : part.costs cmds = [0, 4, 3, 3, 7] := by decide +kernel
  have pushed : (part.applyAll cmds).bus.peek 0x01FD#16 = 0x80#8 := by decide +kernel
  have zeros : OnlyZerosFrom 0x1FE (whole.accessesIn cmds) := by
    refine start.onlyZerosFrom_of_part own ?_
    rw [accesses]
    intro a b written above
    simp only [straddling, List.mem_cons, Access.write.injEq, reduceCtorEq, false_or, or_false,
      List.not_mem_nil] at written
    obtain ⟨rfl, rfl⟩ | ⟨rfl, rfl⟩ | ⟨rfl, rfl⟩ | ⟨rfl, rfl⟩ := written
    · rfl
    all_goals exact absurd above (by decide)
  obtain ⟨same, sameCosts, ends⟩ := mapped_part_is_enough start own zeros
  exact ⟨start, own, zeros, same, sameCosts, ends, same.symm.trans accesses,
    sameCosts.symm.trans costs, (ends.below _ (by decide)).symm.trans pushed⟩

end Processor

end Micro6502
