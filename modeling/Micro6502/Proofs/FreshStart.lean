import Micro6502.Bus.Monitor
import Micro6502.Bus.Ram
import Micro6502.Processor.Observe
import Micro6502.Proofs.Lockstep
import Micro6502.Proofs.Monitored

/-! # A fresh start — a reset forgets all but the count of ticks

    A reset takes nothing over from before it but the bus, the configuration
    and the count of ticks; and the count is looked at by nothing but itself
    and the log.  The route:

    * processors that are the same but for time begin the same, and a host
      keeps them so (`lockstep_sameButTime`);
    * so over every run they take as long, stay the same but for time, and
      show the same to whoever does not ask for the count (`keepsPace`);
    * two resets on the same bus leave such processors, whatever went before
      them (`sameButTime_reset`), and power-on is such a reset. -/

namespace Micro6502.Processor

variable {β : Type}

/-- Two processors are the same but for their journals and their counts of ticks, which are as far
    apart as `n` and `n'`. -/
structure SameButTime (n n' : Nat) (c c' : Processor β) : Prop where
  machine : c'.toMachine = c.toMachine
  config : c'.config = c.config
  remaining : c'.remaining = c.remaining
  pending : c'.pending = c.pending
  elapsed : c'.elapsed + n = c.elapsed + n'

/-- Whoever does not look at the count of ticks sees the same. -/
theorem SameButTime.query {n n' : Nat} {c c' : Processor β} (same : SameButTime n n' c c')
    {path : String} (other : path ≠ "cycle") : c'.query path = c.query path := by
  have regs : c'.regs = c.regs := congrArg Machine.regs same.machine
  unfold Processor.query
  split
  case h_15 => exact absurd rfl other
  all_goals simp only [regs, same.remaining, same.pending]

variable [Bus β]

/-- Processors that differ in time alone have the same thing due, at the same cost. -/
theorem SameButTime.begin {n n' : Nat} {c c' : Processor β} (same : SameButTime n n' c c') :
    c'.begin.1 = c.begin.1 ∧ SameButTime n n' c.begin.2 c'.begin.2 := by
  obtain ⟨m, config, remaining, elapsed, pending, journal⟩ := c
  obtain ⟨m', config', remaining', elapsed', pending', journal'⟩ := c'
  obtain ⟨rfl, rfl, rfl, rfl, apart⟩ := same
  generalize early : (⟨m', config', remaining', elapsed, pending', journal⟩ : Processor β) = c
  generalize late : (⟨m', config', remaining', elapsed', pending', journal'⟩ : Processor β) = c'
  have together : c'.nextTurn = c.nextTurn := by
    rw [← early, ← late]
    rfl
  cases turn : c.nextTurn with
  | service kind =>
      rw [begin_of_service turn, begin_of_service (together.trans turn), ← early, ← late]
      exact ⟨rfl, rfl, rfl, rfl, rfl, apart⟩
  | instruction =>
      rw [begin_of_instruction turn, begin_of_instruction (together.trans turn), ← early, ← late]
      exact ⟨rfl, rfl, rfl, rfl, rfl, apart⟩

/-- The machine after a reset is a matter of the bus before it. -/
theorem toMachine_reset {c c' : Processor β} (bus : c'.bus = c.bus) :
    c'.reset.toMachine = c.reset.toMachine := by
  have restarted (d : Processor β) : d.reset.toMachine =
      ((⟨.new, d.bus⟩ : Machine β).readWord resetVector).2.jump
        ((⟨.new, d.bus⟩ : Machine β).readWord resetVector).1 := rfl
  rw [restarted, restarted, bus]

/-- Processors that are the same but for time stay so, whatever a host does to both. -/
theorem lockstep_sameButTime (n n' : Nat) :
    Lockstep (fun _ => True) (fun _ => True)
      (SameButTime n n' : Processor β → Processor β → Prop) where
  remaining := SameButTime.remaining
  counted left same :=
    ⟨same.machine, same.config, rfl, same.pending, by
      have apart := same.elapsed
      simp only [counted]
      omega⟩
  begin same _ := same.begin
  host := by
    rintro c c' cmd off - ⟨machine, config, remaining, pending, elapsed⟩
    cases cmd with
    | tick | advance t | step => exact nomatch off
    | request kind =>
        exact ⟨machine, config, remaining, congrArg (Pending.latch · kind) pending, elapsed⟩
    | reset =>
        exact ⟨toMachine_reset (congrArg Machine.bus machine), config, rfl, rfl, elapsed⟩
    | setRegisters r =>
        refine ⟨?_, config, remaining, pending, elapsed⟩
        exact congrArg (Machine.mapRegs fun _ => r.mapStatus fun p => .ofByte p.bits) machine
    | setFlag f v =>
        refine ⟨?_, config, remaining, pending, elapsed⟩
        exact congrArg (Machine.mapRegs fun r => r.mapStatus (Status.set · f v)) machine
    | alterBus f => exact ⟨congrArg (Machine.mapBus f) machine, config, remaining, pending, elapsed⟩

/-- Under every run of commands the second processor takes as long over each as the first, and comes
    to the same registers, bus, latches and countdown, with the count of ticks as far off as it was:
    no query tells the two apart but one for that count. -/
def KeepsPace (n n' : Nat) (c c' : Processor β) : Prop :=
  ∀ cmds : List (Command β),
    c'.costs cmds = c.costs cmds ∧ SameButTime n n' (c.applyAll cmds) (c'.applyAll cmds) ∧
      ∀ path, path ≠ "cycle" → (c'.applyAll cmds).query path = (c.applyAll cmds).query path

/-- Processors that differ in time alone keep pace under all commands. -/
theorem SameButTime.keepsPace {n n' : Nat} {c c' : Processor β} (same : SameButTime n n' c c') :
    KeepsPace n n' c c' := by
  intro cmds
  obtain ⟨costs, final⟩ := (lockstep_sameButTime n n').applyAll cmds (fun _ _ => trivial) same
    fun _ _ => trivial
  exact ⟨costs, final, fun _ other => final.query other⟩

/-- Resets on the same bus differ in time alone, whatever went before them. -/
theorem sameButTime_reset (c c' : Processor β) (config : c'.config = c.config)
    (bus : c'.bus = c.bus) : SameButTime c.elapsed c'.elapsed c.reset c'.reset :=
  ⟨toMachine_reset bus, config, rfl, rfl, Nat.add_comm ..⟩

/-- The processor with a monitor put on its bus. -/
def monitored (c : Processor β) : Processor (Monitor β) :=
  ⟨⟨c.regs, .attach c.bus⟩, c.config, c.remaining, c.elapsed, c.pending, c.journal⟩

/-- The processor is at the word in the reset vector, with the registers of a reset, nothing latched
    and nothing to count down.  The two bytes of that word, low byte first, are all that was read
    since the bus was `bus`, and nothing was written; the count of ticks is `ticks`. -/
structure StartedOn (bus : β) (ticks : Nat) (c : Processor (Monitor β)) : Prop where
  vector : ∃ low high, c.regs = ⟨0, 0, 0, 0xFD#8, Word.ofBytes low high, ⟨0x24#8⟩⟩ ∧
    Monitor.Sees (.attach bus) c.bus [.read 0xFFFC#16 low, .read 0xFFFD#16 high]
  remaining : c.remaining = 0
  pending : c.pending = ⟨false, false⟩
  elapsed : c.elapsed = ticks

/-- A reset starts a processor as the rules for a fresh start say. -/
theorem startedOn_reset (c : Processor β) : StartedOn c.bus c.elapsed c.monitored.reset where
  vector := by
    have low := Monitor.sees_read (.attach c.bus) resetVector
    have high := Monitor.sees_read (Bus.read (Monitor.attach c.bus) resetVector).2 (resetVector + 1)
    exact ⟨_, _, rfl, low.trans high⟩
  remaining := rfl
  pending := rfl
  elapsed := rfl

/-- **A reset erases all history but the count of ticks.**  On the same bus and with the same
    configuration a reset, at a boundary or in the middle of an instruction, starts any two
    processors alike: they keep pace from then on, and with one at power-on too. -/
theorem reset_erases_history (c c' : Processor β) (config : c'.config = c.config)
    (bus : c'.bus = c.bus) :
    let fresh := c.monitored.reset
    let fresh' := c'.monitored.reset
    StartedOn c.bus c.elapsed fresh ∧ StartedOn c.bus c'.elapsed fresh' ∧
      KeepsPace c.elapsed c'.elapsed fresh fresh' ∧
      KeepsPace c.elapsed 0 fresh (powerOn (.attach c.bus) c.config) := by
  have attached : c'.monitored.bus = c.monitored.bus := congrArg Monitor.attach bus
  have start' := startedOn_reset c'
  rw [bus] at start'
  have alike : SameButTime c.elapsed c'.elapsed c.monitored.reset c'.monitored.reset :=
    sameButTime_reset c.monitored c'.monitored config attached
  -- power-on is the reset of a processor that nothing was done to
  have anew : SameButTime c.elapsed 0 c.monitored.reset (powerOn (.attach c.bus) c.config) :=
    sameButTime_reset c.monitored ⟨⟨.new, .attach c.bus⟩, c.config, 0, 0, {}, []⟩ rfl rfl
  exact ⟨startedOn_reset c, start', alike.keepsPace, anew.keepsPace⟩

/-- A processor in the middle of a NOP, with both requests latched. -/
def midNop : Processor Ram :=
  ((powerOn ((Ram.blank 1).load 0 [0xEA#8]) {}).tick.request .irq).request .nmi

/-- A processor on the same bus that has not run yet, with other registers. -/
def elsewhere : Processor Ram :=
  (powerOn ((Ram.blank 1).load 0 [0xEA#8]) {}).setRegisters ⟨1, 2, 3, 4, 0x8000#16, ⟨0xC3#8⟩⟩

/-- A reset drops the rest of the NOP and both requests, and the NOP runs anew, one tick later by
    the count than after the reset of the other. -/
theorem reset_erases_history_midInstruction :
    let fresh := midNop.monitored.reset
    let fresh' := elsewhere.monitored.reset
    elsewhere.config = midNop.config ∧ elsewhere.bus = midNop.bus ∧
      midNop.remaining = 1 ∧ midNop.pending = ⟨true, true⟩ ∧ elsewhere.regs ≠ midNop.regs ∧
      (StartedOn midNop.bus midNop.elapsed fresh ∧ StartedOn midNop.bus elsewhere.elapsed fresh' ∧
        KeepsPace midNop.elapsed elsewhere.elapsed fresh fresh' ∧
        KeepsPace midNop.elapsed 0 fresh (powerOn (.attach midNop.bus) midNop.config)) ∧
      fresh.step.1 = 2 ∧ fresh.step.2.elapsed = 3 ∧ fresh'.step.2.elapsed = 2 ∧
      fresh'.step.2.bus.accesses =
        [.read 0xFFFC#16 0x00#8, .read 0xFFFD#16 0x00#8, .read 0x0000#16 0xEA#8] := by
  intro fresh fresh'
  have bus : elsewhere.bus = midNop.bus := rfl
  exact ⟨rfl, bus, by decide, by decide, by decide,
    reset_erases_history midNop elsewhere rfl bus, by decide, by decide, by decide, by decide⟩

end Micro6502.Processor
