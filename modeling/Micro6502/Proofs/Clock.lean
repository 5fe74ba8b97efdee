import Micro6502.Processor.Command

/-! # The clock — a busy tick only counts

    Between two boundaries a tick does nothing but count.  Here this is said
    once, as `countDown`, and every fact about runs of ticks is read off it:

    * a tick is either a turn taken at a boundary or a `countDown` by one
      (`tick_of_boundary`, `tick_of_busy`);
    * the ticks up to the next boundary are one `countDown`
      (`tickTimes_of_le`), so a step is its first tick and a `countDown`
      (`step_eq`), which is the loop that ticks until nothing remains
      (`step_eq_loop`);
    * `nextTurn_eq_service_nmi_iff` and `nextTurn_eq_service_irq_iff` say
      which interrupt is taken at a boundary;
    * a command is as many ticks as `ticksOf` says, and the count of
      ticks keeps up with it (`elapsed_apply`). -/

namespace Micro6502.Processor

variable {β : Type}

/-- The processor after `n` ticks inside an instruction that has that many left. -/
def countDown (n : Nat) (c : Processor β) : Processor β :=
  { c with remaining := c.remaining - n, elapsed := c.elapsed + n }

theorem countDown_add (a b : Nat) (c : Processor β) :
    c.countDown (a + b) = (c.countDown a).countDown b := by
  rw [countDown, countDown, countDown, Nat.sub_add_eq, Nat.add_assoc]

@[simp] theorem remaining_countDown (n : Nat) (c : Processor β) :
    (c.countDown n).remaining = c.remaining - n := rfl

@[simp] theorem elapsed_countDown (n : Nat) (c : Processor β) :
    (c.countDown n).elapsed = c.elapsed + n := rfl

@[simp] theorem journal_countDown (n : Nat) (c : Processor β) :
    (c.countDown n).journal = c.journal := rfl

/-! ## Which turn is next -/

/-- A latched NMI is taken next, whatever else waits. -/
theorem nextTurn_eq_service_nmi_iff (c : Processor β) :
    c.nextTurn = .service .nmi ↔ c.pending.nmi = true := by
  rw [nextTurn]
  by_cases hn : c.pending.nmi = true
  · rw [if_pos hn]
    exact iff_of_true rfl hn
  · rw [if_neg hn]
    refine iff_of_false ?_ hn
    split <;> exact nofun

/-- A latched IRQ is taken next where no NMI is and interrupts are not disabled. -/
theorem nextTurn_eq_service_irq_iff (c : Processor β) :
    c.nextTurn = .service .irq ↔
      c.pending.nmi = false ∧ c.pending.irq = true ∧
        c.regs.p.get .interruptDisable = false := by
  rw [nextTurn]
  cases hn : c.pending.nmi <;> cases hi : c.pending.irq <;>
    cases hd : c.regs.p.get .interruptDisable <;> simp

/-- An instruction is next where no NMI is latched, and no IRQ or a masked one. -/
theorem nextTurn_eq_instruction_iff (c : Processor β) :
    c.nextTurn = .instruction ↔
      c.pending.nmi = false ∧
        (c.pending.irq = false ∨ c.regs.p.get .interruptDisable = true) := by
  rw [nextTurn]
  cases hn : c.pending.nmi <;> cases hi : c.pending.irq <;>
    cases hd : c.regs.p.get .interruptDisable <;> simp

/-! ## Ticks and steps -/

variable [Bus β]

/-- Inside an instruction a tick only counts. -/
theorem tick_of_busy {c : Processor β} (h : 0 < c.remaining) : c.tick = c.countDown 1 :=
  if_neg (Nat.ne_of_gt h)

/-- At a boundary a tick does all of what is due, and counts one cycle of it. -/
theorem tick_of_boundary {c : Processor β} (h : c.remaining = 0) :
    c.tick = { c.begin.2 with
      remaining := c.begin.1 - 1, elapsed := c.begin.2.elapsed + 1 } :=
  if_pos h

theorem begin_of_service {c : Processor β} {kind : Interrupt}
    (h : c.nextTurn = .service kind) : c.begin = c.service kind := by
  rw [begin, h]

theorem begin_of_instruction {c : Processor β} (h : c.nextTurn = .instruction) :
    c.begin = c.instruction := by
  rw [begin, h]

theorem elapsed_begin (c : Processor β) : c.begin.2.elapsed = c.elapsed := by
  rw [begin]
  split <;> rfl

/-- Ticks that do not pass the next boundary only count. -/
theorem tickTimes_of_le {n : Nat} {c : Processor β} (h : n ≤ c.remaining) :
    c.tickTimes n = c.countDown n := by
  induction n generalizing c with
  | zero => rfl
  | succ n ih =>
      have busy : 0 < c.remaining := by omega
      have left : n ≤ (c.countDown 1).remaining := by
        rw [remaining_countDown]
        omega
      show c.tick.tickTimes n = _
      rw [tick_of_busy busy, ih left, ← countDown_add, Nat.add_comm]

/-- A step is its first tick, and a count down of what that leaves. -/
theorem step_eq (c : Processor β) :
    c.step = (c.tick.remaining + 1, c.tick.countDown c.tick.remaining) := by
  show (c.tick.remaining + 1, c.tick.tickTimes c.tick.remaining) = _
  rw [tickTimes_of_le (Nat.le_refl _)]

/-- A step ends at a boundary. -/
theorem remaining_step (c : Processor β) : c.step.2.remaining = 0 := by
  rw [step_eq]
  exact Nat.sub_self _

/-- A step inside an instruction is what is left of it. -/
theorem step_of_busy {c : Processor β} (h : 0 < c.remaining) :
    c.step = (c.remaining, c.countDown c.remaining) := by
  have left : (c.countDown 1).remaining = c.remaining - 1 := rfl
  rw [step_eq, tick_of_busy h, left, ← countDown_add, Nat.sub_add_cancel h, Nat.add_comm 1,
    Nat.sub_add_cancel h]

/-- A step is the loop that ticks and counts until nothing remains: one tick, and where that leaves
    something, the step from there. -/
theorem step_eq_loop (c : Processor β) :
    c.step = if c.tick.remaining = 0 then (1, c.tick) else (c.tick.step.1 + 1, c.tick.step.2) := by
  by_cases last : c.tick.remaining = 0
  · rw [if_pos last, step_eq, last]
    rfl
  · have inside := step_of_busy (Nat.pos_of_ne_zero last)
    rw [if_neg last, inside, step_eq]

/-- A step at a boundary is what is due there, all its cycles counted. -/
theorem step_of_boundary {c : Processor β} (h : c.remaining = 0) (cost : 0 < c.begin.1) :
    c.step = (c.begin.1,
      { c.begin.2 with remaining := 0, elapsed := c.elapsed + c.begin.1 }) := by
  rw [step_eq, tick_of_boundary h, countDown, elapsed_begin]
  refine Prod.ext (Nat.sub_add_cancel cost) ?_
  simp only [Nat.sub_self]
  rw [show c.elapsed + 1 + (c.begin.1 - 1) = c.elapsed + c.begin.1 by omega]

/-- A step at a boundary where an interrupt is taken is the entry to its service routine. -/
theorem step_of_service {c : Processor β} {kind : Interrupt} (h : c.remaining = 0)
    (turn : c.nextTurn = .service kind) :
    c.step.1 = interruptCycles ∧
      c.step.2.toMachine = c.toMachine.enterService c.regs.pc kind.vector false ∧
      c.step.2.pending = c.pending.release kind := by
  have cost : 0 < c.begin.1 := by
    rw [begin_of_service turn]
    exact Nat.succ_pos 6
  rw [step_of_boundary h cost, begin_of_service turn]
  exact ⟨rfl, rfl, rfl⟩

/-! ## The count of ticks -/

theorem elapsed_tick (c : Processor β) : c.tick.elapsed = c.elapsed + 1 := by
  by_cases h : c.remaining = 0
  · rw [tick_of_boundary h]
    exact congrArg (· + 1) (elapsed_begin c)
  · rw [tick_of_busy (Nat.pos_of_ne_zero h), elapsed_countDown]

theorem elapsed_tickTimes (n : Nat) (c : Processor β) :
    (c.tickTimes n).elapsed = c.elapsed + n := by
  induction n generalizing c with
  | zero => rfl
  | succ n ih =>
      show (c.tick.tickTimes n).elapsed = _
      rw [ih, elapsed_tick]
      omega

/-- A step is as many ticks as it gives. -/
theorem step_eq_tickTimes (c : Processor β) : c.step.2 = c.tickTimes c.step.1 := rfl

/-- The ticks that a command makes. -/
def ticksOf (c : Processor β) : Command β → Nat
  | .tick => 1
  | .advance t => t.count
  | .step => c.step.1
  | _ => 0

/-- A command counts the ticks that it makes. -/
theorem elapsed_apply (c : Processor β) (cmd : Command β) :
    (c.apply cmd).elapsed = c.elapsed + c.ticksOf cmd := by
  cases cmd with
  | tick => exact elapsed_tick c
  | advance t => exact elapsed_tickTimes t.count c
  | step => exact elapsed_tickTimes c.step.1 c
  | _ => rfl

end Micro6502.Processor
