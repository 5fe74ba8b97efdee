import Micro6502.Bus.Monitor
import Micro6502.Bus.Ram
import Micro6502.Proofs.Clock

/-! # Host schedules — ticking and stepping are one run

    A host that ticks may act between any two ticks; a host that steps acts
    at boundaries alone.  A schedule attaches to each tick what a host does
    right after it.  The two hosts see the same boundaries.  The route:

    * a host action never moves the countdown, and commutes with it
      (`act_countDown`), so ticks inside an instruction can be moved before
      all that the host does there (`drive_of_busy`);
    * hence the ticks of one instruction are its step and then the actions,
      in order (`drive_step`);
    * `visitsByTick_eq_visitsByStep` chains instructions, by induction on the
      length of the schedule.

    A step is the loop that ticks until nothing remains (`step_eq_loop`, and
    `stepLoop?_eq` for the loop on machine words). -/

namespace Micro6502

/-- Something a host does between two ticks, other than a reset. -/
inductive HostAction (β : Type) where
  | request (kind : Interrupt)
  | setFlag (f : Flag) (v : Bool)
  | setRegisters (r : Registers)
  /-- A change to what is behind the bus, such as a write to memory. -/
  | alterBus (f : β → β)

namespace HostAction

variable {β : Type}

/-- The action on a bus that a monitor watches; the monitor does not see it. -/
def behindMonitor : HostAction β → HostAction (Monitor β)
  | .request kind => .request kind
  | .setFlag f v => .setFlag f v
  | .setRegisters r => .setRegisters r
  | .alterBus f => .alterBus (Monitor.mapBehind f)

end HostAction

/-- What a host does after each of some ticks. -/
abbrev Schedule (β : Type) := List (List (HostAction β))

/-- The schedule on a bus that a monitor watches. -/
def Schedule.behindMonitor {β : Type} (sched : Schedule β) : Schedule (Monitor β) :=
  sched.map (List.map HostAction.behindMonitor)

/-- What is seen at a boundary: the ticks since the boundary before, and the processor. -/
structure Visit (β : Type) where
  cost : Nat
  cpu : Processor β

/-- What a monitor on the bus has seen at a boundary, with the cost of what led there. -/
def Visit.accesses {β : Type} (v : Visit (Monitor β)) : Nat × List Access :=
  (v.cost, v.cpu.bus.accesses)

namespace Processor

variable {β : Type}

/-- The processor after a host action. -/
def act (c : Processor β) : HostAction β → Processor β
  | .request kind => c.request kind
  | .setFlag f v => c.setFlag f v
  | .setRegisters r => c.setRegisters r
  | .alterBus f => c.alterBus f

/-- The processor after some host actions, in order. -/
def actAll (c : Processor β) (as : List (HostAction β)) : Processor β :=
  as.foldl act c

theorem actAll_append (c : Processor β) (as bs : List (HostAction β)) :
    c.actAll (as ++ bs) = (c.actAll as).actAll bs :=
  List.foldl_append

/-! ## Host actions and the countdown -/

theorem remaining_act (c : Processor β) (a : HostAction β) :
    (c.act a).remaining = c.remaining := by
  cases a <;> rfl

theorem journal_act (c : Processor β) (a : HostAction β) :
    (c.act a).journal = c.journal := by
  cases a <;> rfl

/-- A host cannot tell before from after a tick that only counts. -/
theorem act_countDown (n : Nat) (c : Processor β) (a : HostAction β) :
    (c.countDown n).act a = (c.act a).countDown n := by
  cases a <;> rfl

theorem remaining_actAll (c : Processor β) (as : List (HostAction β)) :
    (c.actAll as).remaining = c.remaining := by
  induction as generalizing c with
  | nil => rfl
  | cons a as ih =>
      show ((c.act a).actAll as).remaining = _
      rw [ih, remaining_act]

theorem journal_actAll (c : Processor β) (as : List (HostAction β)) :
    (c.actAll as).journal = c.journal := by
  induction as generalizing c with
  | nil => rfl
  | cons a as ih =>
      show ((c.act a).actAll as).journal = _
      rw [ih, journal_act]

/-- Counting down first or last makes no difference to what a host does. -/
theorem actAll_countDown (n : Nat) (c : Processor β) (as : List (HostAction β)) :
    (c.countDown n).actAll as = (c.actAll as).countDown n := by
  induction as generalizing c with
  | nil => rfl
  | cons a as ih =>
      show ((c.countDown n).act a).actAll as = ((c.act a).actAll as).countDown n
      rw [act_countDown, ih]

/-! ## Requests stay latched under host actions -/

/-- A host action other than a reset leaves a latched request latched. -/
theorem has_act {c : Processor β} {kind : Interrupt} (a : HostAction β)
    (h : c.pending.has kind = true) : (c.act a).pending.has kind = true := by
  cases a with
  | request k =>
      show (c.pending.latch k).has kind = true
      rw [Pending.has_latch, h, Bool.or_true]
  | setFlag f v => exact h
  | setRegisters r => exact h
  | alterBus f => exact h

theorem has_actAll {c : Processor β} {kind : Interrupt} (as : List (HostAction β))
    (h : c.pending.has kind = true) : (c.actAll as).pending.has kind = true := by
  induction as generalizing c with
  | nil => exact h
  | cons a as ih => exact ih (has_act a h)

/-- A request among the actions is latched after them. -/
theorem has_actAll_of_request {kind : Interrupt} {as : List (HostAction β)} (c : Processor β)
    (h : HostAction.request kind ∈ as) : (c.actAll as).pending.has kind = true := by
  obtain ⟨before, after, rfl⟩ := List.append_of_mem h
  rw [actAll_append]
  refine has_actAll (c := (c.actAll before).request kind) after ?_
  show ((c.actAll before).pending.latch kind).has kind = true
  rw [Pending.has_latch, decide_eq_true rfl, Bool.true_or]

/-! ## The two hosts -/

variable [Bus β]

/-- The processor after a schedule: each tick and what the host does after it. -/
def drive (c : Processor β) : Schedule β → Processor β
  | [] => c
  | as :: rest => (c.tick.actAll as).drive rest

/-- The boundaries seen by a host that ticks, `spent` ticks after the last one. -/
def visitsByTick (c : Processor β) (spent : Nat) : Schedule β → List (Visit β)
  | [] => []
  | as :: rest =>
      let next := c.tick.actAll as
      if next.remaining = 0 then ⟨spent + 1, next⟩ :: next.visitsByTick 0 rest
      else next.visitsByTick (spent + 1) rest

theorem step_cost_pos (c : Processor β) : 0 < c.step.1 :=
  Nat.succ_pos _

/-- The boundaries seen by a host that steps, and acts after each step as the schedule says for
    all the ticks of that step; a step that the schedule cuts short is not made. -/
def visitsByStep (c : Processor β) (sched : Schedule β) : List (Visit β) :=
  if sched.length < c.step.1 then []
  else
    let next := c.step.2.actAll (sched.take c.step.1).flatten
    ⟨c.step.1, next⟩ :: next.visitsByStep (sched.drop c.step.1)
termination_by sched.length
decreasing_by
  have := step_cost_pos c
  rw [List.length_drop]
  omega

/-! ## Inside an instruction -/

/-- Ticks up to the next boundary count, and all that the host does can be done after them. -/
theorem drive_of_busy {c : Processor β} {sched : Schedule β} (h : sched.length ≤ c.remaining) :
    c.drive sched = (c.countDown sched.length).actAll sched.flatten := by
  induction sched generalizing c with
  | nil => rfl
  | cons as rest ih =>
      rw [List.length_cons] at h
      have busy : 0 < c.remaining := by omega
      have left : rest.length ≤ (c.tick.actAll as).remaining := by
        rw [remaining_actAll, tick_of_busy busy, remaining_countDown]
        omega
      show (c.tick.actAll as).drive rest = _
      rw [ih left, tick_of_busy busy, ← actAll_countDown, ← countDown_add, ← actAll_append,
        Nat.add_comm, List.length_cons, List.flatten_cons]

/-- The first ticks of a step are its first tick, a count down, and all that the host does. -/
theorem drive_of_le_step {c : Processor β} {as : List (HostAction β)} {rest : Schedule β}
    (h : rest.length + 1 ≤ c.step.1) :
    c.drive (as :: rest) =
      (c.tick.countDown rest.length).actAll (as :: rest).flatten := by
  rw [step_eq] at h
  have left : rest.length ≤ (c.tick.actAll as).remaining := by
    rw [remaining_actAll]
    exact Nat.le_of_succ_le_succ h
  show (c.tick.actAll as).drive rest = _
  rw [drive_of_busy left, ← actAll_countDown, ← actAll_append, List.flatten_cons]

/-- All ticks of a step are the step, and then all that the host does. -/
theorem drive_step {c : Processor β} {sched : Schedule β} (h : sched.length = c.step.1) :
    c.drive sched = c.step.2.actAll sched.flatten := by
  cases sched with
  | nil => exact absurd h (Nat.ne_of_lt (step_cost_pos c))
  | cons as rest =>
      rw [drive_of_le_step (Nat.le_of_eq h), step_eq]
      rw [step_eq] at h
      rw [Nat.succ.inj h]

/-! ## From boundary to boundary -/

/-- A host that ticks sees the next boundary once the count is down, if its schedule lasts. -/
theorem visitsByTick_inside (next : Processor β) (spent : Nat) (rest : Schedule β) :
    (if next.remaining = 0 then ⟨spent, next⟩ :: next.visitsByTick 0 rest
      else next.visitsByTick spent rest) =
      if rest.length < next.remaining then []
      else
        let c := (next.countDown next.remaining).actAll (rest.take next.remaining).flatten
        ⟨spent + next.remaining, c⟩ :: c.visitsByTick 0 (rest.drop next.remaining) := by
  induction rest generalizing next spent with
  | nil =>
      by_cases h : next.remaining = 0
      · rw [if_pos h, if_neg (by rw [h]; exact Nat.lt_irrefl 0), h]
        rfl
      · rw [if_neg h, List.length_nil, if_pos (Nat.pos_of_ne_zero h)]
        rfl
  | cons as rest ih =>
      cases h : next.remaining with
      | zero =>
          rw [if_pos rfl, if_neg (Nat.not_lt_zero _)]
          rfl
      | succ r =>
          -- the first of these ticks only counts, and the others are the induction's
          have busy : 0 < next.remaining := by omega
          have tick : next.tick.actAll as = (next.actAll as).countDown 1 := by
            rw [tick_of_busy busy, actAll_countDown]
          have left : ((next.actAll as).countDown 1).remaining = r := by
            rw [remaining_countDown, remaining_actAll, h]
            rfl
          have after : ((next.actAll as).countDown 1).countDown r =
              (next.countDown (r + 1)).actAll as := by
            rw [← countDown_add, actAll_countDown, Nat.add_comm]
          rw [if_neg (Nat.succ_ne_zero r)]
          show (if (next.tick.actAll as).remaining = 0 then
              ⟨spent + 1, next.tick.actAll as⟩ :: (next.tick.actAll as).visitsByTick 0 rest
            else (next.tick.actAll as).visitsByTick (spent + 1) rest) = _
          rw [tick, ih, left, after, List.length_cons, List.take_succ_cons, List.drop_succ_cons,
            List.flatten_cons, actAll_append, Nat.add_assoc spent 1 r, Nat.add_comm 1 r]
          simp only [Nat.add_lt_add_iff_right]

/-- A host that ticks and one that steps see the same boundaries. -/
theorem visitsByTick_eq_visitsByStep (c : Processor β) (sched : Schedule β) :
    c.visitsByTick 0 sched = c.visitsByStep sched := by
  -- on the length of the schedule, of which each step uses as many ticks as it costs
  induction hn : sched.length using Nat.strongRecOn generalizing c sched with
  | ind n ih =>
      cases sched with
      | nil =>
          rw [visitsByStep, List.length_nil, if_pos (step_cost_pos c)]
          rfl
      | cons as rest =>
          have inside := visitsByTick_inside (c.tick.actAll as) (0 + 1) rest
          rw [remaining_actAll] at inside
          rw [visitsByStep, step_eq, List.length_cons]
          show (if (c.tick.actAll as).remaining = 0 then
              ⟨0 + 1, c.tick.actAll as⟩ :: (c.tick.actAll as).visitsByTick 0 rest
            else (c.tick.actAll as).visitsByTick (0 + 1) rest) = _
          rw [remaining_actAll, inside, ← actAll_countDown, ← actAll_append]
          simp only [Nat.add_lt_add_iff_right, List.take_succ_cons, List.drop_succ_cons,
            List.flatten_cons]
          by_cases short : rest.length < c.tick.remaining
          · rw [if_pos short, if_pos short]
          · rw [if_neg short, if_neg short, Nat.zero_add, Nat.add_comm 1]
            congr 1
            refine ih _ ?_ _ _ rfl
            rw [← hn, List.length_drop, List.length_cons]
            omega

/-- **Ticking is stepping.**  Under every schedule, from every processor on every bus, a host that
    ticks sees at each boundary what a host sees that steps and acts after each step: the same
    processor, bus and counts included, the same costs and, on a bus that a monitor watches, the
    same accesses.  Where in an instruction an action lands makes no difference at its end, and a
    request made there is still latched, with nothing begun since.  (A step is the loop of
    `step_eq_loop` and, on machine words, of `stepLoop?_eq`.) -/
theorem ticking_sees_what_stepping_sees :
    (∀ (c : Processor β) (sched : Schedule β),
      c.visitsByTick 0 sched = c.visitsByStep sched) ∧
    (∀ (c : Processor (Monitor β)) (sched : Schedule β),
      (c.visitsByTick 0 sched.behindMonitor).map Visit.accesses =
        (c.visitsByStep sched.behindMonitor).map Visit.accesses) ∧
    (∀ (c : Processor β) (s t : Schedule β), s.length = c.step.1 → t.length = c.step.1 →
      s.flatten = t.flatten → c.drive s = c.drive t) ∧
    (∀ (c : Processor β) (as : List (HostAction β)) (rest : Schedule β),
      rest.length + 1 ≤ c.step.1 →
      (c.drive (as :: rest)).journal = c.tick.journal ∧
      ∀ kind, .request kind ∈ (as :: rest).flatten →
        (c.drive (as :: rest)).pending.has kind = true) := by
  refine ⟨visitsByTick_eq_visitsByStep, ?_, ?_, ?_⟩
  · intro c sched
    rw [visitsByTick_eq_visitsByStep]
  · intro c s t hs ht same
    rw [drive_step hs, drive_step ht, same]
  · intro c as rest inside
    rw [drive_of_le_step inside]
    refine ⟨?_, fun kind h => has_actAll_of_request _ h⟩
    rw [journal_actAll, journal_countDown]

/-- A processor about to load the accumulator, which takes two cycles. -/
def aboutToLoad : Processor Ram :=
  ⟨⟨.new, ⟨#[0xA9#8, 0x05#8], by decide⟩⟩, {}, 0, 0, {}, []⟩

/-- A request after the first of the two cycles is as good as one after the second. -/
theorem request_inside_load :
    aboutToLoad.step.1 = 2 ∧
    aboutToLoad.drive [[.request .nmi], [.setFlag .carry true]] =
      aboutToLoad.drive [[], [.request .nmi, .setFlag .carry true]] ∧
    (aboutToLoad.drive [[.request .nmi], [.setFlag .carry true]]).journal =
      aboutToLoad.tick.journal ∧
    (aboutToLoad.drive [[.request .nmi], [.setFlag .carry true]]).pending.has .nmi = true := by
  have cost : aboutToLoad.step.1 = 2 := rfl
  obtain ⟨-, -, anywhere, inside⟩ := ticking_sees_what_stepping_sees (β := Ram)
  obtain ⟨waiting, latched⟩ := inside aboutToLoad [.request .nmi] [[.setFlag .carry true]]
    (Nat.le_of_eq cost.symm)
  exact ⟨cost, anywhere aboutToLoad _ _ cost.symm cost.symm rfl, waiting,
    latched .nmi (List.mem_cons_self ..)⟩

end Processor

end Micro6502
