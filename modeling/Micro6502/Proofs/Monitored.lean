import Micro6502.Bus.Monitor
import Micro6502.Proofs.Clock

/-! # A monitored machine — what is seen is what is done

    A monitor between a processor and its bus changes nothing: what is behind
    it goes through the same states as without it (`behind_runDecoded`,
    `unmonitored_tick`, `unmonitored_applyAll`).  So the accesses that it sees are those that reach
    the bus, whatever the bus does when it is read.

    `Sees b b' as` says that they were `as`, in order, from one monitored bus
    to a later one, and that making them again leads there, each read
    answered as it was.  Moves made one after the other see the one list and
    then the other (`Sees.trans`), so what an instruction does to its bus is
    put together from what single moves do. -/

namespace Micro6502

/-- The bus after some accesses, if it answers each read with the byte that the access has. -/
def replay {β : Type} [Bus β] (bus : β) : List Access → Option β
  | [] => some bus
  | .read a b :: as => if (Bus.read bus a).1 = b then replay (Bus.read bus a).2 as else none
  | .write a b :: as => replay (Bus.write bus a b) as

theorem replay_append {β : Type} [Bus β] (bus : β) (as as' : List Access) :
    replay bus (as ++ as') = (replay bus as).bind fun later => replay later as' := by
  induction as generalizing bus with
  | nil => rfl
  | cons first rest ih =>
      cases first with
      | write a b => exact ih _
      | read a b =>
          by_cases h : (Bus.read bus a).1 = b
          · rw [List.cons_append, replay, replay, if_pos h, if_pos h, ih]
          · rw [List.cons_append, replay, replay, if_neg h, if_neg h]
            rfl

namespace Monitor

variable {β : Type} [Bus β]

/-- From `b` to `b'` the monitor saw the accesses `as`, and they are what leads there. -/
structure Sees (b b' : Monitor β) (as : List Access) : Prop where
  seen : b'.accesses = b.accesses ++ as
  replayed : replay b.behind as = some b'.behind

theorem Sees.refl (b : Monitor β) : Sees b b [] :=
  ⟨(List.append_nil _).symm, rfl⟩

/-- What a monitor sees on two ways in a row it sees in order. -/
theorem Sees.trans {b b' b'' : Monitor β} {as as' : List Access} (h : Sees b b' as)
    (h' : Sees b' b'' as') : Sees b b'' (as ++ as') where
  seen := by rw [h'.seen, h.seen, List.append_assoc]
  replayed := by rw [replay_append, h.replayed, Option.bind_some, h'.replayed]

/-- A read is one access, with the value that it gave. -/
theorem sees_read (b : Monitor β) (a : Word) :
    Sees b (Bus.read b a).2 [.read a (Bus.read b a).1] where
  seen := accesses_of_recorded (show _ = [_] ++ b.recorded from recorded_read b a)
  replayed := if_pos rfl

/-- A write is one access. -/
theorem sees_write (b : Monitor β) (a : Word) (v : Byte) :
    Sees b (Bus.write b a v) [.write a v] where
  seen := accesses_of_recorded (show _ = [_] ++ b.recorded from recorded_write b a v)
  replayed := rfl

end Monitor

namespace Machine

variable {β : Type}

/-- The machine with the monitor taken off its bus. -/
def behind (m : Machine (Monitor β)) : Machine β :=
  ⟨m.regs, m.bus.behind⟩

theorem behind_branch (m : Machine (Monitor β)) (o : Operand) (taken : Bool) :
    ((m.branch o taken).1, (m.branch o taken).2.behind) = m.behind.branch o taken := by
  cases taken <;> cases o <;> rfl

variable [Bus β]

theorem behind_enterService (m : Machine (Monitor β)) (back vector : Word) (software : Bool) :
    (m.enterService back vector software).behind =
      m.behind.enterService back vector software := rfl

theorem behind_fetchOpcode (m : Machine (Monitor β)) :
    m.fetchOpcode.2.behind = m.behind.fetchOpcode.2 := rfl

theorem behind_rti (m : Machine (Monitor β)) (bcd : Bool) :
    (m.execute bcd .rti .accumulator).2.behind =
      (m.behind.execute bcd .rti .accumulator).2 := rfl

/-- An operand is found alike with the monitor and without it. -/
theorem behind_resolve (mode : Mode) (m : Machine (Monitor β)) :
    ((m.resolve mode).1, (m.resolve mode).2.behind) = m.behind.resolve mode := by
  cases mode <;> rfl

/-- An operation does the same to the machine behind a monitor, at the same cost. -/
theorem behind_execute (bcd : Bool) (op : Operation) (o : Operand) (m : Machine (Monitor β)) :
    ((m.execute bcd op o).1, (m.execute bcd op o).2.behind) = m.behind.execute bcd op o := by
  cases h : op.effect bcd with
  | branch flag wanted =>
      rw [execute, execute, h]
      exact behind_branch m o _
  | load f | store f | modify f | jump | call =>
      rw [execute, execute, h]
      cases o <;> rfl
  | _ =>
      rw [execute, execute, h]
      rfl

/-- An instruction runs alike with the monitor and without it. -/
theorem behind_runDecoded (bcd : Bool) (d : Descriptor) (m : Machine (Monitor β)) :
    ((m.runDecoded bcd d).1, (m.runDecoded bcd d).2.behind) = m.behind.runDecoded bcd d := by
  have found := behind_resolve d.mode m
  have done := behind_execute bcd d.operation (m.resolve d.mode).1.operand (m.resolve d.mode).2
  rw [runDecoded, runDecoded, ← found, ← done]

end Machine

namespace Processor

variable {β : Type}

/-- The processor with the monitor taken off its bus. -/
def unmonitored (c : Processor (Monitor β)) : Processor β :=
  ⟨c.toMachine.behind, c.config, c.remaining, c.elapsed, c.pending, c.journal⟩

variable [Bus β]

/-- What is due is the same without the monitor, at the same cost. -/
theorem unmonitored_begin (c : Processor (Monitor β)) :
    (c.begin.1, c.begin.2.unmonitored) = c.unmonitored.begin := by
  have same : c.unmonitored.nextTurn = c.nextTurn := rfl
  cases turn : c.nextTurn with
  | service kind =>
      rw [begin_of_service turn, begin_of_service (same.trans turn)]
      rfl
  | instruction =>
      have ran := Machine.behind_runDecoded c.config.variant.hasDecimal
        (Opcode.decode c.toMachine.fetchOpcode.1) c.toMachine.fetchOpcode.2
      rw [begin_of_instruction turn, begin_of_instruction (same.trans turn)]
      refine Prod.ext (congrArg Prod.fst ran :) ?_
      exact congrArg (fun m : Machine β =>
        (⟨m, c.config, c.remaining, c.elapsed, c.pending,
          .fetch c.toMachine.fetchOpcode.1 c.regs c.elapsed :: c.journal⟩ : Processor β))
        (congrArg Prod.snd ran)

/-- A tick is the same tick with the monitor and without it. -/
theorem unmonitored_tick (c : Processor (Monitor β)) :
    c.tick.unmonitored = c.unmonitored.tick := by
  by_cases boundary : c.remaining = 0
  · have due := unmonitored_begin c
    rw [tick_of_boundary boundary, tick_of_boundary (c := c.unmonitored) boundary, ← due]
    rfl
  · have busy : 0 < c.remaining := Nat.pos_of_ne_zero boundary
    rw [tick_of_busy busy, tick_of_busy (c := c.unmonitored) busy]
    rfl

theorem unmonitored_tickTimes (n : Nat) (c : Processor (Monitor β)) :
    (c.tickTimes n).unmonitored = c.unmonitored.tickTimes n := by
  induction n generalizing c with
  | zero => rfl
  | succ n ih => rw [tickTimes, tickTimes, ih, unmonitored_tick]

theorem unmonitored_step (c : Processor (Monitor β)) :
    (c.step.1, c.step.2.unmonitored) = c.unmonitored.step := by
  have same : c.unmonitored.step.1 = c.step.1 :=
    congrArg (·.remaining + 1) (unmonitored_tick c).symm
  rw [step_eq_tickTimes, unmonitored_tickTimes, ← same, ← step_eq_tickTimes]

end Processor

/-- The command to a processor on a monitored bus; the monitor does not see what a host changes
behind it. -/
def Command.behindMonitor {β : Type} : Command β → Command (Monitor β)
  | .tick => .tick
  | .advance t => .advance t
  | .step => .step
  | .request kind => .request kind
  | .reset => .reset
  | .setRegisters r => .setRegisters r
  | .setFlag f v => .setFlag f v
  | .alterBus f => .alterBus (Monitor.mapBehind f)

namespace Processor

variable {β : Type} [Bus β]

/-- A command does the same without the monitor. -/
theorem unmonitored_apply (c : Processor (Monitor β)) (cmd : Command β) :
    (c.apply cmd.behindMonitor).unmonitored = c.unmonitored.apply cmd := by
  cases cmd with
  | tick => exact unmonitored_tick c
  | advance t => exact unmonitored_tickTimes t.count c
  | step => exact congrArg Prod.snd (unmonitored_step c)
  | _ => rfl

/-- A command makes as many ticks without the monitor. -/
theorem ticksOf_behindMonitor (c : Processor (Monitor β)) (cmd : Command β) :
    c.ticksOf cmd.behindMonitor = c.unmonitored.ticksOf cmd := by
  cases cmd with
  | step => exact congrArg Prod.fst (unmonitored_step c)
  | _ => rfl

/-- A run is the same run with the monitor and without it. -/
theorem unmonitored_applyAll (c : Processor (Monitor β)) (cmds : List (Command β)) :
    (c.applyAll (cmds.map Command.behindMonitor)).unmonitored = c.unmonitored.applyAll cmds := by
  induction cmds generalizing c with
  | nil => rfl
  | cons cmd cmds ih =>
      show ((c.apply cmd.behindMonitor).applyAll _).unmonitored = _
      rw [ih, unmonitored_apply]
      rfl

end Processor

end Micro6502
