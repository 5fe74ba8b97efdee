import Mathlib.Algebra.Ring.Nat
import Micro6502.Bus.Ram
import Micro6502.Proofs.Cost
import Micro6502.Proofs.TraceLine

/-! # The ledger — every cycle is accounted for

    Cycles are charged when something is begun at a boundary and dropped
    when a reset cuts a countdown short; between the two, ticks pay what was
    charged.  The ledger of a run lists both, in order.  The route:

    * a tick pays one cycle, and enters what it begins (`paid_tick`,
      `traced_tick`);
    * a command is ticks, a reset or neither, so it moves the cycles paid or
      due as its entries say (`paid_apply`);
    * over a run the entries add up, at the end (`paid_applyAll`) as at each
      entry (`timed_ledger`), and the log has a line for each instruction
      entered (`traced_applyAll`);
    * from that line a reader takes what the instruction found
      (`readTrace?_logged`). -/

namespace Micro6502

/-- What moves the account of cycles. -/
inductive Entry (β : Type) where
  /-- What was due to the processor in this state was begun. -/
  | begun (c : Processor β)
  /-- A reset dropped what was left of a countdown. -/
  | dropped (cycles : Nat)

namespace Processor

variable {β : Type}

/-- The lines at trace level that the log has so far, in order. -/
def traced (c : Processor β) : List Line :=
  (c.journal.reverse.flatMap Event.lines).filter fun l => l.level == .trace

/-- The cycles that ticks have paid, and those that are due still. -/
def paid (c : Processor β) : Nat := c.elapsed + c.remaining

variable [Bus β]

/-- The line of the log for an instruction that is fetched in this state. -/
def traceLine (c : Processor β) : Line :=
  Told.traceLine (Bus.read c.bus c.regs.pc).1 c.regs c.elapsed

/-- What is to be told of an instruction that is fetched in this state: the address it is at, the
opcode there, the registers and the count of ticks, all as they are before it. -/
def told (c : Processor β) : Told :=
  .ofFetch (Bus.read c.bus c.regs.pc).1 c.regs c.elapsed

end Processor

namespace Entry

variable {β : Type}

/-- The cycles that a reset dropped. -/
def loss : Entry β → Nat
  | .begun _ => 0
  | .dropped cycles => cycles

/-- The cycles that some entries drop. -/
def lost (l : List (Entry β)) : Nat := (l.map loss).sum

theorem lost_append (l l' : List (Entry β)) : lost (l ++ l') = lost l + lost l' := by
  rw [lost, List.map_append, List.sum_append]
  rfl

variable [Bus β]

/-- The full cost of what was begun. -/
def cost : Entry β → Nat
  | .begun c => c.begin.1
  | .dropped _ => 0

/-- The cycles that some entries charge. -/
def charged (l : List (Entry β)) : Nat := (l.map cost).sum

theorem charged_append (l l' : List (Entry β)) : charged (l ++ l') = charged l + charged l' := by
  rw [charged, List.map_append, List.sum_append]
  rfl

/-- The line that the log has for an entry: one for an instruction, none for anything else. -/
def traceLine? : Entry β → Option Line
  | .begun c => if c.nextTurn = .instruction then some c.traceLine else none
  | .dropped _ => none

/-- What is to be told of an entry: of an instruction what it found, and of anything else nothing. -/
def told? : Entry β → Option Told
  | .begun c => if c.nextTurn = .instruction then some c.told else none
  | .dropped _ => none

end Entry

namespace Processor

open Entry

variable {β : Type}

/-- One more event in the journal puts its lines at the end of those that the log has. -/
theorem traced_cons {c c' : Processor β} (e : Event) (h : c'.journal = e :: c.journal) :
    c'.traced = c.traced ++ e.lines.filter fun l => l.level == .trace := by
  rw [traced, h, List.reverse_cons, List.flatMap_append, List.filter_append, List.flatMap_singleton]
  rfl

/-- What the next tick begins. -/
def entered (c : Processor β) : List (Entry β) :=
  if c.remaining = 0 then [.begun c] else []

/-- What a tick begins drops nothing. -/
theorem lost_entered (c : Processor β) : lost c.entered = 0 := by
  rw [entered]
  split <;> rfl

variable [Bus β]

/-- What so many ticks begin, in order. -/
def enteredIn : (n : Nat) → Processor β → List (Entry β)
  | 0, _ => []
  | n + 1, c => c.entered ++ c.tick.enteredIn n

/-- What a command begins or drops, in order. -/
def entries (c : Processor β) : Command β → List (Entry β)
  | .reset => [.dropped c.remaining]
  | cmd => c.enteredIn (c.ticksOf cmd)

/-- What a run begins or drops, in order. -/
def ledger (c : Processor β) : List (Command β) → List (Entry β)
  | [] => []
  | cmd :: cmds => c.entries cmd ++ (c.apply cmd).ledger cmds

/-- The ticks that a run makes. -/
def ticksOfAll (c : Processor β) : List (Command β) → Nat
  | [] => 0
  | cmd :: cmds => c.ticksOf cmd + (c.apply cmd).ticksOfAll cmds

/-- The count of ticks moves on by the ticks that the commands make. -/
theorem elapsed_applyAll (c : Processor β) (cmds : List (Command β)) :
    (c.applyAll cmds).elapsed = c.elapsed + c.ticksOfAll cmds := by
  induction cmds generalizing c with
  | nil => rfl
  | cons cmd cmds ih =>
      show ((c.apply cmd).applyAll cmds).elapsed = _
      rw [ih, elapsed_apply, ticksOfAll, Nat.add_assoc]

/-- The ledger of a longer run is that of its first part and what the rest adds to it. -/
theorem ledger_append (c : Processor β) (cmds cmds' : List (Command β)) :
    c.ledger (cmds ++ cmds') = c.ledger cmds ++ (c.applyAll cmds).ledger cmds' := by
  induction cmds generalizing c with
  | nil => rfl
  | cons cmd cmds ih =>
      show c.entries cmd ++ (c.apply cmd).ledger (cmds ++ cmds') = _
      rw [ih, ledger, List.append_assoc]
      rfl

/-! ## What is begun in a step -/

/-- Ticks that do not pass the next boundary begin nothing. -/
theorem enteredIn_of_le {n : Nat} {c : Processor β} (left : n ≤ c.remaining) :
    c.enteredIn n = [] := by
  induction n generalizing c with
  | zero => rfl
  | succ n ih =>
      have busy : 0 < c.remaining := Nat.lt_of_lt_of_le (Nat.succ_pos n) left
      have rest : n ≤ c.tick.remaining := by
        rw [tick_of_busy busy, remaining_countDown]
        exact Nat.le_sub_of_add_le left
      rw [enteredIn, entered, if_neg (Nat.ne_of_gt busy), ih rest]
      rfl

/-- A step at a boundary begins what is due there, and no more. -/
theorem entries_step {c : Processor β} (boundary : c.remaining = 0) :
    c.entries .step = [.begun c] := by
  show c.entered ++ c.tick.enteredIn c.tick.remaining = _
  rw [entered, if_pos boundary, enteredIn_of_le (Nat.le_refl _)]
  rfl

/-- What some steps from a boundary begin is due after fewer of them. -/
theorem exists_steps_of_begun {c s : Processor β} (boundary : c.remaining = 0) {n : Nat}
    (begun : .begun s ∈ c.ledger (List.replicate n .step)) : ∃ k < n, s = (c.steps k).2 := by
  induction n generalizing c with
  | zero => exact nomatch begun
  | succ n ih =>
      rw [List.replicate_succ, ledger, entries_step boundary] at begun
      rcases List.mem_cons.mp begun with first | rest
      · exact ⟨0, Nat.succ_pos n, Entry.begun.inj first⟩
      · obtain ⟨k, below, due⟩ := ih (remaining_step c) rest
        exact ⟨k + 1, Nat.succ_lt_succ below, due⟩

/-! ## One tick, and many -/

/-- A tick pays a cycle, and what it begins is due with it. -/
theorem paid_tick (c : Processor β) : c.tick.paid = c.paid + charged c.entered := by
  by_cases h : c.remaining = 0
  · have cost := (begin_cost_range c).1
    rw [entered, if_pos h, paid, elapsed_tick, tick_of_boundary h, paid, h]
    show c.elapsed + 1 + (c.begin.1 - 1) = c.elapsed + 0 + (c.begin.1 + 0)
    omega
  · rw [entered, if_neg h, tick_of_busy (Nat.pos_of_ne_zero h)]
    show c.elapsed + 1 + (c.remaining - 1) = c.elapsed + c.remaining + 0
    omega

/-- Ticks move the cycles paid or due by what they begin, and drop nothing. -/
theorem paid_tickTimes (n : Nat) (c : Processor β) :
    (c.tickTimes n).paid = c.paid + charged (c.enteredIn n) ∧ lost (c.enteredIn n) = 0 := by
  induction n generalizing c with
  | zero => exact ⟨rfl, rfl⟩
  | succ n ih =>
      obtain ⟨rest, none⟩ := ih c.tick
      constructor
      · show (c.tick.tickTimes n).paid = _
        rw [rest, paid_tick, enteredIn, charged_append, Nat.add_assoc]
      · rw [enteredIn, lost_append, lost_entered, none]

/-! ## One command, and a run -/

/-- A command moves the cycles paid or due as its entries say. -/
theorem paid_apply (c : Processor β) (cmd : Command β) :
    (c.apply cmd).paid + lost (c.entries cmd) = c.paid + charged (c.entries cmd) := by
  cases cmd with
  | reset => rfl
  | tick =>
      obtain ⟨paid, none⟩ := paid_tickTimes 1 c
      exact none ▸ paid
  | advance t =>
      obtain ⟨paid, none⟩ := paid_tickTimes t.count c
      exact none ▸ paid
  | step =>
      obtain ⟨paid, none⟩ := paid_tickTimes c.step.1 c
      exact none ▸ paid
  | _ => rfl

/-- Over a run the cycles paid or due, and those dropped, make up those there were and those
    charged: by induction on the commands, as `paid_apply` says for each. -/
theorem paid_applyAll (c : Processor β) (cmds : List (Command β)) :
    (c.applyAll cmds).paid + lost (c.ledger cmds) = c.paid + charged (c.ledger cmds) := by
  induction cmds generalizing c with
  | nil => rfl
  | cons cmd cmds ih =>
      have first := paid_apply c cmd
      have rest := ih (c.apply cmd)
      show ((c.apply cmd).applyAll cmds).paid + _ = _
      rw [ledger, lost_append, charged_append]
      omega

/-! ## What was paid at each entry -/

/-- Each thing in a list of entries was begun once just what was charged before it was paid. -/
def Timed (paid : Nat) (l : List (Entry β)) : Prop :=
  ∀ before s after, l = before ++ .begun s :: after →
    s.elapsed + lost before = paid + charged before

/-- Where two lists of entries are timed, and the second starts at what the first has paid, they are
    timed as one. -/
theorem Timed.append {n n' : Nat} {l l' : List (Entry β)} (h : Timed n l) (h' : Timed n' l')
    (between : n' + lost l = n + charged l) : Timed n (l ++ l') := by
  intro before s after split
  rcases List.append_eq_append_iff.mp split with ⟨l₂, rfl, rest⟩ | ⟨l₂, rfl, rest⟩
  · have timed := h' l₂ s after rest
    rw [lost_append, charged_append]
    omega
  · cases l₂ with
    | nil =>
        have timed : s.elapsed = n' := h' [] s after rest.symm
        rw [timed, ← List.append_nil before]
        exact between
    | cons e l₂ =>
        obtain rfl := (List.cons.inj rest).1
        exact h before s l₂ rfl

theorem timed_nil (n : Nat) : Timed n ([] : List (Entry β)) := by
  intro before s after split
  exact absurd split.symm (List.append_ne_nil_of_right_ne_nil _ (List.cons_ne_nil _ _))

/-- What a tick begins is begun at what was paid until then. -/
theorem timed_entered (c : Processor β) : Timed c.paid c.entered := by
  rw [entered]
  split
  case isTrue boundary =>
      intro before s after split
      cases before with
      | nil =>
          obtain rfl := Entry.begun.inj (List.cons.inj split).1
          rw [paid, boundary]
          rfl
      | cons e before =>
          have rest := (List.cons.inj split).2
          exact absurd rest.symm (List.append_ne_nil_of_right_ne_nil _ (List.cons_ne_nil _ _))
  case isFalse => exact timed_nil c.paid

/-- What some ticks begin is timed: by induction on the ticks, each of which starts where the one
    before it left the account. -/
theorem timed_enteredIn (n : Nat) (c : Processor β) : Timed c.paid (c.enteredIn n) := by
  induction n generalizing c with
  | zero => exact timed_nil c.paid
  | succ n ih =>
      refine (timed_entered c).append (ih c.tick) ?_
      rw [lost_entered, paid_tick]
      rfl

/-- What a command begins is timed, and a reset begins nothing. -/
theorem timed_entries (c : Processor β) (cmd : Command β) : Timed c.paid (c.entries cmd) := by
  cases cmd with
  | reset =>
      intro before s after split
      cases before with
      | nil => exact nomatch (List.cons.inj split).1
      | cons e before =>
          have rest := (List.cons.inj split).2
          exact absurd rest.symm (List.append_ne_nil_of_right_ne_nil _ (List.cons_ne_nil _ _))
  | _ => exact timed_enteredIn _ c

/-- All that a run begins is timed. -/
theorem timed_ledger (c : Processor β) (cmds : List (Command β)) :
    Timed c.paid (c.ledger cmds) := by
  induction cmds generalizing c with
  | nil => exact timed_nil c.paid
  | cons cmd cmds ih => exact (timed_entries c cmd).append (ih (c.apply cmd)) (paid_apply c cmd)

/-! ## The log -/

/-- Of an instruction fetched the log has one line at trace level, documented or not. -/
theorem trace_fetch (opcode : Byte) (regs : Registers) (cycle : Nat) :
    ((Event.fetch opcode regs cycle).lines.filter fun l => l.level == .trace) =
      [⟨.trace, Event.traceMessage opcode regs cycle⟩] := by
  rw [Event.lines]
  split <;> rfl

/-- A tick logs a line for an instruction that it begins. -/
theorem traced_tick (c : Processor β) :
    c.tick.traced = c.traced ++ c.entered.filterMap traceLine? := by
  by_cases h : c.remaining = 0
  · rw [entered, if_pos h]
    cases turn : c.nextTurn with
    | service kind =>
        have silent : traceLine? (.begun c) = none := by
          rw [traceLine?, turn]
          rfl
        rw [tick_of_boundary h, begin_of_service turn, List.filterMap_cons_none silent]
        exact traced_cons (c := c) (.service kind c.regs.pc kind.vector _) rfl
    | instruction =>
        have line : traceLine? (.begun c) = some c.traceLine := by
          rw [traceLine?, turn]
          rfl
        rw [tick_of_boundary h, begin_of_instruction turn, List.filterMap_cons_some line]
        refine (traced_cons (c := c) (.fetch _ c.regs c.elapsed) rfl).trans ?_
        rw [trace_fetch]
        rfl
  · rw [entered, if_neg h, tick_of_busy (Nat.pos_of_ne_zero h)]
    exact (List.append_nil _).symm

/-- Ticks log a line for each instruction that they begin. -/
theorem traced_tickTimes (n : Nat) (c : Processor β) :
    (c.tickTimes n).traced = c.traced ++ (c.enteredIn n).filterMap traceLine? := by
  induction n generalizing c with
  | zero => exact (List.append_nil _).symm
  | succ n ih =>
      show (c.tick.tickTimes n).traced = _
      rw [ih, traced_tick, enteredIn, List.filterMap_append, List.append_assoc]

/-- A command logs a line for each instruction that it begins; a reset logs none at trace level. -/
theorem traced_apply (c : Processor β) (cmd : Command β) :
    (c.apply cmd).traced = c.traced ++ (c.entries cmd).filterMap traceLine? := by
  cases cmd with
  | reset => exact traced_cons (c := c) (.reset c.reset.regs.pc) rfl
  | tick => exact traced_tickTimes 1 c
  | advance t => exact traced_tickTimes t.count c
  | step => exact traced_tickTimes c.step.1 c
  | _ => exact (List.append_nil _).symm

/-- A run logs a line for each instruction that it begins, in order. -/
theorem traced_applyAll (c : Processor β) (cmds : List (Command β)) :
    (c.applyAll cmds).traced = c.traced ++ (c.ledger cmds).filterMap traceLine? := by
  induction cmds generalizing c with
  | nil => exact (List.append_nil _).symm
  | cons cmd cmds ih =>
      show ((c.apply cmd).applyAll cmds).traced = _
      rw [ih, traced_apply, ledger, List.filterMap_append, List.append_assoc]

/-! ## The log as a reader takes it -/

/-- At trace level all lines are shown. -/
theorem log_trace (events : List Event) :
    Event.log .trace events = (events.flatMap Event.lines).map Line.text := by
  have shown : ∀ l ∈ events.flatMap Event.lines, Level.trace.shows l.level = true := by
    intro l _
    rfl
  rw [Event.log, List.filter_eq_self.mpr shown]

omit [Bus β] in
/-- The lines that start with the word TRACE are those at trace level. -/
theorem filter_isTrace_log (c : Processor β) :
    (Event.log .trace c.journal.reverse).filter Told.isTrace = c.traced.map Line.text := by
  rw [log_trace, List.filter_map, traced]
  congr 2
  exact funext Told.isTrace_text

/-- The line for an entry is read as what is to be told of it. -/
theorem readTrace?_traceLine? (e : Entry β) :
    (traceLine? e).map (fun l => Told.readTrace? l.text) = (told? e).map some := by
  cases e with
  | dropped cycles => rfl
  | begun c =>
      rw [traceLine?, told?]
      split
      · exact congrArg some (Told.readTrace?_traceLine _ c.regs c.elapsed)
      · rfl

/-- From a log that starts with no instruction, a reader takes what is to be told of each entry, in
    order, and nothing else. -/
theorem readTrace?_logged {c : Processor β} (silent : c.traced = []) (cmds : List (Command β)) :
    ((Event.log .trace (c.applyAll cmds).journal.reverse).filter Told.isTrace).map
        Told.readTrace? =
      ((c.ledger cmds).filterMap told?).map some := by
  have each : (fun e : Entry β => (traceLine? e).map fun l => Told.readTrace? l.text) =
      fun e => (told? e).map some :=
    funext readTrace?_traceLine?
  rw [filter_isTrace_log, traced_applyAll, silent, List.nil_append, List.map_map,
    List.map_filterMap, List.map_filterMap]
  exact congrArg (List.filterMap · (c.ledger cmds)) each

/-- **Cycles balance.**  In every run from power-on, the count of ticks is that of the ticks made;
    what was charged is what ticks have paid, what is due and what resets dropped; whoever reads
    the log at trace level finds one line that starts with TRACE for each instruction begun, with
    the address, the opcode, the registers and the count that it found, in order, and none for an
    interrupt; and that count is what was charged before less what was dropped. -/
theorem cycles_balance (bus : β) (config : Config) (cmds : List (Command β)) :
    let c := (powerOn bus config).applyAll cmds
    let ledger := (powerOn bus config).ledger cmds
    c.elapsed = (powerOn bus config).ticksOfAll cmds ∧
      charged ledger = c.elapsed + c.remaining + lost ledger ∧
      ((Event.log .trace c.journal.reverse).filter Told.isTrace).map Told.readTrace? =
        (ledger.filterMap told?).map some ∧
      ∀ before s after, ledger = before ++ .begun s :: after →
        charged before = s.told.cycle + lost before := by
  intro c ledger
  refine ⟨?_, ?_, ?_, ?_⟩
  · exact (elapsed_applyAll _ cmds).trans (Nat.zero_add _)
  · exact ((paid_applyAll (powerOn bus config) cmds).trans (Nat.zero_add _)).symm
  · exact readTrace?_logged rfl cmds
  · intro before s after split
    have timed := timed_ledger (powerOn bus config) cmds before s after split
    exact (timed.trans (Nat.zero_add _)).symm

/-- A break that a reset cuts short after its first cycle, and the first cycle of an interrupt. -/
def abandonedBreak : List (Command Ram) := [.tick, .reset, .request .nmi, .tick]

/-- Fourteen cycles were charged: two are paid, six are due and six were dropped.  The break alone
    is in the log, with the registers of a reset, and the interrupt was begun at cycle one. -/
theorem cycles_balance_abandoned :
    let start := powerOn (.blank 2) {}
    let again := start.applyAll [.tick, .reset, .request .nmi]
    let lines := Event.log .trace (start.applyAll abandonedBreak).journal.reverse
    start.ledger abandonedBreak = [.begun start, .dropped 6] ++ .begun again :: [] ∧
      charged (start.ledger abandonedBreak) = 2 + 6 + 6 ∧
      (lines.filter Told.isTrace).map Told.readTrace? = [some ⟨0, 0, 0, 0, 0, 0x24, 0xFD, 0⟩] ∧
      7 = again.elapsed + 6 := by
  intro start again lines
  have left : start.tick.remaining = 6 := by decide
  have entries : start.ledger abandonedBreak = [.begun start, .dropped 6] ++ .begun again :: [] := by
    rw [← left]
    rfl
  obtain ⟨-, balance, log, timed⟩ := cycles_balance (.blank 2) {} abandonedBreak
  have charges : charged (start.ledger abandonedBreak) = 2 + 6 + 6 := by
    rw [balance]
    decide
  have found : start.told = ⟨0, 0, 0, 0, 0, 0x24, 0xFD, 0⟩ := by decide
  have told : (start.ledger abandonedBreak).filterMap told? = [start.told] := by
    rw [entries]
    rfl
  have early : 7 = again.elapsed + 6 := timed _ _ _ entries
  refine ⟨entries, charges, log.trans ?_, early⟩
  rw [told, found]
  rfl

end Processor

end Micro6502
