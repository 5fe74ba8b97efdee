import Micro6502.Bus.Ram
import Micro6502.Proofs.Checked

/-! # The countdown — it never underflows, and a step always ends

    On a clock of machine words a tick adds to a count of 64 bits, takes one
    from a countdown of 32, and logs the count before it as a difference.
    `tick?` is that tick, `stepLoop?` the loop that a step is, and
    `commands?` a run, each refused where a word would overflow.  The route:

    * what is begun costs two cycles at least and is never refused
      (`begin?_eq`), so a tick is refused only where the count of ticks does
      not fit (`tick?_eq`);
    * the loop ends after as many passes as the step takes, which are seven
      at most (`stepLoop?_eq`, `step_le`);
    * hence so is a run, from power-on under every host (`commands?_eq`). -/

namespace Micro6502.Processor

variable {β : Type}

/-- A processor whose count of ticks fits in 64 bits. -/
def inCount (c : Processor β) : Option (Processor β) :=
  if c.elapsed < 2 ^ 64 then some c else none

theorem inCount_of_le {c d : Processor β} (h : 2 ^ 64 ≤ c.elapsed) (later : c.elapsed ≤ d.elapsed) :
    d.inCount = none :=
  if_neg (Nat.not_lt.mpr (Nat.le_trans h later))

theorem inCount_of_lt {c : Processor β} (h : c.elapsed < 2 ^ 64) : c.inCount = some c :=
  if_pos h

variable [Bus β]

/-! ## A tick on machine words -/

/-- Runs an instruction in the tick that brought the count to `total`; gives its cost. -/
def instruction? (total : Nat) (c : Processor β) : Option (Nat × Processor β) := do
  let fetched := c.toMachine.fetchOpcode
  let d ← Opcode.table[fetched.1.toNat]?
  let cycle ← minus? total 1
  let done ← fetched.2.runDecoded? c.config.variant.hasDecimal d
  return (done.1,
    { c with toMachine := done.2, journal := .fetch fetched.1 c.regs cycle :: c.journal })

/-- What is due at a boundary, in the tick that brought the count to `total`; gives its cost. -/
def begin? (total : Nat) (c : Processor β) : Option (Nat × Processor β) :=
  match c.nextTurn with
  | .service kind => some (c.service kind)
  | .instruction => c.instruction? total

/-- One cycle. -/
def tick? (c : Processor β) : Option (Processor β) := do
  let total ← unsigned? 64 (c.elapsed + 1)
  if c.remaining = 0 then
    let due ← c.begin? total
    let left ← minus? due.1 1
    return { due.2 with remaining := left, elapsed := total }
  else
    let left ← minus? c.remaining 1
    return { c with remaining := left, elapsed := total }

/-- So many ticks. -/
def tickTimes? : (n : Nat) → Processor β → Option (Processor β)
  | 0, c => some c
  | n + 1, c => c.tick? >>= tickTimes? n

/-- The loop of a step: ticks until nothing remains, each counted at 32 bits from `ticks` on; it
    is given up after so many passes. -/
def stepLoop? : (passes ticks : Nat) → Processor β → Option (Nat × Processor β)
  | 0, _, _ => none
  | passes + 1, ticks, c => do
      let c ← c.tick?
      let ticks ← unsigned? 32 (ticks + 1)
      if c.remaining = 0 then return (ticks, c) else c.stepLoop? passes ticks

/-- The processor after a command; a step that is not done after seven passes is given up. -/
def command? (c : Processor β) : Command β → Option (Processor β)
  | .tick => c.tick?
  | .advance t => c.tickTimes? t.count
  | .step => (c.stepLoop? 7 0).map Prod.snd
  | cmd => some (c.apply cmd)

/-- The processor after some commands, in order. -/
def commands? (c : Processor β) : List (Command β) → Option (Processor β)
  | [] => some c
  | cmd :: cmds => c.command? cmd >>= fun c => c.commands? cmds

/-! ## What is refused -/

theorem instruction?_eq (c : Processor β) : c.instruction? (c.elapsed + 1) = some c.instruction := by
  rw [instruction?, Opcode.table_getElem?, Option.bind_eq_bind, Option.bind_some,
    minus?_bind _ (Nat.le_add_left 1 _), Machine.runDecoded?_eq]
  rfl

/-- What is due at a boundary is never refused. -/
theorem begin?_eq (c : Processor β) : c.begin? (c.elapsed + 1) = some c.begin := by
  cases turn : c.nextTurn with
  | service kind => rw [begin?, turn, begin_of_service turn]
  | instruction =>
      rw [begin?, turn, begin_of_instruction turn]
      exact instruction?_eq c

/-- A tick is refused only where the count of ticks does not fit. -/
theorem tick?_eq (c : Processor β) : c.tick? = c.tick.inCount := by
  rw [inCount, elapsed_tick]
  by_cases fits : c.elapsed + 1 < 2 ^ 64
  · rw [if_pos fits, tick?, unsigned?_bind _ fits]
    by_cases h : c.remaining = 0
    · rw [if_pos h, begin?_eq, tick_of_boundary h, elapsed_begin]
      exact minus?_bind _ (Nat.le_of_succ_le (begin_cost_range c).1)
    · rw [if_neg h, tick_of_busy (Nat.pos_of_ne_zero h)]
      exact minus?_bind _ (Nat.pos_of_ne_zero h)
  · rw [if_neg fits, tick?, unsigned?, if_neg fits]
    rfl

theorem tickTimes?_eq (n : Nat) {c : Processor β} (h : c.elapsed < 2 ^ 64) :
    c.tickTimes? n = (c.tickTimes n).inCount := by
  induction n generalizing c with
  | zero => exact (inCount_of_lt h).symm
  | succ n ih =>
      rw [tickTimes?, tick?_eq]
      by_cases fits : c.tick.elapsed < 2 ^ 64
      · rw [inCount_of_lt fits]
        exact ih fits
      · have later : c.tick.elapsed ≤ (c.tick.tickTimes n).elapsed := by
          rw [elapsed_tickTimes]
          exact Nat.le_add_right ..
        have big := Nat.le_of_not_lt fits
        rw [inCount_of_le big (Nat.le_refl _)]
        exact (inCount_of_le big later).symm

/-- A step is refused only where its ticks do not fit; its loop ends by itself. -/
theorem stepLoop?_eq {passes : Nat} (ticks : Nat) {c : Processor β} (enough : c.step.1 ≤ passes)
    (small : ticks + passes < 2 ^ 32) :
    c.stepLoop? passes ticks = c.step.2.inCount.map fun d => (ticks + c.step.1, d) := by
  induction passes generalizing ticks c with
  | zero =>
      rw [step_eq] at enough
      exact absurd enough (Nat.not_succ_le_zero _)
  | succ passes ih =>
      have counted : ticks + 1 < 2 ^ 32 := by omega
      rw [stepLoop?, tick?_eq]
      by_cases fits : c.tick.elapsed < 2 ^ 64
      · rw [inCount_of_lt fits, Option.bind_eq_bind, Option.bind_some, unsigned?_bind _ counted]
        rw [step_eq_loop] at enough ⊢
        by_cases last : c.tick.remaining = 0
        · rw [if_pos last, if_pos last, inCount_of_lt fits]
          rfl
        · -- the passes after the first are those of a step inside the instruction
          rw [if_neg last] at enough ⊢
          rw [if_neg last, ih (ticks + 1) (Nat.le_of_succ_le_succ enough) (by omega)]
          rw [Nat.add_assoc, Nat.add_comm 1]
      · have later : c.tick.elapsed ≤ c.step.2.elapsed := by
          rw [step_eq, elapsed_countDown]
          exact Nat.le_add_right ..
        have big := Nat.le_of_not_lt fits
        rw [inCount_of_le big (Nat.le_refl _), inCount_of_le big later]
        rfl

/-! ## Every run -/

theorem remaining_tick_le {c : Processor β} (h : c.remaining ≤ 6) : c.tick.remaining ≤ 6 := by
  by_cases h0 : c.remaining = 0
  · have cost := (begin_cost_range c).2
    rw [tick_of_boundary h0]
    exact Nat.sub_le_of_le_add cost
  · rw [tick_of_busy (Nat.pos_of_ne_zero h0), remaining_countDown]
    omega

theorem remaining_tickTimes_le {c : Processor β} (n : Nat) (h : c.remaining ≤ 6) :
    (c.tickTimes n).remaining ≤ 6 := by
  induction n generalizing c with
  | zero => exact h
  | succ n ih => exact ih (remaining_tick_le h)

/-- No command brings the countdown above six. -/
theorem remaining_apply_le {c : Processor β} (cmd : Command β) (h : c.remaining ≤ 6) :
    (c.apply cmd).remaining ≤ 6 := by
  cases cmd with
  | tick => exact remaining_tick_le h
  | advance t => exact remaining_tickTimes_le t.count h
  | step => exact remaining_tickTimes_le c.step.1 h
  | reset => exact Nat.zero_le 6
  | request kind => exact h
  | setRegisters r => exact h
  | setFlag f v => exact h
  | alterBus f => exact h

theorem remaining_applyAll_le {c : Processor β} (cmds : List (Command β)) (h : c.remaining ≤ 6) :
    (c.applyAll cmds).remaining ≤ 6 := by
  induction cmds generalizing c with
  | nil => exact h
  | cons cmd cmds ih => exact ih (remaining_apply_le cmd h)

theorem step_of_idle_range {c : Processor β} (h : c.remaining = 0) :
    2 ≤ c.step.1 ∧ c.step.1 ≤ 7 := by
  have cost := begin_cost_range c
  rw [step_of_boundary h (Nat.lt_of_lt_of_le Nat.zero_lt_two cost.1)]
  exact cost

theorem step_le {c : Processor β} (h : c.remaining ≤ 6) : c.step.1 ≤ 7 := by
  rw [step_eq]
  exact Nat.succ_le_succ (remaining_tick_le h)

/-- The loop of a step ends within seven passes. -/
theorem stepLoop?_seven {c : Processor β} (h : c.remaining ≤ 6) :
    c.stepLoop? 7 0 = if c.elapsed + c.step.1 < 2 ^ 64 then some c.step else none := by
  have ticks : c.step.2.elapsed = c.elapsed + c.step.1 := elapsed_apply c .step
  rw [stepLoop?_eq 0 (step_le h) (by decide), inCount, ticks, Nat.zero_add]
  split <;> rfl

theorem command?_eq {c : Processor β} (cmd : Command β) (small : c.remaining ≤ 6)
    (fits : c.elapsed < 2 ^ 64) : c.command? cmd = (c.apply cmd).inCount := by
  cases cmd with
  | tick => exact tick?_eq c
  | advance t => exact tickTimes?_eq t.count fits
  | step =>
      rw [command?, stepLoop?_eq 0 (step_le small) (by decide), Option.map_map]
      exact congrFun Option.map_id _
  | request kind => exact (inCount_of_lt (c := c.request kind) fits).symm
  | reset => exact (inCount_of_lt (c := c.reset) fits).symm
  | setRegisters r => exact (inCount_of_lt (c := c.setRegisters r) fits).symm
  | setFlag f v => exact (inCount_of_lt (c := c.setFlag f v) fits).symm
  | alterBus f => exact (inCount_of_lt (c := c.alterBus f) fits).symm

theorem elapsed_le_applyAll (c : Processor β) (cmds : List (Command β)) :
    c.elapsed ≤ (c.applyAll cmds).elapsed := by
  induction cmds generalizing c with
  | nil => exact Nat.le_refl _
  | cons cmd cmds ih =>
      have first : c.elapsed ≤ (c.apply cmd).elapsed := by
        rw [elapsed_apply]
        exact Nat.le_add_right ..
      exact Nat.le_trans first (ih (c.apply cmd))

/-- A run is refused only where its count of ticks does not fit. -/
theorem commands?_eq {c : Processor β} (cmds : List (Command β)) (small : c.remaining ≤ 6)
    (fits : c.elapsed < 2 ^ 64) : c.commands? cmds = (c.applyAll cmds).inCount := by
  induction cmds generalizing c with
  | nil => exact (inCount_of_lt fits).symm
  | cons cmd cmds ih =>
      rw [commands?, command?_eq cmd small fits]
      by_cases first : (c.apply cmd).elapsed < 2 ^ 64
      · rw [inCount_of_lt first]
        exact ih (remaining_apply_le cmd small) first
      · have big := Nat.le_of_not_lt first
        rw [inCount_of_le big (Nat.le_refl _)]
        exact (inCount_of_le big (elapsed_le_applyAll (c.apply cmd) cmds)).symm

/-- **The countdown is safe.**  On every bus and under every host, from power-on, the countdown
    never passes six and no sum, difference or table look-up of the clock and of what it begins is
    refused, as long as the count of ticks fits; what is begun costs two to seven cycles; the loop
    of a step ends, giving what is left of an instruction or the cost of a whole one, at a boundary;
    and the shift to the bit of a flag stays in its byte. -/
theorem countdown_is_safe :
    (∀ (bus : β) (config : Config) (cmds : List (Command β)),
      let c := (powerOn bus config).applyAll cmds
      c.remaining ≤ 6 ∧
        (powerOn bus config).commands? cmds = (if c.elapsed < 2 ^ 64 then some c else none) ∧
        c.stepLoop? 7 0 = if c.elapsed + c.step.1 < 2 ^ 64 then some c.step else none) ∧
    (∀ c : Processor β, 2 ≤ c.begin.1 ∧ c.begin.1 ≤ 7) ∧
    (∀ c : Processor β, 0 < c.remaining → c.step.1 = c.remaining) ∧
    (∀ c : Processor β, c.remaining = 0 → 2 ≤ c.step.1 ∧ c.step.1 ≤ 7) ∧
    (∀ c : Processor β, c.step.2.remaining = 0) ∧
    (∀ f : Flag, f.bit < 8) := by
  refine ⟨?_, begin_cost_range, ?_, ?_, remaining_step, Flag.bit_lt⟩
  · intro bus config cmds c
    have small : c.remaining ≤ 6 := remaining_applyAll_le cmds (Nat.zero_le 6)
    exact ⟨small, commands?_eq cmds (Nat.zero_le 6) (Nat.two_pow_pos 64), stepLoop?_seven small⟩
  · intro c busy
    rw [step_of_busy busy]
  · intro c idle
    exact step_of_idle_range idle

/-- A host that loads the registers in the middle of a break and puts a shift of seven cycles where
    the program then is. -/
def disturbedBreak : List (Command Ram) :=
  [.tick, .setRegisters { Registers.new with x := 0x90#8 },
    .alterBus fun bus => bus.load 0 [0x1E#8, 0x90#8, 0xFF#8]]

/-- Six cycles are left of the break, and the shift after it takes seven. -/
theorem countdown_is_safe_disturbed :
    let c := (powerOn (.blank 3) {}).applyAll disturbedBreak
    c.remaining = 6 ∧ c.step.1 = 6 ∧ c.stepLoop? 7 0 = some c.step ∧
      c.step.2.remaining = 0 ∧ c.step.2.step.1 = 7 ∧ c.step.2.step.1 ≤ 7 := by
  intro c
  obtain ⟨runs, -, busy, idle, done, -⟩ := countdown_is_safe (β := Ram)
  have left : c.remaining = 6 := by decide
  have ticks : c.elapsed = 1 := by decide
  have cost : c.step.1 = 6 := (busy c (by rw [left]; decide)).trans left
  have loop := (runs (.blank 3) {} disturbedBreak).2.2
  refine ⟨left, cost, loop.trans (if_pos ?_), done c, ?_, (idle _ (done c)).2⟩
  · show c.elapsed + c.step.1 < 2 ^ 64
    rw [ticks, cost]
    decide
  · decide

end Micro6502.Processor
