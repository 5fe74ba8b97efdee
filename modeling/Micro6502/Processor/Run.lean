import Micro6502.Processor
import Micro6502.Ticks

/-! # Runs — many ticks at a time

    A step is what is left of the current instruction, or a whole one at a
    boundary: the first tick settles how many cycles there are, and the rest
    follow.  All longer runs are made of ticks and steps.

    `step` is written by what it comes to.  That this is the loop that ticks
    and counts until nothing remains is `step_eq_loop` (Proofs/Clock), and
    `stepLoop?_eq` (Proofs/Countdown) for the loop on machine words. -/

namespace Micro6502.Processor

variable {β : Type} [Bus β]

/-- So many ticks. -/
def tickTimes : (n : Nat) → Processor β → Processor β
  | 0, c => c
  | n + 1, c => tickTimes n c.tick

/-- Two runs of ticks are one of their sum. -/
theorem tickTimes_add (a b : Nat) (c : Processor β) :
    c.tickTimes (a + b) = (c.tickTimes a).tickTimes b := by
  induction a generalizing c with
  | zero => rw [Nat.zero_add]; rfl
  | succ a ih => rw [Nat.succ_add]; exact ih _

/-- As many ticks as counted. -/
def advance (t : Ticks) (c : Processor β) : Processor β :=
  c.tickTimes t.count

/-- Ticks to the next boundary, one at least; gives how many (as a loop: `step_eq_loop`). -/
def step (c : Processor β) : Nat × Processor β :=
  let c := c.tick
  (c.remaining + 1, c.tickTimes c.remaining)

/-- So many steps; gives what each took, in order. -/
def steps : (n : Nat) → Processor β → List Nat × Processor β
  | 0, c => ([], c)
  | n + 1, c =>
      let first := c.step
      let rest := steps n first.2
      (first.1 :: rest.1, rest.2)

end Micro6502.Processor
