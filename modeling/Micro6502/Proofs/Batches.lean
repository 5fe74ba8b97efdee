import Mathlib.Algebra.Ring.Nat
import Micro6502.Bus.Monitor
import Micro6502.Bus.Ram
import Micro6502.Proofs.Clock

/-! # Batches — a host that counts ticks sees the boundaries of one that steps

    A host may step from boundary to boundary, or tick as many times as it
    likes.  What the steps of a run cost says where the boundaries of the
    ticks are: after the first of them, after the first two, and so on, and
    nowhere between.  The route:

    * before a step is over no tick of it comes to a boundary
      (`remaining_tickTimes_of_lt_step`);
    * some steps are as many ticks as they cost (`tickTimes_costs`), and the
      first of some steps are those steps alone (`take_costs`), so the ticks
      of a batch can be cut at the end of any step.

    That a step itself is ticks until nothing remains, one at least, is
    `step_eq_loop`, and on machine words `stepLoop?_eq`. -/

namespace Micro6502.Processor

variable {β : Type} [Bus β]

/-! ## What some steps cost -/

theorem length_costs (k : Nat) (c : Processor β) : (c.steps k).1.length = k := by
  induction k generalizing c with
  | zero => rfl
  | succ k ih => exact congrArg Nat.succ (ih c.step.2)

/-- Some steps are as many ticks as they cost. -/
theorem tickTimes_costs (k : Nat) (c : Processor β) :
    c.tickTimes (c.steps k).1.sum = (c.steps k).2 := by
  induction k generalizing c with
  | zero => rfl
  | succ k ih =>
      show c.tickTimes (c.step.1 :: (c.step.2.steps k).1).sum = (c.step.2.steps k).2
      rw [List.sum_cons, tickTimes_add, ← step_eq_tickTimes, ih]

/-- The first of some steps cost what they cost alone. -/
theorem take_costs {i k : Nat} (part : i ≤ k) (c : Processor β) :
    (c.steps k).1.take i = (c.steps i).1 := by
  induction i generalizing c k with
  | zero => rfl
  | succ i ih =>
      obtain ⟨n, rfl⟩ : ∃ n, k = n + 1 := ⟨k - 1, by omega⟩
      exact congrArg (c.step.1 :: ·) (ih (Nat.le_of_succ_le_succ part) c.step.2)

/-- One step more is a step from where the others lead. -/
theorem steps_succ (k : Nat) (c : Processor β) :
    c.steps (k + 1) = ((c.steps k).1 ++ [(c.steps k).2.step.1], (c.steps k).2.step.2) := by
  induction k generalizing c with
  | zero => rfl
  | succ k ih =>
      show (c.step.1 :: (c.step.2.steps (k + 1)).1, (c.step.2.steps (k + 1)).2) = _
      rw [ih c.step.2]
      rfl

/-! ## Where the boundaries are -/

/-- A step stops at the first boundary that its ticks come to. -/
theorem remaining_tickTimes_of_lt_step {n : Nat} {c : Processor β} (begun : 0 < n)
    (short : n < c.step.1) : (c.tickTimes n).remaining ≠ 0 := by
  obtain ⟨k, rfl⟩ : ∃ k, n = k + 1 := ⟨n - 1, by omega⟩
  have left : k < c.tick.remaining := by
    rw [step_eq] at short
    exact Nat.lt_of_succ_lt_succ short
  show (c.tick.tickTimes k).remaining ≠ 0
  rw [tickTimes_of_le (Nat.le_of_lt left), remaining_countDown]
  omega

/-- The first ticks of a batch that are whole steps end at a boundary. -/
theorem remaining_at_sum {i k : Nat} (begun : 0 < i) (part : i ≤ k) (c : Processor β) :
    (c.tickTimes ((c.steps k).1.take i).sum).remaining = 0 := by
  obtain ⟨j, rfl⟩ : ∃ j, i = j + 1 := ⟨i - 1, by omega⟩
  rw [take_costs part, tickTimes_costs, steps_succ]
  exact remaining_step (c.steps j).2

/-- Those that end inside a step do not. -/
theorem remaining_between_sums {i k n : Nat} (part : i < k) (c : Processor β)
    (after : ((c.steps k).1.take i).sum < n) (before : n < ((c.steps k).1.take (i + 1)).sum) :
    (c.tickTimes n).remaining ≠ 0 := by
  rw [take_costs (Nat.le_of_lt part)] at after
  rw [take_costs part, steps_succ, List.sum_append, List.sum_singleton] at before
  obtain ⟨more, rfl⟩ : ∃ more, n = (c.steps i).1.sum + more := ⟨n - (c.steps i).1.sum, by omega⟩
  rw [tickTimes_add, tickTimes_costs]
  exact remaining_tickTimes_of_lt_step (by omega) (by omega)

/-- **Steps are ticks in batches.**  From every processor on every bus, at a boundary or inside an
    instruction, some steps lead where as many ticks lead as they cost in all, made in one batch:
    the processor, its bus and its count of ticks are the same, and so are the accesses that a
    monitor on the bus saw.  On the way the ticks are at a boundary where one of the steps ends, and
    nowhere between.  Two batches are one of their sum, where that is a count of ticks.  (A step is
    the loop of `step_eq_loop` and, on machine words, of `stepLoop?_eq`.) -/
theorem stepping_is_ticking_in_batches :
    (∀ (c : Processor β) (k : Nat),
      let costs := (c.steps k).1
      costs.length = k ∧
      (c.steps k).2.elapsed = c.elapsed + costs.sum ∧
      (∀ t : Ticks, t.count = costs.sum →
        c.advance t = (c.steps k).2 ∧ (c.advance t).elapsed = c.elapsed + costs.sum) ∧
      (∀ i, 0 < i → i ≤ k → (c.tickTimes (costs.take i).sum).remaining = 0) ∧
      ∀ i < k, ∀ n, (costs.take i).sum < n → n < (costs.take (i + 1)).sum →
        (c.tickTimes n).remaining ≠ 0) ∧
    (∀ (c : Processor (Monitor β)) (k : Nat) (t : Ticks), t.count = (c.steps k).1.sum →
      (c.advance t).bus.accesses = (c.steps k).2.bus.accesses) ∧
    ∀ (c : Processor β) (a b sum : Ticks), a.add b = .ok sum →
      (c.advance a).advance b = c.advance sum := by
  refine ⟨?_, ?_, ?_⟩
  · intro c k costs
    have total : (c.tickTimes costs.sum).elapsed = c.elapsed + costs.sum := elapsed_tickTimes _ c
    have ends : c.tickTimes costs.sum = (c.steps k).2 := tickTimes_costs k c
    refine ⟨length_costs k c, ends ▸ total, ?_, ?_, ?_⟩
    · intro t count
      rw [advance, count]
      exact ⟨ends, total⟩
    · exact fun i begun part => remaining_at_sum begun part c
    · exact fun i part n after before => remaining_between_sums part c after before
  · intro c k t count
    rw [advance, count, tickTimes_costs]
  · intro c a b sum fits
    rw [advance, advance, advance, (Ticks.add_eq_ok_iff a b sum).mp fits, tickTimes_add]

/-- A processor inside a NOP at address zero, with an NMI latched. -/
def insideNop : Processor (Monitor Ram) :=
  (powerOn (.attach ((Ram.blank 1).load 0 [0xEA#8])) {}).tick.request .nmi

/-- One tick ends the NOP, seven enter the interrupt, whose vector leads to the NOP again, and two
    run it; a host that makes three ticks and then seven comes by no boundary but these. -/
theorem stepping_is_ticking_in_batches_interrupted :
    let three : Ticks := ⟨3, by decide⟩
    let seven : Ticks := ⟨7, by decide⟩
    let ten : Ticks := ⟨10, by decide⟩
    insideNop.remaining = 1 ∧ (insideNop.steps 3).1 = [1, 7, 2] ∧
      insideNop.advance ten = (insideNop.steps 3).2 ∧ (insideNop.advance ten).elapsed = 11 ∧
      (insideNop.tickTimes 8).remaining = 0 ∧ (insideNop.tickTimes 3).remaining ≠ 0 ∧
      (insideNop.advance ten).bus.accesses = (insideNop.steps 3).2.bus.accesses ∧
      three.add seven = .ok ten ∧
      (insideNop.advance three).advance seven = insideNop.advance ten := by
  intro three seven ten
  have costs : (insideNop.steps 3).1 = [1, 7, 2] := by decide
  have count : ten.count = (insideNop.steps 3).1.sum := by
    rw [costs]
    rfl
  obtain ⟨runs, -, join⟩ := stepping_is_ticking_in_batches (β := Monitor Ram)
  obtain ⟨-, seen, -⟩ := stepping_is_ticking_in_batches (β := Ram)
  obtain ⟨-, -, batch, ends, inside⟩ := runs insideNop 3
  obtain ⟨state, elapsed⟩ := batch ten count
  rw [costs] at ends inside elapsed
  exact ⟨by decide, costs, state, elapsed, ends 2 (by decide) (by decide),
    inside 1 (by decide) 3 (by decide) (by decide), seen insideNop 3 ten count, rfl,
    join insideNop three seven ten rfl⟩

end Micro6502.Processor
