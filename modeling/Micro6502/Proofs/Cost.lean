import Micro6502.Proofs.Clock

/-! # Costs — two cycles at least, seven at most

    What is begun at a boundary costs its base count, a cycle where indexing
    leaves a page and the operation pays for that, and one or two where a
    branch is taken.

    * `extraCycles_resolve_le` and `cost_branch_le` bound what comes on top;
    * with that on top, no entry of the opcode table leaves the range
      (`Opcode.cycles_range`), so neither does what a tick begins
      (`begin_cost_range`), whatever the bus answers;
    * so a step where the program goes on is the instruction that is due, at
      its cost (`step_of_instruction`), and the operation alone where that
      has no operand bytes (`step_of_implied`). -/

namespace Micro6502

/-- Whether a mode adds an index to a full address, and so may leave its page. -/
def Mode.leavesPage : Mode → Bool
  | .absoluteX | .absoluteY | .indirectY => true
  | _ => false

/-- The most cycles that an instruction can take. -/
def Descriptor.mostCycles (d : Descriptor) : Nat :=
  d.cycles + (d.operation.chargesPageCrossing && d.mode.leavesPage).toNat
    + 2 * d.operation.isBranch.toNat

/-- Every opcode takes two cycles at least, and seven at most with all that may be added. -/
theorem Opcode.cycles_range (opcode : Byte) :
    2 ≤ (decode opcode).cycles ∧ (decode opcode).mostCycles ≤ 7 :=
  decode_of_forall (P := fun d => 2 ≤ d.cycles ∧ d.mostCycles ≤ 7) (by decide +kernel)
    (fun mode => by cases mode <;> decide) opcode

namespace Machine

variable {β : Type}

/-- A branch adds two cycles at most. -/
theorem cost_branch_le (m : Machine β) (o : Operand) (taken : Bool) :
    (m.branch o taken).1 ≤ 2 := by
  cases taken with
  | false => exact Nat.zero_le 2
  | true => exact Nat.add_le_add_left (Bool.toNat_le _) 1

variable [Bus β]

/-- Only a mode that may leave a page adds a cycle, and one at most. -/
theorem extraCycles_resolve_le (mode : Mode) (m : Machine β) :
    (m.resolve mode).1.extraCycles ≤ mode.leavesPage.toNat := by
  cases mode with
  | absoluteX | absoluteY | indirectY => exact Bool.toNat_le _
  | _ => exact Nat.le_refl 0

/-- Only a branch costs more than its base count and a page crossing. -/
theorem cost_execute_le (bcd : Bool) (op : Operation) (o : Operand) (m : Machine β) :
    (m.execute bcd op o).1 ≤ 2 * op.isBranch.toNat := by
  cases op with
  | bcc | bcs | beq | bmi | bne | bpl | bvc | bvs => exact cost_branch_le m o _
  | _ => exact Nat.le_refl 0

/-- The cost of an instruction is that of its opcode, what its mode adds if the operation charges
    for that, and what the operation adds. -/
theorem cost_runDecoded (bcd : Bool) (d : Descriptor) (m : Machine β) :
    (m.runDecoded bcd d).1 =
      d.cycles + (if d.operation.chargesPageCrossing then (m.resolve d.mode).1.extraCycles else 0)
        + ((m.resolve d.mode).2.execute bcd d.operation (m.resolve d.mode).1.operand).1 := rfl

/-- The cost of an instruction is between the least and the most that its opcode says. -/
theorem cost_runDecoded_range (bcd : Bool) (d : Descriptor) (m : Machine β) :
    d.cycles ≤ (m.runDecoded bcd d).1 ∧ (m.runDecoded bcd d).1 ≤ d.mostCycles := by
  have page := extraCycles_resolve_le d.mode m
  have taken := cost_execute_le bcd d.operation (m.resolve d.mode).1.operand (m.resolve d.mode).2
  rw [cost_runDecoded, Descriptor.mostCycles]
  cases d.operation.chargesPageCrossing with
  | false =>
      rw [if_neg Bool.false_ne_true, Bool.false_and, Bool.toNat_false]
      omega
  | true =>
      rw [if_pos rfl, Bool.true_and]
      omega

end Machine

namespace Processor

variable {β : Type} [Bus β]

/-- Whatever is begun at a boundary costs between two cycles and seven. -/
theorem begin_cost_range (c : Processor β) : 2 ≤ c.begin.1 ∧ c.begin.1 ≤ 7 := by
  cases turn : c.nextTurn with
  | service kind =>
      rw [begin_of_service turn]
      exact ⟨Nat.le_of_ble_eq_true rfl, Nat.le_refl 7⟩
  | instruction =>
      have table := Opcode.cycles_range c.toMachine.fetchOpcode.1
      have ran := Machine.cost_runDecoded_range c.config.variant.hasDecimal
        (Opcode.decode c.toMachine.fetchOpcode.1) c.toMachine.fetchOpcode.2
      rw [begin_of_instruction turn]
      exact ⟨Nat.le_trans table.1 ran.1, Nat.le_trans ran.2 table.2⟩

/-- A step at a boundary where the program goes on is one instruction of it. -/
theorem step_of_instruction {c : Processor β} (boundary : c.remaining = 0)
    (turn : c.nextTurn = .instruction) :
    (c.step.1, c.step.2.toMachine) =
      c.toMachine.fetchOpcode.2.runDecoded c.config.variant.hasDecimal
        (Opcode.decode c.toMachine.fetchOpcode.1) := by
  have cost : 0 < c.begin.1 := Nat.lt_of_lt_of_le Nat.zero_lt_two (begin_cost_range c).1
  rw [step_of_boundary boundary cost, begin_of_instruction turn]
  rfl

/-- A step at an instruction without operand bytes is its operation, on the accumulator. -/
theorem step_of_implied {c : Processor β} (boundary : c.remaining = 0)
    (turn : c.nextTurn = .instruction) {op : Operation} {cycles : Nat}
    (due : Opcode.decode c.toMachine.fetchOpcode.1 = ⟨op, .implied, cycles, true⟩) :
    let done := c.toMachine.fetchOpcode.2.execute c.config.variant.hasDecimal op .accumulator
    c.step.1 = cycles + done.1 ∧ c.step.2.toMachine = done.2 := by
  intro done
  have ran := step_of_instruction boundary turn
  rw [due] at ran
  obtain ⟨cost, after⟩ := Prod.mk.inj ran
  refine ⟨cost.trans ?_, after⟩
  show cycles + (if op.chargesPageCrossing then 0 else 0) + done.1 = _
  rw [ite_self, Nat.add_zero]

end Processor

end Micro6502
