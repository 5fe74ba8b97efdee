import Micro6502.Bus.Monitor
import Micro6502.Bus.Ram
import Micro6502.Proofs.Lockstep

/-! # The variants — one processor but for decimal arithmetic

    A variant is looked at in one place, where an addition or a subtraction
    decides whether it is decimal, and the decimal flag is looked at there
    too.  So where the flag is clear the variants compute alike
    (`Machine.execute_of_binary`), and where neither operation is due the
    flag makes no difference.  The route:

    * a processor begins what it would begin as the other variant, unless
      that is decimal arithmetic (`begin_asVariant`);
    * to be the other variant is a relation that whatever else happens
      keeps (`lockstep_asVariant`), so it holds over runs. -/

namespace Micro6502

/-- Whether an operation is one that decimal arithmetic is about. -/
def Operation.isArithmetic : Operation → Bool
  | .adc | .sbc => true
  | _ => false

namespace Alu

/-- With D clear a sum does not depend on whether there is a decimal mode. -/
theorem add_of_binary {p : Status} (binary : p.get .decimal = false) (bcd : Bool) (a b : Byte) :
    add bcd a b p = add false a b p := by
  rw [add, add, isDecimal, isDecimal, binary, Bool.and_false, Bool.false_and]

theorem sub_of_binary {p : Status} (binary : p.get .decimal = false) (bcd : Bool) (a b : Byte) :
    sub bcd a b p = sub false a b p := by
  rw [sub, sub, isDecimal, isDecimal, binary, Bool.and_false, Bool.false_and]

end Alu

namespace Machine

variable {β : Type} [Bus β]

/-- Unless an operation is decimal arithmetic, it does the same on a part that has none. -/
theorem execute_of_binary (bcd : Bool) {op : Operation} (o : Operand) {m : Machine β}
    (binary : op.isArithmetic = true → m.regs.p.get .decimal = false) :
    m.execute bcd op o = m.execute false op o := by
  cases op with
  | adc =>
      rw [execute, execute, Operation.effect, Operation.effect, perform_load, perform_load,
        Alu.add_of_binary (binary rfl)]
  | sbc =>
      rw [execute, execute, Operation.effect, Operation.effect, perform_load, perform_load,
        Alu.sub_of_binary (binary rfl)]
  | _ => rfl

/-- So does an instruction. -/
theorem runDecoded_of_binary (bcd : Bool) {d : Descriptor} {m : Machine β}
    (binary : d.operation.isArithmetic = true → m.regs.p.get .decimal = false) :
    m.runDecoded bcd d = m.runDecoded false d := by
  have ready : d.operation.isArithmetic = true →
      (m.resolve d.mode).2.regs.p.get .decimal = false := by
    intro arithmetic
    rw [regs_resolve]
    exact binary arithmetic
  rw [runDecoded, runDecoded, execute_of_binary bcd _ ready]

end Machine

namespace Processor

variable {β : Type}

/-- The processor as a variant. -/
def asVariant (v : Variant) (c : Processor β) : Processor β :=
  { c with config := { c.config with variant := v } }

variable [Bus β]

/-- No decimal arithmetic is due: the decimal flag is clear if an addition or a subtraction is. -/
def BinaryDue (c : Processor β) : Prop :=
  c.nextTurn = .instruction →
    (Opcode.decode (Bus.read c.bus c.regs.pc).1).operation.isArithmetic = true →
      c.regs.p.get .decimal = false

instance (c : Processor β) : Decidable c.BinaryDue :=
  inferInstanceAs (Decidable (_ → _ → _))

/-- Unless decimal arithmetic is due, a processor without it begins the same. -/
theorem begin_asVariant {c : Processor β} (binary : c.BinaryDue) :
    (c.asVariant .ricoh2A03).begin = (c.begin.1, c.begin.2.asVariant .ricoh2A03) := by
  have same : (c.asVariant .ricoh2A03).nextTurn = c.nextTurn := rfl
  cases turn : c.nextTurn with
  | service kind =>
      rw [begin_of_service turn, begin_of_service (same.trans turn)]
      rfl
  | instruction =>
      have flag : c.toMachine.fetchOpcode.2.regs.p.get .decimal = c.regs.p.get .decimal :=
        Status.get_set_of_ne c.regs.p true (by decide)
      have ran := Machine.runDecoded_of_binary c.config.variant.hasDecimal
        (d := Opcode.decode c.toMachine.fetchOpcode.1) (m := c.toMachine.fetchOpcode.2) (by
          intro arithmetic
          rw [flag]
          exact binary turn arithmetic)
      rw [begin_of_instruction turn, begin_of_instruction (same.trans turn),
        instruction, instruction, ran]
      rfl

/-- A processor without decimal arithmetic keeps up with one that has it and never uses it. -/
theorem lockstep_asVariant :
    Lockstep BinaryDue (fun _ => True) fun c c' : Processor β => c' = c.asVariant .ricoh2A03 where
  remaining := by
    rintro c _ rfl
    rfl
  counted := by
    rintro c _ left rfl
    rfl
  begin := by
    rintro c _ rfl binary
    rw [begin_asVariant binary]
    exact ⟨rfl, rfl⟩
  host := by
    rintro c _ cmd off - rfl
    cases cmd with
    | tick | advance t | step => exact nomatch off
    | _ => rfl

/-- **Variants differ in decimal arithmetic alone.**  Of two processors that are the same but for
    their variants, the first with decimal arithmetic and the second without, the second keeps up
    with the first under every run of commands in which the first begins no addition or subtraction
    with the decimal flag set: each command takes both as long, and at the end they are the same but
    for their variants, in registers and flags, bus and all accesses made, requests and counters. -/
theorem variants_differ_in_decimal (c : Processor β) (cmds : List (Command β))
    (binary : ∀ s, .begun s ∈ (c.asVariant .nmos6502).ledger cmds → s.BinaryDue) :
    (c.asVariant .ricoh2A03).costs cmds = (c.asVariant .nmos6502).costs cmds ∧
      (c.asVariant .ricoh2A03).applyAll cmds =
        ((c.asVariant .nmos6502).applyAll cmds).asVariant .ricoh2A03 :=
  lockstep_asVariant.applyAll cmds (fun _ _ => trivial) rfl binary

/-- A processor that sets the decimal flag, pushes P, clears the flag and adds. -/
def atDecimalPush : Processor (Monitor Ram) :=
  powerOn (.attach ((Ram.blank 5).load 0 [0xF8#8, 0x08#8, 0xD8#8, 0x69#8, 0x19#8])) {}

/-- The flag is in the copy that a part without decimal arithmetic pushes too, and the sum is binary
    on both. -/
theorem variants_differ_in_decimal_pushed :
    let cmds : List (Command (Monitor Ram)) := List.replicate 4 .step
    (∀ s, .begun s ∈ (atDecimalPush.asVariant .nmos6502).ledger cmds → s.BinaryDue) ∧
      (atDecimalPush.asVariant .ricoh2A03).costs cmds =
        (atDecimalPush.asVariant .nmos6502).costs cmds ∧
      (atDecimalPush.asVariant .ricoh2A03).applyAll cmds =
        ((atDecimalPush.asVariant .nmos6502).applyAll cmds).asVariant .ricoh2A03 ∧
      .write 0x01FD#16 0x3C#8 ∈
        ((atDecimalPush.asVariant .ricoh2A03).applyAll cmds).bus.accesses ∧
      ((atDecimalPush.asVariant .ricoh2A03).applyAll cmds).regs.a = 0x19#8 := by
  intro cmds
  have binary : ∀ s, .begun s ∈ (atDecimalPush.asVariant .nmos6502).ledger cmds →
      s.BinaryDue := by
    have due : ∀ k < 4, ((atDecimalPush.asVariant .nmos6502).steps k).2.BinaryDue := by
      decide
    intro s begun
    obtain ⟨k, below, rfl⟩ := exists_steps_of_begun rfl begun
    exact due k below
  obtain ⟨costs, final⟩ := variants_differ_in_decimal atDecimalPush cmds binary
  exact ⟨binary, costs, final, by decide, by decide⟩

end Processor

end Micro6502
