import Micro6502.Bus.Ram
import Micro6502.Operation.Execute

/-! # Result flags — Z and N describe the byte that was produced

    Most operations leave a byte somewhere and say of that byte whether it
    is zero and what its top bit is.  That the flags are those of the byte
    that is really there, and not of one on the way to it, is shown for each
    place that a byte can go to:

    * an outcome of the arithmetic unit comes with flags that describe it,
      but for decimal ones (`Alu.describes_add`, `Alu.describes_sub` and
      the lemmas before them);
    * a modification leaves the outcome at its operand, in memory as well as
      in the accumulator (`Machine.describes_modify`);
    * a comparison describes a difference that goes nowhere, and a bit test
      has rules of its own. -/

namespace Micro6502

namespace Status

/-- Z says whether a byte is zero, and N is its top bit. -/
structure Describes (p : Status) (b : Byte) : Prop where
  zero : p.get .zero = decide (b = 0)
  negative : p.get .negative = b.getLsbD 7

/-- P made to describe a byte describes it. -/
theorem describes_withNZ (p : Status) (b : Byte) : (p.withNZ b).Describes b where
  zero := by
    rw [get_withNZ, if_neg (by decide), if_pos rfl]
    rfl
  negative := by
    rw [get_withNZ, if_pos rfl]
    rfl

end Status

namespace Alu

theorem describes_plain (p : Status) (b : Byte) :
    (plain p b).status.Describes (plain p b).value :=
  Status.describes_withNZ p b

/-- A sum is described by its flags where it is binary. -/
theorem describes_add {bcd : Bool} {p : Status} (binary : isDecimal bcd p = false) (a b : Byte) :
    (add bcd a b p).status.Describes (add bcd a b p).value := by
  rw [add, binary]
  exact Status.describes_withNZ _ _

theorem describes_sub {bcd : Bool} {p : Status} (binary : isDecimal bcd p = false) (a b : Byte) :
    (sub bcd a b p).status.Describes (sub bcd a b p).value := by
  rw [sub, binary]
  exact Status.describes_withNZ _ _

end Alu

/-- A register of eight bits. -/
inductive ByteRegister where
  | a
  | x
  | y
  | s
  deriving DecidableEq

/-- The byte in a register. -/
def Registers.byte (r : Registers) : ByteRegister → Byte
  | .a => r.a
  | .x => r.x
  | .y => r.y
  | .s => r.s

/-- A place where an operation leaves the byte that it produces. -/
inductive Destination where
  | register (w : ByteRegister)
  | operand

/-- Where an operation leaves the byte that it produces, if it is to be described. -/
def Operation.destination? : Operation → Option Destination
  | .lda | .and | .ora | .eor | .adc | .sbc | .txa | .tya | .pla => some (.register .a)
  | .ldx | .inx | .dex | .tax | .tsx => some (.register .x)
  | .ldy | .iny | .dey | .tay => some (.register .y)
  | .asl | .lsr | .rol | .ror | .inc | .dec => some .operand
  | _ => none

/-- The register that an operation compares its operand with. -/
def Operation.compared? (r : Registers) : Operation → Option Byte
  | .cmp => some r.a
  | .cpx => some r.x
  | .cpy => some r.y
  | _ => none

namespace Machine

/-- The byte that an operand holds. -/
def operandByte (m : Machine Ram) : Operand → Byte
  | .accumulator => m.regs.a
  | .address a => m.bus.peek a

/-- The byte that a destination holds. -/
def held (m : Machine Ram) (o : Operand) : Destination → Byte
  | .register w => m.regs.byte w
  | .operand => m.operandByte o

/-- What Z and N say once an operation has taken a machine from `m` to `after`. -/
structure ResultDescribed (bcd : Bool) (op : Operation) (o : Operand) (m after : Machine Ram) :
    Prop where
  produced : ∀ d, op.destination? = some d →
    (op = .adc ∨ op = .sbc → bcd = false ∨ m.regs.p.get .decimal = false) →
      after.regs.p.Describes (after.held o d)
  compared : ∀ b, op.compared? m.regs = some b → after.regs.p.Describes (b - m.operandByte o)
  tested : op = .bit →
    after.regs.p.get .zero = decide (m.regs.a &&& m.operandByte o = 0) ∧
      after.regs.p.get .negative = (m.operandByte o).getLsbD 7 ∧
        after.regs.p.get .overflow = (m.operandByte o).getLsbD 6

variable {bcd : Bool} {op : Operation} {m : Machine Ram}

theorem loadOperand_eq (m : Machine Ram) (o : Operand) : m.loadOperand o = (m.operandByte o, m) := by
  cases o <;> rfl

/-- A modification of a cell: the byte is written twice, and no other cell changes. -/
theorem execute_modify {f : Byte → Status → Alu.Outcome} (runs : op.effect bcd = .modify f)
    (full : m.bus.mapped = 0x10000) (a : Word) :
    (m.execute bcd op (.address a)).2.regs.p = (f (m.bus.peek a) m.regs.p).status ∧
      (m.execute bcd op (.address a)).2.bus.mapped = 0x10000 ∧
      ∀ x, (m.execute bcd op (.address a)).2.bus.peek x =
        if a = x then (f (m.bus.peek a) m.regs.p).value else m.bus.peek x := by
  have address := a.isLt
  have written : (m.execute bcd op (.address a)).2.bus =
      (m.bus.write a (m.bus.peek a)).write a (f (m.bus.peek a) m.regs.p).value := by
    rw [execute, runs]
    rfl
  refine ⟨?_, ?_, ?_⟩
  · rw [execute, runs]
    rfl
  · rw [written, Ram.mapped_write, Ram.mapped_write, full]
  · intro x
    rw [written, Ram.peek_write, Ram.peek_write, Ram.mapped_write, full]
    by_cases here : a = x
    · rw [if_pos ⟨here, address⟩, if_pos here]
    · rw [if_neg (not_and_of_not_left _ here), if_neg (not_and_of_not_left _ here), if_neg here]

/-- What an operation writes over its operand is described, where what it works out is. -/
theorem describes_modify {f : Byte → Status → Alu.Outcome} (runs : op.effect bcd = .modify f)
    (describes : ∀ b p, (f b p).status.Describes (f b p).value) (full : m.bus.mapped = 0x10000)
    (o : Operand) :
    (m.execute bcd op o).2.regs.p.Describes ((m.execute bcd op o).2.operandByte o) := by
  cases o with
  | accumulator =>
      rw [execute, runs]
      exact describes m.regs.a m.regs.p
  | address a =>
      obtain ⟨status, -, bytes⟩ := execute_modify runs full a
      rw [status, operandByte, bytes, if_pos rfl]
      exact describes (m.bus.peek a) m.regs.p

/-- What is produced is described where it is. -/
theorem describes_execute (full : m.bus.mapped = 0x10000) (o : Operand) {d : Destination}
    (goes : op.destination? = some d)
    (binary : op = .adc ∨ op = .sbc → Alu.isDecimal bcd m.regs.p = false) :
    (m.execute bcd op o).2.regs.p.Describes ((m.execute bcd op o).2.held o d) := by
  cases op with
  | lda | ldx | ldy | and | ora | eor =>
      obtain rfl := Option.some.inj goes
      rw [execute_load rfl]
      exact Status.describes_withNZ _ _
  | adc =>
      obtain rfl := Option.some.inj goes
      rw [execute_load rfl]
      exact Alu.describes_add (binary (.inl rfl)) _ _
  | sbc =>
      obtain rfl := Option.some.inj goes
      rw [execute_load rfl]
      exact Alu.describes_sub (binary (.inr rfl)) _ _
  | asl | lsr | rol | ror | inc | dec =>
      obtain rfl := Option.some.inj goes
      exact describes_modify rfl (fun _ _ => Alu.describes_plain _ _) full o
  | inx | iny | dex | dey | tax | tay | txa | tya | tsx | pla =>
      obtain rfl := Option.some.inj goes
      exact Status.describes_withNZ _ _
  | _ => exact nomatch goes

/-- A comparison describes the difference of the register and the operand. -/
theorem describes_comparison (o : Operand) {b : Byte} (compares : op.compared? m.regs = some b) :
    (m.execute bcd op o).2.regs.p.Describes (b - m.operandByte o) := by
  cases op with
  | cmp | cpx | cpy =>
      obtain rfl := Option.some.inj compares
      rw [execute_load rfl, loadOperand_eq]
      exact Status.describes_withNZ _ _
  | _ => exact nomatch compares

/-- A bit test takes N and V from the operand, and Z from what it has in common with the
    accumulator. -/
theorem get_bitTest (a b : Byte) (p : Status) :
    (Alu.bitTest a b p).get .zero = decide (a &&& b = 0) ∧
      (Alu.bitTest a b p).get .negative = b.getLsbD 7 ∧
        (Alu.bitTest a b p).get .overflow = b.getLsbD 6 := by
  rw [Alu.bitTest]
  refine ⟨?_, ?_, ?_⟩
  · rw [Status.get_set_of_ne _ _ (by decide), Status.get_set_of_ne _ _ (by decide),
      Status.get_set_self _ _ (by decide)]
    rfl
  · rw [Status.get_set_of_ne _ _ (by decide), Status.get_set_self _ _ (by decide)]
    rfl
  · rw [Status.get_set_self _ _ (by decide)]

/-- **Results are described.**  From every register file and every contents of full memory, and for
    either kind of operand, what an operation produces is described by Z and N as it is then found in
    its register or its cell, decimal sums and differences apart; a comparison describes the
    difference of the register and the operand; and a bit test says in Z whether the accumulator and
    the operand share a bit, and has the top two bits of the operand in N and V. -/
theorem results_are_described (bcd : Bool) (op : Operation) (o : Operand) (m : Machine Ram)
    (full : m.bus.mapped = 0x10000) :
    ResultDescribed bcd op o m (m.execute bcd op o).2 where
  produced d goes binary := by
    refine describes_execute full o goes fun arithmetic => ?_
    rw [Alu.isDecimal]
    rcases binary arithmetic with none | clear
    · rw [none, Bool.false_and]
    · rw [clear, Bool.and_false]
  compared b compares := describes_comparison o compares
  tested isBit := by
    subst isBit
    rw [execute_load rfl, loadOperand_eq]
    exact get_bitTest _ _ _

/-- A machine with zeroed memory at every address. -/
def onFullMemory : Machine Ram := ⟨Registers.new, Ram.full⟩

/-- One less than zero, in the last cell of memory: it has the top bit, and so has N. -/
theorem results_are_described_inMemory :
    onFullMemory.bus.mapped = 0x10000 ∧
      ResultDescribed true .dec (.address 0xFFFF#16) onFullMemory
        (onFullMemory.execute true .dec (.address 0xFFFF#16)).2 ∧
      (onFullMemory.execute true .dec (.address 0xFFFF#16)).2.bus.peek 0xFFFF#16 = 0xFF#8 ∧
      (onFullMemory.execute true .dec (.address 0xFFFF#16)).2.regs.p.get .negative = true := by
  have full : onFullMemory.bus.mapped = 0x10000 := Ram.mapped_blank 0x10000
  have described := results_are_described true .dec (.address 0xFFFF#16) onFullMemory full
  have zeroed : onFullMemory.bus.peek 0xFFFF#16 = 0 := by
    show Ram.full.peek 0xFFFF#16 = 0
    rw [Ram.full, Ram.peek_blank]
  have cell : (onFullMemory.execute true .dec (.address 0xFFFF#16)).2.bus.peek 0xFFFF#16 =
      0xFF#8 := by
    have runs : Operation.dec.effect true = .modify Alu.decrement := rfl
    obtain ⟨-, -, bytes⟩ := execute_modify runs full 0xFFFF#16
    rw [bytes, if_pos rfl, zeroed]
    decide
  have negative := (described.produced .operand rfl nofun).negative
  rw [held, operandByte, cell] at negative
  exact ⟨full, described, cell, negative⟩

end Machine

end Micro6502
