import Micro6502.Proofs.EffectiveAddress
import Micro6502.Proofs.Listing

/-! # The cost formula — base count, page and branch

    An instruction costs the base count of its opcode, a cycle where an index
    carries out of the low byte of a full address, and one or two where a
    branch is taken.  The two page rules have nothing in common: the first
    compares an operand with its base, and only operations that just read
    pay for it; the second compares a target with the next instruction.  The
    route:

    * a carry out of the low byte is a change of the high byte, also past
      the last address (`carries_iff`), so it is what finding an operand
      charges (`carries_eq_turnsPage`);
    * running an operation costs what its branch does (`cost_execute`), and
      the operand of a branch is its target (`cost_runDecoded_eq`);
    * an operation that neither reads only nor branches costs its base count
      (`step_cost_of_steady`). -/

namespace Micro6502

namespace Operation

/-- The operations that pay for leaving a page: those that do no more than read an operand that
they may index. -/
def pageReaders : List Operation :=
  [.adc, .and, .cmp, .eor, .lda, .ldx, .ldy, .ora, .sbc, .nop]

/-- The stores, the read-modify-writes, the jumps, and what uses the stack or registers alone. -/
def steady : List Operation :=
  [.sta, .stx, .sty, .asl, .lsr, .rol, .ror, .inc, .dec, .jmp, .jsr, .rts, .brk, .rti,
    .pha, .php, .pla, .plp, .inx, .iny, .dex, .dey, .tax, .tay, .txa, .tya, .tsx, .txs,
    .clc, .sec, .cli, .sei, .cld, .sed, .clv]

/-- The operations that charge for a page crossing are those of the list. -/
theorem chargesPageCrossing_iff (op : Operation) :
    op.chargesPageCrossing = true ↔ op ∈ pageReaders := by
  cases op <;> decide

/-- Only branches are taken. -/
theorem isBranch_of_takes {op : Operation} {p : Status} (h : op.takes p = true) :
    op.isBranch = true := by
  cases op with
  | bcc | bcs | bne | beq | bpl | bmi | bvc | bvs => rfl
  | _ => exact nomatch h

/-- What is no branch is never taken, whatever P is. -/
theorem takes_eq_false {op : Operation} (straight : op.isBranch = false) (p : Status) :
    op.takes p = false :=
  Bool.eq_false_iff.mpr fun taken =>
    Bool.false_ne_true (straight.symm.trans (isBranch_of_takes taken))

/-- What is steady neither pays for a page nor branches. -/
theorem not_pays_of_steady : ∀ op ∈ steady, op ∉ pageReaders ∧ op.isBranch = false := by
  decide

end Operation

namespace Mode

variable {memory : Nat → Nat} {start : Nat} {r : Registers}

/-- Whether adding its index to a full address carries out of the low byte. -/
def carries (memory : Nat → Nat) (start : Nat) (r : Registers) (mode : Mode) : Bool :=
  (mode.indexing memory start r).any fun (base, index) => 256 ≤ base % 256 + index

/-- A carry out of the low byte changes the high byte, and nothing else does. -/
theorem carries_iff {base index : Nat} (inMemory : base < 0x10000) (byte : index < 256) :
    256 ≤ base % 256 + index ↔ (base + index) % 0x10000 / 256 ≠ base / 256 := by
  omega

/-- The base of an index is a word and the index a byte. -/
theorem indexing_lt {mode : Mode} {base index : Nat} (bytes : ∀ n, memory n < 256)
    (found : mode.indexing memory start r = some (base, index)) :
    base < 0x10000 ∧ index < 256 := by
  cases mode with
  | absoluteX | absoluteY =>
      obtain ⟨rfl, rfl⟩ := Prod.mk.inj (Option.some.inj found)
      have low := bytes start
      have high := bytes (start + 1)
      exact ⟨by rw [fullAddress]; omega, BitVec.isLt _⟩
  | indirectY =>
      obtain ⟨rfl, rfl⟩ := Prod.mk.inj (Option.some.inj found)
      have low := bytes (memory start)
      have high := bytes ((memory start + 1) % 256)
      exact ⟨by rw [storedAt]; omega, BitVec.isLt _⟩
  | _ => exact absurd found (Option.some_ne_none _).symm

/-- An index carries out of the low byte of its base just where the page is left. -/
theorem carries_eq_turnsPage (bytes : ∀ n, memory n < 256) (mode : Mode) :
    mode.carries memory start r = mode.turnsPage memory start r := by
  rw [carries, turnsPage]
  cases found : mode.indexing memory start r with
  | none => rfl
  | some both =>
      obtain ⟨inMemory, byte⟩ := indexing_lt bytes found
      rw [Option.any_some, Option.any_some, Bool.eq_iff_iff, decide_eq_true_iff, bne_iff_ne]
      exact carries_iff inMemory byte

end Mode

namespace Descriptor

variable {memory : Nat → Nat} {start : Nat}

/-- What an instruction costs for the page of its operand, whose bytes are from `start` on. -/
def pageCycle (memory : Nat → Nat) (start : Nat) (r : Registers) (d : Descriptor) : Nat :=
  if d.operation ∈ Operation.pageReaders ∧ d.mode.carries memory start r then 1 else 0

/-- What an instruction costs for a branch that is taken: the next instruction is behind the
distance byte at `start`. -/
def branchCycles (memory : Nat → Nat) (start : Nat) (p : Status) (d : Descriptor) : Nat :=
  if d.operation.takes p then
    if Mode.branchTarget memory start / 256 = (start + 1) % 0x10000 / 256 then 1 else 2
  else 0

/-- Where memory holds bytes, the page is paid for as finding the operand charges it. -/
theorem pageCycle_eq (bytes : ∀ n, memory n < 256) (r : Registers) (d : Descriptor) :
    d.pageCycle memory start r =
      if d.operation.chargesPageCrossing then (d.mode.turnsPage memory start r).toNat else 0 := by
  have pays := Operation.chargesPageCrossing_iff d.operation
  rw [pageCycle, Mode.carries_eq_turnsPage bytes]
  cases charged : d.operation.chargesPageCrossing with
  | false =>
      rw [charged] at pays
      rw [if_neg fun both => Bool.false_ne_true (pays.mpr both.1), if_neg Bool.false_ne_true]
  | true =>
      rw [if_pos rfl]
      cases turned : d.mode.turnsPage memory start r with
      | false => exact if_neg fun both => Bool.false_ne_true both.2
      | true => exact if_pos ⟨pays.mp charged, rfl⟩

end Descriptor

/-- A taken branch costs two cycles where the numbers of the two addresses differ in their high
    bytes. -/
theorem cycles_of_pageCrossed (a b : Word) :
    1 + (pageCrossed a b).toNat = if b.toNat / 256 = a.toNat / 256 then 1 else 2 := by
  have apart := pageCrossed_eq_true_iff a b
  by_cases same : b.toNat / 256 = a.toNat / 256
  · have stays : pageCrossed a b = false :=
      Bool.eq_false_iff.mpr fun crossed => apart.mp crossed same.symm
    rw [if_pos same, stays, Bool.toNat_false]
  · rw [if_neg same, apart.mpr (Ne.symm same), Bool.toNat_true]

namespace Machine

section

variable {β : Type}

/-- A branch that is taken costs one cycle, and one more if it leads to another page. -/
theorem cost_branch (m : Machine β) (o : Operand) (taken : Bool) :
    (m.branch o taken).1 =
      if taken then 1 + (pageCrossed m.regs.pc (m.target o)).toNat else 0 := by
  cases taken <;> rfl

variable [Bus β]

/-- Running an operation costs what its branch does, and nothing where there is none. -/
theorem cost_execute (bcd : Bool) (op : Operation) (o : Operand) (m : Machine β) :
    (m.execute bcd op o).1 =
      if op.takes m.regs.p then 1 + (pageCrossed m.regs.pc (m.target o)).toNat else 0 := by
  cases branches : op.isBranch with
  | true => rw [execute_of_isBranch bcd branches, cost_branch]
  | false =>
      have free := cost_execute_le bcd op o m
      rw [branches] at free
      rw [Operation.takes_eq_false branches, if_neg Bool.false_ne_true]
      exact Nat.le_zero.mp free

end

end Machine

/-! ## What a step costs -/

/-- An operand with a location is the address there. -/
theorem Operand.eq_of_location? {o : Operand} {n : Nat} (found : o.location? = some n) :
    ∃ a, o = .address a ∧ a.toNat = n := by
  cases o with
  | accumulator => exact nomatch found
  | address a => exact ⟨a, rfl, Option.some.inj found⟩

namespace Machine

variable (m : Machine Ram)

/-- Beyond its base count, a decoded instruction costs what the page of its operand does and what
    its branch does. -/
theorem cost_runDecoded_eq (bcd : Bool) (opcode : Byte) :
    let d := Opcode.decode opcode
    let start := m.regs.pc.toNat
    (m.runDecoded bcd d).1 =
      d.cycles + d.pageCycle m.bus.byteAt start m.regs +
        d.branchCycles m.bus.byteAt start m.regs.p := by
  intro d start
  have regs := regs_resolve d.mode m
  have branch : ((m.resolve d.mode).2.execute bcd d.operation (m.resolve d.mode).1.operand).1 =
      d.branchCycles m.bus.byteAt start m.regs.p := by
    rw [cost_execute, regs, Descriptor.branchCycles]
    by_cases taken : d.operation.takes m.regs.p = true
    · -- a branch is relative, so its operand is its target
      have relative := (Opcode.decode_mode opcode).1 (Operation.isBranch_of_takes taken)
      obtain ⟨target, operand, number⟩ := Operand.eq_of_location? (m.location_resolve .relative)
      have next : (m.regs.pc + BitVec.ofNat 16 1).toNat = (start + 1) % 0x10000 :=
        BitVec.toNat_add ..
      rw [if_pos taken, if_pos taken, cycles_of_pageCrossed, show d.mode = .relative from relative,
        operand, ← number]
      exact next ▸ rfl
    · rw [if_neg taken, if_neg taken]
  rw [cost_runDecoded, branch, extraCycles_resolve, Descriptor.pageCycle_eq m.bus.byteAt_lt]

end Machine

namespace Processor

variable {c : Processor Ram}

/-- The fetch of the opcode moves the operand bytes into place and is not seen in the cost. -/
theorem step_cost_eq (boundary : c.remaining = 0) (turn : c.nextTurn = .instruction) :
    let d := Opcode.decode (c.bus.peek c.regs.pc)
    let start := (c.regs.pc + 1).toNat
    c.step.1 =
      d.cycles + d.pageCycle c.bus.byteAt start c.regs +
        d.branchCycles c.bus.byteAt start c.regs.p := by
  intro d start
  have cost : c.step.1 = (c.toMachine.fetchOpcode.2.runDecoded c.config.variant.hasDecimal d).1 :=
    congrArg Prod.fst (step_of_instruction boundary turn)
  have branch : d.branchCycles c.bus.byteAt start (c.regs.p.set .unused true) =
      d.branchCycles c.bus.byteAt start c.regs.p := by
    rw [Descriptor.branchCycles, Descriptor.branchCycles, Operation.takes_set_unused]
  rw [cost, Machine.cost_runDecoded_eq, ← branch]
  rfl

/-- What is steady costs the base count of its opcode. -/
theorem step_cost_of_steady (boundary : c.remaining = 0) (turn : c.nextTurn = .instruction)
    (steady : (Opcode.decode (c.bus.peek c.regs.pc)).operation ∈ Operation.steady) :
    c.step.1 = (Opcode.decode (c.bus.peek c.regs.pc)).cycles := by
  obtain ⟨free, straight⟩ := Operation.not_pays_of_steady _ steady
  rw [step_cost_eq boundary turn, Descriptor.pageCycle, if_neg fun both => free both.1,
    Descriptor.branchCycles, Operation.takes_eq_false straight]
  rfl

/-- **The cost formula.**  From every register file and every contents of memory, an instruction
    takes the base count of its opcode; one cycle more exactly where its operation just reads, and
    indexing a full address carries out of its low byte, which is where it changes the high byte,
    past the last address too; and where it is a branch that is taken, one cycle more, or two if the
    target is in another page than the next instruction.  So what stores, modifies, jumps, uses the
    stack or works on registers takes as long in every state. -/
theorem cost_is_base_page_and_branch (c : Processor Ram) (boundary : c.remaining = 0)
    (turn : c.nextTurn = .instruction) :
    let d := Opcode.decode (c.bus.peek c.regs.pc)
    let start := (c.regs.pc + 1).toNat
    c.step.1 =
        d.cycles + d.pageCycle c.bus.byteAt start c.regs +
          d.branchCycles c.bus.byteAt start c.regs.p ∧
      (∀ base index, d.mode.indexing c.bus.byteAt start c.regs = some (base, index) →
        (256 ≤ base % 256 + index ↔ (base + index) % 0x10000 / 256 ≠ base / 256)) ∧
      (d.operation ∈ Operation.steady → ∀ c' : Processor Ram, c'.remaining = 0 →
        c'.nextTurn = .instruction → c'.bus.peek c'.regs.pc = c.bus.peek c.regs.pc →
          c'.step.1 = c.step.1) := by
  intro d start
  refine ⟨step_cost_eq boundary turn, ?_, ?_⟩
  · intro base index found
    obtain ⟨inMemory, byte⟩ := Mode.indexing_lt c.bus.byteAt_lt found
    exact Mode.carries_iff inMemory byte
  · intro steady c' boundary' turn' same
    have steady' : (Opcode.decode (c'.bus.peek c'.regs.pc)).operation ∈ Operation.steady := by
      rw [same]
      exact steady
    rw [step_cost_of_steady boundary turn steady, step_cost_of_steady boundary' turn' steady', same]

/-- A processor at an instruction, with the same number in both index registers. -/
def atIndexed (bytes : List Byte) (index : Byte) : Processor Ram :=
  (powerOn ((Ram.blank 4).load 0 bytes) {}).setRegisters
    { Registers.new with x := index, y := index }

/-- A load whose index takes it from the last page to the first takes a sixth cycle; an increment
    takes seven whether its index leaves the page or not. -/
theorem cost_is_base_page_and_branch_wraps :
    let load := atIndexed [0xB1#8, 0x02#8, 0xFF#8, 0xFF#8] 1
    let near := atIndexed [0xFE#8, 0xFF#8, 0x12#8] 0
    let far := atIndexed [0xFE#8, 0xFF#8, 0x12#8] 1
    load.remaining = 0 ∧ load.nextTurn = .instruction ∧ load.step.1 = 6 ∧
      (256 ≤ 0xFFFF % 256 + 1 ↔ (0xFFFF + 1) % 0x10000 / 256 ≠ 0xFFFF / 256) ∧
      near.remaining = 0 ∧ near.nextTurn = .instruction ∧ near.step.1 = 7 ∧
      far.step.1 = near.step.1 := by
  intro load near far
  have atLoad : load.nextTurn = .instruction := by decide
  have atNear : near.nextTurn = .instruction := by decide
  obtain ⟨cost, carry, -⟩ := cost_is_base_page_and_branch load rfl atLoad
  obtain ⟨costNear, -, same⟩ := cost_is_base_page_and_branch near rfl atNear
  exact ⟨rfl, atLoad, cost.trans (by decide), carry 0xFFFF 1 (by decide), rfl, atNear,
    costNear.trans (by decide), same (by decide) far rfl (by decide) (by decide)⟩

end Processor

end Micro6502
