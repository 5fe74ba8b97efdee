import Micro6502.Proofs.Footprint
import Micro6502.Proofs.Printed

/-! # Listings — the engine does what the listing says

    A debugger lists the instruction at the program counter from the three
    bytes there; the engine fetches the same bytes from the bus, one at a
    time.  Two readings of an instruction, and they agree.  The route:

    * where a mode shows the address of its operand, the engine finds that
      operand (`operand_resolve_of_direct`, `operand_resolve_indirect`);
    * the program counter goes past the instruction, or to the operand
      (`pc_execute_of_not_jumps`, `pc_execute_of_isBranch`);
    * what the text prints is what the mode shows, so it is where the engine
      goes, or what it accesses. -/

namespace Micro6502

namespace Operation

/-- Whether an operation may go elsewhere than to the next instruction. -/
def jumps : Operation → Bool
  | .jmp | .jsr | .rts | .rti | .brk => true
  | op => op.isBranch

/-- Whether a branch is taken with this status. -/
def takes (p : Status) : Operation → Bool
  | .bcc => !p.get .carry
  | .bcs => p.get .carry
  | .bne => !p.get .zero
  | .beq => p.get .zero
  | .bpl => !p.get .negative
  | .bmi => p.get .negative
  | .bvc => !p.get .overflow
  | .bvs => p.get .overflow
  | _ => false

/-- Whether an operation accesses its operand. -/
def usesOperand : Operation → Bool
  | .lda | .ldx | .ldy | .adc | .sbc | .and | .ora | .eor | .bit | .cmp | .cpx | .cpy
  | .sta | .stx | .sty | .asl | .lsr | .rol | .ror | .inc | .dec => true
  | _ => false

/-- The stored bit of `unused` has no say in whether a branch is taken. -/
theorem takes_set_unused (op : Operation) (p : Status) :
    op.takes (p.set .unused true) = op.takes p := by
  have others : ∀ f : Flag, f ≠ .unused → (p.set .unused true).get f = p.get f :=
    fun f other => p.get_set_of_ne true other
  cases op with
  | bcc | bcs => rw [takes, takes, others .carry (by decide)]
  | bne | beq => rw [takes, takes, others .zero (by decide)]
  | bpl | bmi => rw [takes, takes, others .negative (by decide)]
  | bvc | bvs => rw [takes, takes, others .overflow (by decide)]
  | _ => rfl

/-- What accesses its operand makes no other access, and one at least. -/
theorem accesses_of_usesOperand {op : Operation} (h : op.usesOperand = true) (r : Registers)
    (a : Word) (g : Given) :
    op.accesses r (.address a) g ≠ [] ∧ ∀ x ∈ op.accesses r (.address a) g, x.address = a := by
  cases op with
  | lda | ldx | ldy | adc | sbc | and | ora | eor | bit | cmp | cpx | cpy | sta | stx | sty =>
      exact ⟨List.cons_ne_nil _ _, List.forall_mem_singleton.mpr rfl⟩
  | asl | lsr | rol | ror | inc | dec =>
      exact ⟨List.cons_ne_nil _ _, List.forall_mem_cons.mpr ⟨rfl, List.forall_mem_cons.mpr
        ⟨rfl, List.forall_mem_singleton.mpr rfl⟩⟩⟩
  | _ => exact nomatch h

end Operation

/-- Whether a mode shows the address where its operand is. -/
def Mode.direct : Mode → Bool
  | .zeroPage | .absolute | .relative => true
  | _ => false

/-- A mode that names its operand directly has an address to show. -/
theorem Mode.exists_shown {mode : Mode} (h : mode.direct = true) (lo hi : Byte) (pc : Word) :
    ∃ a, mode.shown lo hi pc = some a := by
  cases mode with
  | zeroPage | absolute | relative => exact ⟨_, rfl⟩
  | _ => exact nomatch h

/-- A mode that shows the full address of its operand reads no more than that. -/
theorem Mode.direct_of_full {mode : Mode} (h : mode = .zeroPage ∨ mode = .absolute) :
    mode.direct = true ∧ mode.shownDigits = 2 * mode.operandLength ∧
      mode.readCount = mode.operandLength := by
  rcases h with rfl | rfl
  · exact ⟨rfl, rfl, rfl⟩
  · exact ⟨rfl, rfl, rfl⟩

namespace Opcode

/-- A branch is relative and a call has a full address; what is undocumented does nothing. -/
theorem decode_mode (opcode : Byte) :
    ((decode opcode).operation.isBranch = true → (decode opcode).mode = .relative) ∧
      ((decode opcode).operation = .jsr → (decode opcode).mode = .absolute) ∧
      ((decode opcode).documented = false → (decode opcode).operation = .nop) :=
  decode_of_forall (P := fun d => (d.operation.isBranch = true → d.mode = .relative) ∧
      (d.operation = .jsr → d.mode = .absolute) ∧ (d.documented = false → d.operation = .nop))
    (by decide +kernel) (fun mode => ⟨nofun, nofun, fun _ => rfl⟩) opcode

end Opcode

namespace Machine

/-! ## Where the engine goes -/

section

variable {β : Type}

theorem pc_branch (m : Machine β) (a : Word) (taken : Bool) :
    (m.branch (.address a) taken).2.regs.pc = if taken then a else m.regs.pc := by
  cases taken <;> rfl

variable [Bus β]

/-- An operation that does not jump leaves the program counter where the operand bytes end. -/
theorem pc_execute_of_not_jumps (bcd : Bool) {op : Operation} (h : op.jumps = false) (o : Operand)
    (m : Machine β) : (m.execute bcd op o).2.regs.pc = m.regs.pc := by
  cases op with
  | jmp | jsr | rts | rti | brk => exact nomatch h
  | bcc | bcs | bne | beq | bpl | bmi | bvc | bvs => exact nomatch h
  | _ => cases o <;> rfl

/-- A branch is made where its condition holds. -/
theorem execute_of_isBranch (bcd : Bool) {op : Operation} (h : op.isBranch = true) (o : Operand)
    (m : Machine β) : m.execute bcd op o = m.branch o (op.takes m.regs.p) := by
  cases op with
  | bcc | bne | bpl | bvc => exact congrArg (m.branch o) (beq_false _)
  | bcs | beq | bmi | bvs => exact congrArg (m.branch o) (beq_true _)
  | _ => exact nomatch h

/-- An operation that branches leads to its target where P says that it is taken. -/
theorem pc_execute_of_isBranch (bcd : Bool) {op : Operation} (h : op.isBranch = true) (a : Word)
    (m : Machine β) :
    (m.execute bcd op (.address a)).2.regs.pc =
      if op.takes m.regs.p then a else m.regs.pc := by
  rw [execute_of_isBranch bcd h, pc_branch]

end

/-! ## What it reads of memory -/

/-- Addressing finds the operand where the listing shows it. -/
theorem operand_resolve_of_direct {mode : Mode} (h : mode.direct = true) {start a : Word}
    (m : Machine (Monitor Ram)) (next : m.regs.pc = start + 1)
    (shown : mode.shown (m.bus.behind.peek (start + 1)) (m.bus.behind.peek (start + 2)) start =
      some a) : (m.resolve mode).1.operand = .address a := by
  have second : m.regs.pc + 1 = start + 2 := by rw [next, add_one_add_one]
  rw [← second, ← next] at shown
  cases mode with
  | zeroPage | absolute => exact congrArg Operand.address (Option.some.inj shown)
  | relative =>
      rw [Mode.shown, ← second] at shown
      exact congrArg Operand.address (Option.some.inj shown)
  | _ => exact nomatch h

/-- An indirect jump finds the low byte of its operand at the address that it shows. -/
theorem operand_resolve_indirect {start a : Word} (m : Machine (Monitor Ram))
    (next : m.regs.pc = start + 1)
    (shown : Mode.indirect.shown (m.bus.behind.peek (start + 1)) (m.bus.behind.peek (start + 2))
      start = some a) :
    ∃ high, (m.resolve .indirect).1.operand = .address (.ofBytes (m.bus.behind.peek a) high) := by
  have second : m.regs.pc + 1 = start + 2 := by rw [next, add_one_add_one]
  rw [← second, ← next] at shown
  obtain rfl := Option.some.inj shown
  exact ⟨_, rfl⟩

theorem behind_resolve_ram (mode : Mode) (m : Machine (Monitor Ram)) :
    (m.resolve mode).2.bus.behind = m.bus.behind := by
  cases mode <;> rfl

end Machine

namespace Processor

/-- What the byte at the program counter stands for. -/
def due (c : Processor (Monitor Ram)) : Descriptor :=
  Opcode.decode (c.bus.behind.peek c.regs.pc)

/-- The instruction at the program counter as a debugger lists it. -/
def listing (c : Processor (Monitor Ram)) : Disassembly :=
  disassemble (c.bus.behind.dump c.regs.pc 3) c.regs.pc

/-- What the log has to say of an undocumented instruction. -/
def undocumentedLine (c : Processor (Monitor Ram)) : Line :=
  ⟨.debug, "undocumented opcode " ++ Hex.byte (c.bus.behind.peek c.regs.pc) ++ " at "
    ++ Hex.word c.regs.pc ++ ", executed as NOP"⟩

/-- A step from `c` to `after` did what the listing `d` says. -/
structure Follows (d : Disassembly) (c after : Processor (Monitor Ram)) : Prop where
  straight : c.due.operation.jumps = false → after.regs.pc = c.regs.pc + BitVec.ofNat 16 d.length
  notTaken : c.due.operation.isBranch = true → c.due.operation.takes c.regs.p = false →
    after.regs.pc = c.regs.pc + BitVec.ofNat 16 d.length
  taken : c.due.operation.isBranch = true → c.due.operation.takes c.regs.p = true →
    Prints d.text 4 after.regs.pc
  jump : c.due.operation = .jmp → c.due.mode = .absolute → Prints d.text 4 after.regs.pc
  call : c.due.operation = .jsr → Prints d.text 4 after.regs.pc
  indirect : c.due.operation = .jmp → c.due.mode = .indirect →
    ∃ a, Prints d.text 4 a ∧ Word.low after.regs.pc = c.bus.behind.peek a
  /-- After the bytes of the instruction, the printed address is accessed, and no other. -/
  data : c.due.mode = .zeroPage ∨ c.due.mode = .absolute → c.due.operation.usesOperand = true →
    ∃ a fetches accesses, Prints d.text (2 * c.due.mode.operandLength) a ∧
      after.bus.accesses = c.bus.accesses ++ (fetches ++ accesses) ∧
      fetches.length = d.length ∧ accesses ≠ [] ∧ ∀ x ∈ accesses, x.address = a
  starred : isStarred d.text = true ↔ c.due.documented = false ∧ c.due.operation = .nop
  logged : ∃ e, after.journal = e :: c.journal ∧
    (c.undocumentedLine ∈ e.lines ↔ isStarred d.text = true)
  idle : isStarred d.text = true → after.bus.behind = c.bus.behind ∧ after.regs =
    { c.regs with
      pc := c.regs.pc + BitVec.ofNat 16 d.length
      p := c.regs.p.set .unused true }

/-! ## The step that the listing is about -/

section

variable {c : Processor (Monitor Ram)}

/-- A listing prints the address that its mode shows, in the digits of that mode. -/
theorem prints_listing {a : Word} (h : c.due.mode.shown (c.bus.behind.peek (c.regs.pc + 1))
    (c.bus.behind.peek (c.regs.pc + 2)) c.regs.pc = some a) :
    Prints c.listing.text c.due.mode.shownDigits a := by
  rw [← add_one_add_one] at h
  exact Disassembly.prints_instructionText h

/-- The machine once an opcode is fetched and an operand found. -/
def ready (c : Processor (Monitor Ram)) : Machine (Monitor Ram) :=
  (c.toMachine.fetchOpcode.2.resolve c.due.mode).2

/-- Before the operation runs, the program counter is past the bytes of the listing. -/
theorem regs_ready : c.ready.regs =
    { c.regs with
      pc := c.regs.pc + BitVec.ofNat 16 c.listing.length
      p := c.regs.p.set .unused true } :=
  Machine.regs_found c.due c.toMachine

/-- A step where the program goes on runs the operation on what was found. -/
theorem step_of_due (boundary : c.remaining = 0) (turn : c.nextTurn = .instruction) {o : Operand}
    (found : (c.toMachine.fetchOpcode.2.resolve c.due.mode).1.operand = o) :
    c.step.2.toMachine =
      (c.ready.execute c.config.variant.hasDecimal c.due.operation o).2 := by
  rw [← found]
  exact congrArg Prod.snd (step_of_instruction boundary turn)

/-- Where a mode shows the address of its operand, that is what the text prints and the engine
    finds. -/
theorem found_where_printed (h : c.due.mode.direct = true) :
    ∃ a, Prints c.listing.text c.due.mode.shownDigits a ∧
      (c.toMachine.fetchOpcode.2.resolve c.due.mode).1.operand = .address a := by
  obtain ⟨a, shown⟩ := Mode.exists_shown h (c.bus.behind.peek (c.regs.pc + 1))
    (c.bus.behind.peek (c.regs.pc + 2)) c.regs.pc
  exact ⟨a, prints_listing shown,
    Machine.operand_resolve_of_direct h c.toMachine.fetchOpcode.2 rfl shown⟩

variable (boundary : c.remaining = 0) (turn : c.nextTurn = .instruction)
include boundary turn

/-- A step that does not jump goes on where the listing ends. -/
theorem pc_step_of_not_jumps (h : c.due.operation.jumps = false) :
    c.step.2.regs.pc = c.regs.pc + BitVec.ofNat 16 c.listing.length := by
  have ran := step_of_due boundary turn rfl
  show c.step.2.toMachine.regs.pc = _
  rw [ran, Machine.pc_execute_of_not_jumps _ h, regs_ready]

/-- A branch goes to the address that the text prints, or past the instruction. -/
theorem pc_step_of_isBranch (h : c.due.operation.isBranch = true) :
    ∃ a, Prints c.listing.text 4 a ∧ c.step.2.regs.pc =
      if c.due.operation.takes c.regs.p then a
      else c.regs.pc + BitVec.ofNat 16 c.listing.length := by
  have mode : c.due.mode = .relative := (Opcode.decode_mode _).1 h
  obtain ⟨a, prints, found⟩ := found_where_printed (c := c) (by rw [mode]; rfl)
  rw [mode] at prints
  refine ⟨a, prints, ?_⟩
  show c.step.2.toMachine.regs.pc = _
  rw [step_of_due boundary turn found, Machine.pc_execute_of_isBranch _ h, regs_ready,
    Operation.takes_set_unused]

/-- A jump or a call with a full address goes to the address that the text prints. -/
theorem pc_step_of_absolute (mode : c.due.mode = .absolute)
    (h : c.due.operation = .jmp ∨ c.due.operation = .jsr) :
    Prints c.listing.text 4 c.step.2.regs.pc := by
  obtain ⟨a, prints, found⟩ := found_where_printed (c := c) (by rw [mode]; rfl)
  rw [mode] at prints
  have goes : c.step.2.toMachine.regs.pc = a := by
    rw [step_of_due boundary turn found]
    rcases h with jmp | jsr
    · rw [jmp]
      rfl
    · rw [jsr]
      rfl
  exact goes ▸ prints

/-- A jump through memory goes where the two bytes at the address printed say. -/
theorem pc_step_of_indirect (mode : c.due.mode = .indirect) (h : c.due.operation = .jmp) :
    ∃ a, Prints c.listing.text 4 a ∧ Word.low c.step.2.regs.pc = c.bus.behind.peek a := by
  have shown : c.due.mode.shown (c.bus.behind.peek (c.regs.pc + 1))
      (c.bus.behind.peek (c.regs.pc + 2)) c.regs.pc =
        some (.ofBytes (c.bus.behind.peek (c.regs.pc + 1)) (c.bus.behind.peek (c.regs.pc + 2))) := by
    rw [mode]
    rfl
  have prints := prints_listing shown
  rw [mode] at prints shown
  obtain ⟨high, target⟩ := Machine.operand_resolve_indirect c.toMachine.fetchOpcode.2 rfl shown
  refine ⟨_, prints, ?_⟩
  show Word.low c.step.2.toMachine.regs.pc = _
  rw [step_of_due boundary turn (mode ▸ target), h]
  exact Word.low_ofBytes _ _

/-- Past the bytes of the instruction, the accesses of a step are those of its operation. -/
theorem accesses_step {o : Operand}
    (found : (c.toMachine.fetchOpcode.2.resolve c.due.mode).1.operand = o) :
    ∃ f g, c.step.2.bus.accesses = c.bus.accesses ++
      (([.read c.regs.pc c.toMachine.fetchOpcode.1] ++ c.due.mode.reads c.regs.fetched f) ++
        c.due.operation.accesses c.ready.regs o g) := by
  obtain ⟨f, reads, -⟩ := Machine.sees_resolve c.due.mode c.toMachine.fetchOpcode.2
  obtain ⟨g, accesses⟩ := Machine.sees_execute c.config.variant.hasDecimal c.due.operation o c.ready
  refine ⟨f, g, ?_⟩
  show c.step.2.toMachine.bus.accesses = _
  rw [step_of_due boundary turn found]
  exact (((Machine.sees_fetch c.toMachine).trans reads).trans accesses).seen

/-- What a mode with the full address of its operand makes an operation access is at the address
    that the text prints. -/
theorem data_step (mode : c.due.mode = .zeroPage ∨ c.due.mode = .absolute)
    (uses : c.due.operation.usesOperand = true) :
    ∃ a fetches accesses, Prints c.listing.text (2 * c.due.mode.operandLength) a ∧
      c.step.2.bus.accesses = c.bus.accesses ++ (fetches ++ accesses) ∧
      fetches.length = c.listing.length ∧ accesses ≠ [] ∧ ∀ x ∈ accesses, x.address = a := by
  obtain ⟨direct, digits, reads⟩ := Mode.direct_of_full mode
  obtain ⟨a, prints, found⟩ := found_where_printed direct
  obtain ⟨f, g, seen⟩ := accesses_step boundary turn found
  obtain ⟨one, there⟩ := Operation.accesses_of_usesOperand uses c.ready.regs a g
  refine ⟨a, _, _, digits ▸ prints, seen, ?_, one, there⟩
  rw [List.length_append, length_reads, reads]
  rfl

/-- A NOP of any mode leaves memory and the registers as they are, but for what the fetch does. -/
theorem step_of_nop (nop : c.due.operation = .nop) :
    c.step.2.bus.behind = c.bus.behind ∧ c.step.2.regs =
      { c.regs with
        pc := c.regs.pc + BitVec.ofNat 16 c.listing.length
        p := c.regs.p.set .unused true } := by
  have ran : c.step.2.toMachine = c.ready := by
    rw [step_of_due boundary turn rfl, nop]
    rfl
  constructor
  · show c.step.2.toMachine.bus.behind = _
    rw [ran]
    exact Machine.behind_resolve_ram c.due.mode c.toMachine.fetchOpcode.2
  · show c.step.2.toMachine.regs = _
    rw [ran, regs_ready]

/-- A step notes the fetch of the opcode that the listing starts from, and nothing else. -/
theorem journal_step :
    c.step.2.journal = .fetch (c.bus.behind.peek c.regs.pc) c.regs c.elapsed :: c.journal := by
  rw [step_eq, journal_countDown, tick_of_boundary boundary, begin_of_instruction turn]
  rfl

end

/-- A listing is starred just where its opcode is undocumented. -/
theorem isStarred_listing (c : Processor (Monitor Ram)) :
    isStarred c.listing.text = !c.due.documented :=
  Disassembly.isStarred_instructionText c.due _ _ _

/-- The log says that an instruction is undocumented where the listing has a star. -/
theorem undocumentedLine_mem_iff (c : Processor (Monitor Ram)) :
    c.undocumentedLine ∈
        (Event.fetch (c.bus.behind.peek c.regs.pc) c.regs c.elapsed).lines ↔
      isStarred c.listing.text = true := by
  rw [isStarred_listing, Event.lines]
  show _ ∈ (if c.due.documented = true then _ else _) ↔ _
  cases c.due.documented with
  | true => simp [undocumentedLine]
  | false => simp [undocumentedLine]

/-- **The engine follows the listing.**  From every register file and memory, a step where the
    program goes on does what the listing of the three bytes at the program counter says, and it is
    the step of a processor without the monitor. -/
theorem listing_is_followed (c : Processor (Monitor Ram)) (boundary : c.remaining = 0)
    (turn : c.nextTurn = .instruction) :
    Follows (disassemble (c.bus.behind.dump c.regs.pc 3) c.regs.pc) c c.step.2 ∧
      c.step.2.unmonitored = c.unmonitored.step.2 := by
  refine ⟨?_, congrArg Prod.snd (unmonitored_step c)⟩
  show Follows c.listing c c.step.2
  exact {
    straight := pc_step_of_not_jumps boundary turn
    notTaken := fun branch stays => by
      obtain ⟨a, -, pc⟩ := pc_step_of_isBranch boundary turn branch
      rw [pc, stays]
      rfl
    taken := fun branch goes => by
      obtain ⟨a, prints, pc⟩ := pc_step_of_isBranch boundary turn branch
      rw [pc, if_pos goes]
      exact prints
    jump := fun jmp mode => pc_step_of_absolute boundary turn mode (.inl jmp)
    call := fun jsr =>
      pc_step_of_absolute boundary turn ((Opcode.decode_mode _).2.1 jsr) (.inr jsr)
    indirect := fun jmp mode => pc_step_of_indirect boundary turn mode jmp
    data := data_step boundary turn
    starred := by
      rw [isStarred_listing, Bool.not_eq_true']
      exact ⟨fun undocumented => ⟨undocumented, (Opcode.decode_mode _).2.2 undocumented⟩, And.left⟩
    logged := ⟨_, journal_step boundary turn, undocumentedLine_mem_iff c⟩
    idle := fun star => by
      rw [isStarred_listing, Bool.not_eq_true'] at star
      exact step_of_nop boundary turn ((Opcode.decode_mode _).2.2 star) }

/-- A processor at a branch that goes back beyond address zero. -/
def atBackwardBranch : Processor (Monitor Ram) :=
  powerOn (.attach ((Ram.blank 2).load 0 [0x10#8, 0x80#8])) {}

/-- The branch is taken, and goes round the end of memory to the address that was listed. -/
theorem listing_is_followed_backward :
    atBackwardBranch.remaining = 0 ∧ atBackwardBranch.nextTurn = .instruction ∧
      atBackwardBranch.listing = ⟨"BPL $FF82", 2⟩ ∧
      Follows ⟨"BPL $FF82", 2⟩ atBackwardBranch atBackwardBranch.step.2 ∧
      Prints "BPL $FF82" 4 atBackwardBranch.step.2.regs.pc ∧
      atBackwardBranch.step.2.regs.pc = 0xFF82#16 := by
  have boundary : atBackwardBranch.remaining = 0 := rfl
  have turn : atBackwardBranch.nextTurn = .instruction := by decide
  have listed : atBackwardBranch.listing = ⟨"BPL $FF82", 2⟩ := by decide
  obtain ⟨follows, -⟩ := listing_is_followed atBackwardBranch boundary turn
  have listing_follows : Follows atBackwardBranch.listing _ _ := follows
  rw [listed] at listing_follows
  exact ⟨boundary, turn, listed, listing_follows, listing_follows.taken (by decide) (by decide),
    by decide⟩

end Processor

end Micro6502
