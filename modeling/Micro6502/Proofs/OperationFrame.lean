import Micro6502.Proofs.FlagFrame
import Micro6502.Proofs.Listing
import Micro6502.Proofs.ResultFlags
import Micro6502.Proofs.StatusByte

/-! # Operation frames — what an operation leaves alone

    Of each part of the machine there is a list of the operations that may
    change it; all others leave it as it is, whatever their operand.  Such a
    fact is about what does not happen, so it is not read off the operations
    one by one but off what can happen:

    * the accesses of an operation are known, so its writes are
      (`writes_accesses`);
    * a shape changes byte registers by its function, by the stack, or by
      storing in the accumulator (`Effect.Touches`), and in no other way
      (`Machine.sameButFor_perform`);
    * the program counter is moved by what jumps, and a branch that is not
      taken does nothing at all (`Machine.execute_of_not_taken`);
    * of P an operation stores all flags but its own as they were
      (`Machine.sameBut_execute`). -/

namespace Micro6502

/-! ## Who may change what -/

namespace Registers

/-- The register file with another byte in a register. -/
def withByte (r : Registers) (b : Byte) : ByteRegister → Registers
  | .a => { r with a := b }
  | .x => { r with x := b }
  | .y => { r with y := b }
  | .s => { r with s := b }

theorem byte_withByte (r : Registers) (b : Byte) (v w : ByteRegister) :
    (r.withByte b w).byte v = if v = w then b else r.byte v := by
  cases w <;> cases v <;> rfl

end Registers

namespace Operation

/-- The stores and the read-modify-writes. -/
def storing : List Operation :=
  [.sta, .stx, .sty, .asl, .lsr, .rol, .ror, .inc, .dec]

/-- The operations that go elsewhere in every state. -/
def jumping : List Operation :=
  [.jmp, .jsr, .rts, .rti, .brk]

/-- What jumps is in the list of what jumps, or is a branch. -/
theorem mem_jumping_of_jumps {op : Operation} (h : op.jumps = true) :
    op ∈ jumping ∨ op.isBranch = true := by
  cases op with
  | jmp | jsr | rts | rti | brk => exact .inl (by decide)
  | bcc | bcs | bne | beq | bpl | bmi | bvc | bvs => exact .inr rfl
  | _ => exact nomatch h

end Operation

/-- The operations that may change a register whatever their operand. -/
def ByteRegister.changers : ByteRegister → List Operation
  | .a => [.lda, .adc, .sbc, .and, .ora, .eor, .pla, .txa, .tya]
  | .x => [.ldx, .inx, .dex, .tax, .tsx]
  | .y => [.ldy, .iny, .dey, .tay]
  | .s => [.pha, .php, .pla, .plp, .jsr, .rts, .rti, .brk, .txs]

/-- Whether an operation may change a register: what is stored at the accumulator changes it. -/
def Operation.MayChange (op : Operation) (o : Operand) (w : ByteRegister) : Prop :=
  op ∈ w.changers ∨ w = .a ∧ o = .accumulator ∧ op ∈ storing

/-- The operations that may change what a flag reads as. -/
def Flag.changers : Flag → List Operation
  | .carry =>
      [.adc, .sbc, .cmp, .cpx, .cpy, .asl, .lsr, .rol, .ror, .clc, .sec, .plp, .rti]
  | .zero | .negative =>
      [.plp, .rti, .bit, .lda, .ldx, .ldy, .adc, .sbc, .and, .ora, .eor, .cmp, .cpx, .cpy,
        .asl, .lsr, .rol, .ror, .inc, .dec, .inx, .iny, .dex, .dey, .pla,
        .tax, .tay, .txa, .tya, .tsx]
  | .interruptDisable => [.cli, .sei, .brk, .plp, .rti]
  | .decimal => [.cld, .sed, .plp, .rti]
  | .brk => [.plp, .rti]
  | .unused => []
  | .overflow => [.adc, .sbc, .bit, .clv, .plp, .rti]

/-- An operation is among those that may change a flag of its own, `unused` apart. -/
theorem Operation.mem_changers_of_mem_flags {op : Operation} {f : Flag} (own : f ∈ op.flags) :
    f = .unused ∨ op ∈ f.changers := by
  have table : ∀ op ∈ all, ∀ f ∈ op.flags, f = .unused ∨ op ∈ f.changers := by decide
  exact table op (mem_all op) f own

/-- The address that an access writes to. -/
def Access.written? : Access → Option Word
  | .read _ _ => none
  | .write a _ => some a

/-- The address of an operand, if it is in memory. -/
def Operand.cells : Operand → List Word
  | .accumulator => []
  | .address a => [a]

/-- The addresses that an operation writes to, in order, with S at `s`. -/
def Operation.writes (s : Byte) (o : Operand) : Operation → List Word
  | .sta | .stx | .sty => o.cells
  -- the byte that was read is written before the result
  | .asl | .lsr | .rol | .ror | .inc | .dec => o.cells ++ o.cells
  | .pha | .php => [stackSlot s]
  | .jsr => [stackSlot s, stackSlot (s - 1)]
  | .brk => [stackSlot s, stackSlot (s - 1), stackSlot (s - 2)]
  | _ => []

/-- The writes among the accesses of an operation are those listed for it. -/
theorem writes_accesses (op : Operation) (r : Registers) (o : Operand) (g : Given) :
    (op.accesses r o g).filterMap Access.written? = op.writes r.s o := by
  cases o <;> cases op <;> rfl

/-! ## Byte registers -/

/-- `r'` has the bytes of `r`, but in some registers. -/
def Registers.SameButFor (may : ByteRegister → Prop) (r r' : Registers) : Prop :=
  ∀ w, ¬may w → r'.byte w = r.byte w

namespace Registers.SameButFor

variable {may : ByteRegister → Prop} {r r' r'' : Registers}

theorem refl (may : ByteRegister → Prop) (r : Registers) : SameButFor may r r :=
  fun _ _ => rfl

theorem trans (first : SameButFor may r r') (second : SameButFor may r' r'') :
    SameButFor may r r'' :=
  fun w out => (second w out).trans (first w out)

/-- Writing a register that may change keeps the others. -/
theorem withByte (w : ByteRegister) (own : may w) (r : Registers) (b : Byte) :
    SameButFor may r (r.withByte b w) := by
  intro v out
  have apart : v ≠ w := fun same => out (same ▸ own)
  rw [byte_withByte, if_neg apart]

/-- A move of the stack keeps the other three. -/
theorem ofStack (own : may .s) (a : r'.a = r.a) (x : r'.x = r.x) (y : r'.y = r.y) :
    SameButFor may r r' := by
  intro w out
  cases w with
  | a => exact a
  | x => exact x
  | y => exact y
  | s => exact absurd own out

end Registers.SameButFor

open Registers (SameButFor)

/-- A shape that runs on an operand changes no other registers than these. -/
def Effect.Touches (may : ByteRegister → Prop) (o : Operand) : Effect → Prop
  | .load f => ∀ b r, SameButFor may r (f b r)
  | .internal f => ∀ r, SameButFor may r (f r)
  | .store _ | .modify _ => o = .accumulator → may .a
  | .pull f => may .s ∧ ∀ b r, SameButFor may r (f b r)
  | .push _ | .call | .returnFromCall | .softwareBreak | .returnFromInterrupt => may .s
  | .branch _ _ | .jump => True

/-- The shape of every operation touches only what the operation may change: one case for each
    operation, by what it writes. -/
theorem touches_effect (bcd : Bool) (op : Operation) (o : Operand) :
    (op.effect bcd).Touches (op.MayChange o) o := by
  cases op with
  | lda | and | ora | eor | adc | sbc =>
      intro b r
      exact .withByte .a (.inl (by decide)) r _
  | ldx =>
      intro b r
      exact .withByte .x (.inl (by decide)) r b
  | ldy =>
      intro b r
      exact .withByte .y (.inl (by decide)) r b
  | bit | cmp | cpx | cpy =>
      intro b r
      exact .refl _ r
  | sta | stx | sty | asl | lsr | rol | ror | inc | dec =>
      intro onAccumulator
      exact .inr ⟨rfl, onAccumulator, by decide⟩
  | txa | tya =>
      intro r
      exact .withByte .a (.inl (by decide)) r _
  | inx | dex | tax | tsx =>
      intro r
      exact .withByte .x (.inl (by decide)) r _
  | iny | dey | tay =>
      intro r
      exact .withByte .y (.inl (by decide)) r _
  | txs =>
      intro r
      exact .withByte .s (.inl (by decide)) r _
  | clc | sec | cli | sei | cld | sed | clv | nop =>
      intro r
      exact .refl _ r
  | pla => exact ⟨.inl (by decide), fun b r => .withByte .a (.inl (by decide)) r b⟩
  | plp => exact ⟨.inl (by decide), fun b r => .refl _ r⟩
  | pha | php | jsr | rts | brk | rti => exact .inl (by decide)
  | _ => trivial

namespace Machine

section

variable {β : Type} [Bus β]

/-- Running a shape changes no other byte registers than it touches. -/
theorem sameButFor_perform {may : ByteRegister → Prop} {e : Effect} {o : Operand}
    (touches : e.Touches may o) (m : Machine β) :
    SameButFor may m.regs (m.perform e o).2.regs := by
  cases e with
  | load f =>
      rw [perform_load]
      exact touches _ m.regs
  | internal f => exact touches m.regs
  | store f =>
      cases o with
      | accumulator => exact .withByte .a (touches rfl) m.regs _
      | address a => exact .refl may m.regs
  | modify f =>
      cases o with
      | accumulator => exact .withByte .a (touches rfl) m.regs _
      | address a => exact .refl may m.regs
  | pull f =>
      obtain ⟨stack, function⟩ := touches
      have up : SameButFor may m.regs m.pull.2.regs := .ofStack stack rfl rfl rfl
      exact up.trans (function m.pull.1 m.pull.2.regs)
  | push f | call | returnFromCall => exact .ofStack touches rfl rfl rfl
  | softwareBreak =>
      show SameButFor may m.regs (m.enterService _ _ _).regs
      rw [regs_enterService]
      exact .ofStack touches rfl rfl rfl
  | returnFromInterrupt =>
      show SameButFor may m.regs (m.execute false .rti .accumulator).2.regs
      rw [regs_rti]
      exact .ofStack touches rfl rfl rfl
  | branch flag wanted =>
      show SameButFor may m.regs (m.branch o _).2.regs
      rw [branch]
      split <;> exact .refl may m.regs
  | jump => exact .refl may m.regs

/-- An operation keeps every byte register that it may not change. -/
theorem sameButFor_execute (bcd : Bool) (op : Operation) (o : Operand) (m : Machine β) :
    SameButFor (op.MayChange o) m.regs (m.execute bcd op o).2.regs :=
  sameButFor_perform (touches_effect bcd op o) m

/-! ## The program counter -/

/-- A branch that is not taken does nothing. -/
theorem execute_of_not_taken (bcd : Bool) {op : Operation} (branch : op.isBranch = true)
    (o : Operand) {m : Machine β} (stays : op.takes m.regs.p = false) :
    m.execute bcd op o = (0, m) := by
  rw [execute_of_isBranch bcd branch, stays]
  rfl

/-- Only what jumps, or a branch that is taken, moves the program counter. -/
theorem jumps_of_pc_execute {bcd : Bool} {op : Operation} {o : Operand} {m : Machine β}
    (moved : (m.execute bcd op o).2.regs.pc ≠ m.regs.pc) :
    op ∈ Operation.jumping ∨ op.takes m.regs.p = true := by
  cases jumps : op.jumps with
  | false => exact absurd (pc_execute_of_not_jumps bcd jumps o m) moved
  | true =>
      refine (Operation.mem_jumping_of_jumps jumps).imp_right fun branch => ?_
      refine eq_true_of_ne_false fun stays => moved ?_
      rw [execute_of_not_taken bcd branch o stays]

/-! ## Flags -/

/-- Only an operation listed for a flag changes how it reads. -/
theorem mem_changers_of_get_execute {bcd : Bool} {op : Operation} {o : Operand} {m : Machine β}
    {f : Flag} (changed : (m.execute bcd op o).2.regs.p.get f ≠ m.regs.p.get f) :
    op ∈ f.changers := by
  have own : f ∈ op.flags :=
    Decidable.not_not.mp fun out => changed ((sameBut_execute bcd op o m).get out)
  refine (Operation.mem_changers_of_mem_flags own).resolve_left ?_
  rintro rfl
  exact changed (by rw [Status.get_unused, Status.get_unused])

/-- What pulls P clears its break bit. -/
theorem get_brk_execute (bcd : Bool) {op : Operation} (pulls : op ∈ Flag.brk.changers) (o : Operand)
    (m : Machine β) : (m.execute bcd op o).2.regs.p.get .brk = false := by
  have cleared (b : Byte) : (Status.pulled b).get .brk = false := by
    rw [Status.get_pulled]
    rfl
  rcases List.mem_cons.mp pulls with rfl | last
  · exact cleared m.pull.1
  · obtain rfl := List.mem_singleton.mp last
    exact cleared m.pull.1

end

/-! ## All of it -/

/-- From `m` to `after` nothing has changed but what an operation with this operand may change. -/
structure ChangesOnly {β : Type} [Bus β] (op : Operation) (o : Operand)
    (m after : Machine (Monitor β)) : Prop where
  /-- The writes, in order, are to the operand or to the slots from S down. -/
  writes : ∃ as, Monitor.Sees m.bus after.bus as ∧
    as.filterMap Access.written? = op.writes m.regs.s o
  pc : after.regs.pc ≠ m.regs.pc → op ∈ Operation.jumping ∨ op.takes m.regs.p = true
  s : after.regs.s ≠ m.regs.s → op ∈ ByteRegister.s.changers
  x : after.regs.x ≠ m.regs.x → op ∈ ByteRegister.x.changers
  y : after.regs.y ≠ m.regs.y → op ∈ ByteRegister.y.changers
  a : after.regs.a ≠ m.regs.a →
    op ∈ ByteRegister.a.changers ∨ op ∈ Operation.storing ∧ o = .accumulator
  flag : ∀ f, after.regs.p.get f ≠ m.regs.p.get f → op ∈ f.changers
  cleared : op ∈ Flag.brk.changers → after.regs.p.get .brk = false

variable {β : Type} [Bus β]

/-- **Operations leave the rest alone.**  On every bus, for either kind of operand and from every
    register file, an operation writes to the addresses of its kind, in order, and nowhere else, and
    changes no register and no flag but those that are its own; and the bus behind the monitor makes
    of it what it makes without one. -/
theorem operations_leave_the_rest (bcd : Bool) (op : Operation) (o : Operand)
    (m : Machine (Monitor β)) :
    ChangesOnly op o m (m.execute bcd op o).2 ∧
      (m.execute bcd op o).2.behind = (m.behind.execute bcd op o).2 := by
  have bytes := sameButFor_execute bcd op o m
  have own (w : ByteRegister)
      (changed : (m.execute bcd op o).2.regs.byte w ≠ m.regs.byte w) : op.MayChange o w :=
    Classical.not_not.mp fun out => changed (bytes w out)
  refine ⟨?_, congrArg Prod.snd (behind_execute bcd op o m)⟩
  constructor
  case writes =>
    obtain ⟨g, sees⟩ := sees_execute bcd op o m
    exact ⟨_, sees, writes_accesses op m.regs o g⟩
  case pc => exact jumps_of_pc_execute
  case s => exact fun changed => (own .s changed).resolve_right nofun
  case x => exact fun changed => (own .x changed).resolve_right nofun
  case y => exact fun changed => (own .y changed).resolve_right nofun
  case a =>
    intro changed
    obtain listed | ⟨-, onAccumulator, stores⟩ := own .a changed
    · exact .inl listed
    · exact .inr ⟨stores, onAccumulator⟩
  case flag => exact fun f => mem_changers_of_get_execute
  case cleared => exact fun pulls => get_brk_execute bcd pulls o m

end Machine

end Micro6502
