import Micro6502.Instruction
import Micro6502.Proofs.StatusByte

/-! # Alike — machines that tell no difference

    P stores a byte, but two of its bits are no flags: `unused` reads as one
    whatever is stored, and `brk` has a meaning in copies on the stack alone.
    Values of P are alike if they read the same but for `brk`, and machines
    are if they differ by no more than that.  The route:

    * no function of a shape tells alike registers apart
      (`Effect.Respects`), so running a shape keeps machines alike
      (`Machine.Alike.perform`);
    * neither does finding an operand, as it never looks at P
      (`Machine.resolve_withP`), and so whole instructions and entries to
      service routines keep them alike (`Machine.Alike.runDecoded`,
      `Machine.Alike.enterService`). -/

namespace Micro6502

/-! ## Values of P that are alike -/

/-- Two values of P read the same, but for `brk`. -/
def Status.Alike (p q : Status) : Prop :=
  ∀ f, f ≠ .brk → q.get f = p.get f

namespace Status.Alike

variable {p q : Status}

theorem refl (p : Status) : p.Alike p :=
  fun _ _ => rfl

theorem set (alike : p.Alike q) (f : Flag) (v : Bool) : (p.set f v).Alike (q.set f v) := by
  intro g flag
  rw [get_set, get_set, alike g flag]

theorem withNZ (alike : p.Alike q) (b : Byte) : (p.withNZ b).Alike (q.withNZ b) :=
  (alike.set .zero _).set .negative _

/-- A copy on the stack has its own `brk`, so it is the same. -/
theorem pushed (alike : p.Alike q) (software : Bool) : q.pushed software = p.pushed software := by
  refine eq_of_flags fun f => ?_
  rw [getLsbD_pushed, getLsbD_pushed]
  split
  · rfl
  · exact alike f ‹_›

theorem carryIn (alike : p.Alike q) : Alu.carryIn q = Alu.carryIn p :=
  congrArg Bool.toNat (alike .carry (by decide))

theorem isDecimal (alike : p.Alike q) (bcd : Bool) : Alu.isDecimal bcd q = Alu.isDecimal bcd p :=
  congrArg (bcd && ·) (alike .decimal (by decide))

end Status.Alike

namespace Alu

/-- Two outcomes are one byte, with values of P that are alike. -/
structure Outcome.Alike (o o' : Outcome) : Prop where
  value : o'.value = o.value
  status : o.status.Alike o'.status

variable {p q : Status}

/-- A binary sum takes no more from P than its carry. -/
theorem alike_addBinary (a b : Byte) (alike : p.Alike q) :
    (addBinary a b p).Alike (addBinary a b q) := by
  rw [addBinary, addBinary, alike.carryIn]
  exact ⟨rfl, ((alike.set .carry _).set .overflow _).withNZ _⟩

/-- A decimal sum takes no more from P than its carry. -/
theorem alike_addDecimal (a b : Byte) (alike : p.Alike q) :
    (addDecimal a b p).Alike (addDecimal a b q) := by
  rw [addDecimal, addDecimal, alike.carryIn]
  exact ⟨rfl, (((alike.set .zero _).set .negative _).set .overflow _).set .carry _⟩

theorem alike_subDecimal (a b : Byte) (alike : p.Alike q) :
    (subDecimal a b p).Alike (subDecimal a b q) := by
  rw [subDecimal, subDecimal, alike.carryIn]
  exact ⟨rfl, ((alike.set .carry _).set .overflow _).withNZ _⟩

/-- Addition reads only the carry and the decimal flag. -/
theorem alike_add (bcd : Bool) (a b : Byte) (alike : p.Alike q) :
    (add bcd a b p).Alike (add bcd a b q) := by
  rw [add, add, alike.isDecimal]
  split
  · exact alike_addDecimal a b alike
  · exact alike_addBinary a b alike

theorem alike_sub (bcd : Bool) (a b : Byte) (alike : p.Alike q) :
    (sub bcd a b p).Alike (sub bcd a b q) := by
  rw [sub, sub, alike.isDecimal]
  split
  · exact alike_subDecimal a b alike
  · exact alike_addBinary a (~~~b) alike

theorem alike_shiftLeft (entering : Bool) (b : Byte) (alike : p.Alike q) :
    (shiftLeft entering b p).Alike (shiftLeft entering b q) :=
  ⟨rfl, (alike.set .carry _).withNZ _⟩

theorem alike_shiftRight (entering : Bool) (b : Byte) (alike : p.Alike q) :
    (shiftRight entering b p).Alike (shiftRight entering b q) :=
  ⟨rfl, (alike.set .carry _).withNZ _⟩

end Alu

/-! ## Operations on alike registers -/

/-- Two register files are the same but for P, which is alike. -/
def Registers.Alike (r r' : Registers) : Prop :=
  ∃ q, r.p.Alike q ∧ r' = { r with p := q }

/-- Alike outcomes put into the accumulator leave alike registers. -/
theorem Registers.alike_accumulate {o o' : Alu.Outcome} (alike : o.Alike o') (r : Registers)
    (q : Status) : (r.accumulate o).Alike (Registers.accumulate o' { r with p := q }) := by
  refine ⟨o'.status, alike.status, ?_⟩
  rw [accumulate, alike.value]
  rfl

/-- The function of a shape does alike on alike registers, and a branch is not on `brk`. -/
def Effect.Respects : Effect → Prop
  | .load f | .pull f => ∀ b {r r'}, r.Alike r' → (f b r).Alike (f b r')
  | .store f | .push f => ∀ {r r'}, Registers.Alike r r' → f r' = f r
  | .modify f => ∀ b {p q}, p.Alike q → (f b p).Alike (f b q)
  | .internal f => ∀ {r r'}, r.Alike r' → (f r).Alike (f r')
  | .branch flag _ => flag ≠ .brk
  -- the other shapes have no function
  | _ => True

/-- Every operation on registers alone gives alike registers from alike ones. -/
theorem respects_effect (bcd : Bool) (op : Operation) : (op.effect bcd).Respects := by
  cases op with
  | lda | ldx | ldy | and | ora | eor | pla =>
      rintro b r _ ⟨q, alike, rfl⟩
      exact ⟨_, alike.withNZ _, rfl⟩
  | adc =>
      rintro b r _ ⟨q, alike, rfl⟩
      exact Registers.alike_accumulate (Alu.alike_add bcd r.a b alike) r q
  | sbc =>
      rintro b r _ ⟨q, alike, rfl⟩
      exact Registers.alike_accumulate (Alu.alike_sub bcd r.a b alike) r q
  | bit =>
      rintro b r _ ⟨q, alike, rfl⟩
      exact ⟨_, ((alike.set .zero _).set .negative _).set .overflow _, rfl⟩
  | cmp | cpx | cpy =>
      rintro b r _ ⟨q, alike, rfl⟩
      exact ⟨_, (alike.set .carry _).withNZ _, rfl⟩
  | sta | stx | sty | pha =>
      rintro r _ ⟨q, -, rfl⟩
      rfl
  | php =>
      rintro r _ ⟨q, alike, rfl⟩
      exact alike.pushed true
  | asl =>
      intro b p q alike
      exact Alu.alike_shiftLeft false b alike
  | lsr =>
      intro b p q alike
      exact Alu.alike_shiftRight false b alike
  | rol =>
      intro b p q alike
      rw [Alu.rotateLeft, Alu.rotateLeft, alike .carry (by decide)]
      exact Alu.alike_shiftLeft _ b alike
  | ror =>
      intro b p q alike
      rw [Alu.rotateRight, Alu.rotateRight, alike .carry (by decide)]
      exact Alu.alike_shiftRight _ b alike
  | inc | dec =>
      intro b p q alike
      exact ⟨rfl, alike.withNZ _⟩
  | inx | iny | dex | dey | tax | tay | txa | tya | tsx =>
      rintro r _ ⟨q, alike, rfl⟩
      exact ⟨_, alike.withNZ _, rfl⟩
  | clc | sec | cli | sei | cld | sed | clv =>
      rintro r _ ⟨q, alike, rfl⟩
      exact ⟨_, alike.set _ _, rfl⟩
  | txs | nop =>
      rintro r _ ⟨q, alike, rfl⟩
      exact ⟨q, alike, rfl⟩
  | plp =>
      rintro b r _ ⟨q, -, rfl⟩
      exact ⟨_, Status.Alike.refl (.pulled b), rfl⟩
  | bcc | bcs | bne | beq | bpl | bmi | bvc | bvs => exact nofun
  | _ => trivial

/-! ## Machines that are alike -/

namespace Machine

variable {β : Type}

/-- The machine with another P. -/
def withP (q : Status) (m : Machine β) : Machine β :=
  m.mapRegs fun r => { r with p := q }

/-- Two machines are the same but for P, which is alike. -/
def Alike (m m' : Machine β) : Prop :=
  ∃ q, m.regs.p.Alike q ∧ m' = m.withP q

namespace Alike

variable {m m' : Machine β}

theorem regs (alike : m.Alike m') : m.regs.Alike m'.regs := by
  obtain ⟨q, same, rfl⟩ := alike
  exact ⟨q, same, rfl⟩

/-- A change to the registers that keeps alike ones alike keeps alike machines alike. -/
theorem mapRegs {f : Registers → Registers} (alike : m.Alike m')
    (keeps : ∀ {r r'}, Registers.Alike r r' → (f r).Alike (f r')) :
    (m.mapRegs f).Alike (m'.mapRegs f) := by
  obtain ⟨r, p, regs⟩ := keeps alike.regs
  obtain ⟨q, same, rfl⟩ := alike
  exact ⟨r, p, congrArg (fun regs => (⟨regs, m.bus⟩ : Machine β)) regs⟩

theorem jump (alike : m.Alike m') (pc : Word) : (m.jump pc).Alike (m'.jump pc) := by
  obtain ⟨q, same, rfl⟩ := alike
  exact ⟨q, same, rfl⟩

theorem mapBus (alike : m.Alike m') (f : β → β) : (m.mapBus f).Alike (m'.mapBus f) := by
  obtain ⟨q, same, rfl⟩ := alike
  exact ⟨q, same, rfl⟩

theorem pc (alike : m.Alike m') : m'.regs.pc = m.regs.pc := by
  obtain ⟨q, same, rfl⟩ := alike
  rfl

theorem target (alike : m.Alike m') (o : Operand) : m'.target o = m.target o := by
  obtain ⟨q, same, rfl⟩ := alike
  cases o <;> rfl

/-- A branch is taken alike and costs the same. -/
theorem branch (alike : m.Alike m') (o : Operand) (taken : Bool) :
    (m'.branch o taken).1 = (m.branch o taken).1 ∧
      (m.branch o taken).2.Alike (m'.branch o taken).2 := by
  rw [Machine.branch, Machine.branch, alike.target]
  cases taken with
  | true =>
      have moved := alike.jump (m.target o)
      obtain ⟨q, same, rfl⟩ := alike
      exact ⟨rfl, moved⟩
  | false => exact ⟨rfl, alike⟩

end Alike

variable [Bus β]

/-- Addressing neither reads nor writes P. -/
theorem resolve_withP (mode : Mode) (q : Status) (m : Machine β) :
    (m.withP q).resolve mode = ((m.resolve mode).1, (m.resolve mode).2.withP q) := by
  cases mode <;> rfl

theorem p_resolve (mode : Mode) (m : Machine β) : (m.resolve mode).2.regs.p = m.regs.p := by
  rw [regs_resolve]

namespace Alike

variable {m m' : Machine β}

/-- Alike machines load the same operand. -/
theorem loadOperand (alike : m.Alike m') (o : Operand) :
    (m'.loadOperand o).1 = (m.loadOperand o).1 ∧
      (m.loadOperand o).2.Alike (m'.loadOperand o).2 := by
  obtain ⟨q, same, rfl⟩ := alike
  cases o with
  | accumulator => exact ⟨rfl, q, same, rfl⟩
  | address a => exact ⟨rfl, q, same, rfl⟩

theorem storeOperand (alike : m.Alike m') (b : Byte) (o : Operand) :
    (m.storeOperand b o).Alike (m'.storeOperand b o) := by
  obtain ⟨q, same, rfl⟩ := alike
  cases o with
  | accumulator => exact ⟨q, same, rfl⟩
  | address a => exact ⟨q, same, rfl⟩

/-- Alike machines modify an operand alike, where the change gives alike outcomes. -/
theorem modifyOperand {f : Byte → Status → Alu.Outcome}
    (keeps : ∀ b {p q}, Status.Alike p q → (f b p).Alike (f b q)) (alike : m.Alike m')
    (o : Operand) : (m.modifyOperand f o).Alike (m'.modifyOperand f o) := by
  cases o with
  | accumulator =>
      show (m.mapRegs fun r => r.accumulate (f r.a r.p)).Alike
        (m'.mapRegs fun r => r.accumulate (f r.a r.p))
      refine alike.mapRegs ?_
      rintro r _ ⟨q, same, rfl⟩
      exact Registers.alike_accumulate (keeps r.a same) r q
  | address a =>
      obtain ⟨q, same, rfl⟩ := alike
      obtain ⟨value, status⟩ := keeps (m.read a).1 same
      refine ⟨_, status, ?_⟩
      show Machine.write _ a (f (m.read a).1 q).value = _
      rw [value]
      rfl

theorem push (alike : m.Alike m') (b : Byte) : (m.push b).Alike (m'.push b) := by
  obtain ⟨q, same, rfl⟩ := alike
  exact ⟨q, same, rfl⟩

theorem pushWord (alike : m.Alike m') (w : Word) : (m.pushWord w).Alike (m'.pushWord w) :=
  (alike.push _).push _

theorem pull (alike : m.Alike m') :
    m'.pull.1 = m.pull.1 ∧ m.pull.2.Alike m'.pull.2 := by
  obtain ⟨q, same, rfl⟩ := alike
  exact ⟨rfl, q, same, rfl⟩

theorem pullWord (alike : m.Alike m') :
    m'.pullWord.1 = m.pullWord.1 ∧ m.pullWord.2.Alike m'.pullWord.2 := by
  obtain ⟨q, same, rfl⟩ := alike
  exact ⟨rfl, q, same, rfl⟩

theorem readWord (alike : m.Alike m') (a : Word) :
    (m'.readWord a).1 = (m.readWord a).1 ∧ (m.readWord a).2.Alike (m'.readWord a).2 := by
  obtain ⟨q, same, rfl⟩ := alike
  exact ⟨rfl, q, same, rfl⟩

/-- The copy of P that an interrupt leaves on the stack is the same. -/
theorem enterService (alike : m.Alike m') (back vector : Word) (software : Bool) :
    (m.enterService back vector software).Alike (m'.enterService back vector software) := by
  have copy : m'.regs.p.pushed software = m.regs.p.pushed software := by
    obtain ⟨q, same, regs⟩ := alike.regs
    rw [regs]
    exact same.pushed software
  have masked := ((alike.pushWord back).push (m.regs.p.pushed software)).mapRegs
    (f := (·.mapStatus (Status.set · .interruptDisable true))) (by
      rintro r _ ⟨q, same, rfl⟩
      exact ⟨_, same.set _ _, rfl⟩)
  obtain ⟨start, after⟩ := masked.readWord vector
  rw [Machine.enterService, Machine.enterService, copy]
  show Machine.Alike (Machine.jump _ _) (Machine.jump _ _)
  rw [start]
  exact after.jump _

/-- Running a shape that respects alike registers keeps machines alike, and costs the same. -/
theorem perform {e : Effect} (respects : e.Respects) (o : Operand) (alike : m.Alike m') :
    (m'.perform e o).1 = (m.perform e o).1 ∧ (m.perform e o).2.Alike (m'.perform e o).2 := by
  cases e with
  | load f =>
      obtain ⟨byte, after⟩ := alike.loadOperand o
      refine ⟨rfl, ?_⟩
      show Machine.Alike (Machine.mapRegs _ _) (Machine.mapRegs (f (m'.loadOperand o).1) _)
      rw [byte]
      exact after.mapRegs (respects _)
  | store f =>
      refine ⟨rfl, ?_⟩
      show Machine.Alike (Machine.storeOperand _ _ _) (m'.storeOperand (f m'.regs) o)
      rw [respects alike.regs]
      exact alike.storeOperand _ o
  | modify f => exact ⟨rfl, alike.modifyOperand respects o⟩
  | internal f => exact ⟨rfl, alike.mapRegs respects⟩
  | branch flag wanted =>
      have tested : m'.regs.p.get flag = m.regs.p.get flag := by
        obtain ⟨q, same, rfl⟩ := alike
        exact same flag respects
      rw [Machine.perform, Machine.perform, tested]
      exact alike.branch o _
  | jump =>
      refine ⟨rfl, ?_⟩
      show Machine.Alike (Machine.jump _ _) (m'.jump (m'.target o))
      rw [alike.target]
      exact alike.jump _
  | call =>
      refine ⟨rfl, ?_⟩
      show Machine.Alike (Machine.jump _ _) ((m'.pushWord (m'.regs.pc - 1)).jump (m'.target o))
      rw [alike.target, alike.pc]
      exact (alike.pushWord _).jump _
  | returnFromCall =>
      obtain ⟨back, after⟩ := alike.pullWord
      refine ⟨rfl, ?_⟩
      show Machine.Alike (Machine.jump _ _) (m'.pullWord.2.jump (m'.pullWord.1 + 1))
      rw [back]
      exact after.jump _
  | push f =>
      refine ⟨rfl, ?_⟩
      show Machine.Alike (Machine.push _ _) (m'.push (f m'.regs))
      rw [respects alike.regs]
      exact alike.push _
  | pull f =>
      obtain ⟨byte, after⟩ := alike.pull
      refine ⟨rfl, ?_⟩
      show Machine.Alike (Machine.mapRegs _ _) (m'.pull.2.mapRegs (f m'.pull.1))
      rw [byte]
      exact after.mapRegs (respects _)
  | softwareBreak =>
      refine ⟨rfl, ?_⟩
      show Machine.Alike _ (m'.enterService (m'.regs.pc + 1) irqVector true)
      rw [alike.pc]
      exact alike.enterService _ irqVector true
  | returnFromInterrupt =>
      -- what is pulled replaces P, so nothing is left of the difference
      obtain ⟨q, same, rfl⟩ := alike
      exact ⟨rfl, _, Status.Alike.refl _, rfl⟩

/-- Finding an operand finds the same one. -/
theorem resolve (alike : m.Alike m') (mode : Mode) :
    (m'.resolve mode).1 = (m.resolve mode).1 ∧ (m.resolve mode).2.Alike (m'.resolve mode).2 := by
  obtain ⟨q, same, rfl⟩ := alike
  rw [resolve_withP]
  refine ⟨rfl, q, ?_, rfl⟩
  rw [p_resolve]
  exact same

theorem fetchOpcode (alike : m.Alike m') :
    m'.fetchOpcode.1 = m.fetchOpcode.1 ∧ m.fetchOpcode.2.Alike m'.fetchOpcode.2 := by
  obtain ⟨q, same, rfl⟩ := alike
  exact ⟨rfl, _, same.set .unused true, rfl⟩

/-- An instruction keeps machines alike, and costs the same. -/
theorem runDecoded (alike : m.Alike m') (bcd : Bool) (d : Descriptor) :
    (m'.runDecoded bcd d).1 = (m.runDecoded bcd d).1 ∧
      (m.runDecoded bcd d).2.Alike (m'.runDecoded bcd d).2 := by
  obtain ⟨found, ready⟩ := alike.resolve d.mode
  obtain ⟨extra, done⟩ :=
    ready.perform (respects_effect bcd d.operation) (m.resolve d.mode).1.operand
  rw [Machine.runDecoded, Machine.runDecoded, found]
  exact ⟨congrArg (d.cycles + _ + ·) extra, done⟩

end Alike

end Machine

end Micro6502
