import Micro6502.Operation.Execute

/-! # What stays of P — the flags that an operation leaves alone

    `Operation.flags` lists the flags that an operation may change.  That it
    stores every other bit of P as it was is checked along the shapes: a
    shape has its function of P to answer for (`Effect.Within`), those
    functions set flags one by one (`Status.SameBut.set`), and running the
    shape changes P in no other way (`Machine.sameBut_perform`). -/

namespace Micro6502

/-- The flags that an operation may change. -/
def Operation.flags : Operation → List Flag
  | .adc | .sbc => [.carry, .zero, .overflow, .negative]
  | .cmp | .cpx | .cpy | .asl | .lsr | .rol | .ror => [.carry, .zero, .negative]
  | .bit => [.zero, .overflow, .negative]
  | .lda | .ldx | .ldy | .and | .ora | .eor | .inc | .dec | .inx | .iny | .dex | .dey
  | .tax | .tay | .txa | .tya | .tsx | .pla => [.zero, .negative]
  | .clc | .sec => [.carry]
  | .cli | .sei | .brk => [.interruptDisable]
  | .cld | .sed => [.decimal]
  | .clv => [.overflow]
  | .plp | .rti => Flag.all
  -- branches, jumps, stores, pushes and TXS
  | _ => []

namespace Status

/-- `q` stores every flag as `p` does, but for some. -/
def SameBut (fs : List Flag) (p q : Status) : Prop :=
  ∀ f, f ∉ fs → q.raw.getLsbD f.bit = p.raw.getLsbD f.bit

namespace SameBut

variable {fs : List Flag} {p q : Status}

theorem refl (fs : List Flag) (p : Status) : SameBut fs p p :=
  fun _ _ => rfl

/-- Writing a flag that may differ keeps the others the same. -/
theorem set {f : Flag} (same : SameBut fs p q) (v : Bool) (may : f ∈ fs) :
    SameBut fs p (q.set f v) := by
  intro g out
  have apart : g ≠ f := fun eq => out (eq ▸ may)
  rw [getLsbD_raw_set, if_neg apart]
  exact same g out

/-- Describing a result keeps all flags the same but Z and N. -/
theorem withNZ (same : SameBut fs p q) (b : Byte) (zero : .zero ∈ fs) (negative : .negative ∈ fs) :
    SameBut fs p (q.withNZ b) :=
  (same.set _ zero).set _ negative

theorem get {f : Flag} (same : SameBut fs p q) (out : f ∉ fs) : q.get f = p.get f := by
  rw [get_eq, get_eq, same f out]

end SameBut

end Status

/-! ## What the arithmetic unit sets -/

namespace Alu

open Status (SameBut)

/-- A binary sum changes C, Z, V and N alone. -/
theorem sameBut_addBinary (a b : Byte) (p : Status) :
    SameBut [.carry, .zero, .overflow, .negative] p (addBinary a b p).status :=
  (((SameBut.refl _ p).set _ (by decide)).set _ (by decide)).withNZ _ (by decide) (by decide)

/-- A sum changes C, Z, V and N alone, decimal or not. -/
theorem sameBut_add (bcd : Bool) (a b : Byte) (p : Status) :
    SameBut [.carry, .zero, .overflow, .negative] p (add bcd a b p).status := by
  rw [add]
  split
  · exact ((((SameBut.refl _ p).set _ (by decide)).set _ (by decide)).set _ (by decide)).set _
      (by decide)
  · exact sameBut_addBinary a b p

/-- A difference changes C, Z, V and N alone, decimal or not. -/
theorem sameBut_sub (bcd : Bool) (a b : Byte) (p : Status) :
    SameBut [.carry, .zero, .overflow, .negative] p (sub bcd a b p).status := by
  rw [sub]
  split
  · exact (((SameBut.refl _ p).set _ (by decide)).set _ (by decide)).withNZ _ (by decide) (by decide)
  · exact sameBut_addBinary a (~~~b) p

theorem sameBut_compare (a b : Byte) (p : Status) :
    SameBut [.carry, .zero, .negative] p (compare a b p) :=
  ((SameBut.refl _ p).set _ (by decide)).withNZ _ (by decide) (by decide)

theorem sameBut_bitTest (a b : Byte) (p : Status) :
    SameBut [.zero, .overflow, .negative] p (bitTest a b p) :=
  (((SameBut.refl _ p).set _ (by decide)).set _ (by decide)).set _ (by decide)

theorem sameBut_shiftLeft (entering : Bool) (b : Byte) (p : Status) :
    SameBut [.carry, .zero, .negative] p (shiftLeft entering b p).status :=
  ((SameBut.refl _ p).set _ (by decide)).withNZ _ (by decide) (by decide)

theorem sameBut_shiftRight (entering : Bool) (b : Byte) (p : Status) :
    SameBut [.carry, .zero, .negative] p (shiftRight entering b p).status :=
  ((SameBut.refl _ p).set _ (by decide)).withNZ _ (by decide) (by decide)

end Alu

/-! ## What an operation sets -/

open Status (SameBut)

/-- The function of a shape changes no other flags than these. -/
def Effect.Within (fs : List Flag) : Effect → Prop
  | .load f | .pull f => ∀ b r, SameBut fs r.p (f b r).p
  | .modify f => ∀ b p, SameBut fs p (f b p).status
  | .internal f => ∀ r, SameBut fs r.p (f r).p
  | .softwareBreak => .interruptDisable ∈ fs
  | .returnFromInterrupt => ∀ f, f ∈ fs
  -- the other shapes keep P
  | _ => True

/-- Every operation on registers changes no flag but those listed for it. -/
theorem within_effect (bcd : Bool) (op : Operation) : (op.effect bcd).Within op.flags := by
  cases op with
  | lda | ldx | ldy | and | ora | eor | pla =>
      intro b r
      exact (SameBut.refl _ r.p).withNZ _ (by decide) (by decide)
  | adc =>
      intro b r
      exact Alu.sameBut_add bcd r.a b r.p
  | sbc =>
      intro b r
      exact Alu.sameBut_sub bcd r.a b r.p
  | bit =>
      intro b r
      exact Alu.sameBut_bitTest r.a b r.p
  | cmp | cpx | cpy =>
      intro b r
      exact Alu.sameBut_compare _ b r.p
  | asl | rol =>
      intro b p
      exact Alu.sameBut_shiftLeft _ b p
  | lsr | ror =>
      intro b p
      exact Alu.sameBut_shiftRight _ b p
  | inc | dec =>
      intro b p
      exact (SameBut.refl _ p).withNZ _ (by decide) (by decide)
  | inx | iny | dex | dey | tax | tay | txa | tya | tsx =>
      intro r
      exact (SameBut.refl _ r.p).withNZ _ (by decide) (by decide)
  | clc | sec | cli | sei | cld | sed | clv =>
      intro r
      exact (SameBut.refl _ r.p).set _ (by decide)
  | txs | nop =>
      intro r
      exact SameBut.refl _ r.p
  | plp =>
      intro b r f out
      exact absurd (Flag.mem_all f) out
  | rti => exact Flag.mem_all
  | brk => exact List.mem_singleton_self _
  | _ => trivial

namespace Machine

variable {β : Type} [Bus β]

/-- Running a shape changes P by its function alone. -/
theorem sameBut_perform {fs : List Flag} (e : Effect) (within : e.Within fs) (o : Operand)
    (m : Machine β) : SameBut fs m.regs.p (m.perform e o).2.regs.p := by
  cases e with
  | load f =>
      rw [perform_load]
      exact within (m.loadOperand o).1 m.regs
  | pull f => exact within m.pull.1 m.pull.2.regs
  | modify f =>
      cases o with
      | accumulator => exact within m.regs.a m.regs.p
      | address a => exact within (m.read a).1 m.regs.p
  | internal f => exact within m.regs
  | softwareBreak => exact (SameBut.refl fs m.regs.p).set true within
  | returnFromInterrupt =>
      intro f out
      exact absurd (within f) out
  | store f => cases o <;> exact SameBut.refl fs m.regs.p
  | branch flag wanted =>
      show SameBut fs m.regs.p (m.branch o _).2.regs.p
      rw [branch]
      split <;> exact SameBut.refl fs m.regs.p
  | jump | call | returnFromCall | push f => exact SameBut.refl fs m.regs.p

/-- An operation stores every flag as it was, but for those it may change. -/
theorem sameBut_execute (bcd : Bool) (op : Operation) (o : Operand) (m : Machine β) :
    SameBut op.flags m.regs.p (m.execute bcd op o).2.regs.p :=
  sameBut_perform _ (within_effect bcd op) o m

end Machine

end Micro6502
