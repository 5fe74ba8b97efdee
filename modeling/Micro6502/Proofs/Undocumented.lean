import Micro6502.Bus.Ram
import Micro6502.Proofs.Footprint
import Micro6502.Proofs.StatusByte

/-! # Undocumented opcodes — a pause, and no more

    A byte without a documented meaning stands for a NOP of some mode, so it
    finds an operand and leaves it alone.  The route:

    * a NOP is what finding its operand is, in what it does and in what it
      costs (`Machine.runDecoded_of_nop`), and so is its step
      (`step_eq_of_nop`);
    * finding an operand only reads, and the number of cycles on top tells
      whether indexing left a page (`Machine.sees_resolve`);
    * the opcode grid puts each of these bytes in a mode that documented
      opcodes read in, and the fewest cycles of those are what it takes
      (`Opcode.fewestCycles_decode`). -/

namespace Micro6502

/-- Whether an operation does no more than read its operand, if that. -/
def Operation.justReads : Operation → Bool
  | .lda | .ldx | .ldy | .adc | .sbc | .and | .ora | .eor | .cmp | .cpx | .cpy | .bit | .nop => true
  | _ => false

/-- The fewest base cycles of the documented opcodes that just read in a mode, if it has any. -/
def Mode.fewestCycles (mode : Mode) : Option Nat :=
  ((Opcode.documented.filter fun e => e.2.operation.justReads && e.2.mode == mode).map
    fun e => e.2.cycles).min?

/-- Addressing only reads. -/
theorem isRead_of_mem_reads (mode : Mode) (r : Registers) (f : Found) :
    ∀ x ∈ mode.reads r f, x.isRead = true := by
  cases mode with
  | implied | immediate => exact fun _ none => nomatch none
  | zeroPage | zeroPageX | zeroPageY | relative => exact List.forall_mem_singleton.mpr rfl
  | absolute | absoluteX | absoluteY =>
      exact List.forall_mem_cons.mpr ⟨rfl, List.forall_mem_singleton.mpr rfl⟩
  | indirectX | indirectY =>
      exact List.forall_mem_cons.mpr ⟨rfl, List.forall_mem_cons.mpr
        ⟨rfl, List.forall_mem_singleton.mpr rfl⟩⟩
  | indirect =>
      exact List.forall_mem_cons.mpr ⟨rfl, List.forall_mem_cons.mpr
        ⟨rfl, List.forall_mem_cons.mpr ⟨rfl, List.forall_mem_singleton.mpr rfl⟩⟩⟩

namespace Opcode

/-- Every mode but two has documented readers, and `readCycles` are the fewest that one takes. -/
theorem fewestCycles_eq {mode : Mode} (direct : mode ≠ .indirect) (data : mode ≠ .relative) :
    mode.fewestCycles = some mode.readCycles := by
  cases mode with
  | indirect => exact absurd rfl direct
  | relative => exact absurd rfl data
  | _ => decide +kernel

/-- The grid has no indirect mode, and its relative column holds the branches, all documented. -/
theorem gridMode_ne {opcode : Byte} (missing : opcode.toNat ∉ listed) :
    gridMode opcode ≠ .indirect ∧ gridMode opcode ≠ .relative := by
  have branches : ∀ row < 8, 32 * row + 16 ∈ listed := by decide
  have others : ∀ n ∈ List.range 256, n % 32 = 16 ∨
      gridMode (BitVec.ofNat 8 n) ≠ .indirect ∧ gridMode (BitVec.ofNat 8 n) ≠ .relative := by
    decide +kernel
  have small := opcode.isLt
  obtain column | off := others opcode.toNat (List.mem_range.mpr small)
  · refine absurd (branches (opcode.toNat / 32) (by omega)) ?_
    rwa [show 32 * (opcode.toNat / 32) + 16 = opcode.toNat by omega]
  · rwa [BitVec.ofNat_toNat, BitVec.setWidth_eq] at off

/-- An undocumented opcode is a NOP of its mode's fewest cycles. -/
theorem fewestCycles_decode {opcode : Byte} (missing : opcode.toNat ∉ listed) :
    (decode opcode).operation = .nop ∧
      (decode opcode).mode ≠ .indirect ∧ (decode opcode).mode ≠ .relative ∧
      (decode opcode).mode.fewestCycles = some (decode opcode).cycles := by
  obtain ⟨direct, data⟩ := gridMode_ne missing
  rcases decode_cases opcode with entry | ⟨-, nop⟩
  · exact absurd (List.mem_map_of_mem entry) missing
  · rw [nop]
    exact ⟨rfl, direct, data, fewestCycles_eq direct data⟩

end Opcode

namespace Machine

variable {β : Type} [Bus β]

/-- A NOP is no more than finding its operand. -/
theorem runDecoded_of_nop (bcd : Bool) {d : Descriptor} (nop : d.operation = .nop) (m : Machine β) :
    m.runDecoded bcd d = (d.cycles + (m.resolve d.mode).1.extraCycles, (m.resolve d.mode).2) := by
  rw [runDecoded, nop]
  rfl

end Machine

namespace Processor

variable {β : Type} [Bus β]

/-- A step at a NOP takes its base cycles and those of finding its operand, and does just that. -/
theorem step_eq_of_nop {c : Processor β} (boundary : c.remaining = 0)
    (turn : c.nextTurn = .instruction) {d : Descriptor}
    (due : Opcode.decode c.toMachine.fetchOpcode.1 = d) (nop : d.operation = .nop) :
    c.step.1 = d.cycles + (c.toMachine.fetchOpcode.2.resolve d.mode).1.extraCycles ∧
      c.step.2.toMachine = (c.toMachine.fetchOpcode.2.resolve d.mode).2 := by
  have ran := step_of_instruction boundary turn
  rw [due, Machine.runDecoded_of_nop _ nop] at ran
  exact Prod.mk.inj ran

/-- A step from `c` was a pause: an instruction took its bytes and its cycles, and nothing else
    came of it. -/
structure Pauses (c : Processor (Monitor β)) (d : Descriptor) (f : Found) : Prop where
  /-- The opcode, the operand bytes and a pointer are read, in order, and nothing else is accessed. -/
  accesses : Monitor.Sees c.bus c.step.2.bus
    (.read c.regs.pc (Bus.read c.bus.behind c.regs.pc).1 :: d.mode.reads c.regs.fetched f)
  reads : ∀ x ∈ d.mode.reads c.regs.fetched f, x.isRead = true
  /-- A pointer is one in page zero. -/
  pointer : d.mode ≠ .indirect ∧ d.mode ≠ .relative
  cost : ∃ fewest, d.mode.fewestCycles = some fewest ∧
    c.step.1 = fewest + (d.mode.crosses c.regs.fetched f).toNat
  regs : c.step.2.regs =
    { c.regs with
      pc := c.regs.pc + BitVec.ofNat 16 d.length
      p := c.regs.p.set .unused true }
  status : c.step.2.regs.p.bits = c.regs.p.bits

/-- **Undocumented opcodes are harmless.**  On every bus and from every register file, a step at a
    byte that is no documented opcode reads that byte, its operand bytes and, in the two modes with
    a pointer in page zero, the pointer; it writes nothing and leaves the registers but for the
    program counter, which goes past the instruction; and it takes the fewest cycles of a documented
    reader in its mode, and one where indexing a full address leaves the page.  It is the step of a
    processor without the monitor. -/
theorem undocumented_is_harmless (c : Processor (Monitor β)) (boundary : c.remaining = 0)
    (turn : c.nextTurn = .instruction)
    (missing : (Bus.read c.bus.behind c.regs.pc).1.toNat ∉ Opcode.listed) :
    (∃ f, c.Pauses (Opcode.decode (Bus.read c.bus.behind c.regs.pc).1) f) ∧
      (c.step.1, c.step.2.unmonitored) = c.unmonitored.step := by
  refine ⟨?_, unmonitored_step c⟩
  generalize due : Opcode.decode (Bus.read c.bus.behind c.regs.pc).1 = d
  -- the table gives such an opcode a mode and a cost, and nothing to do
  obtain ⟨nop, direct, data, fewest⟩ := Opcode.fewestCycles_decode missing
  rw [due] at nop direct data fewest
  obtain ⟨cost, machine⟩ := step_eq_of_nop boundary turn due nop
  obtain ⟨f, reads, found⟩ := Machine.sees_resolve d.mode c.toMachine.fetchOpcode.2
  have regs : c.step.2.regs =
      { c.regs with
        pc := c.regs.pc + BitVec.ofNat 16 d.length
        p := c.regs.p.set .unused true } := by
    show c.step.2.toMachine.regs = _
    rw [machine, Machine.regs_found]
  refine ⟨f, ?_⟩
  constructor
  case accesses =>
    show Monitor.Sees _ c.step.2.toMachine.bus _
    rw [machine]
    exact (Machine.sees_fetch c.toMachine).trans reads
  case reads => exact isRead_of_mem_reads d.mode _ f
  case pointer => exact ⟨direct, data⟩
  case cost =>
    refine ⟨d.cycles, fewest, ?_⟩
    rw [cost, found]
    rfl
  case regs => exact regs
  case status =>
    rw [regs]
    exact Status.bits_set_unused c.regs.p true

/-- A processor at an undocumented opcode whose pointer is to the last address of a page, with one
    in Y. -/
def atUndocumented : Processor (Monitor Ram) :=
  (powerOn (.attach ((Ram.blank 4).load 0 [0x13#8, 0x02#8, 0xFF#8, 0x12#8])) {}).setRegisters
    { Registers.new with y := 1 }

/-- It takes a cycle on top of five, and reads the pointer and not what is behind it. -/
theorem undocumented_is_harmless_crossing :
    atUndocumented.remaining = 0 ∧ atUndocumented.nextTurn = .instruction ∧
      (Bus.read atUndocumented.bus.behind atUndocumented.regs.pc).1.toNat ∉ Opcode.listed ∧
      ((∃ f, atUndocumented.Pauses (Opcode.decode 0x13#8) f) ∧
        (atUndocumented.step.1, atUndocumented.step.2.unmonitored) =
          atUndocumented.unmonitored.step) ∧
      Mode.indirectY.fewestCycles = some 5 ∧ atUndocumented.step.1 = 6 ∧
      atUndocumented.step.2.bus.accesses = atUndocumented.bus.accesses ++
        [.read 0x0000#16 0x13#8, .read 0x0001#16 0x02#8, .read 0x0002#16 0xFF#8,
          .read 0x0003#16 0x12#8] := by
  have boundary : atUndocumented.remaining = 0 := rfl
  have turn : atUndocumented.nextTurn = .instruction := by decide
  have opcode : (Bus.read atUndocumented.bus.behind atUndocumented.regs.pc).1 = 0x13#8 := by decide
  have missing : (Bus.read atUndocumented.bus.behind atUndocumented.regs.pc).1.toNat ∉
      Opcode.listed := by
    rw [opcode]
    decide
  have pause := undocumented_is_harmless atUndocumented boundary turn missing
  rw [opcode] at pause
  exact ⟨boundary, turn, missing, pause, by decide, by decide, by decide⟩

end Processor

end Micro6502
