import Micro6502.Opcode.Documented

/-! # Decoding — every byte is an instruction

    A documented opcode stands for its entry in the table.  Any other byte
    is taken as an instruction that does nothing: it has the operand bytes
    that its place in the opcode grid implies, so that the program counter
    lands where the next instruction starts, and it takes the fewest cycles
    in which its mode reads. -/

namespace Micro6502

namespace Descriptor

/-- The assembler's name. -/
def mnemonic (d : Descriptor) : String := d.operation.mnemonic

/-- How many bytes the instruction takes, its opcode among them. -/
def length (d : Descriptor) : Nat := 1 + d.mode.operandLength

end Descriptor

namespace Opcode

/-- The mode that the place of an opcode in the grid implies: its low two bits pick a block
of the grid, and the next three a column of the block. -/
def gridMode (opcode : Byte) : Mode :=
  match opcode.toNat % 4, opcode.toNat / 4 % 8 with
  | 0, 0 => .immediate
  | 0, 1 => .zeroPage
  | 0, 3 => .absolute
  | 0, 4 => .relative
  | 0, 5 => .zeroPageX
  | 0, 7 => .absoluteX
  | 0, _ => .implied
  | 2, 0 => if 0x80 ≤ opcode.toNat then .immediate else .implied
  | 2, 1 => .zeroPage
  | 2, 3 => .absolute
  | 2, 5 => if indexesByY opcode then .zeroPageY else .zeroPageX
  | 2, 7 => if indexesByY opcode then .absoluteY else .absoluteX
  | 2, _ => .implied
  | _, 0 => .indirectX
  | _, 1 => .zeroPage
  | _, 2 => .immediate
  | _, 3 => .absolute
  | _, 4 => .indirectY
  | 3, 5 => if indexesByY opcode then .zeroPageY else .zeroPageX
  | _, 5 => .zeroPageX
  | _, 6 => .absoluteY
  | 3, _ => if indexesByY opcode then .absoluteY else .absoluteX
  | _, _ => .absoluteX
where
  /-- Whether the opcode is in the rows that store and load X, where Y is the index. -/
  indexesByY (opcode : Byte) : Bool :=
    opcode.toNat / 32 == 4 || opcode.toNat / 32 == 5

/-- The instruction that a byte without a documented meaning is taken as. -/
def fallback (opcode : Byte) : Descriptor :=
  let mode := gridMode opcode
  ⟨.nop, mode, mode.readCycles, false⟩

/-- What an opcode byte stands for. -/
def decode (opcode : Byte) : Descriptor :=
  (documented.lookup opcode.toNat).getD (fallback opcode)

/-- The bytes that are documented opcodes. -/
def listed : List Nat := documented.map Prod.fst

/-- An opcode byte stands for its entry in the table, or has none and is taken as a NOP. -/
theorem decode_cases (opcode : Byte) :
    (opcode.toNat, decode opcode) ∈ documented ∨
      opcode.toNat ∉ listed ∧ decode opcode = fallback opcode := by
  rw [decode]
  cases found : documented.lookup opcode.toNat with
  | some d =>
      obtain ⟨before, after, split, -⟩ := List.lookup_eq_some_iff.mp found
      exact .inl (split ▸ List.mem_append_right before List.mem_cons_self)
  | none =>
      refine .inr ⟨fun mem => ?_, rfl⟩
      obtain ⟨e, entry, key⟩ := List.mem_map.mp mem
      have missed := List.lookup_eq_none_iff.mp found e entry
      rw [key, bne_self_eq_false] at missed
      exact nomatch missed

/-- What holds of each entry of the table, and of a NOP in each mode, holds of every instruction. -/
theorem decode_of_forall {P : Descriptor → Prop} (entries : ∀ e ∈ documented, P e.2)
    (nops : ∀ mode : Mode, P ⟨.nop, mode, mode.readCycles, false⟩) (opcode : Byte) :
    P (decode opcode) := by
  rcases decode_cases opcode with entry | ⟨-, nop⟩
  · exact entries _ entry
  · rw [nop]
    exact nops (gridMode opcode)

/-- A byte is decoded as documented where it is listed, and nowhere else. -/
theorem documented_decode_iff (opcode : Byte) :
    (decode opcode).documented = true ↔ opcode.toNat ∈ listed := by
  have marked : ∀ e ∈ documented, e.2.documented = true := by decide +kernel
  rcases decode_cases opcode with entry | ⟨missing, nop⟩
  · exact iff_of_true (marked _ entry) (List.mem_map_of_mem entry)
  · rw [nop]
    exact iff_of_false Bool.false_ne_true missing

end Opcode

end Micro6502
