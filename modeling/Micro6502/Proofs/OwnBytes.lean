import Mathlib.Data.List.GetD
import Micro6502.Proofs.Unambiguous
import Micro6502.Proofs.Undocumented

/-! # Own bytes — a listed instruction is a matter of its own bytes

    A debugger lists an instruction from whatever bytes it has: more than the
    instruction takes, or fewer, where memory ends inside it.  The route:

    * an operand is shown from as many bytes as its mode has, and from the
      address in the relative mode alone (`instructionText_congr`), so lists
      that read alike as far as the instruction goes are listed alike
      (`disassemble_congr`);
    * more bytes behind the instruction, and zeros for those that are
      missing, leave it to read as it did (`getD_append_zeros`);
    * the relative mode is that of the branches (`relative_iff_isBranch`),
      and the target that one shows moves along with it
      (`instructionText_add`). -/

namespace Micro6502

namespace Opcode

/-- Of all opcodes, documented or not, the branches are relative, and no others. -/
theorem relative_iff_isBranch (opcode : Byte) :
    (decode opcode).mode = .relative ↔ (decode opcode).operation.isBranch = true := by
  by_cases listed : opcode.toNat ∈ listed
  · exact relative_decode_iff listed
  · obtain ⟨nop, -, data, -⟩ := fewestCycles_decode listed
    rw [nop]
    exact iff_of_false data Bool.false_ne_true

end Opcode

namespace Disassembly

/-- The instruction that some bytes start with. -/
def started (b : List Byte) : Descriptor :=
  Opcode.decode (b.getD 0 0)

/-! ## What is looked at -/

/-- The text is made from as many operand bytes as the mode has, and in the relative mode alone from
    the address too. -/
theorem instructionText_congr {d : Descriptor} {lo hi lo' hi' : Byte} {pc pc' : Word}
    (low : 1 ≤ d.mode.operandLength → lo' = lo) (high : 2 ≤ d.mode.operandLength → hi' = hi)
    (address : d.mode = .relative → pc' = pc) :
    instructionText d lo' hi' pc' = instructionText d lo hi pc := by
  have operand : operandText d lo' hi' pc' = operandText d lo hi pc := by
    rw [operandText, operandText]
    cases mode : d.mode with
    | implied => rfl
    | immediate | zeroPage | zeroPageX | zeroPageY | indirectX | indirectY =>
        rw [mode] at low
        rw [low (Nat.le_refl 1)]
    | relative =>
        rw [mode] at low
        rw [low (Nat.le_refl 1), address mode]
    | absolute | absoluteX | absoluteY | indirect =>
        rw [mode] at low high
        rw [low (Nat.le_succ 1), high (Nat.le_refl 2)]
  rw [instructionText, instructionText, operand]

/-- Lists that read alike as far as an instruction goes are listed alike, wherever they are if it is
    not relative. -/
theorem disassemble_congr {b c : List Byte} {pc pc' : Word}
    (same : ∀ i, i < (started b).length → c.getD i 0 = b.getD i 0)
    (address : (started b).mode = .relative → pc' = pc) : disassemble c pc' = disassemble b pc := by
  have opcode : c.getD 0 0 = b.getD 0 0 := same 0 (Nat.lt_add_right _ Nat.one_pos)
  have low : 1 ≤ (started b).mode.operandLength → c.getD 1 0 = b.getD 1 0 :=
    fun long => same 1 (Nat.add_lt_add_left long 1)
  have high : 2 ≤ (started b).mode.operandLength → c.getD 2 0 = b.getD 2 0 :=
    fun long => same 2 (Nat.add_lt_add_left long 1)
  rw [disassemble, disassemble, opcode]
  exact congrArg (Disassembly.mk · _) (instructionText_congr low high address)

/-- Bytes that are missing read as zero, so zeros in their place change nothing. -/
theorem getD_append_zeros (b : List Byte) (k i : Nat) :
    (b ++ List.replicate k 0).getD i 0 = b.getD i 0 := by
  by_cases inside : i < b.length
  · exact List.getD_append b _ 0 i inside
  · have beyond : b.length ≤ i := Nat.le_of_not_lt inside
    rw [List.getD_append_right b _ 0 i beyond, List.getD_eq_default b 0 beyond]
    by_cases zero : i - b.length < k
    · exact List.getD_replicate 0 zero
    · refine List.getD_eq_default _ 0 ?_
      rw [List.length_replicate]
      exact Nat.le_of_not_lt zero

/-! ## The target of a branch -/

/-- The target of a branch moves with the address of the branch. -/
theorem target_add (pc k : Word) (distance : Byte) :
    pc + k + 2 + distance.signExtend 16 = pc + 2 + distance.signExtend 16 + k := by
  ac_rfl

/-- The target that a branch shows moves along with it, and nothing else of the text does. -/
theorem instructionText_add {d : Descriptor} (relative : d.mode = .relative) (lo hi : Byte)
    (pc k : Word) :
    let text := instructionText d lo hi (pc + k)
    let target := pc + 2 + lo.signExtend 16 + k
    text = name d ++ " " ++ "$" ++ Hex.word target ∧ Prints text 4 target := by
  intro text target
  have shown : d.mode.shown lo hi (pc + k) = some target := by
    rw [relative]
    exact congrArg some (target_add pc k lo)
  have prints := prints_instructionText shown
  rw [relative] at prints
  have operand : operandText d lo hi (pc + k) = some ("$" ++ Hex.word target) := by
    rw [operandText, relative]
    exact congrArg (some <| "$" ++ Hex.word ·) (target_add pc k lo)
  refine ⟨?_, prints⟩
  show instructionText d lo hi (pc + k) = _
  rw [instructionText, operand]
  exact String.append_assoc.symm

/-- **An instruction is listed from its own bytes.**  Whatever some bytes are, the instruction that
    they start with takes one to three.  Where there are as many, bytes behind them change nothing,
    and zeros behind the bytes change nothing in any case.  Only a branch is listed by its address:
    moved by `k`, it shows a target moved by `k`, and all else as before. -/
theorem listed_from_own_bytes (b : List Byte) (pc : Word) :
    let d := disassemble b pc
    (1 ≤ d.length ∧ d.length ≤ 3) ∧
      (d.length ≤ b.length → ∀ s, disassemble (b ++ s) pc = d) ∧
      (∀ k, disassemble (b ++ List.replicate k 0) pc = d) ∧
      ((started b).operation.isBranch = false → ∀ pc', disassemble b pc' = d) ∧
      ((started b).operation.isBranch = true → ∃ front target, ∀ k,
        disassemble b (pc + k) = ⟨front ++ Hex.word (target + k), d.length⟩ ∧
          Prints (disassemble b (pc + k)).text 4 (target + k)) := by
  intro d
  refine ⟨⟨?_, ?_⟩, ?_, ?_, ?_, ?_⟩
  · exact Nat.le_add_right 1 _
  · exact Nat.add_le_add_left (Mode.operandLength_le _) 1
  · intro whole s
    refine disassemble_congr (fun i inside => ?_) fun _ => rfl
    exact List.getD_append b s 0 i (Nat.lt_of_lt_of_le inside whole)
  · intro k
    exact disassemble_congr (fun i _ => getD_append_zeros b k i) fun _ => rfl
  · intro other pc'
    refine disassemble_congr (fun _ _ => rfl) fun relative => ?_
    have branch := (Opcode.relative_iff_isBranch _).mp relative
    exact absurd (branch.symm.trans other) (by decide)
  · intro branch
    have relative : (started b).mode = .relative := (Opcode.relative_iff_isBranch _).mpr branch
    refine ⟨name (started b) ++ " " ++ "$", pc + 2 + (b.getD 1 0).signExtend 16, ?_⟩
    intro k
    obtain ⟨text, prints⟩ := instructionText_add relative (b.getD 1 0) (b.getD 2 0) pc k
    exact ⟨congrArg (Disassembly.mk · d.length) text, prints⟩

/-- A branch back beyond address zero comes to show a target after it when it is moved, whatever
    stands behind it; and a load of which only the opcode is there is listed alike everywhere, as
    one from address zero. -/
theorem listed_from_own_bytes_wraps :
    let back : List Byte := [0x10#8, 0x80#8]
    let cut : List Byte := [0xAD#8]
    (disassemble back 0x0010#16).length ≤ back.length ∧
      disassemble (back ++ [0xEA#8]) 0x0010#16 = ⟨"BPL $FF92", 2⟩ ∧
      (started back).operation.isBranch = true ∧
      (∃ front target, front ++ Hex.word target = "BPL $FF92" ∧
        disassemble back 0x0080#16 = ⟨front ++ Hex.word (target + 0x0070#16), 2⟩) ∧
      disassemble back 0x0080#16 = ⟨"BPL $0002", 2⟩ ∧
      (started cut).operation.isBranch = false ∧
      disassemble cut 0xFFFF#16 = ⟨"LDA $0000", 3⟩ ∧
      disassemble (cut ++ List.replicate 2 0) 0x0000#16 = ⟨"LDA $0000", 3⟩ := by
  intro back cut
  obtain ⟨-, behind, -, -, moves⟩ := listed_from_own_bytes back 0x0010#16
  obtain ⟨-, -, zeros, stays, -⟩ := listed_from_own_bytes cut 0x0000#16
  have whole : (disassemble back 0x0010#16).length ≤ back.length := by decide
  have branch : (started back).operation.isBranch = true := by decide
  have load : (started cut).operation.isBranch = false := by decide
  have here : disassemble back 0x0010#16 = ⟨"BPL $FF92", 2⟩ := by decide
  have zero : disassemble cut 0x0000#16 = ⟨"LDA $0000", 3⟩ := by decide
  refine ⟨whole, (behind whole [0xEA#8]).trans here, branch, ?_, by decide, load,
    (stays load 0xFFFF#16).trans zero, (zeros 2).trans zero⟩
  obtain ⟨front, target, moved⟩ := moves branch
  refine ⟨front, target, ?_, (moved 0x0070#16).1⟩
  have unmoved := (moved 0#16).1
  rw [BitVec.add_zero, BitVec.add_zero, here] at unmoved
  exact (congrArg Disassembly.text unmoved).symm

end Disassembly

end Micro6502
