import Micro6502.Proofs.Printed

/-! # Unambiguous listings — the text names the bytes

    A listing of documented instructions drops nothing: the text of one, and
    the address where it stands, tell all of its bytes.  The route:

    * the mnemonic has three letters, so equal texts have one operation and
      one operand text (`eq_of_instructionText`);
    * what an operand text has around its digits, and how many they are, tell
      the mode, as only a branch is relative (`mode_eq_of_operandText`);
    * operation and mode tell the opcode (`Opcode.encode?_decode`), and the
      number that is shown tells the operand bytes (`Mode.shown_inj`).

    An undocumented instruction has a star in front, which no mnemonic has. -/

namespace Micro6502

/-! ## The opcode, from its operation and mode -/

namespace Operation

/-- The operation that an assembler calls so. -/
def ofMnemonic? (s : String) : Option Operation :=
  all.find? fun op => op.mnemonic == s

/-- The mnemonic of an operation finds that operation again. -/
theorem ofMnemonic?_mnemonic (op : Operation) : ofMnemonic? op.mnemonic = some op := by
  have each : ∀ op ∈ all, ofMnemonic? op.mnemonic = some op := by decide +kernel
  exact each op (mem_all op)

theorem length_mnemonic (op : Operation) : op.mnemonic.toList.length = 3 := by
  cases op <;> rfl

theorem mnemonic_inj {op op' : Operation} (h : op.mnemonic.toList = op'.mnemonic.toList) :
    op = op' := by
  have found := ofMnemonic?_mnemonic op
  rw [String.toList_injective h, ofMnemonic?_mnemonic] at found
  exact (Option.some.inj found).symm

end Operation

namespace Opcode

/-- The documented opcode of an operation in a mode, if it has that mode. -/
def encode? (op : Operation) (mode : Mode) : Option Nat :=
  (documented.find? fun e => e.2.operation == op && e.2.mode == mode).map Prod.fst

/-- A documented opcode is the only one of its operation in its mode. -/
theorem encode?_decode {opcode : Byte} (h : opcode.toNat ∈ listed) :
    encode? (decode opcode).operation (decode opcode).mode = some opcode.toNat := by
  have each : ∀ e ∈ documented, encode? e.2.operation e.2.mode = some e.1 := by decide +kernel
  rcases decode_cases opcode with entry | ⟨missing, -⟩
  · exact each _ entry
  · exact absurd h missing

/-- Among the documented opcodes the branches are relative, and no others. -/
theorem relative_decode_iff {opcode : Byte} (h : opcode.toNat ∈ listed) :
    (decode opcode).mode = .relative ↔ (decode opcode).operation.isBranch = true := by
  have each : ∀ e ∈ documented,
      (e.2.mode = .relative ↔ e.2.operation.isBranch = true) := by decide +kernel
  rcases decode_cases opcode with entry | ⟨missing, -⟩
  · exact each _ entry
  · exact absurd h missing

end Opcode

/-! ## The operand bytes, from the number shown -/

/-- Branch distances are told apart by what they come to as words. -/
theorem signExtend_inj {b b' : Byte} (h : b.signExtend 16 = b'.signExtend 16) : b = b' := by
  have number := congrArg BitVec.toInt h
  rw [BitVec.toInt_signExtend_of_le (by decide), BitVec.toInt_signExtend_of_le (by decide)] at number
  exact BitVec.eq_of_toInt_eq number

namespace Mode

theorem shown_eq_none_iff (mode : Mode) (lo hi : Byte) (pc : Word) :
    mode.shown lo hi pc = none ↔ mode = .implied := by
  cases mode <;> simp [shown]

/-- At one address and in one mode, the number shown tells the operand bytes. -/
theorem shown_inj {mode : Mode} {lo hi lo' hi' : Byte} {pc : Word}
    (h : mode.shown lo hi pc = mode.shown lo' hi' pc) :
    (1 ≤ mode.operandLength → lo = lo') ∧ (2 ≤ mode.operandLength → hi = hi') := by
  cases mode with
  | implied => exact ⟨nofun, nofun⟩
  | immediate | zeroPage | zeroPageX | zeroPageY | indirectX | indirectY =>
      refine ⟨fun _ => ?_, nofun⟩
      have number := congrArg BitVec.toNat (Option.some.inj h)
      rw [Word.toNat_zeroPage, Word.toNat_zeroPage] at number
      exact BitVec.eq_of_toNat_eq number
  | relative =>
      refine ⟨fun _ => ?_, nofun⟩
      exact signExtend_inj ((BitVec.add_right_inj (pc + 2)).mp (Option.some.inj h))
  | absolute | absoluteX | absoluteY | indirect =>
      have low := congrArg Word.low (Option.some.inj h)
      have high := congrArg Word.high (Option.some.inj h)
      rw [Word.low_ofBytes, Word.low_ofBytes] at low
      rw [Word.high_ofBytes, Word.high_ofBytes] at high
      exact ⟨fun _ => low, fun _ => high⟩

/-- What stands around the digits, and how many they are, tell the mode of an instruction that is
    known to be a branch or known to be none. -/
theorem eq_of_frame {m m' : Mode} (opening : m.opening = m'.opening)
    (closing : m.closing = m'.closing) (digits : m.shownDigits = m'.shownDigits)
    (branch : m = .relative ↔ m' = .relative) : m = m' := by
  have each : ∀ m ∈ all, ∀ m' ∈ all, m.opening = m'.opening → m.closing = m'.closing →
      m.shownDigits = m'.shownDigits → (m = .relative ↔ m' = .relative) → m = m' := by
    decide +kernel
  exact each m (mem_all m) m' (mem_all m') opening closing digits branch

end Mode

namespace Disassembly

/-! ## Operation, mode and number, from the text -/

/-- An operand text tells its parts. -/
theorem frame_inj {m m' : Mode} {a a' : Word} (fits : a.toNat < 16 ^ m.shownDigits)
    (fits' : a'.toNat < 16 ^ m'.shownDigits)
    (h : m.opening ++ '$' :: (Hex.digits m.shownDigits a.toNat ++ m.closing) =
      m'.opening ++ '$' :: (Hex.digits m'.shownDigits a'.toNat ++ m'.closing)) :
    m.opening = m'.opening ∧ m.closing = m'.closing ∧ m.shownDigits = m'.shownDigits ∧
      a = a' := by
  -- the text is cut at its first dollar sign, and then where its digits end
  have before : ∀ (mode : Mode) (rest : List Char),
      (mode.opening ++ '$' :: rest).takeWhile (· != '$') = mode.opening := by
    intro mode rest
    have plain : ∀ ch ∈ mode.opening, (ch != '$') = true := by
      intro ch mem
      exact bne_iff_ne.mpr fun dollar => mode.dollar_notMem_opening (dollar ▸ mem)
    rw [List.takeWhile_append_of_pos plain, List.takeWhile_cons_of_neg (by decide),
      List.append_nil]
  have number : ∀ (mode : Mode) (n : Nat),
      (Hex.digits mode.shownDigits n ++ mode.closing).takeWhile
        (fun ch => (Hex.digitValue? ch).isSome) = Hex.digits mode.shownDigits n := by
    intro mode n
    rw [List.takeWhile_append_of_pos isSome_digitValue?_of_mem_digits, mode.takeWhile_closing,
      List.append_nil]
  have opening := congrArg (List.takeWhile (· != '$')) h
  rw [before, before] at opening
  rw [opening] at h
  have rest := (List.cons.inj (List.append_cancel_left h)).2
  have digits := congrArg (List.takeWhile fun ch => (Hex.digitValue? ch).isSome) rest
  rw [number, number] at digits
  rw [digits] at rest
  have width := congrArg List.length digits
  rw [Hex.length_digits, Hex.length_digits] at width
  have value := congrArg Hex.value? digits
  rw [Hex.value?_digits, Hex.value?_digits, Nat.mod_eq_of_lt fits, Nat.mod_eq_of_lt fits'] at value
  exact ⟨opening, List.append_cancel_left rest, width,
    BitVec.eq_of_toNat_eq (Option.some.inj value)⟩

/-- An operand text has a dollar sign where its mode shows a number, and else none. -/
theorem dollar_mem_iff (d : Descriptor) (lo hi : Byte) (pc : Word) :
    (∃ operand, operandText d lo hi pc = some operand ∧ '$' ∈ operand.toList) ↔
      d.mode ≠ .implied := by
  constructor
  · rintro ⟨operand, text, dollar⟩ implied
    rw [operandText, implied] at text
    by_cases named : (d.documented && d.operation.isShift) = true
    · rw [if_pos named] at text
      rw [← Option.some.inj text] at dollar
      exact absurd dollar (by decide)
    · rw [if_neg named] at text
      exact nomatch text
  · intro shows_some
    cases shown : d.mode.shown lo hi pc with
    | none => exact absurd ((d.mode.shown_eq_none_iff lo hi pc).mp shown) shows_some
    | some a =>
        obtain ⟨operand, text, split⟩ := operandText_of_shown shown
        refine ⟨operand, text, ?_⟩
        rw [split]
        exact List.mem_append_right _ List.mem_cons_self

/-- Equal operand texts have one mode and show one number. -/
theorem mode_eq_of_operandText {d d' : Descriptor} {lo hi lo' hi' : Byte} {pc pc' : Word}
    (same : operandText d lo hi pc = operandText d' lo' hi' pc')
    (branch : d.mode = .relative ↔ d'.mode = .relative) :
    d.mode = d'.mode ∧ d.mode.shown lo hi pc = d'.mode.shown lo' hi' pc' := by
  have alike : d.mode = .implied ↔ d'.mode = .implied := by
    have dollar := dollar_mem_iff d lo hi pc
    rw [same, dollar_mem_iff] at dollar
    exact (Decidable.not_iff_not.mp dollar).symm
  cases shown : d.mode.shown lo hi pc with
  | none =>
      have implied := (d.mode.shown_eq_none_iff lo hi pc).mp shown
      have implied' := alike.mp implied
      exact ⟨implied.trans implied'.symm,
        ((d'.mode.shown_eq_none_iff lo' hi' pc').mpr implied').symm⟩
  | some a =>
      cases shown' : d'.mode.shown lo' hi' pc' with
      | none =>
          have implied := alike.mpr ((d'.mode.shown_eq_none_iff lo' hi' pc').mp shown')
          rw [(d.mode.shown_eq_none_iff lo hi pc).mpr implied] at shown
          exact nomatch shown
      | some a' =>
          obtain ⟨operand, text, split⟩ := operandText_of_shown shown
          obtain ⟨operand', text', split'⟩ := operandText_of_shown shown'
          rw [text, text'] at same
          rw [Option.some.inj same, split'] at split
          obtain ⟨opening, closing, digits, number⟩ :=
            frame_inj (Mode.shown_lt shown') (Mode.shown_lt shown) split
          exact ⟨(Mode.eq_of_frame opening closing digits branch.symm).symm,
            congrArg some number.symm⟩

/-- What stands behind a name tells the operand, or that there is none. -/
theorem tail_inj {operand operand' : Option String} (same : tail operand = tail operand') :
    operand = operand' := by
  cases operand with
  | none =>
      cases operand' with
      | none => rfl
      | some text' => exact absurd same.symm (List.cons_ne_nil ' ' text'.toList)
  | some text =>
      cases operand' with
      | none => exact absurd same (List.cons_ne_nil ' ' text.toList)
      | some text' => exact congrArg some (String.toList_injective (List.cons.inj same).2)

/-- Equal texts of documented instructions have one operation and one operand text. -/
theorem eq_of_instructionText {d d' : Descriptor} {lo hi lo' hi' : Byte} {pc pc' : Word}
    (documented : d.documented = true) (documented' : d'.documented = true)
    (same : instructionText d lo hi pc = instructionText d' lo' hi' pc') :
    d.operation = d'.operation ∧ operandText d lo hi pc = operandText d' lo' hi' pc' := by
  have spelled := congrArg String.toList same
  rw [toList_instructionText, toList_instructionText, toList_name, toList_name, documented,
    documented'] at spelled
  have lengths : ([] ++ d.operation.mnemonic.toList).length =
      ([] ++ d'.operation.mnemonic.toList).length := by
    rw [List.nil_append, List.nil_append, Operation.length_mnemonic, Operation.length_mnemonic]
  obtain ⟨names, tails⟩ := List.append_inj spelled lengths
  exact ⟨Operation.mnemonic_inj names, tail_inj tails⟩

/-! ## The bytes, from the text -/

/-- At one address, equal texts of documented opcodes have one opcode and the same operand bytes. -/
theorem bytes_eq_of_instructionText {opcode opcode' lo hi lo' hi' : Byte} {pc : Word}
    (listed : opcode.toNat ∈ Opcode.listed) (listed' : opcode'.toNat ∈ Opcode.listed)
    (same : instructionText (Opcode.decode opcode) lo hi pc =
      instructionText (Opcode.decode opcode') lo' hi' pc) :
    opcode = opcode' ∧ (1 ≤ (Opcode.decode opcode).mode.operandLength → lo = lo') ∧
      (2 ≤ (Opcode.decode opcode).mode.operandLength → hi = hi') := by
  obtain ⟨operation, operand⟩ := eq_of_instructionText
    ((Opcode.documented_decode_iff opcode).mpr listed)
    ((Opcode.documented_decode_iff opcode').mpr listed') same
  have branch : (Opcode.decode opcode).mode = .relative ↔
      (Opcode.decode opcode').mode = .relative := by
    rw [Opcode.relative_decode_iff listed, Opcode.relative_decode_iff listed', operation]
  obtain ⟨mode, number⟩ := mode_eq_of_operandText operand branch
  have encoded := Opcode.encode?_decode listed
  rw [operation, mode, Opcode.encode?_decode listed'] at encoded
  have one : opcode = opcode' := (BitVec.eq_of_toNat_eq (Option.some.inj encoded)).symm
  rw [← mode] at number
  exact ⟨one, Mode.shown_inj number⟩

/-- A documented instruction starts here, and all of it is here. -/
def HoldsDocumented (bytes : List Byte) : Prop :=
  ∃ opcode rest, bytes = opcode :: rest ∧ opcode.toNat ∈ Opcode.listed ∧
    (Opcode.decode opcode).length ≤ bytes.length

/-- Lists that agree at each of the first places start with the same bytes. -/
theorem take_eq_take {b c : List Byte} {n : Nat} (long : n ≤ b.length) (long' : n ≤ c.length)
    (same : ∀ i, i < n → b.getD i 0 = c.getD i 0) : b.take n = c.take n := by
  have lengths : (b.take n).length = (c.take n).length := by
    rw [List.length_take_of_le long, List.length_take_of_le long']
  refine List.ext_getElem lengths ?_
  intro i inside inside'
  have small : i < n := by
    rw [List.length_take_of_le long] at inside
    exact inside
  have here := same i small
  rw [← List.getElem_eq_getD (h := Nat.lt_of_lt_of_le small long) 0,
    ← List.getElem_eq_getD (h := Nat.lt_of_lt_of_le small long') 0] at here
  rw [List.getElem_take, List.getElem_take]
  exact here

/-- **The text names the bytes.**  At one address, two lists of bytes that start with a documented
    instruction, and hold all of it, start with the same bytes where they are listed with the same
    text; and no text of an undocumented opcode is one of a documented opcode, wherever the two
    are. -/
theorem text_names_bytes :
    (∀ (b c : List Byte) (pc : Word), HoldsDocumented b → HoldsDocumented c →
      (disassemble b pc).text = (disassemble c pc).text →
        (disassemble b pc).length = (disassemble c pc).length ∧
          b.take (disassemble b pc).length = c.take (disassemble b pc).length) ∧
    (∀ (opcode opcode' : Byte) (rest rest' : List Byte) (pc pc' : Word),
      opcode.toNat ∉ Opcode.listed → opcode'.toNat ∈ Opcode.listed →
        (disassemble (opcode :: rest) pc).text ≠ (disassemble (opcode' :: rest') pc').text) := by
  constructor
  · intro b c pc holds holds' same
    obtain ⟨opcode, rest, rfl, listed, long⟩ := holds
    obtain ⟨opcode', rest', rfl, listed', long'⟩ := holds'
    obtain ⟨rfl, low, high⟩ := bytes_eq_of_instructionText listed listed' same
    refine ⟨rfl, take_eq_take long long' ?_⟩
    -- an instruction has three bytes at most
    intro i inside
    have inside : i < 1 + (Opcode.decode opcode).mode.operandLength := inside
    match i with
    | 0 => rfl
    | 1 => exact low (by omega)
    | 2 => exact high (by omega)
    | i + 3 =>
        have most := (Opcode.decode opcode).mode.operandLength_le
        omega
  · intro opcode opcode' rest rest' pc pc' missing listed same
    have starred := isStarred_instructionText (Opcode.decode opcode) (rest.getD 0 0) (rest.getD 1 0) pc
    have plain := isStarred_instructionText (Opcode.decode opcode') (rest'.getD 0 0)
      (rest'.getD 1 0) pc'
    have same : instructionText (Opcode.decode opcode) (rest.getD 0 0) (rest.getD 1 0) pc =
      instructionText (Opcode.decode opcode') (rest'.getD 0 0) (rest'.getD 1 0) pc' := same
    rw [same, plain, (Opcode.documented_decode_iff opcode').mpr listed] at starred
    have documented : (Opcode.decode opcode).documented = true :=
      (Bool.not_inj starred).symm
    exact missing ((Opcode.documented_decode_iff opcode).mp documented)

/-- A branch back beyond address zero is listed alike whatever follows it, and the NOP that takes as
    many bytes is not. -/
theorem text_names_bytes_backward :
    HoldsDocumented [0x10#8, 0x80#8, 0xEA#8] ∧ HoldsDocumented [0x10#8, 0x80#8] ∧
      (disassemble [0x10#8, 0x80#8, 0xEA#8] 0x0010#16).text = "BPL $FF92" ∧
      (disassemble [0x10#8, 0x80#8] 0x0010#16).text = "BPL $FF92" ∧
      (disassemble [0x10#8, 0x80#8, 0xEA#8] 0x0010#16).length = 2 ∧
      ([0x10#8, 0x80#8, 0xEA#8] : List Byte).take 2 = [0x10#8, 0x80#8].take 2 ∧
      (0x80#8).toNat ∉ Opcode.listed ∧ (0x10#8).toNat ∈ Opcode.listed ∧
      (disassemble [0x80#8, 0x80#8] 0x0010#16).text ≠ "BPL $FF92" := by
  have longer : HoldsDocumented [0x10#8, 0x80#8, 0xEA#8] := ⟨_, _, rfl, by decide, by decide⟩
  have shorter : HoldsDocumented [0x10#8, 0x80#8] := ⟨_, _, rfl, by decide, by decide⟩
  have text : (disassemble [0x10#8, 0x80#8, 0xEA#8] 0x0010#16).text = "BPL $FF92" := by decide
  have text' : (disassemble [0x10#8, 0x80#8] 0x0010#16).text = "BPL $FF92" := by decide
  have missing : (0x80#8).toNat ∉ Opcode.listed := by decide
  have listed : (0x10#8).toNat ∈ Opcode.listed := by decide
  obtain ⟨bytes, stars⟩ := text_names_bytes
  obtain ⟨-, taken⟩ := bytes _ _ 0x0010#16 longer shorter (text.trans text'.symm)
  have apart := stars 0x80#8 0x10#8 [0x80#8] [0x80#8] 0x0010#16 0x0010#16 missing listed
  rw [text'] at apart
  exact ⟨longer, shorter, text, text', rfl, taken, missing, listed, apart⟩

end Disassembly

end Micro6502
