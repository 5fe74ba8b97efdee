import Mathlib.Algebra.Ring.Nat
import Micro6502.Disassembly

/-! # Printed addresses — what a reader takes from a listing

    A reader of a disassembled instruction takes the digits after its dollar
    sign for an address, and a star in front for an instruction without a
    documented meaning.  `Prints` and `isStarred` are this reader, who knows
    nothing of how the text was made.  Here is what he finds:

    * the digits are those of the address that the mode shows, all of them
      and no more (`prints_instructionText`);
    * the star is there where the instruction is undocumented, and nowhere
      else (`isStarred_instructionText`). -/

namespace Micro6502

/-- The digits after the first dollar sign of a text. -/
def printedDigits (text : String) : List Char :=
  ((text.toList.dropWhile (· != '$')).drop 1).takeWhile fun ch => (Hex.digitValue? ch).isSome

/-- The digits after the first dollar sign of a text are `width` many, and denote `a`. -/
def Prints (text : String) (width : Nat) (a : Word) : Prop :=
  (printedDigits text).length = width ∧ Hex.value? (printedDigits text) = some a.toNat

instance (text : String) (width : Nat) (a : Word) : Decidable (Prints text width a) :=
  inferInstanceAs (Decidable (_ ∧ _))

/-- Whether a text starts with a star. -/
def isStarred (text : String) : Bool :=
  text.toList.head? == some '*'

/-! ## Reading digits -/

/-- Reading back what was written gives the number, up to the digits kept. -/
theorem Hex.value?_digits (width n : Nat) :
    value? (digits width n) = some (n % 16 ^ width) := by
  induction width generalizing n with
  | zero => simp [digits, value?, Nat.mod_one]
  | succ width ih =>
      have last := digitValue?_digit (Nat.mod_lt n (show 0 < 16 by decide))
      rw [digits, value?_concat, ih, last, Option.bind_some, Option.map_some, Nat.pow_succ,
        Nat.mul_comm (16 ^ width) 16, Nat.mod_mul, Nat.add_comm]

/-- Some text has the digits of an address after a dollar sign, its first, and no digit right after
    those. -/
def Shows (text : List Char) (width : Nat) (a : Word) : Prop :=
  ∃ before after, text = before ++ '$' :: (Hex.digits width a.toNat ++ after) ∧
    '$' ∉ before ∧ after.takeWhile (fun ch => (Hex.digitValue? ch).isSome) = []

/-- What has no dollar sign may stand in front of a text without changing what it shows. -/
theorem Shows.append_left {text : List Char} {width : Nat} {a : Word} (h : Shows text width a)
    {name : List Char} (plain : '$' ∉ name) : Shows (name ++ text) width a := by
  obtain ⟨before, after, rfl, first, last⟩ := h
  refine ⟨name ++ before, after, (List.append_assoc ..).symm, ?_, last⟩
  rw [List.mem_append]
  exact not_or.mpr ⟨plain, first⟩

/-- What is written for a number is digits. -/
theorem isSome_digitValue?_of_mem_digits {width n : Nat} :
    ∀ ch ∈ Hex.digits width n, (Hex.digitValue? ch).isSome = true := by
  induction width generalizing n with
  | zero => exact fun _ none => nomatch none
  | succ width ih =>
      intro ch mem
      rcases List.mem_append.mp mem with early | last
      · exact ih ch early
      · rw [List.mem_singleton.mp last, Hex.digitValue?_digit (Nat.mod_lt n (by decide))]
        rfl

/-- The digits after the first dollar sign of a text that shows an address are those of the address.
    -/
theorem printedDigits_of_shows {text : String} {width : Nat} {a : Word}
    (h : Shows text.toList width a) : printedDigits text = Hex.digits width a.toNat := by
  obtain ⟨before, after, split, first, last⟩ := h
  have skipped : ∀ ch ∈ before, (ch != '$') = true := by
    intro ch mem
    exact bne_iff_ne.mpr fun dollar => first (dollar ▸ mem)
  rw [printedDigits, split, List.dropWhile_append_of_pos skipped,
    List.dropWhile_cons_of_neg (by decide), List.drop_succ_cons, List.drop_zero,
    List.takeWhile_append_of_pos isSome_digitValue?_of_mem_digits, last, List.append_nil]

/-- A text that shows an address prints it, where the digits are enough for it. -/
theorem prints_of_shows {text : String} {width : Nat} {a : Word}
    (h : Shows text.toList width a) (fits : a.toNat < 16 ^ width) : Prints text width a := by
  rw [Prints, printedDigits_of_shows h, Hex.length_digits, Hex.value?_digits, Nat.mod_eq_of_lt fits]
  exact ⟨rfl, rfl⟩

/-! ## What an instruction shows -/

namespace Mode

/-- The address, or the byte, that an instruction at `pc` shows with its operand bytes. -/
def shown (lo hi : Byte) (pc : Word) : Mode → Option Word
  | .implied => none
  | .immediate | .zeroPage | .zeroPageX | .zeroPageY | .indirectX | .indirectY =>
      some (Word.zeroPage lo)
  | .relative => some (pc + 2 + lo.signExtend 16)
  | .absolute | .absoluteX | .absoluteY | .indirect => some (.ofBytes lo hi)

/-- In how many digits it is shown. -/
def shownDigits : Mode → Nat
  | .relative => 4
  | m => 2 * m.operandLength

/-- What a mode shows fits in the digits it is shown in. -/
theorem shown_lt {mode : Mode} {lo hi : Byte} {pc a : Word} (h : mode.shown lo hi pc = some a) :
    a.toNat < 16 ^ mode.shownDigits := by
  cases mode with
  | implied => exact nomatch h
  | immediate | zeroPage | zeroPageX | zeroPageY | indirectX | indirectY =>
      obtain rfl := Option.some.inj h
      rw [Word.toNat_zeroPage]
      exact lo.isLt
  | relative | absolute | absoluteX | absoluteY | indirect => exact a.isLt

/-- What stands before the dollar sign. -/
def opening : Mode → List Char
  | .immediate => ['#']
  | .indirect | .indirectX | .indirectY => ['(']
  | _ => []

/-- What stands after the digits. -/
def closing : Mode → List Char
  | .zeroPageX | .absoluteX => [',', 'X']
  | .zeroPageY | .absoluteY => [',', 'Y']
  | .indirect => [')']
  | .indirectX => [',', 'X', ')']
  | .indirectY => [')', ',', 'Y']
  | _ => []

theorem dollar_notMem_opening (mode : Mode) : '$' ∉ mode.opening := by
  cases mode <;> decide

theorem takeWhile_closing (mode : Mode) :
    mode.closing.takeWhile (fun ch => (Hex.digitValue? ch).isSome) = [] := by
  cases mode <;> rfl

end Mode

namespace Disassembly

theorem byte_eq (b : Byte) : Hex.byte b = String.ofList (Hex.digits 2 (Word.zeroPage b).toNat) := by
  rw [Word.toNat_zeroPage]
  rfl

/-- The operand text is what the mode shows, with what the mode writes around it. -/
theorem operandText_of_shown {d : Descriptor} {lo hi : Byte} {pc a : Word}
    (h : d.mode.shown lo hi pc = some a) :
    ∃ operand, operandText d lo hi pc = some operand ∧
      operand.toList = d.mode.opening ++
        '$' :: (Hex.digits d.mode.shownDigits a.toNat ++ d.mode.closing) := by
  obtain ⟨op, mode, cycles, documented⟩ := d
  cases mode with
  | implied => exact nomatch h
  | immediate | zeroPage | zeroPageX | zeroPageY | indirectX | indirectY =>
      obtain rfl := Option.some.inj h
      refine ⟨_, rfl, ?_⟩
      simp only [byte_eq, String.toList_append, String.toList_ofList]
      simp [Mode.opening, Mode.closing, Mode.shownDigits, Mode.operandLength]
  | relative | absolute | absoluteX | absoluteY | indirect =>
      obtain rfl := Option.some.inj h
      refine ⟨_, rfl, ?_⟩
      simp only [Hex.word, String.toList_append, String.toList_ofList]
      simp [Mode.opening, Mode.closing, Mode.shownDigits, Mode.operandLength]

/-- The operand text shows what the mode shows, whatever it has around it. -/
theorem shows_operandText {d : Descriptor} {lo hi : Byte} {pc a : Word}
    (h : d.mode.shown lo hi pc = some a) :
    ∃ operand, operandText d lo hi pc = some operand ∧
      Shows operand.toList d.mode.shownDigits a := by
  obtain ⟨operand, text, split⟩ := operandText_of_shown h
  exact ⟨operand, text, d.mode.opening, d.mode.closing, split, d.mode.dollar_notMem_opening,
    d.mode.takeWhile_closing⟩

/-- What stands before the operand: the mnemonic, marked where it is undocumented. -/
def name (d : Descriptor) : String :=
  (if d.documented then "" else "*") ++ d.mnemonic

/-- A name is a mnemonic, with a star in front where it is undocumented. -/
theorem toList_name (d : Descriptor) :
    (name d).toList = (if d.documented then [] else ['*']) ++ d.operation.mnemonic.toList := by
  rw [name, String.toList_append]
  cases d.documented <;> rfl

/-- A mnemonic has no dollar sign and does not start with a star. -/
theorem plain_mnemonic (op : Operation) : '$' ∉ op.mnemonic.toList ∧
    ∃ ch rest, op.mnemonic.toList = ch :: rest ∧ ch ≠ '*' := by
  cases op <;> exact ⟨by decide, _, _, rfl, by decide⟩

theorem dollar_notMem_name (d : Descriptor) : '$' ∉ (name d).toList := by
  rw [toList_name, List.mem_append]
  rintro (star | letter)
  · cases h : d.documented <;> simp [h] at star
  · exact (plain_mnemonic d.operation).1 letter

/-- What stands after the name: the operand, if there is one, behind a blank. -/
def tail : Option String → List Char
  | none => []
  | some operand => ' ' :: operand.toList

/-- The text of an instruction is its name and, behind a blank, its operand. -/
theorem toList_instructionText (d : Descriptor) (lo hi : Byte) (pc : Word) :
    (instructionText d lo hi pc).toList = (name d).toList ++ tail (operandText d lo hi pc) := by
  rw [instructionText]
  cases operandText d lo hi pc with
  | none => exact (List.append_nil _).symm
  | some operand =>
      show (name d ++ " " ++ operand).toList = _
      rw [String.toList_append, String.toList_append, List.append_assoc]
      rfl

/-- **The text of an instruction prints what its mode shows**, in full. -/
theorem prints_instructionText {d : Descriptor} {lo hi : Byte} {pc a : Word}
    (h : d.mode.shown lo hi pc = some a) :
    Prints (instructionText d lo hi pc) d.mode.shownDigits a := by
  obtain ⟨operand, text, shows_it⟩ := shows_operandText h
  have blank : Shows ([' '] ++ operand.toList) d.mode.shownDigits a :=
    shows_it.append_left (by decide)
  refine prints_of_shows ?_ (Mode.shown_lt h)
  rw [toList_instructionText, text]
  exact blank.append_left (dollar_notMem_name d)

/-- A star marks an undocumented instruction, and no other. -/
theorem isStarred_instructionText (d : Descriptor) (lo hi : Byte) (pc : Word) :
    isStarred (instructionText d lo hi pc) = !d.documented := by
  rw [isStarred, toList_instructionText, toList_name]
  cases d.documented with
  | false => rfl
  | true =>
      obtain ⟨-, ch, others, spelled, plain⟩ := plain_mnemonic d.operation
      rw [spelled]
      exact beq_eq_false_iff_ne.mpr fun star => plain (Option.some.inj star)

end Disassembly

end Micro6502
