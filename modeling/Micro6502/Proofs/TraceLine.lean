import Mathlib.Algebra.Ring.Nat
import Micro6502.Processor.Event
import Micro6502.Proofs.Printed

/-! # Trace lines — what a reader takes from the log

    Whoever reads a log has nothing but its text.  He divides a line at its
    blanks, knows a word by its place or by the label in front of it, and
    reads digits for the number that they denote: `readTrace?` is this
    reader, who knows nothing of how a line is made.  The route:

    * a word in front of a blank is the first word of a text (`words_cons`),
      and blanks before a word are passed over (`words_blanks`);
    * what is written for a number is a word, and is read as that number
      (`isWord_digits`, `hex?_digits`, `decimal?_toDigits`);
    * so the line of an instruction has ten words (`words_traceLine`), which
      tell its address, its opcode, the registers and the count of ticks
      (`readTrace?_traceLine`);
    * and of the lines that a log shows at trace level, the ones that start
      with the word TRACE are those of instructions (`isTrace_text`). -/

namespace Micro6502

/-! ## The reader -/

/-- What a line tells of an instruction about to run, in numbers. -/
structure Told where
  pc : Nat
  opcode : Nat
  a : Nat
  x : Nat
  y : Nat
  p : Nat
  s : Nat
  cycle : Nat
  deriving DecidableEq, Repr

namespace Told

/-- The words of a text: what its blanks divide. -/
def words (cs : List Char) : List (List Char) :=
  (cs.splitOnP (· == ' ')).filter fun w => !w.isEmpty

/-- The rest of a word with a label in front. -/
def after? (label : String) (word : List Char) : Option (List Char) :=
  if word.take label.length = label.toList then some (word.drop label.length) else none

/-- The number that so many hexadecimal digits denote. -/
def hex? (width : Nat) (ds : List Char) : Option Nat :=
  if ds.length = width then Hex.value? ds else none

/-- The number that decimal digits denote. -/
def decimal? (ds : List Char) : Option Nat :=
  if ds ≠ [] ∧ ds.all Char.isDigit = true then some (Nat.ofDigitChars 10 ds 0) else none

/-- A word that is a label and two hexadecimal digits, read as the number of these. -/
def register? (label : String) (word : List Char) : Option Nat :=
  (after? label word).bind (hex? 2)

/-- Whether a line is one at trace level: its first word says so. -/
def isTrace (line : String) : Bool :=
  (words line.toList).head? == some "TRACE".toList

/-- What a line at trace level tells: ten words, of which the fourth is a name, and each of the last
six has a label. -/
def readTrace? (line : String) : Option Told :=
  match words line.toList with
  | [level, pc, opcode, _, a, x, y, p, s, cycle] =>
      if level = "TRACE".toList then do
        let pc ← hex? 4 pc
        let opcode ← hex? 2 opcode
        let a ← register? "A:" a
        let x ← register? "X:" x
        let y ← register? "Y:" y
        let p ← register? "P:" p
        let s ← register? "SP:" s
        let cycle ← (after? "CYC:" cycle).bind decimal?
        return ⟨pc, opcode, a, x, y, p, s, cycle⟩
      else none
  | _ => none

/-! ## Words -/

/-- A word is not empty and has no blank. -/
structure IsWord (w : List Char) : Prop where
  nonempty : w ≠ []
  solid : ∀ c ∈ w, (c == ' ') = false

/-- A word stays one with another word in front. -/
theorem IsWord.append {w w' : List Char} (front : IsWord w) (back : IsWord w') :
    IsWord (w ++ w') where
  nonempty := List.append_ne_nil_of_left_ne_nil front.nonempty w'
  solid c mem := by
    rcases List.mem_append.mp mem with early | late
    · exact front.solid c early
    · exact back.solid c late

/-- A word in front of a blank is the first word of a text. -/
theorem words_cons {w : List Char} (word : IsWord w) (rest : List Char) :
    words (w ++ ' ' :: rest) = w :: words rest := by
  have full : (!w.isEmpty) = true := by
    rw [Bool.not_eq_true', List.isEmpty_eq_false_iff]
    exact word.nonempty
  rw [words, List.splitOnP_append_cons_of_forall_mem word.solid ' ' (beq_self_eq_true ' '),
    List.filter_cons, if_pos full]
  rfl

/-- A word alone is the only word of a text. -/
theorem words_self {w : List Char} (word : IsWord w) : words w = [w] := by
  have full : (!w.isEmpty) = true := by
    rw [Bool.not_eq_true', List.isEmpty_eq_false_iff]
    exact word.nonempty
  rw [words, List.splitOnP_eq_singleton word.solid, List.filter_cons, if_pos full]
  rfl

/-- Blanks at the front of a text divide nothing. -/
theorem words_blanks (n : Nat) (rest : List Char) :
    words (List.replicate n ' ' ++ rest) = words rest := by
  induction n with
  | zero => rfl
  | succ n ih =>
      have solid : ∀ c ∈ ([] : List Char), (c == ' ') = false := by simp
      have split := List.splitOnP_append_cons_of_forall_mem solid ' ' (beq_self_eq_true ' ')
        (List.replicate n ' ' ++ rest)
      rw [List.nil_append] at split
      rw [← ih, words, List.replicate_succ, List.cons_append, split]
      rfl

/-- Blanks between a word and the rest of a text divide them, be there one or more. -/
theorem words_padded {w : List Char} (word : IsWord w) (n : Nat) (rest : List Char) :
    words (w ++ (List.replicate n ' ' ++ ' ' :: rest)) = w :: words rest := by
  have blanks : List.replicate n ' ' ++ ' ' :: rest = ' ' :: (List.replicate n ' ' ++ rest) := by
    rw [List.append_cons, ← List.replicate_succ', List.replicate_succ, List.cons_append]
  rw [blanks, words_cons word, words_blanks]

/-! ## Numbers -/

/-- Hexadecimal digits make a word. -/
theorem isWord_digits {width : Nat} (positive : 0 < width) (n : Nat) :
    IsWord (Hex.digits width n) where
  nonempty none := by
    have length := Hex.length_digits width n
    rw [none] at length
    exact absurd positive (length ▸ Nat.lt_irrefl 0)
  solid c mem := by
    have digit := isSome_digitValue?_of_mem_digits c mem
    refine beq_false_of_ne ?_
    rintro rfl
    exact absurd digit (by decide)

/-- Decimal digits make a word. -/
theorem isWord_toDigits (n : Nat) : IsWord (Nat.toDigits 10 n) where
  nonempty := Nat.toDigits_ne_nil
  solid c mem := by
    have digit := Nat.isDigit_of_mem_toDigits (b := 10) (by decide) (by decide) mem
    refine beq_false_of_ne ?_
    rintro rfl
    exact absurd digit (by decide)

/-- A mnemonic is a word. -/
theorem isWord_mnemonic (op : Operation) : IsWord op.mnemonic.toList := by
  have nonempty : op.mnemonic.toList ≠ [] := by cases op <;> simp [Operation.mnemonic]
  have solid : ∀ c ∈ op.mnemonic.toList, (c == ' ') = false := by
    cases op <;> simp [Operation.mnemonic]
  exact ⟨nonempty, solid⟩

/-- The name of a level is a word. -/
theorem isWord_level (level : Level) : IsWord level.name.toList := by
  have nonempty : level.name.toList ≠ [] := by cases level <;> simp [Level.name]
  have solid : ∀ c ∈ level.name.toList, (c == ' ') = false := by
    cases level <;> simp [Level.name]
  exact ⟨nonempty, solid⟩

/-- What is written for a number in so many hexadecimal digits is read as that number. -/
theorem hex?_digits {width n : Nat} (fits : n < 16 ^ width) :
    hex? width (Hex.digits width n) = some n := by
  rw [hex?, if_pos (Hex.length_digits width n), Hex.value?_digits, Nat.mod_eq_of_lt fits]

/-- What is written for a number in decimal digits is read as that number. -/
theorem decimal?_toDigits (n : Nat) : decimal? (Nat.toDigits 10 n) = some n := by
  have all : (Nat.toDigits 10 n).all Char.isDigit = true := by
    refine List.all_eq_true.mpr ?_
    intro c mem
    exact Nat.isDigit_of_mem_toDigits (by decide) (by decide) mem
  rw [decimal?, if_pos ⟨Nat.toDigits_ne_nil, all⟩, Nat.ofDigitChars_ten_toDigits]

/-- Behind a label stands what was put there. -/
theorem after?_append (label : String) (rest : List Char) :
    after? label (label.toList ++ rest) = some rest := by
  rw [after?, ← String.length_toList, List.take_left' rfl, if_pos rfl, List.drop_left' rfl]

/-- A labelled byte is read as its number. -/
theorem register?_digits (label : String) (b : Byte) :
    register? label (label.toList ++ Hex.digits 2 b.toNat) = some b.toNat := by
  rw [register?, after?_append, Option.bind_some, hex?_digits b.isLt]

/-! ## The line of an instruction -/

variable (opcode : Byte) (regs : Registers) (cycle : Nat)

/-- The line that the log has for an instruction about to run. -/
def traceLine : Line := ⟨.trace, Event.traceMessage opcode regs cycle⟩

/-- What that line is to tell. -/
def ofFetch : Told where
  pc := regs.pc.toNat
  opcode := opcode.toNat
  a := regs.a.toNat
  x := regs.x.toNat
  y := regs.y.toNat
  p := regs.p.bits.toNat
  s := regs.s.toNat
  cycle := cycle

/-- The line of an instruction is words with blanks between them. -/
theorem toList_traceLine :
    (traceLine opcode regs cycle).text.toList =
      "TRACE".toList ++ ' ' :: (Hex.digits 4 regs.pc.toNat ++ (List.replicate 1 ' ' ++ ' ' ::
        (Hex.digits 2 opcode.toNat ++ (List.replicate 1 ' ' ++ ' ' ::
          ((Opcode.decode opcode).operation.mnemonic.toList ++
            (List.replicate (4 - (Opcode.decode opcode).mnemonic.length) ' ' ++ ' ' ::
              (("A:".toList ++ Hex.digits 2 regs.a.toNat) ++ ' ' ::
                (("X:".toList ++ Hex.digits 2 regs.x.toNat) ++ ' ' ::
                  (("Y:".toList ++ Hex.digits 2 regs.y.toNat) ++ ' ' ::
                    (("P:".toList ++ Hex.digits 2 regs.p.bits.toNat) ++ ' ' ::
                      (("SP:".toList ++ Hex.digits 2 regs.s.toNat) ++ ' ' ::
                        ("CYC:".toList ++ Nat.toDigits 10 cycle)))))))))))) := by
  rw [traceLine, Line.text, Event.traceMessage]
  simp only [Hex.word, Hex.byte, Event.padded, String.toList_append, String.toList_ofList,
    Nat.toList_repr, List.append_assoc]
  rfl

/-- The line of an instruction has ten words. -/
theorem words_traceLine :
    words (traceLine opcode regs cycle).text.toList =
      ["TRACE".toList, Hex.digits 4 regs.pc.toNat, Hex.digits 2 opcode.toNat,
        (Opcode.decode opcode).operation.mnemonic.toList,
        "A:".toList ++ Hex.digits 2 regs.a.toNat, "X:".toList ++ Hex.digits 2 regs.x.toNat,
        "Y:".toList ++ Hex.digits 2 regs.y.toNat, "P:".toList ++ Hex.digits 2 regs.p.bits.toNat,
        "SP:".toList ++ Hex.digits 2 regs.s.toNat, "CYC:".toList ++ Nat.toDigits 10 cycle] := by
  have level : IsWord "TRACE".toList := isWord_level .trace
  have labelled : ∀ label ∈ ["A:", "X:", "Y:", "P:", "SP:", "CYC:"], IsWord label.toList := by
    intro label mem
    have nonempty : ∀ l ∈ ["A:", "X:", "Y:", "P:", "SP:", "CYC:"], l.toList ≠ [] := by simp
    have solid : ∀ l ∈ ["A:", "X:", "Y:", "P:", "SP:", "CYC:"],
        ∀ c ∈ l.toList, (c == ' ') = false := by simp
    exact ⟨nonempty label mem, solid label mem⟩
  -- no blank stands between a label and its digits
  have byte : ∀ (label : String) (b : Byte), label ∈ ["A:", "X:", "Y:", "P:", "SP:", "CYC:"] →
      IsWord (label.toList ++ Hex.digits 2 b.toNat) := by
    intro label b mem
    exact (labelled label mem).append (isWord_digits (by decide) b.toNat)
  have count : IsWord ("CYC:".toList ++ Nat.toDigits 10 cycle) :=
    (labelled "CYC:" (by decide)).append (isWord_toDigits cycle)
  rw [toList_traceLine, words_cons level,
    words_padded (isWord_digits (by decide) regs.pc.toNat),
    words_padded (isWord_digits (by decide) opcode.toNat),
    words_padded (isWord_mnemonic (Opcode.decode opcode).operation),
    words_cons (byte "A:" regs.a (by decide)), words_cons (byte "X:" regs.x (by decide)),
    words_cons (byte "Y:" regs.y (by decide)), words_cons (byte "P:" regs.p.bits (by decide)),
    words_cons (byte "SP:" regs.s (by decide)), words_self count]

/-- The line of an instruction tells its address, its opcode, the registers and the count of
ticks. -/
theorem readTrace?_traceLine :
    readTrace? (traceLine opcode regs cycle).text = some (ofFetch opcode regs cycle) := by
  have address : hex? 4 (Hex.digits 4 regs.pc.toNat) = some regs.pc.toNat :=
    hex?_digits regs.pc.isLt
  have byte : hex? 2 (Hex.digits 2 opcode.toNat) = some opcode.toNat := hex?_digits opcode.isLt
  rw [readTrace?, words_traceLine]
  simp only [if_true, address, byte, register?_digits, after?_append, Option.bind_some,
    decimal?_toDigits]
  rfl

/-! ## Which lines are read -/

/-- A line starts with the word TRACE where it is one at trace level, and nowhere else. -/
theorem isTrace_text (l : Line) : isTrace l.text = (l.level == .trace) := by
  obtain ⟨level, message⟩ := l
  have text : (Line.text ⟨level, message⟩).toList = level.name.toList ++ ' ' :: message.toList := by
    rw [Line.text, String.toList_append, String.toList_append, List.append_assoc]
    rfl
  rw [isTrace, text, words_cons (isWord_level level)]
  cases level with
  | debug => rfl
  | trace => rfl

end Told

end Micro6502
