import Micro6502.Hex
import Micro6502.Opcode
import Micro6502.Registers

/-! # Events — what a processor did, and how a log tells it

    A processor notes each reset, each interrupt it services and each
    instruction it fetches.  `Event.lines` is the log's account of an event,
    each line at the level from which on it is shown. -/

namespace Micro6502

/-- The two hardware interrupts. -/
inductive Interrupt where
  /-- Taken at the next boundary whatever the flags say. -/
  | nmi
  /-- Waits while interrupts are disabled. -/
  | irq
  deriving DecidableEq, Repr

/-- The name of an interrupt in a log. -/
def Interrupt.name : Interrupt → String
  | .nmi => "Nmi"
  | .irq => "Irq"

/-- Something a processor did. -/
inductive Event where
  /-- A reset that started execution at `pc`. -/
  | reset (pc : Word)
  /-- An interrupt serviced: where it came in, its vector, and where the vector led. -/
  | service (kind : Interrupt) (back : Word) (vector : Word) (start : Word)
  /-- An instruction fetched: its opcode, the registers before it and the ticks before it. -/
  | fetch (opcode : Byte) (regs : Registers) (cycle : Nat)
  deriving DecidableEq, Repr

/-- How much a log tells: single happenings, or every instruction too. -/
inductive Level where
  | debug
  | trace
  deriving DecidableEq, Repr

namespace Level

/-- The name of a level in a log. -/
def name : Level → String
  | .debug => "DEBUG"
  | .trace => "TRACE"

/-- Whether a log at level `shown` has lines of level `l`. -/
def shows (shown l : Level) : Bool :=
  shown == .trace || l == .debug

end Level

/-- A line of a log. -/
structure Line where
  level : Level
  message : String
  deriving DecidableEq, Repr

/-- A line as text. -/
def Line.text (l : Line) : String :=
  l.level.name ++ " " ++ l.message

namespace Event

/-- Text filled with blanks on the right, up to a width. -/
def padded (width : Nat) (s : String) : String :=
  s ++ String.ofList (List.replicate (width - s.length) ' ')

/-- The registers of an instruction about to run, as its line shows them. -/
def traceMessage (opcode : Byte) (regs : Registers) (cycle : Nat) : String :=
  Hex.word regs.pc ++ "  " ++ Hex.byte opcode ++ "  "
    ++ padded 4 (Opcode.decode opcode).mnemonic
    ++ " A:" ++ Hex.byte regs.a ++ " X:" ++ Hex.byte regs.x ++ " Y:" ++ Hex.byte regs.y
    ++ " P:" ++ Hex.byte regs.p.bits ++ " SP:" ++ Hex.byte regs.s ++ " CYC:" ++ cycle.repr

/-- What a log tells of an event, in order. -/
def lines : Event → List Line
  | .reset pc => [⟨.debug, "reset: PC=" ++ Hex.word pc⟩]
  | .service kind back vector start =>
      [⟨.debug, kind.name ++ " at " ++ Hex.word back ++ ": vector " ++ Hex.word vector ++ " -> "
        ++ Hex.word start⟩]
  | .fetch opcode regs cycle =>
      let ran : Line := ⟨.trace, traceMessage opcode regs cycle⟩
      if (Opcode.decode opcode).documented then [ran]
      else
        [ran, ⟨.debug, "undocumented opcode " ++ Hex.byte opcode ++ " at " ++ Hex.word regs.pc
          ++ ", executed as NOP"⟩]

/-- The log of some events at a level. -/
def log (shown : Level) (events : List Event) : List String :=
  ((events.flatMap lines).filter fun l => shown.shows l.level).map Line.text

end Event

end Micro6502
