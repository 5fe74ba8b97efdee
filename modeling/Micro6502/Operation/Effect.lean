import Micro6502.Alu
import Micro6502.Operation
import Micro6502.Registers

/-! # Effects — the twelve shapes of an operation

    What an operation does with its operand, the stack and the program
    counter follows one of twelve shapes; what is left is a function on
    registers or bytes.  `Operation.effect` gives shape and function of each
    operation, and `Machine.perform` runs a shape. -/

namespace Micro6502

/-- The shape of an operation, with the function that fills it. -/
inductive Effect where
  /-- Reads the operand into the registers. -/
  | load (f : Byte → Registers → Registers)
  /-- Stores a byte at the operand. -/
  | store (f : Registers → Byte)
  /-- Reads the operand, works on it and stores it back. -/
  | modify (f : Byte → Status → Alu.Outcome)
  /-- Touches registers alone. -/
  | internal (f : Registers → Registers)
  /-- Goes to the operand where a flag has a value. -/
  | branch (flag : Flag) (wanted : Bool)
  /-- Goes to the operand. -/
  | jump
  /-- Goes to the operand, leaving a way back on the stack. -/
  | call
  /-- Goes back to where a call came from. -/
  | returnFromCall
  /-- Pushes a byte. -/
  | push (f : Registers → Byte)
  /-- Pulls a byte into the registers. -/
  | pull (f : Byte → Registers → Registers)
  /-- Enters the interrupt service routine. -/
  | softwareBreak
  /-- Goes back to where an interrupt came in. -/
  | returnFromInterrupt

namespace Registers

/-- A byte in the accumulator, described by Z and N. -/
def loadA (b : Byte) (r : Registers) : Registers := { r with a := b, p := r.p.withNZ b }

/-- A byte in X, described by Z and N. -/
def loadX (b : Byte) (r : Registers) : Registers := { r with x := b, p := r.p.withNZ b }

/-- A byte in Y, described by Z and N. -/
def loadY (b : Byte) (r : Registers) : Registers := { r with y := b, p := r.p.withNZ b }

/-- The outcome of an arithmetic operation in the accumulator. -/
def accumulate (o : Alu.Outcome) (r : Registers) : Registers :=
  { r with a := o.value, p := o.status }

/-- The registers with the status register changed. -/
def mapStatus (f : Status → Status) (r : Registers) : Registers := { r with p := f r.p }

end Registers

namespace Operation

/-- The effect of an operation; `bcd` says whether the part can do decimal arithmetic. -/
def effect (bcd : Bool) : Operation → Effect
  | .lda => .load .loadA
  | .ldx => .load .loadX
  | .ldy => .load .loadY
  | .adc => .load fun b r => r.accumulate (Alu.add bcd r.a b r.p)
  | .sbc => .load fun b r => r.accumulate (Alu.sub bcd r.a b r.p)
  | .and => .load fun b r => r.loadA (r.a &&& b)
  | .ora => .load fun b r => r.loadA (r.a ||| b)
  | .eor => .load fun b r => r.loadA (r.a ^^^ b)
  | .bit => .load fun b r => r.mapStatus (Alu.bitTest r.a b)
  | .cmp => .load fun b r => r.mapStatus (Alu.compare r.a b)
  | .cpx => .load fun b r => r.mapStatus (Alu.compare r.x b)
  | .cpy => .load fun b r => r.mapStatus (Alu.compare r.y b)
  | .sta => .store fun r => r.a
  | .stx => .store fun r => r.x
  | .sty => .store fun r => r.y
  | .asl => .modify (Alu.shiftLeft false)
  | .lsr => .modify (Alu.shiftRight false)
  | .rol => .modify Alu.rotateLeft
  | .ror => .modify Alu.rotateRight
  | .inc => .modify Alu.increment
  | .dec => .modify Alu.decrement
  | .inx => .internal fun r => r.loadX (r.x + 1)
  | .iny => .internal fun r => r.loadY (r.y + 1)
  | .dex => .internal fun r => r.loadX (r.x - 1)
  | .dey => .internal fun r => r.loadY (r.y - 1)
  | .tax => .internal fun r => r.loadX r.a
  | .tay => .internal fun r => r.loadY r.a
  | .txa => .internal fun r => r.loadA r.x
  | .tya => .internal fun r => r.loadA r.y
  | .tsx => .internal fun r => r.loadX r.s
  | .txs => .internal fun r => { r with s := r.x }
  | .clc => .internal fun r => r.mapStatus (Status.set · .carry false)
  | .sec => .internal fun r => r.mapStatus (Status.set · .carry true)
  | .cli => .internal fun r => r.mapStatus (Status.set · .interruptDisable false)
  | .sei => .internal fun r => r.mapStatus (Status.set · .interruptDisable true)
  | .cld => .internal fun r => r.mapStatus (Status.set · .decimal false)
  | .sed => .internal fun r => r.mapStatus (Status.set · .decimal true)
  | .clv => .internal fun r => r.mapStatus (Status.set · .overflow false)
  | .nop => .internal fun r => r
  | .bcc => .branch .carry false
  | .bcs => .branch .carry true
  | .bne => .branch .zero false
  | .beq => .branch .zero true
  | .bpl => .branch .negative false
  | .bmi => .branch .negative true
  | .bvc => .branch .overflow false
  | .bvs => .branch .overflow true
  | .jmp => .jump
  | .jsr => .call
  | .rts => .returnFromCall
  | .pha => .push fun r => r.a
  | .php => .push fun r => r.p.pushed true
  | .pla => .pull .loadA
  | .plp => .pull fun b r => { r with p := .pulled b }
  | .brk => .softwareBreak
  | .rti => .returnFromInterrupt

end Operation

end Micro6502
