import Micro6502.Config
import Micro6502.Instruction
import Micro6502.Processor.Event

/-! # The processor — a machine on a clock

    A tick is one cycle.  The tick that starts an instruction does all of
    it, and the ticks after it count its cycles down; so a host that gives
    other devices a turn at each tick sees instructions take their time, but
    not their accesses spread over it.

    * At a boundary (`remaining = 0`) the next tick services a pending
      interrupt or runs an instruction: `Processor.nextTurn` says which.
    * NMI goes before IRQ, and IRQ waits while interrupts are disabled.
    * A reset drops requests and the countdown, but not the count of ticks.

    What happened is noted in a journal, which no operation reads. -/

namespace Micro6502

/-- Requests that are latched and not serviced yet. -/
structure Pending where
  nmi : Bool := false
  irq : Bool := false
  deriving DecidableEq, Repr

namespace Pending

/-- The requests with one latched. -/
def latch (p : Pending) : Interrupt → Pending
  | .nmi => { p with nmi := true }
  | .irq => { p with irq := true }

/-- The requests with one withdrawn. -/
def release (p : Pending) : Interrupt → Pending
  | .nmi => { p with nmi := false }
  | .irq => { p with irq := false }

/-- Whether a request is latched. -/
def has (p : Pending) : Interrupt → Bool
  | .nmi => p.nmi
  | .irq => p.irq

/-- A request that is latched is there, and the other is as before. -/
theorem has_latch (p : Pending) (k kind : Interrupt) :
    (p.latch k).has kind = (decide (k = kind) || p.has kind) := by
  cases k <;> cases kind <;> cases p <;> rfl

/-- A request that is withdrawn is gone, and the other is as before. -/
theorem has_release (p : Pending) (k kind : Interrupt) :
    (p.release k).has kind = (decide (k ≠ kind) && p.has kind) := by
  cases k <;> cases kind <;> cases p <;> rfl

end Pending

/-- A processor and the bus it drives. -/
structure Processor (β : Type) extends Machine β where
  config : Config
  /-- The cycles left of the current instruction or interrupt entry. -/
  remaining : Nat
  /-- The ticks since power-on. -/
  elapsed : Nat
  pending : Pending
  /-- What happened, newest first. -/
  journal : List Event

/-- Where a reset starts. -/
def resetVector : Word := 0xFFFC#16

/-- Where a non-maskable interrupt starts. -/
def nmiVector : Word := 0xFFFA#16

/-- The cycles that entering an interrupt takes. -/
def interruptCycles : Nat := 7

/-- The vector of an interrupt. -/
def Interrupt.vector : Interrupt → Word
  | .nmi => nmiVector
  | .irq => irqVector

namespace Processor

variable {β : Type}

/-- What a tick at a boundary does. -/
inductive Turn where
  | service (kind : Interrupt)
  | instruction
  deriving DecidableEq, Repr

/-- What the next tick at a boundary does. -/
def nextTurn (c : Processor β) : Turn :=
  if c.pending.nmi then .service .nmi
  else if c.pending.irq && !c.regs.p.get .interruptDisable then .service .irq
  else .instruction

/-- Whether the processor is between instructions. -/
def atBoundary (c : Processor β) : Bool := c.remaining == 0

/-! ## What a host does between ticks -/

/-- A request is latched. -/
def request (kind : Interrupt) (c : Processor β) : Processor β :=
  { c with pending := c.pending.latch kind }

/-- A flag is set or cleared. -/
def setFlag (f : Flag) (v : Bool) (c : Processor β) : Processor β :=
  { c with regs := c.regs.mapStatus (Status.set · f v) }

/-- Whether a flag reads as set. -/
def getFlag (c : Processor β) (f : Flag) : Bool := c.regs.p.get f

/-- A flag that a host writes reads as written, and the others as before; only `unused` reads as set
    whatever is written to it. -/
theorem getFlag_setFlag (c : Processor β) (f g : Flag) (v : Bool) :
    (c.setFlag f v).getFlag g = if g = f then v || decide (f = .unused) else c.getFlag g :=
  c.regs.p.get_set f g v

/-- The registers are loaded; the unused bit of P comes out set. -/
def setRegisters (r : Registers) (c : Processor β) : Processor β :=
  { c with regs := r.mapStatus fun p => .ofByte p.bits }

/-- The bus is changed behind the processor's back. -/
def alterBus (f : β → β) (c : Processor β) : Processor β :=
  let ⟨m, config, remaining, elapsed, pending, journal⟩ := c
  ⟨m.mapBus f, config, remaining, elapsed, pending, journal⟩

/-! ## What the clock does -/

variable [Bus β]

/-- Enters the service routine of an interrupt; gives its cost. -/
def service (kind : Interrupt) (c : Processor β) : Nat × Processor β :=
  let ⟨m, config, remaining, elapsed, pending, journal⟩ := c
  let back := m.regs.pc
  let m := m.enterService back kind.vector false
  (interruptCycles,
    ⟨m, config, remaining, elapsed, pending.release kind,
      .service kind back kind.vector m.regs.pc :: journal⟩)

/-- Runs an instruction; gives its cost. -/
def instruction (c : Processor β) : Nat × Processor β :=
  let ⟨m, config, remaining, elapsed, pending, journal⟩ := c
  let before := m.regs
  let fetched := m.fetchOpcode
  let done := fetched.2.runDecoded config.variant.hasDecimal (Opcode.decode fetched.1)
  (done.1,
    ⟨done.2, config, remaining, elapsed, pending,
      .fetch fetched.1 before elapsed :: journal⟩)

/-- What is due at a boundary: an interrupt or an instruction; gives its cost. -/
def begin (c : Processor β) : Nat × Processor β :=
  match c.nextTurn with
  | .service kind => c.service kind
  | .instruction => c.instruction

/-- One cycle. -/
def tick (c : Processor β) : Processor β :=
  if c.remaining = 0 then
    let due := c.begin
    { due.2 with remaining := due.1 - 1, elapsed := due.2.elapsed + 1 }
  else
    { c with remaining := c.remaining - 1, elapsed := c.elapsed + 1 }

/-- The reset sequence: registers as after power-on, the program counter from its vector,
nothing pending and nothing left to count down. -/
def reset (c : Processor β) : Processor β :=
  let ⟨m, config, _, elapsed, _, journal⟩ := c
  let start := (m.mapRegs fun _ => .new).readWord resetVector
  ⟨start.2.jump start.1, config, 0, elapsed, {}, .reset start.1 :: journal⟩

/-- A processor on a bus, after its first reset. -/
def powerOn (bus : β) (config : Config) : Processor β :=
  reset ⟨⟨.new, bus⟩, config, 0, 0, {}, []⟩

end Processor

end Micro6502
