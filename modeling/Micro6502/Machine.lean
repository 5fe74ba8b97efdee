import Micro6502.Registers
import Micro6502.Bus

/-! # The machine — registers driving a bus

    `Machine β` is a register file on a bus of type `β`.  Here are the moves
    every instruction is made of: reading and writing at an address, pushing
    and pulling on the stack page, and fetching at the program counter.  Each
    gives back the machine after it, and a move that reads also gives what it
    read, first.

    All address arithmetic wraps: the stack in its page, the program counter
    in the address space. -/

namespace Micro6502

/-- A register file and the bus it drives. -/
structure Machine (β : Type) where
  regs : Registers
  bus : β
  deriving DecidableEq, Repr

namespace Machine

variable {β : Type}

/-- The machine with its registers changed. -/
def mapRegs (f : Registers → Registers) (m : Machine β) : Machine β :=
  ⟨f m.regs, m.bus⟩

/-- The machine with its bus changed. -/
def mapBus (f : β → β) (m : Machine β) : Machine β :=
  ⟨m.regs, f m.bus⟩

/-- The machine with another program counter. -/
def jump (pc : Word) (m : Machine β) : Machine β :=
  m.mapRegs fun r => { r with pc := pc }

/-- The machine with the program counter moved past one byte. -/
def advance (m : Machine β) : Machine β :=
  m.jump (m.regs.pc + 1)

variable [Bus β]

/-- The byte at an address. -/
def read (m : Machine β) (a : Word) : Byte × Machine β :=
  let r := Bus.read m.bus a
  (r.1, ⟨m.regs, r.2⟩)

/-- A byte written at an address. -/
def write (m : Machine β) (a : Word) (b : Byte) : Machine β :=
  m.mapBus fun bus => Bus.write bus a b

/-- The word whose low byte is at `lo` and whose high byte is at `hi`, read in that order. -/
def readPair (m : Machine β) (lo hi : Word) : Word × Machine β :=
  let l := m.read lo
  let h := l.2.read hi
  (Word.ofBytes l.1 h.1, h.2)

/-- The word at an address and the one after it. -/
def readWord (m : Machine β) (a : Word) : Word × Machine β :=
  m.readPair a (a + 1)

/-- A byte pushed: written to the free slot, which then moves down. -/
def push (m : Machine β) (b : Byte) : Machine β :=
  (m.write m.regs.stackAddress b).mapRegs fun r => { r with s := r.s - 1 }

/-- A byte pulled: the free slot moves up, and is read. -/
def pull (m : Machine β) : Byte × Machine β :=
  let up := m.mapRegs fun r => { r with s := r.s + 1 }
  up.read up.regs.stackAddress

@[simp] theorem regs_pull (m : Machine β) :
    m.pull.2.regs = { m.regs with s := m.regs.s + 1 } := rfl

/-- A word pushed, high byte first. -/
def pushWord (m : Machine β) (w : Word) : Machine β :=
  (m.push (Word.high w)).push (Word.low w)

/-- A word pulled, low byte first. -/
def pullWord (m : Machine β) : Word × Machine β :=
  let l := m.pull
  let h := l.2.pull
  (Word.ofBytes l.1 h.1, h.2)

/-- The byte at the program counter, which moves past it. -/
def fetch (m : Machine β) : Byte × Machine β :=
  let r := m.read m.regs.pc
  (r.1, r.2.advance)

/-- The word at the program counter, low byte first, which moves past it. -/
def fetchWord (m : Machine β) : Word × Machine β :=
  let l := m.fetch
  let h := l.2.fetch
  (Word.ofBytes l.1 h.1, h.2)

end Machine

end Micro6502
