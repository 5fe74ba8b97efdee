import Micro6502.Bus.Counter
import Micro6502.Bus.Ram
import Micro6502.Proofs.Cost
import Micro6502.Proofs.Monitored
import Micro6502.Proofs.Stack

/-! # Footprints — the accesses of an instruction, and no others

    On a bus with devices an access is an event, so an instruction has to
    make each of its accesses once and in order, and no access beside them.
    `Descriptor.footprint` is the list of them, written down from the mode
    and the operation alone: the opcode, the operand bytes, a pointer, and
    what the operation does with its operand or the stack.  The route:

    * each move of the machine has its accesses (`sees_fetch`, `sees_push`
      and so on), whatever the bus answers;
    * so finding an operand makes those of the mode (`sees_resolve`), and
      running the operation makes its own (`sees_execute`);
    * how many there are is a matter of the opcode (`length_footprint`), and
      no opcode has more of them than cycles. -/

namespace Micro6502

/-! ## What is accessed -/

/-- What the reads that find an operand give: the operand bytes, and a pointer's. -/
structure Found where
  lo : Byte
  hi : Byte
  low : Byte
  high : Byte

/-- What the reads of an operation give, in order. -/
structure Given where
  first : Byte
  second : Byte
  third : Byte

namespace Mode

/-- The reads that find an operand whose bytes are at `r.pc`. -/
def reads (r : Registers) (f : Found) : Mode → List Access
  | .implied | .immediate => []
  | .zeroPage | .zeroPageX | .zeroPageY | .relative => [.read r.pc f.lo]
  | .absolute | .absoluteX | .absoluteY => [.read r.pc f.lo, .read (r.pc + 1) f.hi]
  | .indirect =>
      [.read r.pc f.lo, .read (r.pc + 1) f.hi, .read (.ofBytes f.lo f.hi) f.low,
        .read (.ofBytes (f.lo + 1) f.hi) f.high]
  | .indirectX =>
      [.read r.pc f.lo, .read (Word.zeroPage (f.lo + r.x)) f.low,
        .read (Word.zeroPage (f.lo + r.x + 1)) f.high]
  | .indirectY =>
      [.read r.pc f.lo, .read (Word.zeroPage f.lo) f.low, .read (Word.zeroPage (f.lo + 1)) f.high]

/-- The operand that was found. -/
def operand (r : Registers) (f : Found) : Mode → Operand
  | .implied => .accumulator
  | .immediate => .address r.pc
  | .zeroPage => .address (Word.zeroPage f.lo)
  | .zeroPageX => .address (Word.zeroPage (f.lo + r.x))
  | .zeroPageY => .address (Word.zeroPage (f.lo + r.y))
  | .relative => .address (r.pc + 1 + f.lo.signExtend 16)
  | .absolute => .address (.ofBytes f.lo f.hi)
  | .absoluteX => .address (.ofBytes f.lo f.hi + r.x.setWidth 16)
  | .absoluteY => .address (.ofBytes f.lo f.hi + r.y.setWidth 16)
  | .indirect | .indirectX => .address (.ofBytes f.low f.high)
  | .indirectY => .address (.ofBytes f.low f.high + r.y.setWidth 16)

/-- Whether adding an index to the address with these two bytes gives it another high byte. -/
def changesPage (lo hi index : Byte) : Bool :=
  let base := lo.toNat + 256 * hi.toNat
  (base + index.toNat) % 0x10000 / 256 != base / 256

/-- Whether indexing a full address left its page. -/
def crosses (r : Registers) (f : Found) : Mode → Bool
  | .absoluteX => changesPage f.lo f.hi r.x
  | .absoluteY => changesPage f.lo f.hi r.y
  | .indirectY => changesPage f.low f.high r.y
  | _ => false

/-- An indexed address is found at the cost of leaving its page. -/
theorem indexed_eq (lo hi index : Byte) :
    Resolved.indexed (.ofBytes lo hi) index =
      ⟨.address (.ofBytes lo hi + index.setWidth 16), (changesPage lo hi index).toNat⟩ := by
  have cost := Resolved.extraCycles_indexed (.ofBytes lo hi) index
  rw [Word.toNat_ofBytes] at cost
  exact congrArg (Resolved.mk (.address (.ofBytes lo hi + index.setWidth 16))) cost

end Mode

namespace Operand

/-- Whether an operand is in memory. -/
def inMemory : Operand → Bool
  | .accumulator => false
  | .address _ => true

/-- One read of an operand in memory. -/
def readOnce (o : Operand) (b : Byte) : List Access :=
  match o with
  | .accumulator => []
  | .address a => [.read a b]

/-- One write to an operand in memory. -/
def writtenOnce (o : Operand) (b : Byte) : List Access :=
  match o with
  | .accumulator => []
  | .address a => [.write a b]

/-- A read of an operand in memory, the byte written back, and the result written. -/
def rewritten (o : Operand) (old new : Byte) : List Access :=
  match o with
  | .accumulator => []
  | .address a => [.read a old, .write a old, .write a new]

end Operand

/-- What an operation does to the bus when it runs in `r`. -/
def Operation.accesses (r : Registers) (o : Operand) (g : Given) : Operation → List Access
  | .lda | .ldx | .ldy | .adc | .sbc | .and | .ora | .eor | .bit | .cmp | .cpx | .cpy =>
      o.readOnce g.first
  | .sta => o.writtenOnce r.a
  | .stx => o.writtenOnce r.x
  | .sty => o.writtenOnce r.y
  | .asl => o.rewritten g.first (Alu.shiftLeft false g.first r.p).value
  | .lsr => o.rewritten g.first (Alu.shiftRight false g.first r.p).value
  | .rol => o.rewritten g.first (Alu.rotateLeft g.first r.p).value
  | .ror => o.rewritten g.first (Alu.rotateRight g.first r.p).value
  | .inc => o.rewritten g.first (g.first + 1)
  | .dec => o.rewritten g.first (g.first - 1)
  | .pha => [.write (stackSlot r.s) r.a]
  | .php => [.write (stackSlot r.s) (r.p.pushed true)]
  | .pla | .plp => [.read (stackSlot (r.s + 1)) g.first]
  | .jsr =>
      [.write (stackSlot r.s) (Word.high (r.pc - 1)),
        .write (stackSlot (r.s - 1)) (Word.low (r.pc - 1))]
  | .rts => [.read (stackSlot (r.s + 1)) g.first, .read (stackSlot (r.s + 2)) g.second]
  | .brk =>
      [.write (stackSlot r.s) (Word.high (r.pc + 1)),
        .write (stackSlot (r.s - 1)) (Word.low (r.pc + 1)),
        .write (stackSlot (r.s - 2)) (r.p.pushed true),
        .read 0xFFFE#16 g.first, .read 0xFFFF#16 g.second]
  | .rti =>
      [.read (stackSlot (r.s + 1)) g.first, .read (stackSlot (r.s + 2)) g.second,
        .read (stackSlot (r.s + 3)) g.third]
  -- branches and jumps, NOP, and what works on registers alone
  | _ => []

/-- The registers once an opcode is fetched. -/
def Registers.fetched (r : Registers) : Registers :=
  { r with pc := r.pc + 1, p := r.p.set .unused true }

/-- The registers once an instruction is fetched as a whole. -/
def Registers.past (r : Registers) (mode : Mode) : Registers :=
  { r.fetched with pc := r.pc + 1 + BitVec.ofNat 16 mode.operandLength }

/-- All accesses of an instruction that is begun in `r`, in order. -/
def Descriptor.footprint (d : Descriptor) (opcode : Byte) (r : Registers) (f : Found) (g : Given) :
    List Access :=
  .read r.pc opcode ::
    (d.mode.reads r.fetched f ++
      d.operation.accesses (r.past d.mode) (d.mode.operand r.fetched f) g)

/-! ## How many there are -/

/-- How many reads finding an operand takes. -/
def Mode.readCount : Mode → Nat
  | .implied | .immediate => 0
  | .zeroPage | .zeroPageX | .zeroPageY | .relative => 1
  | .absolute | .absoluteX | .absoluteY => 2
  | .indirectX | .indirectY => 3
  | .indirect => 4

/-- Whether a mode finds its operand in memory. -/
def Mode.inMemory : Mode → Bool
  | .implied => false
  | _ => true

/-- How many accesses an operation makes, by whether its operand is in memory. -/
def Operation.accessCount (inMemory : Bool) : Operation → Nat
  | .lda | .ldx | .ldy | .adc | .sbc | .and | .ora | .eor | .bit | .cmp | .cpx | .cpy
  | .sta | .stx | .sty => inMemory.toNat
  | .asl | .lsr | .rol | .ror | .inc | .dec => 3 * inMemory.toNat
  | .pha | .php | .pla | .plp => 1
  | .jsr | .rts => 2
  | .rti => 3
  | .brk => 5
  | _ => 0

/-- Addressing makes as many reads as its mode counts. -/
theorem length_reads (mode : Mode) (r : Registers) (f : Found) :
    (mode.reads r f).length = mode.readCount := by
  cases mode <;> rfl

theorem inMemory_operand (mode : Mode) (r : Registers) (f : Found) :
    (mode.operand r f).inMemory = mode.inMemory := by
  cases mode <;> rfl

/-- An operation makes as many accesses as it counts for such an operand. -/
theorem length_accesses (op : Operation) (r : Registers) (o : Operand) (g : Given) :
    (op.accesses r o g).length = op.accessCount o.inMemory := by
  cases o <;> cases op <;> rfl

/-- How many accesses an instruction makes. -/
def Descriptor.accessCount (d : Descriptor) : Nat :=
  d.mode.readCount + d.operation.accessCount d.mode.inMemory + 1

/-- An instruction makes as many accesses as its descriptor counts. -/
theorem length_footprint (d : Descriptor) (opcode : Byte) (r : Registers) (f : Found) (g : Given) :
    (d.footprint opcode r f g).length = d.accessCount := by
  rw [Descriptor.footprint, List.length_cons, List.length_append, length_reads, length_accesses,
    inMemory_operand]
  rfl

/-- No opcode has more accesses than cycles. -/
theorem Opcode.accessCount_le (opcode : Byte) :
    (decode opcode).accessCount ≤ (decode opcode).cycles :=
  decode_of_forall (P := fun d => d.accessCount ≤ d.cycles) (by decide +kernel)
    (fun mode => by cases mode <;> decide) opcode

/-! ## Where they are -/

/-- The address of an access. -/
def Access.address : Access → Word
  | .read a _ => a
  | .write a _ => a

/-- How many of the accesses of an operation, from the first on, are pushes or pulls. -/
def Operation.transfers : Operation → Nat
  | .pha | .php | .pla | .plp => 1
  | .jsr | .rts => 2
  | .rti | .brk => 3
  | _ => 0

/-- The accesses that move something on the stack are the first ones, and in the stack page. -/
theorem address_transfer (op : Operation) (r : Registers) (o : Operand) (g : Given) :
    ∀ x ∈ (op.accesses r o g).take op.transfers, ∃ s, x.address = stackSlot s := by
  cases op with
  | pha | php | pla | plp =>
      exact List.forall_mem_singleton.mpr ⟨_, rfl⟩
  | jsr | rts =>
      exact List.forall_mem_cons.mpr ⟨⟨_, rfl⟩, List.forall_mem_singleton.mpr ⟨_, rfl⟩⟩
  | rti | brk =>
      exact List.forall_mem_cons.mpr ⟨⟨_, rfl⟩, List.forall_mem_cons.mpr
        ⟨⟨_, rfl⟩, List.forall_mem_singleton.mpr ⟨_, rfl⟩⟩⟩
  | _ => exact fun _ none => nomatch none

/-! ## What each move does to the bus -/

namespace Machine

open Monitor (Sees sees_read sees_write)

variable {β : Type}

theorem bus_jump (m : Machine β) (pc : Word) : (m.jump pc).bus = m.bus := rfl

variable [Bus β]

theorem sees_fetch (m : Machine (Monitor β)) :
    Sees m.bus m.fetch.2.bus [.read m.regs.pc m.fetch.1] :=
  sees_read m.bus m.regs.pc

/-- Fetching a word reads the two bytes at the program counter, in order. -/
theorem sees_fetchWord (m : Machine (Monitor β)) :
    Sees m.bus m.fetchWord.2.bus
      [.read m.regs.pc m.fetch.1, .read (m.regs.pc + 1) m.fetch.2.fetch.1] :=
  (sees_fetch m).trans (sees_fetch m.fetch.2)

theorem sees_readPair (m : Machine (Monitor β)) (lo hi : Word) :
    Sees m.bus (m.readPair lo hi).2.bus
      [.read lo (m.read lo).1, .read hi ((m.read lo).2.read hi).1] :=
  (sees_read m.bus lo).trans (sees_read (m.read lo).2.bus hi)

theorem sees_push (m : Machine (Monitor β)) (b : Byte) :
    Sees m.bus (m.push b).bus [.write (stackSlot m.regs.s) b] :=
  sees_write m.bus (stackSlot m.regs.s) b

/-- Pushing a word writes its high byte first, one slot above the low one. -/
theorem sees_pushWord (m : Machine (Monitor β)) (w : Word) :
    Sees m.bus (m.pushWord w).bus
      [.write (stackSlot m.regs.s) (Word.high w), .write (stackSlot (m.regs.s - 1)) (Word.low w)] :=
  (sees_push m (Word.high w)).trans (sees_push (m.push (Word.high w)) (Word.low w))

theorem sees_pull (m : Machine (Monitor β)) :
    Sees m.bus m.pull.2.bus [.read (stackSlot (m.regs.s + 1)) m.pull.1] :=
  sees_read m.bus (stackSlot (m.regs.s + 1))

/-- Pulling a word reads its low byte first, one slot below the high one. -/
theorem sees_pullWord (m : Machine (Monitor β)) :
    Sees m.bus m.pullWord.2.bus
      [.read (stackSlot (m.regs.s + 1)) m.pull.1,
        .read (stackSlot (m.regs.s + 2)) m.pull.2.pull.1] := by
  rw [← add_one_add_one]
  exact (sees_pull m).trans (sees_pull m.pull.2)

/-- Entering a service routine writes a frame of three bytes and then reads the vector. -/
theorem sees_enterService (m : Machine (Monitor β)) (back vector : Word) (software : Bool) :
    ∃ low high, Sees m.bus (m.enterService back vector software).bus
      [.write (stackSlot m.regs.s) (Word.high back),
        .write (stackSlot (m.regs.s - 1)) (Word.low back),
        .write (stackSlot (m.regs.s - 2)) (m.regs.p.pushed software),
        .read vector low, .read (vector + 1) high] := by
  rw [← sub_one_sub_one]
  have pushed := (sees_pushWord m back).trans
    (sees_push (m.pushWord back) (m.regs.p.pushed software))
  exact ⟨_, _, pushed.trans (sees_readPair ((m.pushWord back).push _) vector (vector + 1))⟩

/-- Loading an operand reads it once if it is in memory. -/
theorem sees_loadOperand (m : Machine (Monitor β)) (o : Operand) :
    Sees m.bus (m.loadOperand o).2.bus (o.readOnce (m.loadOperand o).1) := by
  cases o with
  | accumulator => exact Sees.refl m.bus
  | address a => exact sees_read m.bus a

/-- Storing an operand writes it once if it is in memory. -/
theorem sees_storeOperand (m : Machine (Monitor β)) (b : Byte) (o : Operand) :
    Sees m.bus (m.storeOperand b o).bus (o.writtenOnce b) := by
  cases o with
  | accumulator => exact Sees.refl m.bus
  | address a => exact sees_write m.bus a b

/-- Modifying an operand in memory reads it and writes the result, with nothing between. -/
theorem sees_modifyOperand (f : Byte → Status → Alu.Outcome) (m : Machine (Monitor β))
    (o : Operand) :
    Sees m.bus (m.modifyOperand f o).bus
      (o.rewritten (m.loadOperand o).1 (f (m.loadOperand o).1 m.regs.p).value) := by
  cases o with
  | accumulator => exact Sees.refl m.bus
  | address a =>
      have old := (sees_read m.bus a).trans (sees_write (m.read a).2.bus a (m.read a).1)
      exact old.trans (sees_write _ a (f (m.read a).1 m.regs.p).value)

/-- A branch makes no access, taken or not. -/
theorem sees_branch (m : Machine (Monitor β)) (o : Operand) (taken : Bool) :
    Sees m.bus (m.branch o taken).2.bus [] := by
  cases taken with
  | false => exact Sees.refl m.bus
  | true => exact Sees.refl m.bus

/-! ## What an instruction does to it -/

/-- Finding an operand makes the accesses of its mode, and finds what they say. -/
theorem sees_resolve (mode : Mode) (m : Machine (Monitor β)) :
    ∃ f, Sees m.bus (m.resolve mode).2.bus (mode.reads m.regs f) ∧
      (m.resolve mode).1 = ⟨mode.operand m.regs f, (mode.crosses m.regs f).toNat⟩ := by
  cases mode with
  | implied | immediate => exact ⟨⟨0, 0, 0, 0⟩, Sees.refl m.bus, rfl⟩
  | zeroPage | zeroPageX | zeroPageY | relative =>
      exact ⟨⟨m.fetch.1, 0, 0, 0⟩, sees_fetch m, rfl⟩
  | absolute => exact ⟨⟨m.fetch.1, m.fetch.2.fetch.1, 0, 0⟩, sees_fetchWord m, rfl⟩
  | absoluteX =>
      have found := Mode.indexed_eq m.fetch.1 m.fetch.2.fetch.1 m.regs.x
      exact ⟨⟨m.fetch.1, m.fetch.2.fetch.1, 0, 0⟩, sees_fetchWord m, found⟩
  | absoluteY =>
      have found := Mode.indexed_eq m.fetch.1 m.fetch.2.fetch.1 m.regs.y
      exact ⟨⟨m.fetch.1, m.fetch.2.fetch.1, 0, 0⟩, sees_fetchWord m, found⟩
  | indirect =>
      -- the second byte of the pointer is in the page of the first
      have next : nextInPage m.fetchWord.1 = .ofBytes (m.fetch.1 + 1) m.fetch.2.fetch.1 := by
        show nextInPage (.ofBytes m.fetch.1 m.fetch.2.fetch.1) = _
        rw [nextInPage, Word.low_ofBytes, Word.high_ofBytes]
      have pointer := sees_readPair m.fetchWord.2 m.fetchWord.1 (nextInPage m.fetchWord.1)
      refine ⟨⟨m.fetch.1, m.fetch.2.fetch.1, _, _⟩, (sees_fetchWord m).trans ?_, rfl⟩
      rw [← next]
      exact pointer
  | indirectX =>
      exact ⟨⟨m.fetch.1, 0, _, _⟩, (sees_fetch m).trans (sees_readPair m.fetch.2 _ _), rfl⟩
  | indirectY =>
      have found := fun low high => Mode.indexed_eq low high m.regs.y
      exact ⟨⟨m.fetch.1, 0, _, _⟩, (sees_fetch m).trans (sees_readPair m.fetch.2 _ _), found _ _⟩

/-- Running an operation makes its accesses. -/
theorem sees_execute (bcd : Bool) (op : Operation) (o : Operand) (m : Machine (Monitor β)) :
    ∃ g, Sees m.bus (m.execute bcd op o).2.bus (op.accesses m.regs o g) := by
  cases op with
  | lda | ldx | ldy | adc | sbc | and | ora | eor | bit | cmp | cpx | cpy =>
      exact ⟨⟨(m.loadOperand o).1, 0, 0⟩, sees_loadOperand m o⟩
  | sta | stx | sty => exact ⟨⟨0, 0, 0⟩, sees_storeOperand m _ o⟩
  | asl | lsr | rol | ror | inc | dec =>
      exact ⟨⟨(m.loadOperand o).1, 0, 0⟩, sees_modifyOperand _ m o⟩
  | pha | php => exact ⟨⟨0, 0, 0⟩, sees_push m _⟩
  | pla | plp => exact ⟨⟨m.pull.1, 0, 0⟩, sees_pull m⟩
  | jsr =>
      refine ⟨⟨0, 0, 0⟩, ?_⟩
      show Sees m.bus ((m.pushWord (m.regs.pc - 1)).jump (m.target o)).bus _
      rw [bus_jump]
      exact sees_pushWord m (m.regs.pc - 1)
  | rts => exact ⟨⟨_, _, 0⟩, sees_pullWord m⟩
  | rti =>
      -- P is pulled first, so the word is one slot further up
      have back := sees_pullWord m.pull.2
      have second : m.pull.2.regs.s + 1 = m.regs.s + 2 := add_one_add_one m.regs.s
      have third : m.pull.2.regs.s + 2 = m.regs.s + 3 := BitVec.add_assoc m.regs.s 1 2
      rw [second, third] at back
      exact ⟨⟨_, _, _⟩, (sees_pull m).trans back⟩
  | brk =>
      obtain ⟨low, high, entered⟩ := sees_enterService m (m.regs.pc + 1) irqVector true
      exact ⟨⟨low, high, 0⟩, entered⟩
  | bcc | bcs | beq | bmi | bne | bpl | bvc | bvs => exact ⟨⟨0, 0, 0⟩, sees_branch m o _⟩
  | _ => exact ⟨⟨0, 0, 0⟩, Sees.refl m.bus⟩

/-- An instruction, from the fetch of its opcode on, makes its footprint. -/
theorem sees_runDecoded (bcd : Bool) (m : Machine (Monitor β)) :
    let d := Opcode.decode m.fetchOpcode.1
    ∃ f g, Sees m.bus (m.fetchOpcode.2.runDecoded bcd d).2.bus
      (d.footprint m.fetchOpcode.1 m.regs f g) := by
  intro d
  obtain ⟨f, reads, found⟩ := sees_resolve d.mode m.fetchOpcode.2
  obtain ⟨g, accesses⟩ := sees_execute bcd d.operation
    (m.fetchOpcode.2.resolve d.mode).1.operand (m.fetchOpcode.2.resolve d.mode).2
  have regs : (m.fetchOpcode.2.resolve d.mode).2.regs = m.regs.past d.mode :=
    regs_resolve d.mode m.fetchOpcode.2
  refine ⟨f, g, (sees_fetch m).trans (reads.trans ?_)⟩
  have operand : (m.fetchOpcode.2.resolve d.mode).1.operand = d.mode.operand m.regs.fetched f :=
    congrArg Resolved.operand found
  rw [← regs]
  exact operand ▸ accesses

end Machine

namespace Processor

variable {β : Type} [Bus β]

/-- The instruction that is due at a boundary makes the accesses `as`, and no others. -/
structure MakesExactly (c : Processor (Monitor β)) (as : List Access) : Prop where
  /-- Its first tick makes them all, and the ticks that count it down make none. -/
  seen : ∀ n, 1 ≤ n → n ≤ c.begin.1 → (c.tickTimes n).bus.accesses = c.bus.accesses ++ as
  /-- They reach the bus behind the monitor, which gives each read its byte. -/
  replayed : replay c.bus.behind as = some c.tick.bus.behind
  withinCost : as.length ≤ c.begin.1

/-- Of the ticks of what is begun at a boundary, the first makes all the accesses. -/
theorem bus_tickTimes_of_boundary {c : Processor β} {n : Nat} (boundary : c.remaining = 0)
    (first : 1 ≤ n) (last : n ≤ c.begin.1) : (c.tickTimes n).bus = c.begin.2.bus := by
  obtain ⟨k, rfl⟩ : ∃ k, n = k + 1 := ⟨n - 1, (Nat.sub_add_cancel first).symm⟩
  have left : k ≤ c.tick.remaining := by
    rw [tick_of_boundary boundary]
    exact Nat.le_sub_of_add_le last
  show (c.tick.tickTimes k).bus = _
  rw [tickTimes_of_le left, tick_of_boundary boundary]
  rfl

/-- **Footprints are exact.**  On every bus, from every register file and for every opcode, an
    instruction makes the accesses of its footprint in order, each answered by the bus as it then
    is, and no others in all its ticks; they are no more than its cycles; its pushes and pulls are
    on the stack page; and a bus without the monitor goes through the same states. -/
theorem footprint_is_exact (c : Processor (Monitor β)) (boundary : c.remaining = 0)
    (turn : c.nextTurn = .instruction) :
    let opcode := (Bus.read c.bus.behind c.regs.pc).1
    (∃ f g, c.MakesExactly ((Opcode.decode opcode).footprint opcode c.regs f g)) ∧
      (∀ (op : Operation) (r : Registers) (o : Operand) (g : Given),
        ∀ x ∈ (op.accesses r o g).take op.transfers,
          0x100 ≤ x.address.toNat ∧ x.address.toNat ≤ 0x1FF) ∧
      ∀ n, (c.tickTimes n).unmonitored = c.unmonitored.tickTimes n := by
  intro opcode
  refine ⟨?_, ?_, fun n => unmonitored_tickTimes n c⟩
  · obtain ⟨f, g, sees⟩ := Machine.sees_runDecoded c.config.variant.hasDecimal c.toMachine
    have due : c.begin.2.bus = (c.toMachine.fetchOpcode.2.runDecoded
        c.config.variant.hasDecimal (Opcode.decode opcode)).2.bus := by
      rw [begin_of_instruction turn]
      rfl
    have ticks : ∀ n, 1 ≤ n → n ≤ c.begin.1 → (c.tickTimes n).bus = _ :=
      fun n first last => (bus_tickTimes_of_boundary boundary first last).trans due
    refine ⟨f, g, ⟨?_, ?_, ?_⟩⟩
    · intro n first last
      rw [ticks n first last]
      exact sees.seen
    · have one : c.tick.bus = _ :=
        ticks 1 (Nat.le_refl 1) (Nat.le_of_succ_le (begin_cost_range c).1)
      rw [one]
      exact sees.replayed
    · rw [length_footprint, begin_of_instruction turn]
      exact Nat.le_trans (Opcode.accessCount_le opcode) (Machine.cost_runDecoded_range _ _ _).1
  · intro op r o g x transfer
    obtain ⟨s, slot⟩ := address_transfer op r o g x transfer
    have inPage := s.isLt
    rw [slot, toNat_stackSlot]
    omega

/-- A processor at an increment of a cell that counts its reads. -/
def atCountedCell : Processor (Monitor (CounterCell Ram)) :=
  powerOn (.attach ⟨(Ram.blank 3).load 0 [0xEE#8, 0x00#8, 0xD0#8], some 0xD000#16, 7⟩) {}

/-- The cell is read once and written twice, and so counts up from what was written last. -/
theorem footprint_is_exact_counted :
    atCountedCell.remaining = 0 ∧ atCountedCell.nextTurn = .instruction ∧
      (∃ f g, atCountedCell.MakesExactly
        ((Opcode.decode 0xEE#8).footprint 0xEE#8 atCountedCell.regs f g)) ∧
      (atCountedCell.tickTimes 6).bus.accesses = atCountedCell.bus.accesses ++
        [.read 0x0000#16 0xEE#8, .read 0x0001#16 0x00#8, .read 0x0002#16 0xD0#8,
          .read 0xD000#16 7#8, .write 0xD000#16 7#8, .write 0xD000#16 8#8] := by
  have boundary : atCountedCell.remaining = 0 := rfl
  have turn : atCountedCell.nextTurn = .instruction := by decide
  have opcode : (Bus.read atCountedCell.bus.behind atCountedCell.regs.pc).1 = 0xEE#8 := by decide
  obtain ⟨accesses, -, -⟩ := footprint_is_exact atCountedCell boundary turn
  rw [opcode] at accesses
  refine ⟨boundary, turn, accesses, ?_⟩
  decide

end Processor

end Micro6502
