import Micro6502.Proofs.Frame

/-! # Nesting — what is pushed comes back, at any depth

    A nest is a well-nested sequence of frames, with anything between their
    ends that keeps S and the live bytes: operations, fetches, whole
    instructions, a host's changes.  The route:

    * an operation that neither pushes nor pulls and has no live byte as its
      operand keeps what frames need (`Keeps.perform`);
    * by induction on the nest, a run that fits the stack page keeps S and
      the live bytes (`run_keeps`): an entry and its leaving cancel;
    * so each leaving finds what its entry left, at every depth
      (`matched_of_mem_passages`). -/

namespace Micro6502

/-! ## What may happen between -/

/-- A move keeps S, the `d` live bytes and the extent of memory. -/
structure Keeps (d : Nat) (m m' : Machine Ram) : Prop where
  mapped : m'.bus.mapped = m.bus.mapped
  stackPointer : m'.regs.s = m.regs.s
  live : ∀ a ∈ liveSlots m.regs.s d, m'.bus.peek a = m.bus.peek a

/-- Whether an effect pushes or pulls. -/
def Effect.usesStack : Effect → Bool
  | .call | .returnFromCall | .push _ | .pull _ | .softwareBreak | .returnFromInterrupt => true
  | _ => false

/-- A store keeps the live bytes, if it goes elsewhere. -/
theorem Keeps.write {d : Nat} {m : Machine Ram} {a : Word} (h : a ∉ liveSlots m.regs.s d)
    (b : Byte) : Keeps d m (m.write a b) where
  mapped := Ram.mapped_write ..
  stackPointer := rfl
  live x hx := by
    show (m.bus.write a b).peek x = _
    rw [Ram.peek_write, if_neg]
    rintro ⟨rfl, -⟩
    exact h hx

/-- What keeps the live bytes twice in a row keeps them. -/
theorem Keeps.trans {d : Nat} {m m' m'' : Machine Ram} (h : Keeps d m m') (h' : Keeps d m' m'') :
    Keeps d m m'' where
  mapped := h'.mapped.trans h.mapped
  stackPointer := h'.stackPointer.trans h.stackPointer
  live a ha := (h'.live a (h.stackPointer ▸ ha)).trans (h.live a ha)

/-- What changes neither the bus nor S keeps the live bytes. -/
theorem Keeps.of_bus_eq {d : Nat} {m m' : Machine Ram} (hb : m'.bus = m.bus)
    (hs : m'.regs.s = m.regs.s) : Keeps d m m' :=
  ⟨by rw [hb], hs, fun a _ => by rw [hb]⟩

theorem Keeps.refl (d : Nat) (m : Machine Ram) : Keeps d m m :=
  .of_bus_eq rfl rfl

/-- An effect that neither pushes nor pulls, keeps S and has no live byte as its operand keeps all
    that a frame needs. -/
theorem Keeps.perform {d : Nat} {m : Machine Ram} {e : Effect} {o : Operand}
    (quiet : e.usesStack = false) (hs : (m.perform e o).2.regs.s = m.regs.s)
    (elsewhere : ∀ a, o = .address a → a ∉ liveSlots m.regs.s d) :
    Keeps d m (m.perform e o).2 := by
  cases e with
  | load f => cases o <;> exact .of_bus_eq rfl hs
  | store f =>
      cases o with
      | accumulator => exact .of_bus_eq rfl hs
      | address a => exact .write (elsewhere a rfl) _
  | modify f =>
      cases o with
      | accumulator => exact .of_bus_eq rfl hs
      | address a =>
          -- the byte read is written back, and then the result
          have away := elsewhere a rfl
          have back : Keeps d m (m.write a (m.bus.peek a)) := .write away _
          have flags : Keeps d (m.write a (m.bus.peek a)) ((m.write a (m.bus.peek a)).mapRegs
              fun r => { r with p := (f (m.bus.peek a) m.regs.p).status }) := .of_bus_eq rfl rfl
          refine (back.trans flags).trans ?_
          exact Keeps.write (m := Machine.mapRegs _ _) away _
  | internal f => exact .of_bus_eq rfl hs
  | branch flag wanted =>
      refine .of_bus_eq ?_ hs
      show (m.branch o _).2.bus = _
      rw [Machine.branch]
      split <;> rfl
  | jump => exact .of_bus_eq rfl hs
  | call => exact nomatch quiet
  | returnFromCall => exact nomatch quiet
  | push f => exact nomatch quiet
  | pull f => exact nomatch quiet
  | softwareBreak => exact nomatch quiet
  | returnFromInterrupt => exact nomatch quiet

theorem Keeps.liveBytes {d : Nat} {m m' : Machine Ram} (h : Keeps d m m') :
    m'.liveBytes d = m.liveBytes d :=
  Machine.liveBytes_congr h.stackPointer h.live

/-- Where S, what is mapped and the live bytes are the same, they are kept. -/
theorem Keeps.of_liveBytes {d : Nat} {m m' : Machine Ram} (hm : m'.bus.mapped = m.bus.mapped)
    (hs : m'.regs.s = m.regs.s) (h : m'.liveBytes d = m.liveBytes d) : Keeps d m m' := by
  refine ⟨hm, hs, ?_⟩
  rw [Machine.liveBytes, Machine.liveBytes, hs] at h
  exact List.map_inj_left.mp h

/-! ## Nests and their runs -/

/-- A well-nested sequence. -/
inductive Nest where
  | done
  /-- A move between the ends of frames. -/
  | other (move : Machine Ram → Machine Ram) (rest : Nest)
  /-- A frame, with what happens while it is there and what happens after. -/
  | frame (f : Frame) (body rest : Nest)

/-- A frame of a run: the machine around its entry and around its leaving. -/
structure Passage where
  frame : Frame
  before : Machine Ram
  entered : Machine Ram
  leaving : Machine Ram
  after : Machine Ram

/-- A frame came back as it should: what it saved is restored, S is where it was, and neither its
    entry nor its leaving changed memory off the stack page. -/
structure Passage.Matched (p : Passage) : Prop where
  restores : p.frame.Restores p.before.regs p.after.regs
  stackPointer : p.after.regs.s = p.before.regs.s
  entry : ∀ a, OffStackPage a → p.entered.bus.peek a = p.before.bus.peek a
  leaving : ∀ a, p.after.bus.peek a = p.leaving.bus.peek a

namespace Nest

variable (bcd : Bool)

/-- The machine after a nest. -/
def run : Nest → Machine Ram → Machine Ram
  | .done, m => m
  | .other move rest, m => rest.run (move m)
  | .frame f body rest, m => rest.run (f.leave bcd (body.run (f.enter bcd m)))

/-- The frames of a run, each before those inside it. -/
def passages : Nest → Machine Ram → List Passage
  | .done, _ => []
  | .other move rest, m => rest.passages (move m)
  | .frame f body rest, m =>
      let entered := f.enter bcd m
      let leaving := body.run bcd entered
      let after := f.leave bcd leaving
      ⟨f, m, entered, leaving, after⟩ :: (body.passages entered ++ rest.passages after)

/-- A nest fits a stack with `d` live bytes: its moves keep S and the bytes that are live when they
    are made, and never are there more than the page has slots. -/
def Fits : Nest → (d : Nat) → Machine Ram → Prop
  | .done, _, _ => True
  | .other move rest, d, m => Keeps d m (move m) ∧ rest.Fits d (move m)
  | .frame f body rest, d, m =>
      d + f.size ≤ 0x100 ∧ body.Fits (d + f.size) (f.enter bcd m) ∧
        rest.Fits d (f.leave bcd (body.run bcd (f.enter bcd m)))

variable {bcd}

/-- What is left after a body that kept the bytes of its frame: below them nothing has moved, and
    what they saved is restored. -/
theorem keeps_leave {d : Nat} {m body : Machine Ram} {f : Frame}
    (full : m.bus.mapped = 0x10000) (room : d + f.size ≤ 0x100)
    (inside : Keeps (d + f.size) (f.enter bcd m) body) :
    Keeps d m (f.leave bcd body) ∧ f.Restores m.regs (f.leave bcd body).regs := by
  -- the body kept what the entry pushed, so the leaving finds it
  have found : body.liveBytes (d + f.size) = f.bytes m.regs ++ m.liveBytes d := by
    rw [inside.liveBytes, Frame.liveBytes_enter bcd full f room]
  obtain ⟨kept, restored⟩ := Frame.leave_of_liveBytes bcd found
  refine ⟨.of_liveBytes ?_ ?_ kept, restored⟩
  · rw [Frame.bus_leave, inside.mapped, Frame.mapped_enter]
  · rw [Frame.s_leave, inside.stackPointer, Frame.s_enter]
    exact BitVec.sub_add_cancel _ _

/-- A run that fits keeps S and the live bytes: its frames cancel. -/
theorem run_keeps {n : Nest} {d : Nat} {m : Machine Ram} (full : m.bus.mapped = 0x10000)
    (fits : n.Fits bcd d m) : Keeps d m (n.run bcd m) := by
  induction n generalizing d m with
  | done => exact .refl d m
  | other move rest ih =>
      obtain ⟨kept, fitsRest⟩ := fits
      exact kept.trans (ih (kept.mapped.trans full) fitsRest)
  | frame f body rest ihBody ihRest =>
      obtain ⟨room, fitsBody, fitsRest⟩ := fits
      have inside := ihBody ((Frame.mapped_enter bcd m f).trans full) fitsBody
      obtain ⟨kept, -⟩ := keeps_leave full room inside
      exact kept.trans (ihRest (kept.mapped.trans full) fitsRest)

/-- Every frame of a run that fits comes back as it should. -/
theorem matched_of_mem_passages {n : Nest} {d : Nat} {m : Machine Ram}
    (full : m.bus.mapped = 0x10000) (fits : n.Fits bcd d m) {p : Passage}
    (hp : p ∈ n.passages bcd m) : p.Matched := by
  induction n generalizing d m with
  | done => exact nomatch hp
  | other move rest ih =>
      obtain ⟨kept, fitsRest⟩ := fits
      exact ih (kept.mapped.trans full) fitsRest hp
  | frame f body rest ihBody ihRest =>
      obtain ⟨room, fitsBody, fitsRest⟩ := fits
      have fullBody := (Frame.mapped_enter bcd m f).trans full
      obtain ⟨kept, restored⟩ := keeps_leave full room (run_keeps fullBody fitsBody)
      rcases List.mem_cons.mp hp with rfl | inner
      · refine ⟨restored, kept.stackPointer, ?_, ?_⟩
        · exact fun a ha => Frame.peek_enter_of_off bcd full f ha
        · exact fun a => by rw [Frame.bus_leave]
      · rcases List.mem_append.mp inner with inBody | inRest
        · exact ihBody fullBody fitsBody inBody
        · exact ihRest (kept.mapped.trans full) fitsRest inRest

variable (bcd)

/-- **Stack discipline.**  From every register file and memory, in every nest that never has more
    than 256 bytes live and otherwise moves neither S nor a live byte, each PLA brings back the
    accumulator, each PLP and RTI the status register but for `brk`, each RTS and RTI the program
    counter; S ends where it started, and the ends of frames change no memory off the stack
    page. -/
theorem nest_restores (n : Nest) (m : Machine Ram) (full : m.bus.mapped = 0x10000)
    (fits : n.Fits bcd 0 m) :
    (n.run bcd m).regs.s = m.regs.s ∧ ∀ p ∈ n.passages bcd m, p.Matched :=
  ⟨(run_keeps full fits).stackPointer, fun _ hp => matched_of_mem_passages full fits hp⟩

/-- A subroutine that saves the accumulator around a load, and then an interrupt. -/
def savingCall : Nest :=
  .frame (.call 0x1234#16)
    (.frame .accumulator (.other (fun m => (m.execute true .lda (.address 0x0200#16)).2) .done)
      .done)
    (.frame (.interrupt .irq) .done .done)

/-- A machine whose stack is about to wrap. -/
def nearWrap : Machine Ram :=
  ⟨{ Registers.new with a := 0x42#8, s := 0x01#8, pc := 0x8003#16 }, .full⟩

/-- From S at one, the accumulator saved and the bytes of the interrupt wrap inside the page. -/
theorem nest_restores_savingCall :
    nearWrap.bus.mapped = 0x10000 ∧ savingCall.Fits true 0 nearWrap ∧
      (savingCall.run true nearWrap).regs.s = 0x01#8 ∧
      ∀ p ∈ savingCall.passages true nearWrap, p.Matched := by
  have full : nearWrap.bus.mapped = 0x10000 := Ram.mapped_blank 0x10000
  have off : OffStackPage 0x0200#16 := Or.inr (by decide)
  have stays (m : Machine Ram) :
      (m.execute true .lda (.address 0x0200#16)).2.regs.s = m.regs.s := rfl
  have fits : savingCall.Fits true 0 nearWrap := by
    refine ⟨by decide, ⟨by decide, ⟨?_, trivial⟩, trivial⟩, by decide, trivial, trivial⟩
    refine Keeps.perform rfl (stays _) ?_
    rintro a ⟨⟩
    exact off.notMem_liveSlots _ _
  exact ⟨full, fits, nest_restores true savingCall nearWrap full fits⟩

end Nest

end Micro6502
