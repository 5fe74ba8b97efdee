import Micro6502.Bus.Ram
import Micro6502.Proofs.FlagFrame
import Micro6502.Proofs.Ledger
import Micro6502.Proofs.StatusByte

/-! # Snapshots — when registers loaded back are the ones that were taken

    P reads with `unused` set, and a value of P is whole if the bit is stored
    as it reads.  Loading a snapshot stores it so; hence registers that are
    taken and loaded back are the same where P was whole, and only there
    (`Status.isWhole_iff`).  The route:

    * every fetch of an opcode leaves P whole, and what an instruction does
      after it keeps it so (`isWhole_instruction`);
    * an entry to a service routine stores the bit as it was, so a tick
      makes P whole where it fetches (`isWhole_tick`);
    * of all that a host does, one thing leaves P less than whole: to clear
      `unused` (`not_isWhole_apply_iff`).  So whether it is whole after a
      run is settled by what came after the last clearing
      (`not_isWhole_applyAll_iff`). -/

namespace Micro6502

/-! ## Values of P that are stored as they read -/

namespace Status

/-- P stores the bit of `unused` as it reads. -/
def IsWhole (p : Status) : Prop :=
  p.raw.getLsbD Flag.unused.bit = true

instance (p : Status) : Decidable p.IsWhole :=
  inferInstanceAs (Decidable (_ = _))

/-- P loaded with a byte stores the bits of that byte, and that of `unused` always. -/
theorem getLsbD_raw_ofByte (b : Byte) (f : Flag) :
    (ofByte b).raw.getLsbD f.bit = (b.getLsbD f.bit || decide (f = .unused)) := by
  show (b ||| Flag.unused.mask).getLsbD f.bit = _
  rw [BitVec.getLsbD_or, Flag.getLsbD_mask]

theorem isWhole_ofByte (b : Byte) : (ofByte b).IsWhole := by
  rw [IsWhole, getLsbD_raw_ofByte]
  simp

theorem isWhole_pulled (b : Byte) : (pulled b).IsWhole := by
  show ((ofByte b).raw &&& ~~~Flag.brk.mask).getLsbD Flag.unused.bit = true
  rw [getLsbD_and_not_mask, isWhole_ofByte b]
  rfl

/-- Writing `unused` decides whether P is whole, and writing another flag leaves that as it was. -/
theorem isWhole_set (p : Status) (f : Flag) (v : Bool) :
    (p.set f v).IsWhole ↔ if f = .unused then v = true else p.IsWhole := by
  rw [IsWhole, getLsbD_raw_set]
  by_cases flag : f = .unused
  · rw [if_pos flag.symm, if_pos flag]
  · rw [if_neg (Ne.symm flag), if_neg flag]
    exact Iff.rfl

/-- P is whole where loading it with what it reads as changes nothing. -/
theorem isWhole_iff (p : Status) : p.IsWhole ↔ ofByte p.bits = p := by
  constructor
  · intro whole
    have raw : (ofByte p.bits).raw = p.raw := by
      refine eq_of_flags fun f => ?_
      rw [getLsbD_raw_ofByte, getLsbD_bits, get_eq]
      by_cases flag : f = .unused
      · subst flag
        rw [whole]
        rfl
      · simp [flag]
    exact congrArg Status.mk raw
  · intro same
    rw [← same]
    exact isWhole_ofByte p.bits

end Status

namespace Machine

variable {β : Type} [Bus β]

/-- An operation keeps P whole. -/
theorem isWhole_execute {m : Machine β} (whole : m.regs.p.IsWhole) (bcd : Bool) (op : Operation)
    (o : Operand) : (m.execute bcd op o).2.regs.p.IsWhole := by
  have same := sameBut_execute bcd op o m .unused
  cases op with
  | plp | rti => exact Status.isWhole_pulled _
  | _ => exact (same (by decide)).trans whole

end Machine

/-! ## What a fetch and a host do to it -/

/-- An instruction is among what was begun. -/
def Entry.Fetched {β : Type} (l : List (Entry β)) : Prop :=
  ∃ s, .begun s ∈ l ∧ s.nextTurn = .instruction

/-- An instruction is among two lists where it is in one of them. -/
theorem Entry.fetched_append {β : Type} (l l' : List (Entry β)) :
    Fetched (l ++ l') ↔ Fetched l ∨ Fetched l' := by
  constructor
  · rintro ⟨s, begun, turn⟩
    rcases List.mem_append.mp begun with first | later
    · exact Or.inl ⟨s, first, turn⟩
    · exact Or.inr ⟨s, later, turn⟩
  · rintro (⟨s, begun, turn⟩ | ⟨s, begun, turn⟩)
    · exact ⟨s, List.mem_append_left _ begun, turn⟩
    · exact ⟨s, List.mem_append_right _ begun, turn⟩

theorem Entry.not_fetched_nil {β : Type} : ¬ Fetched ([] : List (Entry β)) := by
  rintro ⟨s, begun, -⟩
  exact List.not_mem_nil begun

namespace Command

variable {β : Type}

/-- Whether a command stores the bit of `unused` as it reads. -/
def makesWhole : Command β → Bool
  | .reset | .setRegisters _ => true
  | .setFlag f v => decide (f = .unused) && v
  | _ => false

/-- Whether a command clears `unused`. -/
def clearsUnused : Command β → Bool
  | .setFlag f v => decide (f = .unused) && !v
  | _ => false

/-- Only one command clears `unused`. -/
theorem eq_of_clearsUnused {cmd : Command β} (clears : cmd.clearsUnused = true) :
    cmd = .setFlag .unused false := by
  cases cmd with
  | setFlag f v =>
      obtain ⟨flag, off⟩ := Bool.and_eq_true_iff.mp clears
      rw [of_decide_eq_true flag, (Bool.not_eq_true' v).mp off]
  | _ => exact nomatch clears

end Command

namespace Processor

open Entry

variable {β : Type} [Bus β]

/-- An instruction leaves P whole, whatever it was before. -/
theorem isWhole_instruction (c : Processor β) : c.instruction.2.regs.p.IsWhole := by
  refine Machine.isWhole_execute ?_ _ _ _
  rw [Machine.regs_found]
  exact (Status.isWhole_set ..).mpr rfl

/-- After a tick P is whole where the tick began an instruction, or where it was whole before. -/
theorem isWhole_tick (c : Processor β) :
    c.tick.regs.p.IsWhole ↔ Fetched c.entered ∨ c.regs.p.IsWhole := by
  by_cases boundary : c.remaining = 0
  · rw [tick_of_boundary boundary, entered, if_pos boundary]
    cases turn : c.nextTurn with
    | service kind =>
        have none : ¬ Fetched [.begun c] := by
          rintro ⟨s, begun, fetch⟩
          obtain rfl := Entry.begun.inj (List.mem_singleton.mp begun)
          exact absurd (turn.symm.trans fetch) (by simp)
        rw [begin_of_service turn, or_iff_right none]
        exact Status.isWhole_set c.regs.p .interruptDisable true
    | instruction =>
        rw [begin_of_instruction turn]
        exact iff_of_true (isWhole_instruction c) (Or.inl ⟨c, List.mem_singleton_self _, turn⟩)
  · rw [tick_of_busy (Nat.pos_of_ne_zero boundary), entered, if_neg boundary,
      or_iff_right not_fetched_nil]
    rfl

/-- After some ticks P is whole where one of them began an instruction, or where it was whole
    before. -/
theorem isWhole_tickTimes (n : Nat) (c : Processor β) :
    (c.tickTimes n).regs.p.IsWhole ↔ Fetched (c.enteredIn n) ∨ c.regs.p.IsWhole := by
  induction n generalizing c with
  | zero => exact (or_iff_right not_fetched_nil).symm
  | succ n ih =>
      show (c.tick.tickTimes n).regs.p.IsWhole ↔ _
      rw [ih, isWhole_tick, enteredIn, fetched_append, or_left_comm, or_assoc]

/-- After a command P is less than whole if the command cleared `unused`, or if P was so before and
    neither the command nor a fetch in it made it whole. -/
theorem not_isWhole_apply_iff (c : Processor β) (cmd : Command β) :
    ¬ (c.apply cmd).regs.p.IsWhole ↔
      cmd.clearsUnused = true ∨
        ¬ c.regs.p.IsWhole ∧ cmd.makesWhole = false ∧ ¬ Fetched (c.entries cmd) := by
  have ticks (n : Nat) : ¬ (c.tickTimes n).regs.p.IsWhole ↔
      false = true ∨ ¬ c.regs.p.IsWhole ∧ false = false ∧ ¬ Fetched (c.enteredIn n) := by
    rw [isWhole_tickTimes, not_or, or_iff_right Bool.false_ne_true, and_iff_right rfl, and_comm]
  have made {d : Processor β} (whole : d.regs.p.IsWhole) : ¬ d.regs.p.IsWhole ↔
      false = true ∨ ¬ c.regs.p.IsWhole ∧ true = false ∧ ¬ Fetched (c.entries cmd) := by
    simp [whole]
  cases cmd with
  | tick => exact ticks 1
  | advance t => exact ticks t.count
  | step => exact ticks c.step.1
  | request kind | alterBus f => exact ticks 0
  | reset => exact made (show Status.reset.IsWhole by decide)
  | setRegisters r => exact made (Status.isWhole_ofByte r.p.bits)
  | setFlag f v =>
      -- a command off the clock begins nothing
      have idle : ¬ Fetched (c.enteredIn 0) := not_fetched_nil
      refine (not_congr (Status.isWhole_set c.regs.p f v)).trans ?_
      show _ ↔ (decide (f = .unused) && !v) = true ∨
        ¬ c.regs.p.IsWhole ∧ (decide (f = .unused) && v) = false ∧ ¬ Fetched (c.enteredIn 0)
      rw [and_iff_left idle]
      by_cases flag : f = .unused
      · cases v <;> simp [flag]
      · simp [flag]

/-- Nothing in a run makes P whole. -/
def LeavesUnused (c : Processor β) (cmds : List (Command β)) : Prop :=
  (∀ cmd ∈ cmds, cmd.makesWhole = false) ∧ ¬ Fetched (c.ledger cmds)

/-- A run does not make P whole where its first command does not, nor what comes after it. -/
theorem leavesUnused_cons (c : Processor β) (cmd : Command β) (cmds : List (Command β)) :
    c.LeavesUnused (cmd :: cmds) ↔
      (cmd.makesWhole = false ∧ ¬ Fetched (c.entries cmd)) ∧ (c.apply cmd).LeavesUnused cmds := by
  rw [LeavesUnused, LeavesUnused, ledger, fetched_append, not_or, List.forall_mem_cons,
    and_and_and_comm]

/-- A run clears `unused`, and nothing in what follows makes P whole. -/
def EndsCleared (c : Processor β) (cmds : List (Command β)) : Prop :=
  ∃ before after, cmds = before ++ .setFlag .unused false :: after ∧
    ((c.applyAll before).setFlag .unused false).LeavesUnused after

/-- A run ends with `unused` cleared where its first command clears it for good, or the rest does.
    -/
theorem endsCleared_cons (c : Processor β) (cmd : Command β) (cmds : List (Command β)) :
    c.EndsCleared (cmd :: cmds) ↔
      cmd.clearsUnused = true ∧ (c.apply cmd).LeavesUnused cmds ∨
        (c.apply cmd).EndsCleared cmds := by
  constructor
  · rintro ⟨before, after, split, rest⟩
    cases before with
    | nil =>
        obtain ⟨rfl, rfl⟩ := List.cons.inj split
        exact Or.inl ⟨rfl, rest⟩
    | cons first before =>
        obtain ⟨rfl, rfl⟩ := List.cons.inj split
        exact Or.inr ⟨before, after, rfl, rest⟩
  · rintro (⟨clears, rest⟩ | ⟨before, after, rfl, rest⟩)
    · obtain rfl := Command.eq_of_clearsUnused clears
      exact ⟨[], cmds, rfl, rest⟩
    · exact ⟨cmd :: before, after, rfl, rest⟩

/-- After a run P is less than whole if it was and the run left it so, or if the run ends with it
    cleared. -/
theorem not_isWhole_applyAll_iff (c : Processor β) (cmds : List (Command β)) :
    ¬ (c.applyAll cmds).regs.p.IsWhole ↔
      ¬ c.regs.p.IsWhole ∧ c.LeavesUnused cmds ∨ c.EndsCleared cmds := by
  induction cmds generalizing c with
  | nil =>
      have untouched : c.LeavesUnused [] := ⟨nofun, not_fetched_nil⟩
      have ended : ¬ c.EndsCleared [] := by
        rintro ⟨before, after, split, -⟩
        exact absurd split.symm (List.append_ne_nil_of_right_ne_nil _ (List.cons_ne_nil _ _))
      rw [or_iff_left ended, and_iff_left untouched]
      rfl
  | cons cmd cmds ih =>
      show ¬ ((c.apply cmd).applyAll cmds).regs.p.IsWhole ↔ _
      rw [ih, not_isWhole_apply_iff, leavesUnused_cons, endsCleared_cons, or_and_right, and_assoc,
        or_assoc, or_left_comm]

/-- **Registers loaded back are those that were taken, unless `unused` is cleared.**  At the end of
    a run from power-on, loading the registers leaves them as they are exactly where P equals what
    it reads as, where it stores the bit of `unused`, and where the run has no clearing of `unused`
    after which nothing stored it again: no reset, no load of the registers, no setting of it and
    no fetch of an opcode.  What P reads as is kept in any case. -/
theorem snapshot_restores_iff (bus : β) (config : Config) (cmds : List (Command β)) :
    let start := powerOn bus config
    let c := start.applyAll cmds
    ((c.setRegisters c.regs).regs = c.regs ↔ ¬ start.EndsCleared cmds) ∧
      (c.regs.p = .ofByte c.regs.p.bits ↔ ¬ start.EndsCleared cmds) ∧
      (c.regs.p.raw.getLsbD Flag.unused.bit = true ↔ ¬ start.EndsCleared cmds) ∧
      (c.setRegisters c.regs).regs.p.bits = c.regs.p.bits := by
  intro start c
  have fresh : start.regs.p.IsWhole := show Status.reset.IsWhole by decide
  have whole : c.regs.p.IsWhole ↔ ¬ start.EndsCleared cmds := by
    have ends := not_isWhole_applyAll_iff start cmds
    rw [or_iff_right fun both => both.1 fresh] at ends
    rw [← ends, Decidable.not_not]
  have loaded : (c.setRegisters c.regs).regs = c.regs ↔ Status.ofByte c.regs.p.bits = c.regs.p := by
    constructor
    · intro same
      exact congrArg Registers.p same
    · intro same
      exact congrArg (fun p => { c.regs with p := p }) same
  refine ⟨?_, ?_, whole, Status.bits_ofByte_bits c.regs.p⟩
  · rw [loaded, ← Status.isWhole_iff, whole]
  · rw [eq_comm, ← Status.isWhole_iff, whole]

/-- A processor whose `unused` is cleared after its reset reads as before, but its registers loaded
    back are not those that were taken. -/
theorem snapshot_differs_once_cleared :
    let c := (powerOn (Ram.blank 0) {}).applyAll [.setFlag .unused false]
    c.regs.p.bits = 0x24#8 ∧ c.regs.p.raw = 0x04#8 ∧
      (c.setRegisters c.regs).regs.p.raw = 0x24#8 ∧ (c.setRegisters c.regs).regs ≠ c.regs := by
  decide

end Processor

end Micro6502
