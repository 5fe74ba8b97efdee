import Micro6502.Proofs.Ledger

/-! # Lock step — two runs under the same commands

    A statement about two runs is one about a relation that every step of
    them keeps.  `Lockstep` says what the relation has to keep up with: the
    count of cycles, what is begun at a boundary, and what a host does
    between ticks.  The route:

    * related processors are at a boundary together, so they stay related
      over a tick (`Lockstep.tick`) and over many (`Lockstep.tickTimes`);
    * so a command takes both as long and leaves them related
      (`Lockstep.apply`), and so does a run (`Lockstep.applyAll`).

    Where the relation holds on only under a condition, it is one on what
    the first processor begins, and the ledger of its run has all of that.
    An invariant of a single run is a lock step of the run with itself
    (`Maintained.applyAll`), and it is enough that it holds after something
    that the run begins (`Maintained.applyAll_of_begun`). -/

namespace Micro6502

variable {β : Type}

/-- Whether a command is one that makes ticks. -/
def Command.onClock : Command β → Bool
  | .tick | .advance _ | .step => true
  | _ => false

namespace Processor

/-- The processor after a cycle of something that has so many left. -/
def counted (left : Nat) (c : Processor β) : Processor β :=
  { c with remaining := left, elapsed := c.elapsed + 1 }

theorem begun_mem_entered {c : Processor β} (boundary : c.remaining = 0) :
    .begun c ∈ c.entered := by
  rw [entered, if_pos boundary]
  exact List.mem_singleton_self _

variable [Bus β]

/-- How many ticks each command of a run took, in order. -/
def costs (c : Processor β) : List (Command β) → List Nat
  | [] => []
  | cmd :: cmds => c.ticksOf cmd :: (c.apply cmd).costs cmds

/-- `R` is kept up by two processors under the same `allowed` commands, while all that the first
    begins is `fine`. -/
structure Lockstep (fine : Processor β → Prop) (allowed : Command β → Prop)
    (R : Processor β → Processor β → Prop) : Prop where
  remaining : ∀ {c c'}, R c c' → c'.remaining = c.remaining
  counted : ∀ {c c'} (left : Nat), R c c' → R (c.counted left) (c'.counted left)
  begin : ∀ {c c'}, R c c' → fine c → c'.begin.1 = c.begin.1 ∧ R c.begin.2 c'.begin.2
  host : ∀ {c c'} (cmd : Command β), cmd.onClock = false → allowed cmd → R c c' →
    R (c.apply cmd) (c'.apply cmd)

namespace Lockstep

variable {fine : Processor β → Prop} {allowed : Command β → Prop}
  {R : Processor β → Processor β → Prop} {c c' : Processor β}

/-- A tick of each keeps them related. -/
theorem tick (sim : Lockstep fine allowed R) (related : R c c')
    (begun : ∀ s, .begun s ∈ c.entered → fine s) : R c.tick c'.tick := by
  have same := sim.remaining related
  by_cases boundary : c.remaining = 0
  · obtain ⟨cost, due⟩ := sim.begin related (begun c (begun_mem_entered boundary))
    rw [tick_of_boundary boundary, tick_of_boundary (same.trans boundary), cost]
    exact sim.counted _ due
  · have busy : 0 < c.remaining := Nat.pos_of_ne_zero boundary
    have on := sim.counted (c.remaining - 1) related
    rw [tick_of_busy busy, tick_of_busy (same ▸ busy), countDown, countDown, same]
    exact on

/-- Ticks of each keep them related: by induction on how many, tick by tick. -/
theorem tickTimes (sim : Lockstep fine allowed R) (n : Nat) (related : R c c')
    (begun : ∀ s, .begun s ∈ c.enteredIn n → fine s) : R (c.tickTimes n) (c'.tickTimes n) := by
  induction n generalizing c c' with
  | zero => exact related
  | succ n ih =>
      have first := sim.tick related fun s here => begun s (List.mem_append_left _ here)
      exact ih first fun s later => begun s (List.mem_append_right _ later)

/-- A command takes both as long, and keeps them related. -/
theorem apply (sim : Lockstep fine allowed R) (cmd : Command β) (may : allowed cmd)
    (related : R c c') (begun : ∀ s, .begun s ∈ c.entries cmd → fine s) :
    c'.ticksOf cmd = c.ticksOf cmd ∧ R (c.apply cmd) (c'.apply cmd) := by
  cases cmd with
  | tick => exact ⟨rfl, sim.tickTimes 1 related begun⟩
  | advance t => exact ⟨rfl, sim.tickTimes t.count related begun⟩
  | step =>
      have first := sim.tick related fun s here => begun s (List.mem_append_left _ here)
      have cost : c'.step.1 = c.step.1 := congrArg (· + 1) (sim.remaining first)
      refine ⟨cost, ?_⟩
      show R (c.tickTimes c.step.1) (c'.tickTimes c'.step.1)
      rw [cost]
      exact sim.tickTimes c.step.1 related begun
  | _ => exact ⟨rfl, sim.host _ rfl may related⟩

/-- **Lock step holds over runs.**  Each command of a run takes both processors as long, and at the
    end they are related; every prefix of a run being a run, they are so at every point of it. -/
theorem applyAll (sim : Lockstep fine allowed R) (cmds : List (Command β))
    (may : ∀ cmd ∈ cmds, allowed cmd) (related : R c c')
    (begun : ∀ s, .begun s ∈ c.ledger cmds → fine s) :
    c'.costs cmds = c.costs cmds ∧ R (c.applyAll cmds) (c'.applyAll cmds) := by
  induction cmds generalizing c c' with
  | nil => exact ⟨rfl, related⟩
  | cons cmd cmds ih =>
      obtain ⟨cost, after⟩ := sim.apply cmd (may cmd (List.mem_cons_self ..)) related
        fun s here => begun s (List.mem_append_left _ here)
      obtain ⟨costs, final⟩ := ih (fun cmd later => may cmd (List.mem_cons_of_mem _ later)) after
        fun s later => begun s (List.mem_append_right _ later)
      refine ⟨?_, final⟩
      rw [Processor.costs, Processor.costs, cost, costs]

/-- Which of the two is first does not matter but for what is begun. -/
theorem flip {fine' : Processor β → Prop} (sim : Lockstep fine allowed R)
    (begin : ∀ {c c'}, R c c' → fine' c' → c'.begin.1 = c.begin.1 ∧ R c.begin.2 c'.begin.2) :
    Lockstep fine' allowed fun c' c => R c c' where
  remaining related := (sim.remaining related).symm
  counted left related := sim.counted left related
  begin related fine := ⟨(begin related fine).1.symm, (begin related fine).2⟩
  host cmd off may related := sim.host cmd off may related

end Lockstep

/-- `I` is kept up by a processor under `allowed` commands. -/
structure Maintained (allowed : Command β → Prop) (I : Processor β → Prop) : Prop where
  counted : ∀ {c} (left : Nat), I c → I (c.counted left)
  begin : ∀ {c}, I c → I c.begin.2
  host : ∀ {c} (cmd : Command β), cmd.onClock = false → allowed cmd → I c → I (c.apply cmd)

namespace Maintained

variable {allowed : Command β → Prop} {I : Processor β → Prop}

/-- What keeps up a property runs in lock step with itself. -/
theorem lockstep (inv : Maintained allowed I) :
    Lockstep (fun _ => True) allowed fun c c' => c' = c ∧ I c where
  remaining := by
    rintro c _ ⟨rfl, -⟩
    rfl
  counted := by
    rintro c _ left ⟨rfl, holds⟩
    exact ⟨rfl, inv.counted left holds⟩
  begin := by
    rintro c _ ⟨rfl, holds⟩ -
    exact ⟨rfl, rfl, inv.begin holds⟩
  host := by
    rintro c _ cmd off may ⟨rfl, holds⟩
    exact ⟨rfl, inv.host cmd off may holds⟩

/-- A property that is kept up holds after every run of allowed commands. -/
theorem applyAll (inv : Maintained allowed I) {c : Processor β} (cmds : List (Command β))
    (may : ∀ cmd ∈ cmds, allowed cmd) (holds : I c) : I (c.applyAll cmds) :=
  (inv.lockstep.applyAll cmds may ⟨rfl, holds⟩ fun _ _ => trivial).2.2

/-- A property that holds after something was begun holds at the end of the ticks that began it. -/
theorem tickTimes_of_begun (inv : Maintained allowed I) {c s : Processor β} (n : Nat)
    (begun : .begun s ∈ c.enteredIn n) (holds : I s.begin.2) : I (c.tickTimes n) := by
  induction n generalizing c with
  | zero => exact absurd begun List.not_mem_nil
  | succ n ih =>
      rcases List.mem_append.mp begun with here | later
      · rw [entered] at here
        split at here
        case isTrue boundary =>
            obtain rfl := Entry.begun.inj (List.mem_singleton.mp here)
            have ticked : I s.tick := by
              rw [tick_of_boundary boundary]
              exact inv.counted _ holds
            exact (inv.lockstep.tickTimes n ⟨rfl, ticked⟩ fun _ _ => trivial).2
        case isFalse => exact absurd here List.not_mem_nil
      · exact ih later

/-- What holds after something that was begun in a run holds at the end of the run. -/
theorem applyAll_of_begun (inv : Maintained allowed I) {c s : Processor β}
    (cmds : List (Command β)) (may : ∀ cmd ∈ cmds, allowed cmd)
    (begun : .begun s ∈ c.ledger cmds) (holds : I s.begin.2) : I (c.applyAll cmds) := by
  induction cmds generalizing c with
  | nil => exact absurd begun List.not_mem_nil
  | cons cmd cmds ih =>
      have rest : ∀ cmd ∈ cmds, allowed cmd := fun cmd later => may cmd (List.mem_cons_of_mem _ later)
      rcases List.mem_append.mp begun with here | later
      · refine inv.applyAll (c := c.apply cmd) cmds rest ?_
        cases cmd with
        | tick => exact inv.tickTimes_of_begun 1 here holds
        | advance t => exact inv.tickTimes_of_begun t.count here holds
        | step => exact inv.tickTimes_of_begun c.step.1 here holds
        | reset => exact absurd (List.mem_singleton.mp here) nofun
        | _ => exact absurd here List.not_mem_nil
      · exact ih rest later

end Maintained

end Processor

end Micro6502
