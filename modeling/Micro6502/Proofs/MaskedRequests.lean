import Micro6502.Bus.Monitor
import Micro6502.Bus.Ram
import Micro6502.Proofs.Lockstep
import Micro6502.Proofs.Requests

/-! # Masked requests — an IRQ that has to wait is not seen

    The latch of an IRQ is looked at in one place, where a processor at a
    boundary decides whose turn it is, and there the mask and the NMI come
    first.  So a run in which each IRQ finds the mask set is the run without
    them.  The route:

    * unless an IRQ is taken, a processor whose latch is clear begins the
      same, and the latch stays the one difference (`lockstep_quieter`);
    * a request of an IRQ sets the latch of the one processor and is left
      out for the other (`quieter_applyAll`), which makes the difference
      larger and nothing else. -/

namespace Micro6502

/-- Commands less the requests of an IRQ among them. -/
def Command.butIrqs {β : Type} (cmds : List (Command β)) : List (Command β) :=
  cmds.filter fun cmd => !cmd.requests .irq

namespace Processor

variable {β : Type}

/-- The processor with this in its latch of the IRQ. -/
def withIrq (v : Bool) (c : Processor β) : Processor β :=
  { c with pending := { c.pending with irq := v } }

/-- The second processor is the first with another latch of the IRQ, which is set only if the
    first one's is. -/
def Quieter (c c' : Processor β) : Prop :=
  c' = c.withIrq c'.pending.irq ∧ (c'.pending.irq = true → c.pending.irq = true)

theorem Quieter.refl (c : Processor β) : c.Quieter c :=
  ⟨rfl, id⟩

/-- If the processor takes no IRQ, neither does a quieter one, and it takes the same turn. -/
theorem nextTurn_withIrq {c : Processor β} {v : Bool} (less : v = true → c.pending.irq = true)
    (masked : c.nextTurn ≠ .service .irq) : (c.withIrq v).nextTurn = c.nextTurn := by
  cases turn : c.nextTurn with
  | service kind =>
      cases kind with
      | irq => exact absurd turn masked
      | nmi =>
          rw [nextTurn_eq_service_nmi_iff] at turn ⊢
          exact turn
  | instruction =>
      rw [nextTurn_eq_instruction_iff] at turn ⊢
      obtain ⟨nmi, clear | set⟩ := turn
      · refine ⟨nmi, Or.inl ?_⟩
        cases v with
        | false => rfl
        | true => exact absurd (less rfl) (by rw [clear]; exact Bool.false_ne_true)
      · exact ⟨nmi, Or.inr set⟩

variable [Bus β]

/-- Two processors that differ in the latch of the IRQ stay so while neither takes one. -/
theorem lockstep_quieter :
    Lockstep (fun s => s.nextTurn ≠ .service .irq) (fun cmd => cmd.requests .irq = false)
      (Quieter : Processor β → Processor β → Prop) where
  remaining := by
    rintro c c' ⟨same, -⟩
    rw [same]
    rfl
  counted := by
    rintro c c' left ⟨same, less⟩
    refine ⟨?_, less⟩
    rw [same]
    rfl
  begin := by
    rintro c c' ⟨same, less⟩ masked
    -- the two are one processor but for a latch, which no turn but that of the IRQ looks at
    generalize c'.pending.irq = v at same less
    subst same
    have together := nextTurn_withIrq less masked
    cases turn : c.nextTurn with
    | service kind =>
        cases kind with
        | irq => exact absurd turn masked
        | nmi =>
            rw [begin_of_service turn, begin_of_service (together.trans turn)]
            exact ⟨rfl, rfl, less⟩
    | instruction =>
        rw [begin_of_instruction turn, begin_of_instruction (together.trans turn)]
        exact ⟨rfl, rfl, less⟩
  host := by
    rintro c c' cmd off other ⟨same, less⟩
    generalize c'.pending.irq = v at same less
    subst same
    cases cmd with
    | tick | advance t | step => exact nomatch off
    | request kind =>
        cases kind with
        | irq => exact nomatch other
        | nmi => exact ⟨rfl, less⟩
    | reset => exact Quieter.refl c.reset
    | setRegisters r | setFlag f v | alterBus f => exact ⟨rfl, less⟩

/-- A quieter processor stays so in the run without the requests of an IRQ, while none is taken in
    the run with them. -/
theorem quieter_applyAll {c c' : Processor β} (quieter : c.Quieter c')
    {cmds : List (Command β)}
    (masked : ∀ s, .begun s ∈ c.ledger cmds → s.nextTurn ≠ .service .irq) :
    (c.applyAll cmds).Quieter (c'.applyAll (Command.butIrqs cmds)) := by
  induction cmds generalizing c c' with
  | nil => exact quieter
  | cons cmd cmds ih =>
      have here : ∀ s, .begun s ∈ c.entries cmd → s.nextTurn ≠ .service .irq :=
        fun s begun => masked s (List.mem_append_left _ begun)
      have later : ∀ s, .begun s ∈ (c.apply cmd).ledger cmds → s.nextTurn ≠ .service .irq :=
        fun s begun => masked s (List.mem_append_right _ begun)
      by_cases asks : cmd.requests .irq = true
      · -- the request is made of the one processor alone
        have left : Command.butIrqs (cmd :: cmds) = Command.butIrqs cmds :=
          List.filter_cons_of_neg (by simp [asks])
        rw [left]
        refine ih ?_ later
        cases cmd with
        | request kind =>
            obtain rfl := of_decide_eq_true asks
            exact ⟨quieter.1, fun _ => rfl⟩
        | _ => exact nomatch asks
      · have kept : Command.butIrqs (cmd :: cmds) = cmd :: Command.butIrqs cmds :=
          List.filter_cons_of_pos (by simp [asks])
        rw [kept]
        have other : cmd.requests .irq = false := eq_false_of_ne_true asks
        exact ih (lockstep_quieter.apply cmd other quieter here).2 later

/-- **A masked IRQ is invisible.**  Take a run in which interrupts are disabled at every boundary
    where an IRQ is latched and no NMI is.  At every point of it the processor is the one that
    the same run comes to without the requests of an IRQ, in registers, bus with all accesses
    made, NMI latch, countdown, count of ticks and journal: the latch of the IRQ is the one
    difference, and there only in that more is latched. -/
theorem masked_irq_is_invisible (c : Processor β) (cmds : List (Command β))
    (masked : ∀ s, .begun s ∈ c.ledger cmds → s.pending.irq = true → s.pending.nmi = false →
      s.regs.p.get .interruptDisable = true) (before : List (Command β)) (part : before <+: cmds) :
    let asked := c.applyAll before
    let quiet := c.applyAll (Command.butIrqs before)
    quiet = asked.withIrq quiet.pending.irq ∧
      (quiet.pending.irq = true → asked.pending.irq = true) := by
  obtain ⟨after, rfl⟩ := part
  refine quieter_applyAll (Quieter.refl c) fun s begun taken => ?_
  obtain ⟨nmi, irq, enabled⟩ := (nextTurn_eq_service_irq_iff s).mp taken
  have disabled := masked s (by rw [ledger_append]; exact List.mem_append_left _ begun) irq nmi
  exact absurd (enabled.symm.trans disabled) Bool.false_ne_true

/-- A processor at a NOP, with interrupts enabled. -/
def atEnabledNop : Processor (Monitor Ram) :=
  (powerOn (.attach ((Ram.blank 1).load 0 [0xEA#8])) {}).setFlag .interruptDisable false

/-- An NMI is taken first and disables interrupts, so the NOP is next and the IRQ stays latched. -/
theorem masked_irq_is_invisible_behindNmi :
    let cmds : List (Command (Monitor Ram)) := [.request .irq, .request .nmi, .step, .step]
    let asked := atEnabledNop.applyAll cmds
    let quiet := atEnabledNop.applyAll (Command.butIrqs cmds)
    (∀ s, .begun s ∈ atEnabledNop.ledger cmds → s.pending.irq = true → s.pending.nmi = false →
        s.regs.p.get .interruptDisable = true) ∧
      cmds <+: cmds ∧ Command.butIrqs cmds = [.request .nmi, .step, .step] ∧
      quiet = asked.withIrq quiet.pending.irq ∧
      (quiet.pending.irq = true → asked.pending.irq = true) ∧
      asked.pending = ⟨false, true⟩ ∧ quiet.pending = ⟨false, false⟩ ∧ asked.elapsed = 9 ∧
      asked.bus.accesses = atEnabledNop.bus.accesses ++
        [.write 0x01FD#16 0x00#8, .write 0x01FC#16 0x00#8, .write 0x01FB#16 0x20#8,
          .read 0xFFFA#16 0x00#8, .read 0xFFFB#16 0x00#8, .read 0x0000#16 0xEA#8] := by
  intro cmds asked quiet
  let latched := (atEnabledNop.request .irq).request .nmi
  have begun : atEnabledNop.ledger cmds = [.begun latched, .begun latched.step.2] := by
    show latched.entries .step ++ (latched.step.2.entries .step ++ []) = _
    rw [entries_step rfl, entries_step (remaining_step _)]
    rfl
  have masked : ∀ s, .begun s ∈ atEnabledNop.ledger cmds → s.pending.irq = true →
      s.pending.nmi = false → s.regs.p.get .interruptDisable = true := by
    intro s mem irq nmi
    rw [begun] at mem
    rcases List.mem_cons.mp mem with first | second
    · obtain rfl := Entry.begun.inj first
      exact absurd nmi (by decide)
    · obtain rfl := Entry.begun.inj (List.mem_singleton.mp second)
      decide
  obtain ⟨same, less⟩ := masked_irq_is_invisible atEnabledNop cmds masked cmds (List.prefix_refl cmds)
  exact ⟨masked, List.prefix_refl cmds, rfl, same, less,
    by decide, by decide, by decide, by decide⟩

end Processor

end Micro6502
