import Micro6502.Bus.Ram
import Micro6502.Processor.Command
import Micro6502.Proofs.Clock

/-! # Interrupt requests — none lost, none served twice

    A latch holds one request of its kind, so a request counts only where it
    finds its latch clear.  The account of a kind is what was serviced and
    what is latched still (`account`).  The route:

    * a tick takes a request out of its latch exactly where it enters the
      service routine, so it leaves the account alone (`account_tick`);
    * a request that counts adds one, a reset that finds one latched takes
      one away, and no other command moves the account (`account_apply`);
    * over a run the differences add up (`account_applyAll`).

    When a request is taken is a matter of one tick: `enters_tick_iff`. -/

namespace Micro6502

/-- Whether an event is the servicing of an interrupt of this kind. -/
def Event.services (kind : Interrupt) : Event → Bool
  | .service k _ _ _ => decide (k = kind)
  | _ => false

namespace Command

variable {β : Type}

/-- Whether a command requests an interrupt of this kind. -/
def requests (kind : Interrupt) : Command β → Bool
  | .request k => decide (k = kind)
  | _ => false

/-- Whether a command is a reset. -/
def resets : Command β → Bool
  | .reset => true
  | _ => false

end Command

namespace Processor

variable {β : Type}

/-- How many interrupts of a kind were serviced. -/
def serviced (kind : Interrupt) (c : Processor β) : Nat :=
  c.journal.countP (Event.services kind)

/-- What was serviced of a kind, and what is latched. -/
def account (kind : Interrupt) (c : Processor β) : Nat :=
  c.serviced kind + (c.pending.has kind).toNat

/-- The account does not move where nothing is serviced and nothing is latched or withdrawn. -/
theorem account_eq {c c' : Processor β} (kind : Interrupt) (hj : c'.journal = c.journal)
    (hp : c'.pending = c.pending) : c'.account kind = c.account kind := by
  rw [account, account, serviced, serviced, hj, hp]

/-- Only a latched request is taken. -/
theorem has_of_nextTurn {c : Processor β} {kind : Interrupt}
    (h : c.nextTurn = .service kind) : c.pending.has kind = true := by
  cases kind with
  | nmi => exact (nextTurn_eq_service_nmi_iff c).mp h
  | irq => exact ((nextTurn_eq_service_irq_iff c).mp h).2.1

/-- A request moves the account by one if its latch was clear, and otherwise not at all. -/
theorem account_request (kind k : Interrupt) (c : Processor β) :
    (c.request k).account kind =
      c.account kind + (decide (k = kind) && !c.pending.has kind).toNat := by
  show c.serviced kind + ((c.pending.latch k).has kind).toNat = _
  rw [Pending.has_latch, account]
  cases decide (k = kind) <;> cases c.pending.has kind <;> rfl

variable [Bus β]

/-! ## One tick -/

/-- From `c` to `c'` the service routine of an interrupt was entered: the way back and P are
    pushed, the vector is followed, and this request alone is no longer latched. -/
structure Enters (kind : Interrupt) (c c' : Processor β) : Prop where
  machine : c'.toMachine = c.toMachine.enterService c.regs.pc kind.vector false
  remaining : c'.remaining = interruptCycles - 1
  pending : c'.pending = c.pending.release kind
  journal : c'.journal = .service kind c.regs.pc kind.vector c'.regs.pc :: c.journal

/-- The tick at a boundary where an interrupt is next enters its routine. -/
theorem enters_tick_of_nextTurn {c : Processor β} {kind : Interrupt} (h0 : c.remaining = 0)
    (h : c.nextTurn = .service kind) : Enters kind c c.tick := by
  rw [tick_of_boundary h0, begin_of_service h]
  exact ⟨rfl, rfl, rfl, rfl⟩

/-- The tick at a boundary where an instruction is next notes its fetch, and leaves requests as they
    were. -/
theorem journal_tick_of_instruction {c : Processor β} (h0 : c.remaining = 0)
    (h : c.nextTurn = .instruction) :
    ∃ opcode, c.tick.journal = .fetch opcode c.regs c.elapsed :: c.journal ∧
      c.tick.pending = c.pending := by
  rw [tick_of_boundary h0, begin_of_instruction h]
  exact ⟨c.toMachine.fetchOpcode.1, rfl, rfl⟩

/-- A service routine is entered at a boundary, where its turn is next, and nowhere else. -/
theorem enters_tick_iff (kind : Interrupt) (c : Processor β) :
    Enters kind c c.tick ↔ c.remaining = 0 ∧ c.nextTurn = .service kind := by
  refine ⟨fun entered => ?_, fun h => enters_tick_of_nextTurn h.1 h.2⟩
  -- the newest event tells the turns apart
  have newest := entered.journal
  by_cases h0 : c.remaining = 0
  · refine ⟨h0, ?_⟩
    cases turn : c.nextTurn with
    | service k =>
        rw [(enters_tick_of_nextTurn h0 turn).journal] at newest
        rw [(Event.service.inj (List.cons.inj newest).1).1]
    | instruction =>
        obtain ⟨opcode, fetched, -⟩ := journal_tick_of_instruction h0 turn
        rw [fetched] at newest
        exact nomatch (List.cons.inj newest).1
  · rw [tick_of_busy (Nat.pos_of_ne_zero h0), journal_countDown] at newest
    exact absurd newest.symm (List.cons_ne_self _ _)

/-- A tick leaves the account of each kind alone: what it services it takes from the latch. -/
theorem account_tick (kind : Interrupt) (c : Processor β) :
    c.tick.account kind = c.account kind := by
  by_cases h0 : c.remaining = 0
  · cases turn : c.nextTurn with
    | service k =>
        have entered := enters_tick_of_nextTurn h0 turn
        have latched := has_of_nextTurn turn
        -- what leaves the latch is what the journal gains
        rw [account, account, serviced, serviced, entered.journal, entered.pending,
          Pending.has_release, List.countP_cons]
        by_cases hk : k = kind
        · rw [← hk, latched]
          simp [Event.services]
        · simp [Event.services, hk]
    | instruction =>
        obtain ⟨opcode, fetched, same⟩ := journal_tick_of_instruction h0 turn
        rw [account, account, serviced, serviced, fetched, same, List.countP_cons]
        rfl
  · rw [tick_of_busy (Nat.pos_of_ne_zero h0)]
    exact account_eq kind rfl rfl

/-- Ticks do not move the account: what is serviced is withdrawn. -/
theorem account_tickTimes (kind : Interrupt) (n : Nat) (c : Processor β) :
    (c.tickTimes n).account kind = c.account kind := by
  induction n generalizing c with
  | zero => rfl
  | succ n ih => exact (ih c.tick).trans (account_tick kind c)

/-- A reset drops what is latched from the account. -/
theorem account_reset (kind : Interrupt) (c : Processor β) :
    c.reset.account kind + (c.pending.has kind).toNat = c.account kind := by
  have journal : c.reset.serviced kind = c.serviced kind := List.countP_cons_of_neg nofun
  have latched : c.reset.pending.has kind = false := by
    cases kind <;> rfl
  rw [account, account, journal, latched]
  rfl

/-! ## One command, and a run -/

/-- What a command does to the account of a kind. -/
theorem account_apply (kind : Interrupt) (c : Processor β) (cmd : Command β) :
    (c.apply cmd).account kind + (cmd.resets && c.pending.has kind).toNat =
      c.account kind + (cmd.requests kind && !c.pending.has kind).toNat := by
  cases cmd with
  | tick => exact account_tick kind c
  | advance t => exact account_tickTimes kind t.count c
  | step => exact (account_tickTimes kind c.tick.remaining c.tick).trans (account_tick kind c)
  | request k => exact account_request kind k c
  | reset => exact account_reset kind c
  | setRegisters r => exact account_eq kind rfl rfl
  | setFlag f v => exact account_eq kind rfl rfl
  | alterBus f => exact account_eq kind rfl rfl

/-- How many requests of a kind a run makes while its latch is clear. -/
def freshRequests (kind : Interrupt) : Processor β → List (Command β) → Nat
  | _, [] => 0
  | c, cmd :: cmds =>
      (cmd.requests kind && !c.pending.has kind).toNat + freshRequests kind (c.apply cmd) cmds

/-- How many resets of a run find a request of a kind latched. -/
def droppedRequests (kind : Interrupt) : Processor β → List (Command β) → Nat
  | _, [] => 0
  | c, cmd :: cmds =>
      (cmd.resets && c.pending.has kind).toNat + droppedRequests kind (c.apply cmd) cmds

/-- What a run does to the account of a kind. -/
theorem account_applyAll (kind : Interrupt) (c : Processor β) (cmds : List (Command β)) :
    (c.applyAll cmds).account kind + droppedRequests kind c cmds =
      c.account kind + freshRequests kind c cmds := by
  induction cmds generalizing c with
  | nil => rfl
  | cons cmd cmds ih =>
      have first := account_apply kind c cmd
      have rest := ih (c.apply cmd)
      show ((c.apply cmd).applyAll cmds).account kind + (_ + _) = c.account kind + (_ + _)
      omega

theorem account_powerOn (kind : Interrupt) (bus : β) (config : Config) :
    (powerOn bus config).account kind = 0 := by
  cases kind <;> rfl

/-- Entering a routine is one more interrupt of its kind serviced. -/
theorem serviced_of_enters {c c' : Processor β} {kind : Interrupt} (h : Enters kind c c') :
    c'.serviced kind = c.serviced kind + 1 := by
  rw [serviced, h.journal]
  exact List.countP_cons_of_pos (decide_eq_true rfl)

/-- What is not entered is not counted. -/
theorem serviced_tick_of_not_enters {c : Processor β} {kind : Interrupt}
    (h : ¬ Enters kind c c.tick) : c.tick.serviced kind = c.serviced kind := by
  by_cases h0 : c.remaining = 0
  · cases turn : c.nextTurn with
    | service k =>
        have hk : k ≠ kind := by
          rintro rfl
          exact h (enters_tick_of_nextTurn h0 turn)
        rw [serviced, (enters_tick_of_nextTurn h0 turn).journal]
        exact List.countP_cons_of_neg (by simpa [Event.services] using hk)
    | instruction =>
        obtain ⟨opcode, fetched, -⟩ := journal_tick_of_instruction h0 turn
        rw [serviced, fetched]
        exact List.countP_cons_of_neg nofun
  · rw [tick_of_busy (Nat.pos_of_ne_zero h0)]
    rfl

/-- **Requests balance.**  In every run from power-on, what was serviced of a kind, what is latched
    and what resets dropped are together the requests that found their latch clear.  An NMI that
    is latched at a boundary is taken by the next tick; an IRQ is taken only where no NMI is
    latched and interrupts are enabled; and a tick inside an instruction takes nothing. -/
theorem requests_balance :
    (∀ (bus : β) (config : Config) (cmds : List (Command β)) (kind : Interrupt),
      ((powerOn bus config).applyAll cmds).serviced kind +
          (((powerOn bus config).applyAll cmds).pending.has kind).toNat +
          droppedRequests kind (powerOn bus config) cmds =
        freshRequests kind (powerOn bus config) cmds) ∧
    (∀ (kind : Interrupt) (c : Processor β),
      Enters kind c c.tick ∧ c.tick.serviced kind = c.serviced kind + 1 ∨
        ¬ Enters kind c c.tick ∧ c.tick.serviced kind = c.serviced kind) ∧
    (∀ c : Processor β, Enters .nmi c c.tick ↔ c.remaining = 0 ∧ c.pending.nmi = true) ∧
    (∀ c : Processor β, Enters .irq c c.tick ↔
      c.remaining = 0 ∧ c.pending.nmi = false ∧ c.pending.irq = true ∧
        c.regs.p.get .interruptDisable = false) ∧
    (∀ c : Processor β, 0 < c.remaining →
      c.tick.journal = c.journal ∧ c.tick.pending = c.pending) := by
  refine ⟨?_, ?_, ?_, ?_, ?_⟩
  · intro bus config cmds kind
    have run := account_applyAll kind (powerOn bus config) cmds
    rw [account_powerOn, Nat.zero_add] at run
    exact run
  · intro kind c
    by_cases h : Enters kind c c.tick
    · exact Or.inl ⟨h, serviced_of_enters h⟩
    · exact Or.inr ⟨h, serviced_tick_of_not_enters h⟩
  · intro c
    rw [enters_tick_iff, nextTurn_eq_service_nmi_iff]
  · intro c
    rw [enters_tick_iff, nextTurn_eq_service_irq_iff]
  · intro c busy
    rw [tick_of_busy busy]
    exact ⟨rfl, rfl⟩

/-- A run in which the second NMI is being entered as a third is requested. -/
def nestedRequests : List (Command Ram) :=
  [.request .nmi, .request .nmi, .step, .request .nmi, .tick, .request .nmi]

/-- Of four requests three count: two were serviced and one waits, while the entry goes on. -/
theorem requests_balance_nested :
    freshRequests .nmi (powerOn (.blank 2) {}) nestedRequests = 3 ∧
    ((powerOn (.blank 2) {}).applyAll nestedRequests).serviced .nmi +
        (((powerOn (.blank 2) {}).applyAll nestedRequests).pending.has .nmi).toNat +
        droppedRequests .nmi (powerOn (.blank 2) {}) nestedRequests = 3 ∧
    0 < ((powerOn (.blank 2) {}).applyAll nestedRequests).remaining ∧
    ((powerOn (.blank 2) {}).applyAll nestedRequests).tick.pending.nmi = true := by
  obtain ⟨balance, -, -, -, busy⟩ := requests_balance (β := Ram)
  have fresh : freshRequests .nmi (powerOn (.blank 2) {}) nestedRequests = 3 := rfl
  have inside : 0 < ((powerOn (.blank 2) {}).applyAll nestedRequests).remaining := by decide
  refine ⟨fresh, (balance _ _ _ _).trans fresh, inside, ?_⟩
  rw [(busy _ inside).2]
  rfl

end Processor

end Micro6502
