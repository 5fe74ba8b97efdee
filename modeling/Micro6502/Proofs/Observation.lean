import Mathlib.Algebra.Ring.Nat
import Micro6502.Bus.Ram
import Micro6502.Processor.Observe
import Micro6502.Proofs.Countdown

/-! # Observation — what is shown by name fits together

    A debugger asks for parts of the state by name.  The list of the names
    and what is shown for a name are written apart; here they are tied
    together, and to what the processor tells of itself.

    * A name is answered where it is listed or one of the two second names,
      and nowhere else (`isSome_query_iff`), with a kind of value that is a
      matter of the name (`map_kind_query`);
    * P as a byte and its flags one by one are two views of one register,
      whatever P stores of `unused`;
    * a counter is shown in fewer bits than a number has; that it shows zero
      at a boundary alone rests on the bound that every run keeps on the
      countdown (`consistent_of_remaining_le`). -/

namespace Micro6502.Processor

variable {β : Type}

/-- No name is listed twice. -/
theorem nodup_queryPaths : queryPaths.Nodup := by
  decide

/-- A name is answered where it is listed or a second name. -/
theorem isSome_query_iff (c : Processor β) (path : String) :
    (c.query path).isSome = true ↔ path ∈ queryPaths ∨ path = "sp" ∨ path = "status" := by
  constructor
  · intro known
    -- one case for each name that is answered, and one for the rest
    unfold query at known
    split at known
    case h_19 => cases known
    all_goals decide
  · rintro (listed | rfl | rfl)
    · simp only [queryPaths, List.mem_cons, List.not_mem_nil, or_false] at listed
      rcases listed with rfl | rfl | rfl | rfl | rfl | rfl | rfl | rfl | rfl | rfl | rfl | rfl | rfl |
        rfl | rfl | rfl
      all_goals rfl
    · rfl
    · rfl

/-- The kind of the answer to a name is the same in all states. -/
theorem map_kind_query (c d : Processor β) (path : String) :
    (c.query path).map Value.kind = (d.query path).map Value.kind := by
  unfold query
  split <;> rfl

/-- The names of the flags that are shown one by one, and their bits in P. -/
def flagBits : List (String × Nat) :=
  [("flags.c", 0), ("flags.z", 1), ("flags.i", 2), ("flags.d", 3), ("flags.v", 6), ("flags.n", 7)]

/-- What a processor shows by name fits together, and with what it tells of itself. -/
structure Consistent (c : Processor β) : Prop where
  answers : ∀ path, (c.query path).isSome = true ↔
    path ∈ queryPaths ∨ path = "sp" ∨ path = "status"
  sp : c.query "sp" = c.query "s"
  status : c.query "status" = c.query "p"
  /-- P is shown with `unused` set, and its other bits are the flags as they are shown. -/
  p : ∃ p : Byte, c.query "p" = some (.byte p) ∧ p.getLsbD 5 = true ∧
    ∀ e ∈ flagBits, c.query e.1 = some (.bool (p.getLsbD e.2))
  remaining : ∃ n, c.query "remaining" = some (.count32 n) ∧ (n = 0 ↔ c.atBoundary = true)
  nmi : c.query "nmi_pending" = some (.bool c.pending.nmi)
  irq : c.query "irq_pending" = some (.bool c.pending.irq)
  /-- The count of ticks is shown in 64 bits. -/
  cycle : ∃ n, c.query "cycle" = some (.count64 n) ∧ n.toNat = c.elapsed % 2 ^ 64

/-- With a countdown as short as that of any run, what is shown fits together. -/
theorem consistent_of_remaining_le {c : Processor β} (small : c.remaining ≤ 6) : c.Consistent where
  answers := isSome_query_iff c
  sp := rfl
  status := rfl
  p := by
    refine ⟨c.regs.p.bits, rfl, c.regs.p.get_unused, ?_⟩
    simp only [flagBits, List.forall_mem_cons]
    exact ⟨rfl, rfl, rfl, rfl, rfl, rfl, nofun⟩
  remaining := by
    refine ⟨BitVec.ofNat 32 c.remaining, rfl, ?_⟩
    rw [atBoundary, beq_iff_eq, BitVec.toNat_eq, BitVec.toNat_ofNat]
    show c.remaining % 2 ^ 32 = 0 ↔ c.remaining = 0
    omega
  nmi := rfl
  irq := rfl
  cycle := ⟨BitVec.ofNat 64 c.elapsed, rfl, BitVec.toNat_ofNat ..⟩

/-- **What is shown by name is complete and consistent.**  No name is listed twice; at the end of
    every run from power-on, what the processor shows fits together; and every two processors answer
    a name with the same kind of value, or both not at all. -/
theorem observation_is_consistent [Bus β] (bus : β) (config : Config) (cmds : List (Command β)) :
    queryPaths.Nodup ∧ ((powerOn bus config).applyAll cmds).Consistent ∧
      ∀ (c d : Processor β) (path : String),
        (c.query path).map Value.kind = (d.query path).map Value.kind := by
  refine ⟨nodup_queryPaths, ?_, ?_⟩
  · exact consistent_of_remaining_le (remaining_applyAll_le cmds (Nat.zero_le 6))
  · exact map_kind_query

/-- P is shown with bit 5 set though the host has cleared it. -/
example : ((powerOn (Ram.blank 0) {}).applyAll [.setFlag .unused false]).query "status" =
    some (.byte 0x24#8) := by
  decide

end Micro6502.Processor
