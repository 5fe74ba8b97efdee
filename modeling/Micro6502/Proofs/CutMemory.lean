import Micro6502.Proofs.Footprint
import Micro6502.Proofs.LastWriter

/-! # Cut memory — cells that hold zero need not be there

    Where nothing is mapped a read gives zero and a write is dropped.  So
    memory that is zero from some address on can be cut there, as long as no
    more than zeros are written beyond.  The route:

    * a cut commutes with every write, and with a read where the cells that
      are cut off hold zero (`Ram.write_cut`, `Ram.peek_cut`);
    * finding an operand only reads, and an operation reads before it writes
      (`Machine.resolve_cut`, `Machine.perform_cut`);
    * **the one exception is the entry to a service routine**, which reads its
      vector after three pushes: there the pushes have to leave zeros too
      (`Machine.enterService_cut`). -/

namespace Micro6502

/-- Whatever some accesses write from `n` on is zero. -/
def Access.OnlyZerosFrom (n : Nat) (as : List Access) : Prop :=
  ∀ a b, .write a b ∈ as → n ≤ a.toNat → b = 0

namespace Ram

/-- Memory with nothing mapped from `n` on. -/
def cut (n : Nat) (r : Ram) : Ram where
  cells := r.cells.extract 0 n
  size_le := by
    rw [Array.size_extract]
    exact Nat.le_trans (Nat.sub_le _ _) (Nat.le_trans (Nat.min_le_right _ _) r.size_le)

/-- Memory is mapped in full, and zero from `n` on. -/
structure ZeroFrom (n : Nat) (r : Ram) : Prop where
  full : r.mapped = 0x10000
  zero : ∀ a : Word, n ≤ a.toNat → r.peek a = 0

theorem mapped_cut (n : Nat) (r : Ram) : (r.cut n).mapped = min n r.mapped := by
  rw [mapped, cut, Array.size_extract, Nat.sub_zero]
  rfl

/-- Below the cut memory reads as before, and from the cut on as zero. -/
theorem peek_cut (n : Nat) (r : Ram) (a : Word) :
    (r.cut n).peek a = if a.toNat < n then r.peek a else 0 := by
  rw [peek, peek, cut, Array.getD_eq_getD_getElem?, Array.getD_eq_getD_getElem?,
    Array.getElem?_extract, Nat.sub_zero, Nat.zero_add]
  by_cases below : a.toNat < n
  · by_cases mapped : a.toNat < r.cells.size
    · rw [if_pos (Nat.lt_min.mpr ⟨below, mapped⟩), if_pos below]
    · rw [if_neg fun both => mapped (Nat.lt_min.mp both).2, if_pos below,
        Array.getElem?_eq_none (Nat.le_of_not_lt mapped)]
  · rw [if_neg fun both => below (Nat.lt_min.mp both).1, if_neg below]
    rfl

/-- A cut that takes away zeros alone is not seen by any read. -/
theorem ZeroFrom.peek_cut {n : Nat} {r : Ram} (zero : r.ZeroFrom n) (a : Word) :
    (r.cut n).peek a = r.peek a := by
  rw [Ram.peek_cut]
  split
  case isTrue => rfl
  case isFalse above => exact (zero.zero a (Nat.le_of_not_lt above)).symm

/-- To write and then cut is to cut and then write. -/
theorem write_cut (n : Nat) (r : Ram) (a : Word) (b : Byte) :
    (r.cut n).write a b = (r.write a b).cut n := by
  refine eq_of_peek ?_ fun x => ?_
  · rw [mapped_write, mapped_cut, mapped_cut, mapped_write]
  · rw [peek_write, peek_cut, peek_cut, peek_write, mapped_cut]
    by_cases here : a = x
    · subst here
      by_cases below : a.toNat < n
      · simp only [Nat.lt_min, below, true_and, if_true]
      · simp only [Nat.lt_min, below, false_and, and_false, if_false]
    · simp [here]

/-- Accesses that write zeros alone from `n` on leave memory zero there. -/
theorem ZeroFrom.replay {n : Nat} {r r' : Ram} {as : List Access} (zero : r.ZeroFrom n)
    (zeros : Access.OnlyZerosFrom n as) (leads : replay r as = some r') : r'.ZeroFrom n := by
  induction as generalizing r with
  | nil => exact Option.some.inj leads ▸ zero
  | cons first rest ih =>
      have later : Access.OnlyZerosFrom n rest := fun a b mem =>
        zeros a b (List.mem_cons_of_mem _ mem)
      cases first with
      | read a b =>
          rw [Micro6502.replay] at leads
          split at leads
          · exact ih zero later leads
          · cases leads
      | write a b =>
          -- where the write is from `n` on, it puts a zero in the place of a zero
          refine ih ⟨(mapped_write r a b).trans zero.full, fun x above => ?_⟩ later leads
          show (r.write a b).peek x = 0
          rw [peek_write]
          split
          case isTrue here =>
              exact zeros a b List.mem_cons_self (here.1 ▸ above)
          case isFalse => exact zero.zero x above

end Ram

namespace Monitor

variable {n : Nat} {b b' : Monitor Ram} {as : List Access}

/-- Where a longer run writes only zeros from somewhere on, so does every run that it goes on from.
    -/
theorem Sees.onlyZerosFrom (sees : Sees b b' as) (zeros : Access.OnlyZerosFrom n b'.accesses) :
    Access.OnlyZerosFrom n b.accesses := by
  rw [sees.seen] at zeros
  exact fun a v mem => zeros a v (List.mem_append_left _ mem)

/-- Memory that was zero from somewhere on stays so where only zeros are written there. -/
theorem Sees.zeroFrom (sees : Sees b b' as) (zeros : Access.OnlyZerosFrom n b'.accesses)
    (zero : b.behind.ZeroFrom n) : b'.behind.ZeroFrom n := by
  rw [sees.seen] at zeros
  exact zero.replay (fun a v mem => zeros a v (List.mem_append_right _ mem)) sees.replayed

end Monitor

/-! ## Machines whose memory is cut -/

namespace Machine

open Monitor (Sees)

variable {n : Nat} {m : Machine (Monitor Ram)}

/-- The machine with nothing mapped from `n` on. -/
def cut (n : Nat) (m : Machine (Monitor Ram)) : Machine (Monitor Ram) :=
  m.mapBus (Monitor.mapBehind (Ram.cut n))

/-! Writes do not look at what is cut off. -/

/-- A machine that writes, and is cut then, is the cut machine that writes. -/
theorem write_cut (n : Nat) (m : Machine (Monitor Ram)) (a : Word) (b : Byte) :
    (m.cut n).write a b = (m.write a b).cut n := by
  show (⟨m.regs, ⟨(m.bus.behind.cut n).write a b, _⟩⟩ : Machine (Monitor Ram)) = _
  rw [Ram.write_cut]
  rfl

theorem push_cut (n : Nat) (m : Machine (Monitor Ram)) (b : Byte) :
    (m.cut n).push b = (m.push b).cut n := by
  rw [push, write_cut]
  rfl

theorem pushWord_cut (n : Nat) (m : Machine (Monitor Ram)) (w : Word) :
    (m.cut n).pushWord w = (m.pushWord w).cut n := by
  rw [pushWord, push_cut, push_cut]
  rfl

theorem storeOperand_cut (n : Nat) (m : Machine (Monitor Ram)) (b : Byte) (o : Operand) :
    (m.cut n).storeOperand b o = (m.storeOperand b o).cut n := by
  cases o with
  | accumulator => rfl
  | address a => exact write_cut n m a b

theorem branch_cut (n : Nat) (m : Machine (Monitor Ram)) (o : Operand) (taken : Bool) :
    (m.cut n).branch o taken = ((m.branch o taken).1, (m.branch o taken).2.cut n) := by
  cases taken <;> cases o <;> rfl

/-! Reads find the zero that was cut off. -/

section

variable (zero : m.bus.behind.ZeroFrom n)

include zero

theorem read_cut (a : Word) : (m.cut n).read a = ((m.read a).1, (m.read a).2.cut n) := by
  show ((m.bus.behind.cut n).peek a,
    (⟨m.regs, ⟨m.bus.behind.cut n, .read a ((m.bus.behind.cut n).peek a) :: m.bus.recorded⟩⟩ :
      Machine (Monitor Ram))) = _
  rw [zero.peek_cut]
  rfl

theorem readPair_cut (lo hi : Word) :
    (m.cut n).readPair lo hi = ((m.readPair lo hi).1, (m.readPair lo hi).2.cut n) := by
  rw [readPair, read_cut zero, read_cut (m := (m.read lo).2) zero]
  rfl

theorem fetch_cut : (m.cut n).fetch = (m.fetch.1, m.fetch.2.cut n) := by
  rw [fetch, read_cut zero]
  rfl

theorem fetchWord_cut : (m.cut n).fetchWord = (m.fetchWord.1, m.fetchWord.2.cut n) := by
  rw [fetchWord, fetch_cut zero, fetch_cut (m := m.fetch.2) zero]
  rfl

theorem pull_cut : (m.cut n).pull = (m.pull.1, m.pull.2.cut n) :=
  read_cut (m := m.mapRegs fun r => { r with s := r.s + 1 }) zero _

theorem pullWord_cut : (m.cut n).pullWord = (m.pullWord.1, m.pullWord.2.cut n) := by
  rw [pullWord, pull_cut zero, pull_cut (m := m.pull.2) zero]
  rfl

theorem loadOperand_cut (o : Operand) :
    (m.cut n).loadOperand o = ((m.loadOperand o).1, (m.loadOperand o).2.cut n) := by
  cases o with
  | accumulator => rfl
  | address a => exact read_cut zero a

theorem modifyOperand_cut (f : Byte → Status → Alu.Outcome) (o : Operand) :
    (m.cut n).modifyOperand f o = (m.modifyOperand f o).cut n := by
  cases o with
  | accumulator => rfl
  | address a =>
      let o := f (m.read a).1 m.regs.p
      let back := (m.read a).2.write a (m.read a).1
      have same : ((m.cut n).read a).2.write a ((m.cut n).read a).1 = back.cut n := by
        rw [read_cut zero, write_cut]
      show Machine.write (Machine.mapRegs _ (((m.cut n).read a).2.write a ((m.cut n).read a).1)) a
        (f ((m.cut n).read a).1 m.regs.p).value = _
      rw [same, read_cut zero]
      exact write_cut n (back.mapRegs fun r => { r with p := o.status }) a o.value

/-- Finding an operand only reads. -/
theorem resolve_cut (mode : Mode) :
    (m.cut n).resolve mode = ((m.resolve mode).1, (m.resolve mode).2.cut n) := by
  cases mode with
  | implied | immediate => rfl
  | zeroPage | zeroPageX | zeroPageY | relative =>
      rw [resolve, fetch_cut zero]
      rfl
  | absolute | absoluteX | absoluteY =>
      rw [resolve, fetchWord_cut zero]
      rfl
  | indirect =>
      rw [resolve, fetchWord_cut zero]
      dsimp only
      rw [readPair_cut (m := m.fetchWord.2) zero]
      rfl
  | indirectX | indirectY =>
      rw [resolve, fetch_cut zero]
      dsimp only
      rw [readPointer, readPair_cut (m := m.fetch.2) zero]
      rfl

theorem fetchOpcode_cut : (m.cut n).fetchOpcode = (m.fetchOpcode.1, m.fetchOpcode.2.cut n) := by
  rw [fetchOpcode, fetch_cut zero]
  rfl

end

/-- Whatever a run on either memory writes from `n` on is zero. -/
def SparesFrom (n : Nat) (whole part : Machine (Monitor Ram)) : Prop :=
  Access.OnlyZerosFrom n whole.bus.accesses ∨ Access.OnlyZerosFrom n part.bus.accesses

/-- A machine that spares what is cut away has written only zeros there. -/
theorem SparesFrom.onlyZeros (spares : SparesFrom n m (m.cut n)) :
    Access.OnlyZerosFrom n m.bus.accesses := by
  rcases spares with whole | part
  · exact whole
  · exact part

/-- The vector is read after the pushes, which may be where nothing is mapped. -/
theorem enterService_cut (zero : m.bus.behind.ZeroFrom n) {back vector : Word} {software : Bool}
    (spares : SparesFrom n (m.enterService back vector software)
      ((m.cut n).enterService back vector software)) :
    (m.cut n).enterService back vector software =
      (m.enterService back vector software).cut n := by
  let pushed := (m.pushWord back).push (m.regs.p.pushed software)
  let masked := pushed.mapRegs (·.mapStatus (Status.set · .interruptDisable true))
  have pushes : Sees m.bus pushed.bus _ := (sees_pushWord m back).trans (sees_push _ _)
  have entered : (m.cut n).enterService back vector software =
      ((masked.cut n).readPair vector (vector + 1)).2.jump
        ((masked.cut n).readPair vector (vector + 1)).1 := by
    rw [enterService, pushWord_cut, push_cut]
    rfl
  have zeros : Access.OnlyZerosFrom n pushed.bus.accesses := by
    rcases spares with whole | part
    · exact (sees_readPair masked vector (vector + 1)).onlyZerosFrom whole
    · rw [entered] at part
      exact (sees_readPair (masked.cut n) vector (vector + 1)).onlyZerosFrom part
  rw [entered, readPair_cut (m := masked) (pushes.zeroFrom zeros zero)]
  rfl

/-- An effect does the same where the zeros are cut off, and costs the same. -/
theorem perform_cut (zero : m.bus.behind.ZeroFrom n) {e : Effect} {o : Operand}
    (spares : SparesFrom n (m.perform e o).2 ((m.cut n).perform e o).2) :
    (m.cut n).perform e o = ((m.perform e o).1, (m.perform e o).2.cut n) := by
  cases e with
  | load f =>
      rw [perform, loadOperand_cut zero]
      rfl
  | store f => exact congrArg (Prod.mk 0) (storeOperand_cut n m _ o)
  | modify f => exact congrArg (Prod.mk 0) (modifyOperand_cut zero f o)
  | internal f => rfl
  | branch flag wanted => exact branch_cut n m o _
  | jump => cases o <;> rfl
  | call =>
      rw [perform, pushWord_cut]
      cases o <;> rfl
  | returnFromCall =>
      rw [perform, pullWord_cut zero]
      rfl
  | push f => exact congrArg (Prod.mk 0) (push_cut n m _)
  | pull f =>
      rw [perform, pull_cut zero]
      rfl
  | softwareBreak => exact congrArg (Prod.mk 0) (enterService_cut zero spares)
  | returnFromInterrupt =>
      rw [perform, pull_cut zero]
      dsimp only
      have back := pullWord_cut
        (m := m.pull.2.mapRegs fun r => { r with p := .pulled m.pull.1 }) zero
      exact congrArg (fun r : Word × Machine (Monitor Ram) => (0, r.2.jump r.1)) back

/-- An instruction does the same where the zeros are cut off, and costs the same. -/
theorem runDecoded_cut (zero : m.bus.behind.ZeroFrom n) {bcd : Bool} {d : Descriptor}
    (spares : SparesFrom n (m.runDecoded bcd d).2 ((m.cut n).runDecoded bcd d).2) :
    (m.cut n).runDecoded bcd d = ((m.runDecoded bcd d).1, (m.runDecoded bcd d).2.cut n) := by
  have found : (m.resolve d.mode).2.bus.behind.ZeroFrom n := by
    have still : (m.resolve d.mode).2.bus.behind = m.bus.behind := by
      cases d.mode <;> rfl
    rw [still]
    exact zero
  have ran : ((m.cut n).runDecoded bcd d).2 = (((m.resolve d.mode).2.cut n).perform
      (d.operation.effect bcd) (m.resolve d.mode).1.operand).2 := by
    rw [runDecoded, resolve_cut zero]
    rfl
  rw [ran] at spares
  rw [runDecoded, resolve_cut zero]
  dsimp only
  rw [execute, perform_cut found spares]
  rfl

end Machine

end Micro6502
