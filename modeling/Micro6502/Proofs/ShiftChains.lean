import Micro6502.Proofs.Chains
import Micro6502.Proofs.LastWriter
import Micro6502.Proofs.ResultFlags
import Micro6502.Proofs.StatusByte

/-! # Shift chains — numbers of any length, a bit to the left or to the right

    A number is doubled by rotating its bytes left, lowest first, and halved
    by rotating them right, highest first; what leaves one byte comes into
    the next by way of the carry.  The route:

    * a byte and the bits that enter and leave it balance
      (`Alu.value_shiftLeft`, `Alu.value_shiftRight`), and so do the bytes of
      a number, by induction on them (`rotateLeft_thread`,
      `rotateRight_thread`);
    * a shift is a rotation with the carry clear (`Machine.shifts_asl`,
      `Machine.shifts_lsr`);
    * rotations in distinct cells of memory are those of the bytes there
      (`sweeps_sweep`), so that both ways are one thread. -/

namespace Micro6502

namespace Alu

/-! ## One byte -/

/-- What comes in from the carry says what the carry is. -/
theorem get_carry_of_carryIn {p q : Status} (same : carryIn q = carryIn p) :
    q.get .carry = p.get .carry := by
  rw [carryIn, carryIn] at same
  revert same
  cases q.get .carry <;> cases p.get .carry <;> decide

/-- A shift to the left doubles: its value and its carry make up the double of the byte and what
    enters. -/
theorem value_shiftLeft (entering : Bool) (b : Byte) (p : Status) :
    (shiftLeft entering b p).value.toNat + 256 * carryIn (shiftLeft entering b p).status =
      2 * b.toNat + entering.toNat := by
  have small := b.isLt
  have bit := Bool.toNat_le entering
  have leaving : carryIn (shiftLeft entering b p).status = b.msb.toNat := by
    rw [carryIn, shiftLeft, plain, Status.get_withNZ, if_neg (by decide), if_neg (by decide),
      Status.get_set_self _ _ (by decide)]
  have value : (shiftLeft entering b p).value.toNat = (2 * b.toNat + entering.toNat) % 256 :=
    BitVec.toNat_ofNat ..
  rw [leaving, value, BitVec.msb_eq_decide]
  by_cases top : 2 ^ 7 ≤ b.toNat
  · rw [decide_eq_true top, Bool.toNat_true]
    omega
  · rw [decide_eq_false top, Bool.toNat_false]
    omega

/-- A shift to the right halves: its value and its carry make up the byte and what enters at the
    top. -/
theorem value_shiftRight (entering : Bool) (b : Byte) (p : Status) :
    b.toNat + 256 * entering.toNat =
      2 * (shiftRight entering b p).value.toNat + carryIn (shiftRight entering b p).status := by
  have small := b.isLt
  have bit := Bool.toNat_le entering
  have leaving : carryIn (shiftRight entering b p).status = b.toNat % 2 := by
    rw [carryIn, shiftRight, plain, Status.get_withNZ, if_neg (by decide), if_neg (by decide),
      Status.get_set_self _ _ (by decide), BitVec.getLsbD, Nat.testBit_zero]
    by_cases odd : b.toNat % 2 = 1
    · rw [decide_eq_true odd, odd, Bool.toNat_true]
    · rw [decide_eq_false odd, Bool.toNat_false]
      omega
  have value : (shiftRight entering b p).value.toNat = b.toNat / 2 + 128 * entering.toNat := by
    rw [shiftRight, plain, BitVec.toNat_ofNat]
    omega
  rw [leaving, value]
  omega

/-! ## A shift is a rotation -/

/-- P with the carry clear. -/
def uncarried (p : Status) : Status :=
  p.set .carry false

theorem carryIn_uncarried (p : Status) : carryIn (uncarried p) = 0 := by
  rw [carryIn, uncarried, Status.get_set_self _ _ (by decide)]
  rfl

/-- ASL is ROL without a carry. -/
theorem shiftLeft_eq_rotateLeft :
    shiftLeft false = fun b p => rotateLeft b (uncarried p) := by
  funext b p
  rw [rotateLeft, uncarried, Status.get_set_self _ _ (by decide), shiftLeft, shiftLeft,
    Status.set_set]

/-- LSR is ROR without a carry. -/
theorem shiftRight_eq_rotateRight :
    shiftRight false = fun b p => rotateRight b (uncarried p) := by
  funext b p
  rw [rotateRight, uncarried, Status.get_set_self _ _ (by decide), shiftRight, shiftRight,
    Status.set_set]

end Alu

namespace Machine

variable {β : Type} [Bus β]

/-- What a modification makes of P before it looks at it can be made before. -/
theorem perform_modify_comp (g : Status → Status) (f : Byte → Status → Alu.Outcome) (o : Operand)
    (m : Machine β) : m.perform (.modify fun b p => f b (g p)) o =
      (m.mapRegs (·.mapStatus g)).perform (.modify f) o := by
  cases o <;> rfl

/-- An operation shifts where another one rotates: it does the same once the carry is clear. -/
def Shifts (shift rotation : Operation) : Prop :=
  ∀ {β : Type} [Bus β] (bcd : Bool) (o : Operand) (m : Machine β),
    m.execute bcd shift o = (m.mapRegs (·.mapStatus Alu.uncarried)).execute bcd rotation o

theorem shifts_asl : Shifts .asl .rol := by
  intro β _ bcd o m
  rw [execute, Operation.effect, Alu.shiftLeft_eq_rotateLeft, perform_modify_comp]
  rfl

theorem shifts_lsr : Shifts .lsr .ror := by
  intro β _ bcd o m
  rw [execute, Operation.effect, Alu.shiftRight_eq_rotateRight, perform_modify_comp]
  rfl

end Machine

namespace Multibyte

open Alu (Outcome thread carryIn rotateLeft rotateRight)
open Bcd (Site)

/-! ## Numbers -/

/-- `rs` is the double of `bs`: `c` has come in at the low end, and `c'` gone out at the high one. -/
def ShiftedLeft (c : Nat) (bs rs : List Byte) (c' : Nat) : Prop :=
  rs.length = bs.length ∧ number rs + 256 ^ bs.length * c' = 2 * number bs + c

/-- `rs` is half of `bs`: `c` has come in at the high end, and `c'` gone out at the low one. -/
def ShiftedRight (c : Nat) (bs rs : List Byte) (c' : Nat) : Prop :=
  rs.length = bs.length ∧ number bs + 256 ^ bs.length * c = 2 * number rs + c'

/-- What goes out of the lowest byte comes into the others. -/
theorem ShiftedLeft.cons {c out c' : Nat} {b r : Byte} {bs rs : List Byte}
    (first : r.toNat + 256 * out = 2 * b.toNat + c) (rest : ShiftedLeft out bs rs c') :
    ShiftedLeft c (b :: bs) (r :: rs) c' := by
  obtain ⟨length, balance⟩ := rest
  refine ⟨congrArg (· + 1) length, ?_⟩
  rw [number_cons, number_cons, List.length_cons, Nat.pow_succ, Nat.mul_right_comm]
  omega

/-- What goes out of the highest byte comes into the others. -/
theorem ShiftedRight.concat {c out c' : Nat} {b r : Byte} {bs rs : List Byte}
    (first : b.toNat + 256 * c = 2 * r.toNat + out) (rest : ShiftedRight out bs rs c') :
    ShiftedRight c (bs ++ [b]) (rs ++ [r]) c' := by
  obtain ⟨length, balance⟩ := rest
  refine ⟨?_, ?_⟩
  · rw [List.length_append, List.length_append, length]
    rfl
  · calc number (bs ++ [b]) + 256 ^ (bs ++ [b]).length * c
        = number bs + 256 ^ bs.length * (b.toNat + 256 * c) := by
          rw [number_append, number_singleton, List.length_append, List.length_singleton,
            Nat.pow_succ, Nat.mul_assoc, Nat.add_assoc, ← Nat.mul_add]
      _ = number bs + 256 ^ bs.length * out + 256 ^ bs.length * (2 * r.toNat) := by
          rw [first, Nat.mul_add]
          omega
      _ = 2 * (number rs + 256 ^ bs.length * r.toNat) + c' := by
          rw [balance, Nat.mul_left_comm]
          omega
      _ = 2 * number (rs ++ [r]) + c' := by
          rw [number_append, number_singleton, length]

/-- Rotating bytes to the left one after another shifts the number that they make: by induction on
    the bytes, with the carry of each brought into the next. -/
theorem rotateLeft_thread (bs : List Byte) (p : Status) :
    ShiftedLeft (carryIn p) bs (thread p (bs.map rotateLeft)).1
      (carryIn (thread p (bs.map rotateLeft)).2) := by
  induction bs generalizing p with
  | nil =>
      refine ⟨rfl, ?_⟩
      show 0 + 1 * carryIn p = 2 * 0 + carryIn p
      omega
  | cons b bs ih =>
      exact (ih (rotateLeft b p).status).cons (Alu.value_shiftLeft (p.get .carry) b p)

/-- The bytes are given highest first. -/
theorem rotateRight_thread (bs : List Byte) (p : Status) :
    ShiftedRight (carryIn p) bs.reverse (thread p (bs.map rotateRight)).1.reverse
      (carryIn (thread p (bs.map rotateRight)).2) := by
  induction bs generalizing p with
  | nil =>
      refine ⟨rfl, ?_⟩
      show 0 + 1 * carryIn p = 2 * 0 + carryIn p
      omega
  | cons b bs ih =>
      rw [List.map_cons, thread, List.reverse_cons, List.reverse_cons]
      exact (ih (rotateRight b p).status).concat (Alu.value_shiftRight (p.get .carry) b p)

/-- Half of the double, the bits that came in going out again. -/
theorem ShiftedRight.undo {c c' c'' : Nat} {bs rs back : List Byte} (bit : c ≤ 1) (bit' : c'' ≤ 1)
    (left : ShiftedLeft c bs rs c') (right : ShiftedRight c' rs back c'') :
    back = bs ∧ c'' = c := by
  obtain ⟨length, balance⟩ := left
  obtain ⟨length', balance'⟩ := right
  rw [length, balance] at balance'
  refine ⟨number_inj (length'.trans length) ?_, ?_⟩
  · omega
  · omega

variable {β : Type} [Bus β]

/-! ## Operations, of which the first may shift -/

/-- An operation at the first place, and another at all later ones. -/
def led {ι : Type} (first next : Operation) : List ι → List (Operation × ι)
  | [] => []
  | i :: is => (first, i) :: is.map (Prod.mk next)

theorem led_self {ι : Type} (op : Operation) (is : List ι) : led op op is = is.map (Prod.mk op) := by
  cases is <;> rfl

/-- What a chain of rotations may begin with, and what then comes in at its end of the number. -/
def openings (rotation shift : Operation) (p : Status) : List (Operation × Nat) :=
  [(rotation, carryIn p), (shift, 0)]

/-- A chain is opened by a rotation, which brings in the carry, or by a shift, which brings in
    nothing. -/
theorem mem_openings_iff {rotation shift first : Operation} {p : Status} {c : Nat} :
    (first, c) ∈ openings rotation shift p ↔
      first = rotation ∧ c = carryIn p ∨ first = shift ∧ c = 0 := by
  simp only [openings, List.mem_cons, Prod.mk.injEq, List.not_mem_nil, or_false]

/-! ### Through the accumulator -/

/-- The bytes of a number are in the accumulator, each at its site. -/
structure InAccumulator (bs : List Byte) (sites : List (Site β)) : Prop where
  terms : sites.map Site.term = bs
  operands : ∀ s ∈ sites, s.operand = .accumulator

variable {bcd : Bool} {bs : List Byte} {sites : List (Site β)}

/-- A shift of the accumulator gives what it says for the byte there. -/
theorem outcome_modify {op : Operation} {f : Byte → Status → Outcome}
    (runs : op.effect bcd = .modify f) {s : Site β} (place : s.operand = .accumulator) (p : Status) :
    outcome bcd op s p = f s.term p := by
  rw [outcome, after, Machine.execute, runs, place]
  rfl

/-- A chain of shifts of the accumulator threads the carry through its bytes. -/
theorem chain_modify {op : Operation} {f : Byte → Status → Outcome}
    (runs : op.effect bcd = .modify f) (holds : InAccumulator bs sites) (p : Status) :
    chain bcd p (sites.map (Prod.mk op)) = thread p (bs.map f) := by
  obtain ⟨rfl, operands⟩ := holds
  rw [chain, List.map_map, List.map_map]
  congr 1
  refine List.map_congr_left fun s mem => ?_
  funext q
  exact outcome_modify runs (operands s mem) q

/-- A chain that begins with a shift is one of rotations, without the carry. -/
theorem chain_opening {rotation shift first : Operation} {c : Nat} {p : Status}
    (shifts : Machine.Shifts shift rotation) (nonempty : sites ≠ [])
    (opening : (first, c) ∈ openings rotation shift p) :
    ∃ q, carryIn q = c ∧
      chain bcd p (led first rotation sites) = chain bcd q (sites.map (Prod.mk rotation)) := by
  obtain ⟨s, rest, rfl⟩ := List.exists_cons_of_ne_nil nonempty
  obtain ⟨rfl, rfl⟩ | ⟨rfl, rfl⟩ := mem_openings_iff.mp opening
  · exact ⟨p, rfl, by rw [led_self]⟩
  · have same : outcome bcd first s p = outcome bcd rotation s (Alu.uncarried p) := by
      rw [outcome, after, shifts]
      rfl
    refine ⟨Alu.uncarried p, Alu.carryIn_uncarried p, ?_⟩
    rw [led, chain, List.map_cons, thread, same]
    rfl

omit [Bus β] in
theorem InAccumulator.ne_nil (holds : InAccumulator bs sites) (nonempty : bs ≠ []) : sites ≠ [] := by
  rintro rfl
  exact nonempty holds.terms.symm

/-! ### In memory -/

/-- Executes operations, each on its cell, one after the other on one machine. -/
def sweep (bcd : Bool) (m : Machine Ram) (turns : List (Operation × Word)) : Machine Ram :=
  turns.foldl (fun m t => (m.execute bcd t.1 (.address t.2)).2) m

/-- The bytes in cells. -/
def cells (m : Machine Ram) (places : List Word) : List Byte :=
  places.map m.bus.peek

variable {m : Machine Ram} {places : List Word}

theorem cells_reverse (m : Machine Ram) (places : List Word) :
    cells m places.reverse = (cells m places).reverse :=
  List.map_reverse

/-- From `m` to `m'` the bytes in cells are threaded through a function, and no other cell changes. -/
structure Sweeps (f : Byte → Status → Outcome) (m : Machine Ram) (places : List Word)
    (m' : Machine Ram) : Prop where
  bytes : cells m' places = (thread m.regs.p ((cells m places).map f)).1
  status : m'.regs.p = (thread m.regs.p ((cells m places).map f)).2
  mapped : m'.bus.mapped = 0x10000
  frame : ∀ x, x ∉ places → m'.bus.peek x = m.bus.peek x

/-- Operations on distinct cells do not see each other. -/
theorem sweeps_sweep (bcd : Bool) (op : Operation) {f : Byte → Status → Outcome}
    (runs : op.effect bcd = .modify f) (full : m.bus.mapped = 0x10000) (distinct : places.Nodup) :
    Sweeps f m places (sweep bcd m (places.map (Prod.mk op))) := by
  induction places generalizing m with
  | nil => exact ⟨rfl, rfl, full, fun _ _ => rfl⟩
  | cons a rest ih =>
      obtain ⟨apart, restDistinct⟩ := List.nodup_cons.mp distinct
      obtain ⟨status, full', bytes⟩ := Machine.execute_modify runs full a
      have later := ih full' restDistinct
      -- the first cell is none of the others, which are as they were
      have untouched : cells (m.execute bcd op (.address a)).2 rest = cells m rest := by
        refine List.map_congr_left fun x mem => ?_
        rw [bytes, if_neg]
        rintro rfl
        exact apart mem
      have laterBytes := later.bytes
      have laterStatus := later.status
      rw [untouched, status] at laterBytes laterStatus
      refine ⟨?_, laterStatus, later.mapped, ?_⟩
      · refine congr (congrArg List.cons ?_) laterBytes
        exact (later.frame a apart).trans ((bytes a).trans (if_pos rfl))
      · intro x out
        obtain ⟨here, outside⟩ := not_or.mp (mt List.mem_cons.mpr out)
        refine (later.frame x outside).trans ((bytes x).trans (if_neg ?_))
        exact fun same => here same.symm

/-- A sweep of rotations to the left shifts the number in memory. -/
theorem Sweeps.left {m' : Machine Ram} (sweeps : Sweeps rotateLeft m places m') :
    ShiftedLeft (carryIn m.regs.p) (cells m places) (cells m' places) (carryIn m'.regs.p) := by
  rw [sweeps.bytes, sweeps.status]
  exact rotateLeft_thread (cells m places) m.regs.p

/-- A sweep of rotations to the right, from the last place back, shifts the number in memory. -/
theorem Sweeps.right {m' : Machine Ram} (sweeps : Sweeps rotateRight m places.reverse m') :
    ShiftedRight (carryIn m.regs.p) (cells m places) (cells m' places) (carryIn m'.regs.p) := by
  have right := rotateRight_thread (cells m places.reverse) m.regs.p
  rw [← sweeps.bytes, ← sweeps.status, cells_reverse, cells_reverse, List.reverse_reverse,
    List.reverse_reverse] at right
  exact right

/-- A sweep that a shift opens is one of rotations alone, from a machine with the carry taken away.
    -/
theorem sweep_opening (bcd : Bool) {rotation shift first : Operation} {c : Nat}
    (shifts : Machine.Shifts shift rotation) (nonempty : places ≠ [])
    (opening : (first, c) ∈ openings rotation shift m.regs.p) :
    ∃ m' : Machine Ram, m'.bus = m.bus ∧ carryIn m'.regs.p = c ∧
      sweep bcd m (led first rotation places) = sweep bcd m' (places.map (Prod.mk rotation)) := by
  obtain ⟨a, rest, rfl⟩ := List.exists_cons_of_ne_nil nonempty
  obtain ⟨rfl, rfl⟩ | ⟨rfl, rfl⟩ := mem_openings_iff.mp opening
  · exact ⟨m, rfl, rfl, by rw [led_self]⟩
  · refine ⟨m.mapRegs (·.mapStatus Alu.uncarried), rfl, Alu.carryIn_uncarried m.regs.p, ?_⟩
    rw [led, sweep, List.foldl_cons, shifts]
    rfl

/-! ### Both ways -/

/-- How a number is shifted through the accumulator, from P at the start. -/
structure ShiftsInAccumulator (β : Type) [Bus β] (bcd : Bool) (bs : List Byte) (p : Status) :
    Prop where
  left : ∀ {sites : List (Site β)} {first : Operation} {c : Nat}, InAccumulator bs sites →
    (first, c) ∈ openings .rol .asl p →
      let after := chain bcd p (led first .rol sites)
      ShiftedLeft c bs after.1 (carryIn after.2)
  /-- To the right the bytes come highest first. -/
  right : ∀ {sites : List (Site β)} {first : Operation} {c : Nat},
    InAccumulator bs.reverse sites → (first, c) ∈ openings .ror .lsr p →
      let after := chain bcd p (led first .ror sites)
      ShiftedRight c bs after.1.reverse (carryIn after.2)
  back : ∀ {sites sites' : List (Site β)}, InAccumulator bs sites →
    let there := chain bcd p (sites.map (Prod.mk .rol))
    InAccumulator there.1.reverse sites' →
      let back := chain bcd there.2 (sites'.map (Prod.mk .ror))
      back.1.reverse = bs ∧ back.2.get .carry = p.get .carry

/-- How a number is shifted in memory, its bytes in cells that are given lowest first. -/
structure ShiftsInMemory (bcd : Bool) (m : Machine Ram) (places : List Word) : Prop where
  left : ∀ {first : Operation} {c : Nat}, (first, c) ∈ openings .rol .asl m.regs.p →
    let after := sweep bcd m (led first .rol places)
    ShiftedLeft c (cells m places) (cells after places) (carryIn after.regs.p)
  right : ∀ {first : Operation} {c : Nat}, (first, c) ∈ openings .ror .lsr m.regs.p →
    let after := sweep bcd m (led first .ror places.reverse)
    ShiftedRight c (cells m places) (cells after places) (carryIn after.regs.p)
  /-- The way back restores all of memory. -/
  back :
    let there := sweep bcd m (places.map (Prod.mk .rol))
    let back := sweep bcd there (places.reverse.map (Prod.mk .ror))
    back.bus = m.bus ∧ back.regs.p.get .carry = m.regs.p.get .carry

/-- Chains through the accumulator shift numbers of any length, to either side. -/
theorem shiftsInAccumulator (β : Type) [Bus β] (bcd : Bool) {bs : List Byte} (nonempty : bs ≠ [])
    (p : Status) : ShiftsInAccumulator β bcd bs p where
  left holds opening := by
    obtain ⟨q, rfl, same⟩ := chain_opening Machine.shifts_asl (holds.ne_nil nonempty) opening
    rw [same, chain_modify rfl holds]
    exact rotateLeft_thread bs q
  right holds opening := by
    have sites := holds.ne_nil (mt List.reverse_eq_nil_iff.mp nonempty)
    obtain ⟨q, rfl, same⟩ := chain_opening Machine.shifts_lsr sites opening
    have right := rotateRight_thread bs.reverse q
    rw [List.reverse_reverse] at right
    rw [same, chain_modify rfl holds]
    exact right
  back holds := by
    intro there holds' back
    have left : there = thread p (bs.map rotateLeft) := chain_modify rfl holds p
    have right : back = thread there.2 (there.1.reverse.map rotateRight) :=
      chain_modify rfl holds' there.2
    have forth := rotateLeft_thread bs p
    have again := rotateRight_thread there.1.reverse there.2
    rw [← left] at forth
    rw [← right, List.reverse_reverse] at again
    obtain ⟨bytes, carry⟩ :=
      again.undo (Alu.carryIn_le p) (Alu.carryIn_le back.2) forth
    exact ⟨bytes, Alu.get_carry_of_carryIn carry⟩

/-- Sweeps through memory shift numbers of any length, to either side, where their places are
    different and mapped. -/
theorem shiftsInMemory (bcd : Bool) (full : m.bus.mapped = 0x10000) (distinct : places.Nodup)
    (nonempty : places ≠ []) : ShiftsInMemory bcd m places := by
  have downwards := (List.reverse_perm places).nodup_iff.mpr distinct
  have downNonempty := mt List.reverse_eq_nil_iff.mp nonempty
  refine ⟨?_, ?_, ?_⟩
  · intro first c opening after
    obtain ⟨m', bus, rfl, same⟩ := sweep_opening bcd Machine.shifts_asl nonempty opening
    have before : cells m places = cells m' places := by rw [cells, cells, bus]
    rw [show after = _ from same, before]
    exact (sweeps_sweep bcd .rol rfl (bus ▸ full) distinct).left
  · intro first c opening after
    obtain ⟨m', bus, rfl, same⟩ := sweep_opening bcd Machine.shifts_lsr downNonempty opening
    have before : cells m places = cells m' places := by rw [cells, cells, bus]
    rw [show after = _ from same, before]
    exact (sweeps_sweep bcd .ror rfl (bus ▸ full) downwards).right
  · intro there back
    have forth := sweeps_sweep bcd .rol rfl full distinct
    have again := sweeps_sweep bcd .ror rfl forth.mapped downwards
    obtain ⟨bytes, carry⟩ :=
      again.right.undo (Alu.carryIn_le _) (Alu.carryIn_le back.regs.p) forth.left
    refine ⟨Ram.eq_of_peek (again.mapped.trans full.symm) fun x => ?_,
      Alu.get_carry_of_carryIn carry⟩
    by_cases mem : x ∈ places
    · exact List.map_inj_left.mp bytes x mem
    · rw [again.frame x (mt List.mem_reverse.mp mem), forth.frame x mem]

/-- **Chains of rotations shift whole numbers,** to the left from the lowest byte on and to the
    right from the highest, a shift in place of the first rotation letting nothing in; and the way
    right undoes the way left.  So it is through the accumulator, and in distinct cells of memory. -/
theorem numbers_shift (β : Type) [Bus β] (bcd : Bool) :
    (∀ {bs : List Byte} (p : Status), bs ≠ [] → ShiftsInAccumulator β bcd bs p) ∧
      ∀ {m : Machine Ram} {places : List Word}, m.bus.mapped = 0x10000 → places.Nodup →
        places ≠ [] → ShiftsInMemory bcd m places := by
  constructor
  · intro bs p nonempty
    exact shiftsInAccumulator β bcd nonempty p
  · intro m places full distinct nonempty
    exact shiftsInMemory bcd full distinct nonempty

/-- A byte in the accumulator, as the operand too. -/
def accumulatorSite (b : Byte) : Site Ram :=
  ⟨⟨{ Registers.new with a := b }, Ram.blank 0⟩, .accumulator⟩

/-- $80FF doubled: with ASL through the accumulator, and with ROL and the carry set in memory, from
    where it comes back. -/
theorem numbers_shift_outAndBack :
    let bs := [0xFF#8, 0x80#8]
    let p := Status.reset.set .carry true
    let sites := bs.map accumulatorSite
    let doubled := chain true p (led .asl .rol sites)
    let m : Machine Ram := ⟨{ Registers.new with p := p }, Ram.full.load 0x0010#16 bs⟩
    let places := [0x0010#16, 0x0011#16]
    let there := sweep true m (places.map (Prod.mk .rol))
    let back := sweep true there (places.reverse.map (Prod.mk .ror))
    bs ≠ [] ∧ InAccumulator bs sites ∧ number doubled.1 = 0x01FE ∧ carryIn doubled.2 = 1 ∧
      m.bus.mapped = 0x10000 ∧ places.Nodup ∧ places ≠ [] ∧ number (cells m places) = 0x80FF ∧
      number (cells there places) = 0x01FF ∧ carryIn there.regs.p = 1 ∧ back.bus = m.bus ∧
      back.regs.p.get .carry = true := by
  intro bs p sites doubled m places there back
  have nonempty : bs ≠ [] := by decide
  have holds : InAccumulator bs sites := ⟨by decide, by decide⟩
  have full : Ram.full.mapped = 0x10000 := Ram.mapped_blank _
  have mapped : m.bus.mapped = 0x10000 := (Ram.mapped_load ..).trans full
  have distinct : places.Nodup := by decide
  have somewhere : places ≠ [] := by decide
  have held : cells m places = bs := by
    have first : m.bus.peek 0x0010#16 = 0xFF#8 :=
      (Ram.peek_load ..).trans (if_pos ⟨by decide, by decide, by rw [full]; decide⟩)
    have second : m.bus.peek 0x0011#16 = 0x80#8 :=
      (Ram.peek_load ..).trans (if_pos ⟨by decide, by decide, by rw [full]; decide⟩)
    rw [cells, List.map_cons, List.map_cons, first, second]
    rfl
  have value : number bs = 0x80FF := by decide
  have asl : (Operation.asl, 0) ∈ openings .rol .asl p := by decide
  have rol : (Operation.rol, 1) ∈ openings .rol .asl m.regs.p := by decide
  obtain ⟨inAccumulator, inMemory⟩ := numbers_shift Ram true
  have shifts := inMemory mapped distinct somewhere
  have asled : ShiftedLeft 0 bs doubled.1 (carryIn doubled.2) :=
    (inAccumulator p nonempty).left holds asl
  have roled : ShiftedLeft 1 bs (cells there places) (carryIn there.regs.p) := by
    rw [← held]
    exact shifts.left rol
  obtain ⟨restored, carry⟩ := shifts.back
  obtain ⟨length, balance⟩ := asled
  obtain ⟨length', balance'⟩ := roled
  have small := number_lt doubled.1
  have small' := number_lt (cells there places)
  rw [length, show bs.length = 2 from rfl] at small
  rw [length', show bs.length = 2 from rfl] at small'
  rw [value, show bs.length = 2 from rfl] at balance balance'
  refine ⟨nonempty, holds, ?_, ?_, mapped, distinct, somewhere, ?_, ?_, ?_, restored,
    carry.trans (by decide)⟩
  · omega
  · omega
  · rw [held, value]
  · omega
  · omega

end Multibyte

end Micro6502
