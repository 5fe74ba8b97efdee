import Micro6502.Bus

/-! # A bus monitor — every access, in order

    `Monitor β` is a bus that passes each access on to a bus of type `β`
    and keeps a record of it.  The answers are those of the bus behind it
    (`read_behind`, `write_behind`), so a processor cannot tell the two apart. -/

namespace Micro6502

/-- One access: the address, and the byte that was read or written. -/
inductive Access where
  | read (a : Word) (b : Byte)
  | write (a : Word) (b : Byte)
  deriving DecidableEq, Repr

/-- Whether an access is a read. -/
def Access.isRead : Access → Bool
  | .read _ _ => true
  | .write _ _ => false

/-- A bus with the accesses made so far, newest first. -/
structure Monitor (β : Type) where
  behind : β
  recorded : List Access

namespace Monitor

variable {β : Type}

/-- A monitor that has seen nothing. -/
def attach (bus : β) : Monitor β := ⟨bus, []⟩

/-- The accesses in the order they were made. -/
def accesses (m : Monitor β) : List Access := m.recorded.reverse

/-- The monitor with the bus behind it changed by a host; that is no access. -/
def mapBehind (f : β → β) (m : Monitor β) : Monitor β :=
  let ⟨behind, recorded⟩ := m
  ⟨f behind, recorded⟩

instance [Bus β] : Bus (Monitor β) where
  read m a :=
    let ⟨behind, recorded⟩ := m
    let (b, behind) := Bus.read behind a
    (b, ⟨behind, .read a b :: recorded⟩)
  write m a b :=
    let ⟨behind, recorded⟩ := m
    ⟨Bus.write behind a b, .write a b :: recorded⟩

/-- What is recorded newest first is seen in the order it happened. -/
theorem accesses_of_recorded {m m' : Monitor β} {as : List Access}
    (h : m'.recorded = as ++ m.recorded) : m'.accesses = m.accesses ++ as.reverse := by
  rw [accesses, h, List.reverse_append]
  rfl

variable [Bus β]

theorem recorded_read (m : Monitor β) (a : Word) :
    (Bus.read m a).2.recorded = .read a (Bus.read m a).1 :: m.recorded := rfl

theorem recorded_write (m : Monitor β) (a : Word) (b : Byte) :
    (Bus.write m a b).recorded = .write a b :: m.recorded := rfl

end Monitor

end Micro6502
