import Micro6502.Processor

/-! # Assembling a processor

    A host that has its bus and its configuration from different places
    hands them to a builder.  A bus is needed; a configuration is not.

    In whatever order parts are handed over, and however often, the last of
    each kind counts (`bus_handAll`, `config_handAll`): that is what the processor is made of,
    and without any bus there is none (`build_handAll`). -/

namespace Micro6502

/-- What a processor is to be made of. -/
structure Builder (β : Type) where
  bus : Option β := none
  config : Config := {}

namespace Builder

/-- Why no processor could be made. -/
inductive Error where
  /-- No bus was supplied. -/
  | missingBus
  deriving DecidableEq, Repr

/-- The wording of an error. -/
def Error.message : Error → String
  | .missingBus => "cannot build CPU: no bus supplied"

variable {β : Type}

/-- Supplies the bus. -/
def withBus (bus : β) (b : Builder β) : Builder β := { b with bus := some bus }

/-- Supplies the configuration. -/
def withConfig (config : Config) (b : Builder β) : Builder β := { b with config := config }

/-- The processor, after its first reset. -/
def build [Bus β] (b : Builder β) : Except Error (Processor β) :=
  match b.bus with
  | none => .error .missingBus
  | some bus => .ok (.powerOn bus b.config)

/-! ## Parts in any order -/

/-- What a host can hand over. -/
inductive Part (β : Type) where
  | bus (bus : β)
  | config (config : Config)

/-- The bus that a part is. -/
def Part.bus? : Part β → Option β
  | .bus b => some b
  | .config _ => none

/-- The configuration that a part is. -/
def Part.config? : Part β → Option Config
  | .bus _ => none
  | .config c => some c

/-- A part is handed over. -/
def hand (b : Builder β) : Part β → Builder β
  | .bus bus => b.withBus bus
  | .config config => b.withConfig config

/-- Parts are handed over one after another. -/
def handAll (b : Builder β) (parts : List (Part β)) : Builder β := parts.foldl hand b

/-- The last pick of a list, or what was there before it, is the last pick of the rest, or else the
    pick of the head, or what was there before. -/
private theorem getLast?_filterMap_cons {α γ : Type} (pick : α → Option γ) (x : α) (xs : List α)
    (before : Option γ) :
    ((x :: xs).filterMap pick).getLast?.or before =
      (xs.filterMap pick).getLast?.or ((pick x).or before) := by
  cases picked : pick x with
  | none => rw [List.filterMap_cons_none picked, Option.none_or]
  | some y =>
      rw [List.filterMap_cons_some picked, List.getLast?_cons]
      cases (xs.filterMap pick).getLast? with
      | none => rfl
      | some z => rfl

/-- The bus of a builder is the last one handed over, or the one it had. -/
theorem bus_handAll (b : Builder β) (parts : List (Part β)) :
    (b.handAll parts).bus = (parts.filterMap Part.bus?).getLast?.or b.bus := by
  induction parts generalizing b with
  | nil => rfl
  | cons part parts ih =>
      have one : (b.hand part).bus = part.bus?.or b.bus := by
        cases part with
        | bus b => rfl
        | config c => rfl
      show ((b.hand part).handAll parts).bus = _
      rw [ih, one, getLast?_filterMap_cons]

/-- The configuration of a builder is the last one handed over, or the one it had. -/
theorem config_handAll (b : Builder β) (parts : List (Part β)) :
    (b.handAll parts).config = (parts.filterMap Part.config?).getLast?.getD b.config := by
  induction parts generalizing b with
  | nil => rfl
  | cons part parts ih =>
      have one : some (b.hand part).config = part.config?.or (some b.config) := by
        cases part with
        | bus b => rfl
        | config c => rfl
      show ((b.hand part).handAll parts).config = _
      rw [ih]
      apply Option.some.inj
      rw [← Option.or_some, ← Option.or_some, one, getLast?_filterMap_cons]

/-- **Building.**  Whatever parts were handed over, there is a processor just where a bus was among
    them; it is on the last of these, with the last configuration or the one by default, fresh from
    its reset. -/
theorem build_handAll [Bus β] (parts : List (Part β)) :
    (({} : Builder β).handAll parts).build =
      match (parts.filterMap Part.bus?).getLast? with
      | none => .error .missingBus
      | some bus => .ok (.powerOn bus ((parts.filterMap Part.config?).getLast?.getD {})) := by
  rw [build, bus_handAll, config_handAll, Option.or_none]

end Builder

end Micro6502
