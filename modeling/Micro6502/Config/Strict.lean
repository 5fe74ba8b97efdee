import Micro6502.Config.Format

/-! # The strict format — a format that keeps the laws and no more

    It reads what every format has to read (`Format.Lawful`), and refuses the
    rest.  What it says of a refusal is for its user to choose
    (`Refusals`). -/

namespace Micro6502

/-- What a format says of the documents that it refuses. -/
structure Refusals (ν ε : Type) where
  /-- This is no name of an enumeration, and no object with one. -/
  notName (found : Json ν) : ε
  /-- An object in the place of a name has no key, or more than one. -/
  notOneKey : ε
  /-- A name is none of these. -/
  unknownName (name : String) (names : List String) : ε
  /-- This stands behind a name. -/
  notNull (found : Json ν) : ε
  /-- This is neither object nor array, and so no record of this name. -/
  notRecord (found : Json ν) (name : String) : ε
  /-- An array of so many items has more than a record has fields. -/
  tooLong (length : Nat) : ε

namespace Strict

variable {ν ε α : Type}

/-- The value of a name. -/
def named (say : Refusals ν ε) (e : Enumeration α) (name : String) : Except ε α :=
  match e.find? name with
  | some v => .ok v
  | none => .error (say.unknownName name (e.values.map e.name))

/-- What may stand behind a name that is a key. -/
def nothing (say : Refusals ν ε) : Json ν → Except ε Unit
  | .null => .ok ()
  | other => .error (say.notNull other)

/-- The value of an enumeration that a document gives. -/
def readEnum (say : Refusals ν ε) (e : Enumeration α) : Json ν → Except ε α
  | .string name => named say e name
  | .object [(name, content)] =>
      (named say e name).bind fun v => (nothing say content).map fun _ => v
  | .object _ => .error say.notOneKey
  | other => .error (say.notName other)

/-- A record with its fields read from members. -/
def fillMembers (members : List (String × Json ν)) : List (Field ν ε α) → α → Except ε α
  | [], r => .ok r
  | f :: fs, r =>
      match members.lookup f.key with
      | none => fillMembers members fs r
      | some j => (f.read j).bind fun set => fillMembers members fs (set r)

/-- A record with its fields read from the items that are left of an array of some length. -/
def fillItems (say : Refusals ν ε) (length : Nat) :
    List (Field ν ε α) → List (Json ν) → α → Except ε α
  | _, [], r => .ok r
  | [], _ :: _, _ => .error (say.tooLong length)
  | f :: fs, j :: items, r =>
      (f.read j).bind fun set => fillItems say length fs items (set r)

/-- The record that a document gives. -/
def readRecord (say : Refusals ν ε) (d : Record ν ε α) : Json ν → Except ε α
  | .object members => fillMembers members d.fields d.default
  | .array items => fillItems say items.length d.fields items d.default
  | other => .error (say.notRecord other d.name)

/-- The members that fields of a record are written as. -/
def writeMembers (r : α) : List (Field ν ε α) → Except ε (List (String × Json ν))
  | [] => .ok []
  | f :: fs => (f.write r).bind fun j => (writeMembers r fs).map fun rest => (f.key, j) :: rest

end Strict

/-- The strict format with something to say of each refusal. -/
def Format.strict {ν ε : Type} (say : Refusals ν ε) : Format ν ε where
  readEnum e j := Strict.readEnum say e j
  writeEnum e v := .ok (.string (e.name v))
  readRecord d j := Strict.readRecord say d j
  writeRecord d r := (Strict.writeMembers r d.fields).map .object

end Micro6502
