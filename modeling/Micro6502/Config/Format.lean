import Micro6502.Config.Json

/-! # Formats — what reading and writing is left to

    Nothing in this library takes a document apart.  An enumeration or a
    record is declared, and a format reads and writes whatever is declared.
    A format is a parameter (`Format`), and what it documents are laws about
    every declaration (`Format.Lawful`):

    * a value of an enumeration is read from its name, or from an object with
      that name alone and null behind it, and is written as its name;
    * a record is read from an object, where other members do not count, or
      from an array, in the order of the fields; a field that is not given
      keeps its default;
    * what is said of a document that is refused is left open. -/

namespace Micro6502

/-! ## Declarations -/

/-- An enumeration: its values, and the name that each has in a document. -/
structure Enumeration (α : Type) where
  values : List α
  name : α → String

/-- The value of a name. -/
def Enumeration.find? {α : Type} (e : Enumeration α) (name : String) : Option α :=
  e.values.find? fun v => e.name v == name

/-- A field of records of type `α`. -/
structure Field (ν ε α : Type) where
  key : String
  /-- What a value does to a record when it is read as the field. -/
  read : Json ν → Except ε (α → α)
  /-- The field of a record, written. -/
  write : α → Except ε (Json ν)

/-- A record: its name, what it is where no field is given, and its fields in order. -/
structure Record (ν ε α : Type) where
  name : String
  default : α
  fields : List (Field ν ε α)

/-- A format reads and writes what is declared, or refuses with an `ε`. -/
structure Format (ν ε : Type) where
  readEnum {α : Type} : Enumeration α → Json ν → Except ε α
  writeEnum {α : Type} : Enumeration α → α → Except ε (Json ν)
  readRecord {α : Type} : Record ν ε α → Json ν → Except ε α
  writeRecord {α : Type} : Record ν ε α → α → Except ε (Json ν)

/-! ## Laws -/

namespace Field

variable {ν ε α : Type}

/-- Fields read from the members of an object take the record `r` to `r'`: each from the member of
its key, or not at all where there is none. -/
inductive ReadsMembers (members : List (String × Json ν)) :
    List (Field ν ε α) → α → α → Prop where
  | done (r : α) : ReadsMembers members [] r r
  | absent {f : Field ν ε α} {fs : List (Field ν ε α)} {r r' : α}
      (missing : members.lookup f.key = none) (rest : ReadsMembers members fs r r') :
      ReadsMembers members (f :: fs) r r'
  | present {f : Field ν ε α} {fs : List (Field ν ε α)} {r r' : α} {j : Json ν} {set : α → α}
      (held : members.lookup f.key = some j) (read : f.read j = .ok set)
      (rest : ReadsMembers members fs (set r) r') :
      ReadsMembers members (f :: fs) r r'

/-- Fields read from the items of an array take the record `r` to `r'`: each from the item in its
place, the last ones not at all where there are fewer items. -/
inductive ReadsItems : List (Field ν ε α) → List (Json ν) → α → α → Prop where
  | done (fs : List (Field ν ε α)) (r : α) : ReadsItems fs [] r r
  | item {f : Field ν ε α} {fs : List (Field ν ε α)} {j : Json ν} {items : List (Json ν)}
      {r r' : α} {set : α → α} (read : f.read j = .ok set) (rest : ReadsItems fs items (set r) r') :
      ReadsItems (f :: fs) (j :: items) r r'

/-- Fields of the record `r` are written as members. -/
inductive Writes (r : α) : List (Field ν ε α) → List (String × Json ν) → Prop where
  | done : Writes r [] []
  | field {f : Field ν ε α} {fs : List (Field ν ε α)} {j : Json ν}
      {members : List (String × Json ν)} (write : f.write r = .ok j)
      (rest : Writes r fs members) :
      Writes r (f :: fs) ((f.key, j) :: members)

/-- One field is read from its member, if there is one. -/
theorem readsMembers_singleton {members : List (String × Json ν)} {f : Field ν ε α} {r r' : α} :
    ReadsMembers members [f] r r' ↔
      (members.lookup f.key = none ∧ r' = r) ∨
        ∃ j set, members.lookup f.key = some j ∧ f.read j = .ok set ∧ r' = set r := by
  constructor
  · intro reads
    cases reads with
    | absent missing rest =>
        cases rest
        exact Or.inl ⟨missing, rfl⟩
    | present held read rest =>
        cases rest
        exact Or.inr ⟨_, _, held, read, rfl⟩
  · rintro (⟨missing, rfl⟩ | ⟨j, set, held, read, rfl⟩)
    · exact .absent missing (.done r')
    · exact .present held read (.done (set r))

/-- One field is read from the only item, if there is one. -/
theorem readsItems_singleton {items : List (Json ν)} {f : Field ν ε α} {r r' : α} :
    ReadsItems [f] items r r' ↔
      (items = [] ∧ r' = r) ∨ ∃ j set, items = [j] ∧ f.read j = .ok set ∧ r' = set r := by
  constructor
  · intro reads
    cases reads with
    | done => exact Or.inl ⟨rfl, rfl⟩
    | item read rest =>
        cases rest
        exact Or.inr ⟨_, _, rfl, read, rfl⟩
  · rintro (⟨rfl, rfl⟩ | ⟨j, set, rfl, read, rfl⟩)
    · exact .done [f] r'
    · exact .item read (.done [] (set r))

/-- The members whose keys are those of fields. -/
def known (fs : List (Field ν ε α)) (members : List (String × Json ν)) :
    List (String × Json ν) :=
  members.filter fun m => fs.any fun f => m.1 == f.key

end Field

/-- A format keeps to what it documents, whatever is declared. -/
structure Format.Lawful {ν ε : Type} (format : Format ν ε) : Prop where
  /-- A value of an enumeration is read from its name. -/
  enum_name {α : Type} (e : Enumeration α) {name : String} {v : α} :
    e.find? name = some v → format.readEnum e (.string name) = .ok v
  /-- It is read from an object with its name as the only key and null behind it. -/
  enum_key {α : Type} (e : Enumeration α) {name : String} {v : α} :
    e.find? name = some v → format.readEnum e (.object [(name, .null)]) = .ok v
  /-- It is read from nothing else. -/
  enum_only {α : Type} (e : Enumeration α) {j : Json ν} {v : α} :
    format.readEnum e j = .ok v →
      ∃ name, e.find? name = some v ∧ (j = .string name ∨ j = .object [(name, .null)])
  /-- It is written as its name. -/
  enum_written {α : Type} (e : Enumeration α) {v : α} :
    v ∈ e.values → format.writeEnum e v = .ok (.string (e.name v))
  /-- A record is read from an object, each field from the member of its key. -/
  record_members {α : Type} (d : Record ν ε α) {members : List (String × Json ν)} {r : α} :
    (Json.object members).DistinctKeys →
      (format.readRecord d (.object members) = .ok r ↔
        Field.ReadsMembers members d.fields d.default r)
  /-- Members whose keys are of no field are passed over, be there an error in others or not. -/
  record_known {α : Type} (d : Record ν ε α) {members members' : List (String × Json ν)} :
    Field.known d.fields members' = Field.known d.fields members →
      format.readRecord d (.object members') = format.readRecord d (.object members)
  /-- A record is read from an array, each field from the item in its place. -/
  record_items {α : Type} (d : Record ν ε α) {items : List (Json ν)} {r : α} :
    format.readRecord d (.array items) = .ok r ↔ Field.ReadsItems d.fields items d.default r
  /-- A record is read from nothing else. -/
  record_only {α : Type} (d : Record ν ε α) {j : Json ν} {r : α} :
    format.readRecord d j = .ok r →
      (∃ members, j = .object members) ∨ ∃ items, j = .array items
  /-- A record is written as the object of its fields, in some order. -/
  record_written {α : Type} (d : Record ν ε α) {r : α} {members : List (String × Json ν)} :
    Field.Writes r d.fields members → (Json.object members).DistinctKeys →
      ∃ members', members'.Perm members ∧ format.writeRecord d r = .ok (.object members')

end Micro6502
