import Micro6502.Config.Reading
import Micro6502.Proofs.StrictFormat

/-! # Configuration grammar — which documents are read, and as what

    The grammar is two small relations (`Config.GivesVariant`,
    `Config.Gives`), written without a reader.  Which format reads and writes
    is left open, as long as it keeps the laws of formats.  The route:

    * the laws for enumerations and records, at what a configuration is
      declared as, leave the documents of the grammar and no others
      (`readEnum_eq_ok_iff`, `ofJson_eq_ok_iff`), with the refusals open;
    * the form that is written is in the grammar (`toJson_eq`);
    * a change to an object touches the members under its own key alone
      (`filter_edit`), so changes under other keys may be left out of any run
      of changes (`filter_editAll`), with no other outcome, be it an error. -/

namespace Micro6502

namespace Json

variable {ν : Type}

theorem distinctKeys_singleton (key : String) (content : Json ν) :
    (object [(key, content)]).DistinctKeys :=
  List.pairwise_singleton (· ≠ ·) key

/-! ## Changes to an object -/

/-- A change to the members of an object. -/
inductive Edit (ν : Type) where
  /-- A member put in, in the place of one with the same key. -/
  | put (key : String) (content : Json ν)
  /-- The member of a key taken out. -/
  | remove (key : String)

namespace Edit

/-- The key of the member that a change is to. -/
def key : Edit ν → String
  | .put key _ => key
  | .remove key => key

/-- The member that is there after a change, if there is one. -/
def members : Edit ν → List (String × Json ν)
  | .put key content => [(key, content)]
  | .remove _ => []

end Edit

/-- The members of an object after a change. -/
def edit (members : List (String × Json ν)) (e : Edit ν) : List (String × Json ν) :=
  (members.filter fun m => m.1 != e.key) ++ e.members

/-- The members of an object after some changes, in order. -/
def editAll (members : List (String × Json ν)) (es : List (Edit ν)) : List (String × Json ν) :=
  es.foldl edit members

/-- What a change puts in is under its key. -/
theorem filter_members (e : Edit ν) (key : String) :
    (e.members.filter fun m => m.1 == key) = if e.key = key then e.members else [] := by
  cases e with
  | put name content =>
      show ([(name, content)].filter fun m => m.1 == key) =
        if name = key then [(name, content)] else []
      rw [List.filter_cons, List.filter_nil]
      by_cases here : name = key
      · rw [if_pos here, if_pos (beq_iff_eq.mpr here)]
      · rw [if_neg here, if_neg (by simpa using here)]
  | remove name =>
      show [] = if name = key then [] else []
      split <;> rfl

/-- A change is to the members under its key, and to no other. -/
theorem filter_edit (members : List (String × Json ν)) (e : Edit ν) (key : String) :
    ((edit members e).filter fun m => m.1 == key) =
      if e.key = key then e.members else members.filter fun m => m.1 == key := by
  rw [edit, List.filter_append, List.filter_filter, filter_members]
  by_cases here : e.key = key
  · have gone : (members.filter fun m => m.1 == key && m.1 != e.key) = [] := by
      refine List.filter_eq_nil_iff.mpr ?_
      intro m _ both
      obtain ⟨same, other⟩ := Bool.and_eq_true_iff.mp both
      rw [here, bne_iff_ne] at other
      exact other (beq_iff_eq.mp same)
    rw [if_pos here, if_pos here, gone, List.nil_append]
  · have kept : (fun m : String × Json ν => m.1 == key && m.1 != e.key) = fun m => m.1 == key := by
      funext m
      by_cases same : m.1 = key
      · subst same
        simp [Ne.symm here]
      · simp [same]
    rw [if_neg here, if_neg here, kept, List.append_nil]

/-- Changes under other keys may be left out. -/
theorem filter_editAll (key : String) (es : List (Edit ν))
    {members members' : List (String × Json ν)}
    (same : (members'.filter fun m => m.1 == key) = members.filter fun m => m.1 == key) :
    ((editAll members' (es.filter fun e => e.key == key)).filter fun m => m.1 == key) =
      (editAll members es).filter fun m => m.1 == key := by
  induction es generalizing members members' with
  | nil => exact same
  | cons e es ih =>
      rw [List.filter_cons]
      by_cases here : e.key = key
      · rw [if_pos (beq_iff_eq.mpr here)]
        refine ih ?_
        rw [filter_edit, filter_edit, if_pos here, if_pos here]
      · rw [if_neg (by simpa using here)]
        refine ih ?_
        rw [filter_edit, if_neg here]
        exact same

end Json

namespace Config

variable {ν ε : Type}

/-! ## The grammar -/

/-- The names of the variants. -/
inductive Names : String → Variant → Prop where
  | nmos : Names "nmos6502" .nmos6502
  | ricoh : Names "ricoh2a03" .ricoh2A03

/-- The documents that give a variant: its name, and the object of its name alone with null behind
it. -/
inductive GivesVariant : Json ν → Variant → Prop where
  | bare {name : String} {v : Variant} (names : Names name v) : GivesVariant (.string name) v
  | keyed {name : String} {v : Variant} (names : Names name v) :
      GivesVariant (.object [(name, .null)]) v

/-- The documents that give a configuration: objects whose member under `variant` gives a variant,
if there is one, and arrays of at most one document, which gives a variant. -/
inductive Gives : Json ν → Config → Prop where
  | unset {members : List (String × Json ν)} (absent : members.lookup "variant" = none) :
      Gives (.object members) ⟨.nmos6502⟩
  | set {members : List (String × Json ν)} {j : Json ν} {v : Variant}
      (held : members.lookup "variant" = some j) (gives : GivesVariant j v) :
      Gives (.object members) ⟨v⟩
  | empty : Gives (.array []) ⟨.nmos6502⟩
  | alone {j : Json ν} {v : Variant} (gives : GivesVariant j v) : Gives (.array [j]) ⟨v⟩

/-- The declared names are those of the grammar. -/
theorem find?_eq_some_iff (name : String) (v : Variant) :
    Variant.enumeration.find? name = some v ↔ Names name v := by
  constructor
  · intro found
    have named := List.find?_some found
    obtain rfl : v.name = name := eq_of_beq named
    cases v with
    | nmos6502 => exact .nmos
    | ricoh2A03 => exact .ricoh
  · intro names
    cases names with
    | nmos | ricoh => decide

/-- A variant has its declared name in the grammar. -/
theorem names_name (v : Variant) : Names v.name v := by
  cases v with
  | nmos6502 => exact .nmos
  | ricoh2A03 => exact .ricoh

/-! ## Reading by the grammar -/

variable {format : Format ν ε} (lawful : format.Lawful)

include lawful

/-- A document is read as the variant that it gives, and as no other. -/
theorem readEnum_eq_ok_iff (j : Json ν) (v : Variant) :
    format.readEnum Variant.enumeration j = .ok v ↔ GivesVariant j v := by
  constructor
  · intro read
    obtain ⟨name, found, rfl | rfl⟩ := lawful.enum_only Variant.enumeration read
    · exact .bare ((find?_eq_some_iff name v).mp found)
    · exact .keyed ((find?_eq_some_iff name v).mp found)
  · intro gives
    cases gives with
    | bare names =>
        exact lawful.enum_name Variant.enumeration ((find?_eq_some_iff _ v).mpr names)
    | keyed names =>
        exact lawful.enum_key Variant.enumeration ((find?_eq_some_iff _ v).mpr names)

/-- The field of a configuration is read from what gives a variant, which it is set to. -/
theorem read_variantField_iff (j : Json ν) (c c' : Config) :
    (∃ set, (variantField format).read j = .ok set ∧ c' = set c) ↔
      ∃ v, GivesVariant j v ∧ c' = ⟨v⟩ := by
  constructor
  · rintro ⟨set, read, rfl⟩
    obtain ⟨v, given, rfl⟩ := Except.map_eq_ok_iff.mp read
    exact ⟨v, (readEnum_eq_ok_iff lawful j v).mp given, rfl⟩
  · rintro ⟨v, given, rfl⟩
    have read := (readEnum_eq_ok_iff lawful j v).mpr given
    exact ⟨_, Except.map_eq_ok_iff.mpr ⟨v, read, rfl⟩, rfl⟩

/-- An object is read as the configuration that it gives, and as no other. -/
theorem ofJson_object_iff {members : List (String × Json ν)}
    (distinct : (Json.object members).DistinctKeys) (c : Config) :
    ofJson format (.object members) = .ok c ↔ Gives (.object members) c := by
  refine (lawful.record_members (declaration format) distinct).trans ?_
  refine Field.readsMembers_singleton.trans ?_
  constructor
  · rintro (⟨absent, rfl⟩ | ⟨j, set, held, read, made⟩)
    · exact .unset absent
    · obtain ⟨v, given, rfl⟩ := (read_variantField_iff lawful j {} c).mp ⟨set, read, made⟩
      exact .set held given
  · intro gives
    cases gives with
    | unset absent => exact Or.inl ⟨absent, rfl⟩
    | set held given =>
        obtain ⟨set, read, made⟩ := (read_variantField_iff lawful _ {} _).mpr ⟨_, given, rfl⟩
        exact Or.inr ⟨_, set, held, read, made⟩

/-- An array is read as the configuration that it gives, and as no other. -/
theorem ofJson_array_iff (items : List (Json ν)) (c : Config) :
    ofJson format (.array items) = .ok c ↔ Gives (.array items) c := by
  refine (lawful.record_items (declaration format)).trans ?_
  refine Field.readsItems_singleton.trans ?_
  constructor
  · rintro (⟨rfl, rfl⟩ | ⟨j, set, rfl, read, made⟩)
    · exact .empty
    · obtain ⟨v, given, rfl⟩ := (read_variantField_iff lawful j {} c).mp ⟨set, read, made⟩
      exact .alone given
  · intro gives
    cases gives with
    | empty => exact Or.inl ⟨rfl, rfl⟩
    | alone given =>
        obtain ⟨set, read, made⟩ := (read_variantField_iff lawful _ {} _).mpr ⟨_, given, rfl⟩
        exact Or.inr ⟨_, set, rfl, read, made⟩

/-- A document is read as the configuration that it gives, and as no other. -/
theorem ofJson_eq_ok_iff {j : Json ν} (distinct : j.DistinctKeys) (c : Config) :
    ofJson format j = .ok c ↔ Gives j c := by
  cases j with
  | object members => exact ofJson_object_iff lawful distinct c
  | array items => exact ofJson_array_iff lawful items c
  | null | bool | number | string =>
      constructor
      · intro read
        obtain ⟨members, other⟩ | ⟨items, other⟩ := lawful.record_only (declaration format) read
        · cases other
        · cases other
      · intro gives
        cases gives

/-! ## Writing, and changes that do not matter -/

/-- A configuration is written as the object of its variant's name. -/
theorem toJson_eq (c : Config) :
    toJson format c = .ok (.object [("variant", .string c.variant.name)]) := by
  have declared : c.variant ∈ Variant.enumeration.values := by
    cases c.variant with
    | nmos6502 | ricoh2A03 => decide
  have written : Field.Writes c (declaration format).fields
      [("variant", .string c.variant.name)] :=
    .field (lawful.enum_written Variant.enumeration declared) .done
  obtain ⟨members, perm, made⟩ :=
    lawful.record_written (declaration format) written (Json.distinctKeys_singleton _ _)
  rw [List.perm_singleton.mp perm] at made
  exact made

/-- Of an object only the members under `variant` are looked at. -/
theorem ofJson_object_congr {members members' : List (String × Json ν)}
    (same : (members'.filter fun m => m.1 == "variant") =
      members.filter fun m => m.1 == "variant") :
    ofJson format (.object members') = ofJson format (.object members) := by
  refine lawful.record_known (declaration format) ?_
  have only : ∀ ms : List (String × Json ν), Field.known (declaration format).fields ms =
      ms.filter fun m => m.1 == "variant" := by
    intro ms
    exact congrArg ms.filter (funext fun m => Bool.or_false _)
  rw [only, only, same]

/-- **Reading accepts its grammar and nothing else.**  With every format that keeps the laws: a
    document is read as a configuration where it gives that configuration, and refused where it
    gives none.  A configuration is written as the object of its variant's name, which is read as
    that configuration again.  And whatever is put into an object, put in the place of what was
    there, or taken out of it, under keys other than `variant`, the outcome is the same without it,
    success or error. -/
theorem reading_follows_grammar (c : Config) :
    (∀ j : Json ν, j.DistinctKeys → (ofJson format j = .ok c ↔ Gives j c)) ∧
      (∃ name, Names name c.variant ∧
        toJson format c = .ok (.object [("variant", .string name)]) ∧
        ofJson format (.object [("variant", .string name)]) = .ok c) ∧
      ∀ (members : List (String × Json ν)) (es : List (Json.Edit ν)),
        ofJson format (.object (Json.editAll members es)) =
          ofJson format
            (.object (Json.editAll members (es.filter fun e => e.key == "variant"))) := by
  refine ⟨?_, ?_, ?_⟩
  · intro j distinct
    exact ofJson_eq_ok_iff lawful distinct c
  · have names := names_name c.variant
    have distinct := Json.distinctKeys_singleton (ν := ν) "variant" (.string c.variant.name)
    have again := (ofJson_eq_ok_iff lawful distinct c).mpr (.set rfl (.bare names))
    exact ⟨c.variant.name, names, toJson_eq lawful c, again⟩
  · intro members es
    exact (ofJson_object_congr lawful (Json.filter_editAll "variant" es rfl)).symm

omit lawful

/-- A format that says nothing of what it refuses. -/
def silent : Format Nat Unit :=
  .strict ⟨fun _ => (), (), fun _ _ => (), fun _ => (), fun _ _ => (), fun _ => ()⟩

/-- The variant in its longer form, beside a member that means nothing. -/
def longer : List (String × Json Nat) :=
  [("clock", .array [.number 1789773]), ("variant", .object [("ricoh2a03", .null)])]

/-- It is read, with the other member or without it, and written in the shorter form. -/
theorem reading_follows_grammar_longer :
    silent.Lawful ∧ (Json.object longer).DistinctKeys ∧
      ofJson silent (.object longer) = .ok ⟨.ricoh2A03⟩ ∧
      ofJson silent (.object (Json.editAll longer [.remove "clock"])) = .ok ⟨.ricoh2A03⟩ ∧
      toJson silent ⟨.ricoh2A03⟩ = .ok (.object [("variant", .string "ricoh2a03")]) := by
  have lawful : silent.Lawful := Format.lawful_strict _
  have distinct : (Json.object longer).DistinctKeys := by
    show (longer.map Prod.fst).Nodup
    decide
  obtain ⟨reads, ⟨name, names, written, -⟩, edits⟩ := reading_follows_grammar lawful ⟨.ricoh2A03⟩
  have read := (reads (.object longer) distinct).mpr (.set rfl (.keyed .ricoh))
  have without := (edits longer [.remove "clock"]).trans read
  cases names with
  | ricoh => exact ⟨lawful, distinct, read, without, written⟩

end Config

end Micro6502
