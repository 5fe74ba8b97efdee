import Micro6502.Config.Strict

/-! # The strict format keeps the laws

    One instance of all that is asked of a format, so that nothing is asked
    in vain.  The route:

    * an enumeration is read by cases on the document (`readEnum_eq_ok_iff`);
    * the fields of a record are read as the relations of the laws say, by
      induction on the fields (`fillMembers_eq_ok_iff`,
      `fillItems_eq_ok_iff`);
    * only the look-ups of keys of fields matter to what is read of an
      object, error or not, and those find the same among the known members
      (`lookup_known`). -/

namespace Micro6502

/-- What is made of a reading is there where the reading is. -/
theorem Except.bind_eq_ok_iff {ε α β : Type} {x : Except ε α} {f : α → Except ε β} {b : β} :
    x.bind f = .ok b ↔ ∃ a, x = .ok a ∧ f a = .ok b := by
  constructor
  · intro made
    cases x with
    | error e => cases made
    | ok a => exact ⟨a, rfl, made⟩
  · rintro ⟨a, rfl, made⟩
    exact made

/-- A reading that is only made into something else is there where that is. -/
theorem Except.map_eq_ok_iff {ε α β : Type} {x : Except ε α} {f : α → β} {b : β} :
    x.map f = .ok b ↔ ∃ a, x = .ok a ∧ f a = b := by
  constructor
  · intro made
    cases x with
    | error e => cases made
    | ok a => exact ⟨a, rfl, Except.ok.inj made⟩
  · rintro ⟨a, rfl, rfl⟩
    rfl

namespace Strict

variable {ν ε α : Type} (say : Refusals ν ε)

/-! ## Enumerations -/

/-- A name is read as its value. -/
theorem named_eq_ok_iff (e : Enumeration α) (name : String) (v : α) :
    named say e name = .ok v ↔ e.find? name = some v := by
  rw [named]
  cases e.find? name with
  | none =>
      constructor
      · intro h
        cases h
      · intro h
        exact absurd h (Option.some_ne_none v).symm
  | some u =>
      constructor
      · intro h
        exact congrArg some (Except.ok.inj h)
      · intro h
        exact congrArg Except.ok (Option.some.inj h)

/-- Behind a name there may be null, and nothing else. -/
theorem nothing_eq_ok_iff (j : Json ν) : nothing say j = .ok () ↔ j = .null := by
  cases j with
  | null => exact iff_of_true rfl rfl
  | bool | number | string | array | object =>
      constructor
      · intro h
        cases h
      · intro h
        cases h

/-- A value is read from its name in the two forms, and from nothing else. -/
theorem readEnum_eq_ok_iff (e : Enumeration α) (j : Json ν) (v : α) :
    readEnum say e j = .ok v ↔
      ∃ name, e.find? name = some v ∧ (j = .string name ∨ j = .object [(name, .null)]) := by
  constructor
  · intro read
    cases j with
    | string name => exact ⟨name, (named_eq_ok_iff say e name v).mp read, Or.inl rfl⟩
    | object members =>
        match members with
        | [] => cases read
        | [(name, content)] =>
            obtain ⟨u, found, empty⟩ := Except.bind_eq_ok_iff.mp read
            obtain ⟨⟨⟩, null, rfl⟩ := Except.map_eq_ok_iff.mp empty
            obtain rfl := (nothing_eq_ok_iff say content).mp null
            exact ⟨name, (named_eq_ok_iff say e name u).mp found, Or.inr rfl⟩
        | _ :: _ :: _ => cases read
    | null | bool | number | array => cases read
  · rintro ⟨name, found, rfl | rfl⟩
    · exact (named_eq_ok_iff say e name v).mpr found
    · have named := (named_eq_ok_iff say e name v).mpr found
      exact Except.bind_eq_ok_iff.mpr ⟨v, named, rfl⟩

/-! ## Records -/

/-- Fields are filled from members where the laws say so, and with what they say. -/
theorem fillMembers_eq_ok_iff (members : List (String × Json ν)) (fs : List (Field ν ε α))
    (r r' : α) :
    fillMembers members fs r = .ok r' ↔ Field.ReadsMembers members fs r r' := by
  induction fs generalizing r with
  | nil =>
      constructor
      · intro h
        obtain rfl := Except.ok.inj h
        exact .done r
      · intro reads
        cases reads
        rfl
  | cons f fs ih =>
      rw [fillMembers]
      constructor
      · intro h
        cases held : members.lookup f.key with
        | none =>
            rw [held] at h
            exact .absent held ((ih r).mp h)
        | some j =>
            rw [held] at h
            obtain ⟨set, read, rest⟩ := Except.bind_eq_ok_iff.mp h
            exact .present held read ((ih (set r)).mp rest)
      · intro reads
        cases reads with
        | absent missing rest =>
            rw [missing]
            exact (ih r).mpr rest
        | present held read rest =>
            rw [held]
            exact Except.bind_eq_ok_iff.mpr ⟨_, read, (ih _).mpr rest⟩

/-- Fields are filled from items where the laws say so, and with what they say. -/
theorem fillItems_eq_ok_iff (length : Nat) (fs : List (Field ν ε α)) (items : List (Json ν))
    (r r' : α) :
    fillItems say length fs items r = .ok r' ↔ Field.ReadsItems fs items r r' := by
  induction items generalizing fs r with
  | nil =>
      rw [fillItems]
      constructor
      · intro h
        obtain rfl := Except.ok.inj h
        exact .done fs r
      · intro reads
        cases reads
        rfl
  | cons j items ih =>
      cases fs with
      | nil =>
          constructor
          · intro h
            cases h
          · intro reads
            cases reads
      | cons f fs =>
          rw [fillItems]
          constructor
          · intro h
            obtain ⟨set, read, rest⟩ := Except.bind_eq_ok_iff.mp h
            exact .item read ((ih fs (set r)).mp rest)
          · intro reads
            cases reads with
            | item read rest => exact Except.bind_eq_ok_iff.mpr ⟨_, read, (ih fs _).mpr rest⟩

/-- What is filled from members is a matter of the look-ups of the keys of fields. -/
theorem fillMembers_congr {members members' : List (String × Json ν)} {fs : List (Field ν ε α)}
    (same : ∀ f ∈ fs, members'.lookup f.key = members.lookup f.key) (r : α) :
    fillMembers members' fs r = fillMembers members fs r := by
  induction fs generalizing r with
  | nil => rfl
  | cons f fs ih =>
      have rest := ih fun g mem => same g (List.mem_cons_of_mem f mem)
      rw [fillMembers, fillMembers, same f List.mem_cons_self]
      cases members.lookup f.key with
      | none => exact rest r
      | some j => exact congrArg (f.read j).bind (funext fun set => rest (set r))

/-- The member of a key of a field is found among the known members. -/
theorem lookup_known {fs : List (Field ν ε α)} {f : Field ν ε α} (mem : f ∈ fs)
    (members : List (String × Json ν)) :
    (Field.known fs members).lookup f.key = members.lookup f.key := by
  induction members with
  | nil => rfl
  | cons m members ih =>
      obtain ⟨key, j⟩ := m
      rw [Field.known, List.filter_cons, List.lookup_cons, ← ih]
      by_cases here : f.key = key
      · subst here
        have kept : (fs.any fun g => f.key == g.key) = true :=
          List.any_eq_true.mpr ⟨f, mem, beq_self_eq_true f.key⟩
        rw [if_pos kept, List.lookup_cons, beq_self_eq_true]
      · have apart : (f.key == key) = false := beq_false_of_ne here
        rw [apart]
        split
        · rw [List.lookup_cons, apart]
          rfl
        · rfl

/-- Fields are written as the members that the laws give them. -/
theorem writeMembers_of_writes {r : α} {fs : List (Field ν ε α)}
    {members : List (String × Json ν)} (writes : Field.Writes r fs members) :
    writeMembers r fs = .ok members := by
  induction writes with
  | done => rfl
  | field write rest ih =>
      rw [writeMembers, write, ih]
      rfl

end Strict

/-- The strict format keeps the laws, whatever it says of refusals. -/
theorem Format.lawful_strict {ν ε : Type} (say : Refusals ν ε) : (Format.strict say).Lawful where
  enum_name e name v found :=
    (Strict.readEnum_eq_ok_iff say e (.string name) v).mpr ⟨name, found, Or.inl rfl⟩
  enum_key e name v found :=
    (Strict.readEnum_eq_ok_iff say e (.object [(name, .null)]) v).mpr ⟨name, found, Or.inr rfl⟩
  enum_only e j v read := (Strict.readEnum_eq_ok_iff say e j v).mp read
  enum_written _ _ _ := rfl
  record_members d members r _ := Strict.fillMembers_eq_ok_iff members d.fields d.default r
  record_known := by
    intro α d members members' same
    refine Strict.fillMembers_congr ?_ d.default
    intro f mem
    rw [← Strict.lookup_known mem members', same, Strict.lookup_known mem members]
  record_items d items r := Strict.fillItems_eq_ok_iff say items.length d.fields items d.default r
  record_only := by
    intro α d j r read
    cases j with
    | object members => exact Or.inl ⟨members, rfl⟩
    | array items => exact Or.inr ⟨items, rfl⟩
    | null | bool | number | string => cases read
  record_written := by
    intro α d r members writes _
    refine ⟨members, .refl members, ?_⟩
    show (Strict.writeMembers r d.fields).map Json.object = _
    rw [Strict.writeMembers_of_writes writes]
    rfl

end Micro6502
