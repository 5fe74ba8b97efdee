/-! # JSON values

    Values of the data format that configurations are kept in.  What a
    reader of text makes of numbers is its own affair (`ν`).  An object is a
    list of members, of which no two have the same key (`DistinctKeys`). -/

namespace Micro6502

/-- A JSON value whose numbers are of type `ν`. -/
inductive Json (ν : Type) where
  | null
  | bool (v : Bool)
  | number (n : ν)
  | string (s : String)
  | array (items : List (Json ν))
  | object (members : List (String × Json ν))

/-- An object has no key twice. -/
def Json.DistinctKeys {ν : Type} : Json ν → Prop
  | .object members => (members.map Prod.fst).Nodup
  | _ => True

end Micro6502
