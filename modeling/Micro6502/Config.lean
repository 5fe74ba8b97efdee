/-! # Configuration — which part to be

    The variants differ in one thing: whether the decimal flag changes
    additions and subtractions.  Both store, push and pull the flag alike. -/

namespace Micro6502

/-- A member of the family. -/
inductive Variant where
  /-- The stock part, with decimal arithmetic. -/
  | nmos6502
  /-- The part without decimal arithmetic. -/
  | ricoh2A03
  deriving DecidableEq, Repr

namespace Variant

/-- All variants. -/
def all : List Variant := [.nmos6502, .ricoh2A03]

/-- Whether additions and subtractions heed the decimal flag. -/
def hasDecimal : Variant → Bool
  | .nmos6502 => true
  | .ricoh2A03 => false

/-- The name of a variant in a configuration. -/
def name : Variant → String
  | .nmos6502 => "nmos6502"
  | .ricoh2A03 => "ricoh2a03"

end Variant

/-- The configuration of a processor. -/
structure Config where
  variant : Variant := .nmos6502
  deriving DecidableEq, Repr

end Micro6502
