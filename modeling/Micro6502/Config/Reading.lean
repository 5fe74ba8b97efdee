import Micro6502.Config
import Micro6502.Config.Format

/-! # Reading a configuration

    A configuration is declared as a record of one field, the variant, which
    is declared as an enumeration.  All else is up to the format that it is
    read from and written to. -/

namespace Micro6502

/-- The variants as they are declared. -/
def Variant.enumeration : Enumeration Variant := ⟨Variant.all, Variant.name⟩

namespace Config

variable {ν ε : Type} (format : Format ν ε)

/-- The one field of a configuration. -/
def variantField : Field ν ε Config where
  key := "variant"
  read := fun j => (format.readEnum Variant.enumeration j).map fun v c => { c with variant := v }
  write := fun c => format.writeEnum Variant.enumeration c.variant

/-- The configurations as they are declared. -/
def declaration : Record ν ε Config := ⟨"CpuConfig", {}, [variantField format]⟩

/-- The configuration that a document gives. -/
def ofJson (j : Json ν) : Except ε Config :=
  format.readRecord (declaration format) j

/-- The document that a configuration is written as. -/
def toJson (c : Config) : Except ε (Json ν) :=
  format.writeRecord (declaration format) c

end Config

end Micro6502
