import DesignTokens.Options.Form

/-!
# Options of queries

How sure a match of a color has to be, and which categories are searched.
-/

namespace DesignTokens

/-- A confidence from 0 to 1. -/
structure Threshold where
  value : Float
  nonneg : 0 ≤ value
  le_one : value ≤ 1

namespace Threshold

/-- Reads a threshold. What is not a number counts as too large. -/
def reader : ValueReader Threshold := fun j => do
  let x ← ValueReader.float j
  if h1 : x ≤ 1 then
    if h0 : 0 ≤ x then return ⟨x, h0, h1⟩ else throw .tooSmall
  else throw .tooLarge

end Threshold

structure QueryOptions where
  threshold : Option Threshold
  categories : Option (List Category)
  exact : Bool

namespace QueryOptions

/-- The threshold of the settings, all categories, and near colors allowed. -/
def standard : QueryOptions :=
  ⟨none, none, false⟩

def exactOnly : QueryOptions :=
  ⟨none, none, true⟩

def fieldNames : List Text :=
  ["threshold".toList, "categories".toList, "exact".toList]

def ofForm? (form : Json) : Checked QueryOptions :=
  let threshold :=
    Form.withDefault "threshold".toList none (ValueReader.nullable Threshold.reader) form
  let categories :=
    Form.optionalList "categories".toList (ValueReader.oneOf Category.ofName?) form
  let exact := Form.withDefault "exact".toList false ValueReader.truthValue form
  Form.closed fieldNames form
    ((threshold.both (categories.both exact)).map fun o => ⟨o.1, o.2.1, o.2.2⟩)

end QueryOptions
end DesignTokens
