import DesignTokens.Color.Distance
import DesignTokens.Token.Catalog

/-!
# Looking up values

Which token of a catalog a style value can be replaced by. A color matches the
token of the same hexadecimal form, or else the nearest color if that is near
enough; every other value matches a token of the same text.
-/

namespace DesignTokens

structure TokenMatch where
  token : Token
  confidence : Float
  value : Text

namespace Catalog

def swatches (c : Catalog) : List (Token × Swatch) :=
  c.tokens.filterMap fun t => t.swatch?.map fun s => (t, s)

def sameColor? (c : Catalog) (hex : Text) : Option Token :=
  (c.swatches.find? fun s => s.2.hex = hex).map (·.1)

def nearestColor? (c : Catalog) (rgb : Rgb) (threshold : Float) :
    Except ArithmeticFault (Option (Token × Float)) := do
  match ← rgb.closest? (c.swatches.map fun s => s.2.rgb) with
  | none => return none
  | some (index, confidence) =>
      if confidence < threshold then return none
      else return (c.swatches[index]?).map fun s => (s.1, confidence)

/-- The token for a color: the same color, or, unless the match has to be exact, the nearest one. -/
def colorMatch? (c : Catalog) (color : Color) (threshold : Float) (exact : Bool) :
    Except ArithmeticFault (Option (Token × Float)) :=
  match c.sameColor? color.hex with
  | some t => .ok (some (t, 1))
  | none => if exact then .ok none else c.nearestColor? color.rgb threshold

/-- The token for a value as a color. What is not a color has none. -/
def closestColor? (c : Catalog) (value : Text) (threshold : Float) (exact : Bool) :
    Except ArithmeticFault (Option TokenMatch) :=
  match Color.parse value with
  | .error (.arithmetic fault) => .error fault
  | .error _ => .ok none
  | .ok color =>
      if color.isPlaceholder then .ok none
      else
        (c.colorMatch? color threshold exact).map fun found =>
          found.map fun m => ⟨m.1, m.2, value⟩

/-- The first token of a category that has the text of a value, blanks around the value ignored. -/
def sameText? (c : Catalog) (category : Category) (value : Text) : Option TokenMatch :=
  let stripped := Text.strip value
  ((c.ofCategory category).find? fun t => t.texts.any (· = stripped)).map fun t => ⟨t, 1, value⟩

end Catalog
end DesignTokens
