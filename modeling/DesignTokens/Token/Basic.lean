import DesignTokens.Color.Basic
import DesignTokens.Number.Scalar
import DesignTokens.Stylesheet.Variable
import DesignTokens.Token.ShadowLayer

/-!
# Design tokens

A token gives a name to a style value. It is made from a variable of a
stylesheet, or, for typography, from all variables that share a base name.
-/

namespace DesignTokens

structure Swatch where
  hex : Text
  rgb : Rgb
  hsl : Option Hsl
  oklch : Option Oklch

/-- The forms of a color that a token keeps; without `normalize` only those in channels. -/
def Swatch.ofColor (normalize : Bool) (c : Color) : Swatch :=
  if normalize then ⟨c.hex, c.rgb, c.hsl, c.oklch⟩ else ⟨c.hex, c.rgb, none, none⟩

structure Font where
  family : Option Text
  size : Option Text
  weight : Option Scalar
  lineHeight : Option Scalar
  letterSpacing : Option Text

namespace Font

def unknown : Font :=
  ⟨none, none, none, none, none⟩

def set (font : Font) (field : FontField) (value : Text) : Font :=
  match field with
  | .fontFamily => { font with family := some value }
  | .fontSize => { font with size := some value }
  | .fontWeight => { font with weight := some (.ofText value) }
  | .lineHeight => { font with lineHeight := some (.ofText value) }
  | .letterSpacing => { font with letterSpacing := some value }

def texts (font : Font) : List Text :=
  [font.family, font.size, font.weight.map Scalar.toText, font.lineHeight.map Scalar.toText,
    font.letterSpacing].filterMap id

end Font

inductive TokenValue where
  | color (declared : Text) (swatch : Swatch)
  | typography (font : Font)
  | spacing (value : Text)
  | borderRadius (value : Text)
  /-- a shadow with its layers, if they could be read -/
  | shadow (value : Text) (layers : Option (List ShadowLayer))

/-- A design token. The variable is the custom property that refers to it. -/
structure Token where
  name : Text
  variableName : Text
  utilityClass : Option Text
  value : TokenValue

namespace Token

def category (t : Token) : Category :=
  match t.value with
  | .color _ _ => .color
  | .typography _ => .typography
  | .spacing _ => .spacing
  | .borderRadius _ => .borderRadius
  | .shadow _ _ => .shadow

def swatch? (t : Token) : Option Swatch :=
  match t.value with
  | .color _ swatch => some swatch
  | _ => none

/--
The texts to which a value has to be equal to be the value of the token. Colors are
not told by their texts.
-/
def texts (t : Token) : List Text :=
  match t.value with
  | .color _ _ => []
  | .typography font => font.texts
  | .spacing value => [value]
  | .borderRadius value => [value]
  | .shadow value _ => [value]

/--
Whether a token is known by this name: its own, that of its variable, or that of its
utility class.
-/
def answersTo (t : Token) (name : Text) : Bool :=
  t.name = name || t.variableName = name || t.variableName = "--".toList ++ name ||
    t.utilityClass = some name

end Token
end DesignTokens
