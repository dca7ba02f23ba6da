import DesignTokens.Diagnostic
import DesignTokens.Number.Binary

/-!
# Colors

A color is given by a hexadecimal form, by the channels red, green and blue, by
hue, saturation and lightness, or by lightness, chroma and hue. A color that has
been read keeps all forms that were derived from it.
-/

namespace DesignTokens

inductive ColorFormat where
  | hex
  | rgb
  | hsl
  | oklch
deriving DecidableEq, Repr

def ColorFormat.name : ColorFormat → Text
  | .hex => "hex".toList
  | .rgb => "rgb".toList
  | .hsl => "hsl".toList
  | .oklch => "oklch".toList

/-- Channels from 0 to 255, and an opacity from 0 to 1. -/
structure Rgb where
  r : Int
  g : Int
  b : Int
  a : Option Float

/-- Hue in degrees, saturation and lightness in percent. -/
structure Hsl where
  h : Int
  s : Int
  l : Int
  a : Option Float

/-- Lightness from 0 to 1, chroma, and hue in degrees. -/
structure Oklch where
  l : Float
  c : Float
  h : Float
  a : Option Float

/-- A color in all the forms that are known of it. Without a family it is the placeholder. -/
structure Color where
  hex : Text
  rgb : Rgb
  hsl : Option Hsl
  oklch : Option Oklch
  format : Option ColorFormat

namespace Color

/-- Opaque black, which stands for a text that is not recognised as a color. -/
def placeholder : Color where
  hex := "#000000".toList
  rgb := ⟨0, 0, 0, none⟩
  hsl := none
  oklch := none
  format := none

def isPlaceholder (c : Color) : Bool :=
  c.format.isNone

end Color

inductive ColorFault where
  /-- hexadecimal digits are missing, too many or none -/
  | notHex (text : Text)
  /-- a function of this name is not written as a function -/
  | notFunction (name text : Text)
  /-- a number of components other than three or four -/
  | componentCount (text : Text)
  /-- a number of components of `oklch` other than three or four -/
  | oklchComponentCount (text : Text)
  /-- a component that is not a finite number -/
  | notNumber (component text : Text)
  /-- a channel that cannot be computed -/
  | arithmetic (fault : ArithmeticFault)
deriving DecidableEq, Repr

def ColorFault.message : ColorFault → Text
  | .notHex text => "Invalid hex color: ".toList ++ text
  | .notFunction name text => "Invalid ".toList ++ name ++ " color: ".toList ++ text
  | .componentCount text => "Expected 3 or 4 components in ".toList ++ Text.quoted text
  | .oklchComponentCount text => "Invalid OKLCH color: ".toList ++ text
  | .notNumber component text =>
      "Invalid color component ".toList ++ Text.quoted component ++ " in ".toList ++
        Text.quoted text
  | .arithmetic fault => fault.message.toList

end DesignTokens
