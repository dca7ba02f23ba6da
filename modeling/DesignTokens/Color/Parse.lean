import DesignTokens.Color.Convert
import DesignTokens.Color.Family
import DesignTokens.Color.Hex
import DesignTokens.Number.Numeral

/-!
# Reading colors

A color function is a name and components in parentheses. Components are
separated by any mixture of blanks, commas and slashes. A text that begins like
no color stands for the placeholder.
-/

namespace DesignTokens
namespace Color

def functionParts? (t : Text) : Option (Text × Text) :=
  let name := t.takeWhile Text.isFoldedLetter
  match (t.dropWhile Text.isFoldedLetter).dropWhile Text.isBlank with
  | '(' :: rest =>
      if name ≠ [] ∧ rest.getLast? = some ')' then some (name, rest.dropLast) else none
  | _ => none

def separatesComponents (c : Char) : Bool :=
  Text.isBlank c || c = ',' || c = '/'

/--
The components of a call of one of the functions `names`, of which the first gives
the name of the fault.
-/
def components? (names : List Text) (t : Text) : Except ColorFault (List Text) :=
  let fault := ColorFault.notFunction (names.headD []) t
  match functionParts? (Text.strip t) with
  | none => .error fault
  | some (name, body) =>
      if names.any (· = Text.lower name) then .ok (Text.fields separatesComponents body)
      else .error fault

def componentNumber? (t component : Text) : Except ColorFault Float :=
  match Numeral.float? component with
  | none => .error (.notNumber component t)
  | some x => if x.isNaN || x.isInf then .error (.notNumber component t) else .ok x

def alpha? (t component : Text) : Except ColorFault Float :=
  match Text.before? ['%'] component with
  | some number => (componentNumber? t number).map fun x => clamp 0 1 (x / 100)
  | none => (componentNumber? t component).map (clamp 0 1)

def optionalAlpha? (t : Text) : List Text → Except ColorFault (Option Float)
  | [] => .ok none
  | component :: _ => (alpha? t component).map some

def computed {α : Type} : Except ArithmeticFault α → Except ColorFault α
  | .ok x => .ok x
  | .error fault => .error (.arithmetic fault)

def channel? (t component : Text) : Except ColorFault Int := do
  let x ←
    match Text.before? ['%'] component with
    | some number => (componentNumber? t number).map fun x => x * 255 / 100
    | none => componentNumber? t component
  let n ← computed (roundHalfUp? x)
  return clampInt 0 255 n

def ofRgb? (rgb : Rgb) (format : ColorFormat) (oklch : Option Oklch) :
    Except ColorFault Color := do
  let hex ← computed rgb.hex?
  let hsl ← computed rgb.toHsl?
  return ⟨hex, rgb, some hsl, oklch, some format⟩

def parseHex (t : Text) : Except ColorFault Color := do
  let rgb ← Rgb.ofHex? t
  ofRgb? rgb .hex none

def parseRgb (t : Text) : Except ColorFault Color := do
  match ← components? ["rgb".toList, "rgba".toList] t with
  | r :: g :: b :: more =>
      if more.length ≤ 1 then
        let r ← channel? t r
        let g ← channel? t g
        let b ← channel? t b
        let a ← optionalAlpha? t more
        ofRgb? ⟨r, g, b, a⟩ .rgb none
      else throw (.componentCount t)
  | _ => throw (.componentCount t)

def withoutPercent (t : Text) : Text :=
  (t.reverse.dropWhile (· = '%')).reverse

def parseHsl (t : Text) : Except ColorFault Color := do
  match ← components? ["hsl".toList, "hsla".toList] t with
  | h :: s :: l :: more =>
      if more.length ≤ 1 then
        let h ← componentNumber? t (Text.removeTail "deg".toList h)
        let s ← (componentNumber? t (withoutPercent s)).map (clamp 0 100)
        let l ← (componentNumber? t (withoutPercent l)).map (clamp 0 100)
        let a ← optionalAlpha? t more
        let hue ← computed (wrap? h 360)
        let rgb ← computed (Rgb.ofFractions? (hslChannels (hue / 360) (s / 100) (l / 100)) a)
        let degrees ← computed (roundHalfUp? h)
        let saturation ← computed (roundHalfUp? s)
        let lightness ← computed (roundHalfUp? l)
        let hex ← computed rgb.hex?
        return ⟨hex, rgb, some ⟨degrees % 360, saturation, lightness, a⟩, none, some .hsl⟩
      else throw (.componentCount t)
  | _ => throw (.componentCount t)

def parseOklch (t : Text) : Except ColorFault Color := do
  match ← components? ["oklch".toList] t with
  | l :: c :: h :: more =>
      if more.length ≤ 1 then
        let l ←
          match Text.before? ['%'] l with
          | some number => (componentNumber? t number).map fun x => x / 100
          | none => componentNumber? t l
        let c ← componentNumber? t c
        let h ← componentNumber? t (Text.removeTail "deg".toList h)
        let a ← optionalAlpha? t more
        let oklch : Oklch := ⟨l, c, h, a⟩
        let rgb ← computed oklch.toRgb?
        ofRgb? rgb .oklch (some oklch)
      else throw (.oklchComponentCount t)
  | _ => throw (.oklchComponentCount t)

/-- The color that a text denotes, or the placeholder if the text begins like no color. -/
def parse (t : Text) : Except ColorFault Color :=
  match ColorFormat.ofText? t with
  | none => .ok placeholder
  | some .hex => parseHex (t.filter fun c => !Text.isBlank c)
  | some .rgb => parseRgb (Text.strip t)
  | some .hsl => parseHsl (Text.strip t)
  | some .oklch => parseOklch (Text.strip t)

def diagnostics (t : Text) (c : Color) : List Diagnostic :=
  if c.isPlaceholder then
    [{ source := "color".toList
       message := "Unrecognized color format, defaulted to black".toList
       value := some t
       severity := .warning }]
  else []

end Color
end DesignTokens
