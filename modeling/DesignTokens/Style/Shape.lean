import DesignTokens.Color.Family
import DesignTokens.Number.Numeral
import DesignTokens.Style.Property
import DesignTokens.Text.Pieces
import DesignTokens.Text.Word

/-!
# Shapes of values

A literal value is taken for a style value only if it has the shape that its
category asks for: a color, a list of lengths, layers of a shadow, or a value of
typography.
-/

namespace DesignTokens
namespace Shape

/--
The digits of a length without sign, and what follows: digits with an optional
fraction, or a fraction alone.
-/
def magnitude? (t : Text) : Option (Text × Text) :=
  let whole := t.takeWhile Text.isDecimal
  let rest := t.dropWhile Text.isDecimal
  match whole, rest with
  | [], '.' :: r =>
      let fraction := r.takeWhile Text.isDecimal
      if fraction = [] then none else some ('.' :: fraction, r.dropWhile Text.isDecimal)
  | [], _ => none
  | _, '.' :: r => some (whole ++ '.' :: r.takeWhile Text.isDecimal, r.dropWhile Text.isDecimal)
  | _, _ => some (whole, rest)

/-- The unit of a length: letters, a percent sign, or nothing. -/
def unit? : Text → Option (Option Text)
  | [] => some none
  | ['%'] => some (some ['%'])
  | t => if t.all Char.isAlpha then some (some t) else none

def lengthParts? (t : Text) : Option (Text × Option Text) :=
  let (sign, t) :=
    match t with
    | '-' :: r => (['-'], r)
    | r => ([], r)
  match magnitude? t with
  | none => none
  | some (digits, rest) => (unit? rest).map fun unit => (sign ++ digits, unit)

def isLength (t : Text) : Bool :=
  match lengthParts? (Text.strip t) with
  | none => false
  | some (_, some _) => true
  | some (digits, none) =>
      match Numeral.float? digits with
      | some x => x == 0
      | none => false

def isLengthList (most : Nat) (t : Text) : Bool :=
  let parts := Text.words t
  0 < parts.length && parts.length ≤ most && parts.all isLength

def mostLengths : Nat :=
  4

def dropShadowBody? (t : Text) : Option Text :=
  match Text.after? "drop-shadow".toList t with
  | none => none
  | some rest =>
      match rest.dropWhile Text.isBlank with
      | '(' :: body => if body.getLast? = some ')' then some body.dropLast else none
      | _ => none

def isInset (word : Text) : Bool :=
  Text.lower word = "inset".toList

def unwrappedLayer (layer : Text) : Text :=
  let layer := Text.strip layer
  match dropShadowBody? layer with
  | some body => Text.strip body
  | none => layer

/-- Whether a text is a layer of a shadow: two to four lengths and a color. -/
def isShadowLayer (layer : Text) : Bool :=
  let words := (Pieces.texts .words (unwrappedLayer layer)).filter fun w => !isInset w
  match words.getLast? with
  | none => false
  | some color =>
      let lengths := words.dropLast
      Color.isShape color && 2 ≤ lengths.length && lengths.length ≤ 4 && lengths.all isLength

def isShadow (t : Text) : Bool :=
  let layers := Pieces.texts .commas t
  !layers.isEmpty && layers.all isShadowLayer

def fontWeights : List Text :=
  ["normal".toList, "bold".toList, "bolder".toList, "lighter".toList]

open Reader

/-- A word in the name of a font family: a letter, then letters, digits, underscores and hyphens. -/
def familyWord : Reader
  | [] => none
  | c :: t => if c.isAlpha then some (t.dropWhile fun c => Text.isWord c || c = '-') else none

def quotedFamily (quote : Char) : Reader :=
  Reader.sequence [exactly [quote], some1 (· ≠ quote), exactly [quote]]

def family : Reader :=
  anyOf
    [quotedFamily '"', quotedFamily '\'',
     Reader.sequence [familyWord, star (Reader.sequence [some1 Text.isBlank, familyWord])]]

def families : Reader :=
  Reader.sequence [family, star (Reader.sequence [blanks, exactly [','], blanks, family])]

/--
Whether a text is a value of typography. A font family is asked for by the name of
the property.
-/
def isTypography (property : Option Text) (t : Text) : Bool :=
  let t := Text.strip t
  if property = some "fontFamily".toList then accepts families t
  else fontWeights.any (· = Text.lower t) || isLength t || (Numeral.float? t).isSome

def fits (category : Category) (property : Option Text) (t : Text) : Bool :=
  match category with
  | .color => Color.isShape t
  | .spacing => isLengthList mostLengths t
  | .borderRadius => isLengthList mostLengths t
  | .shadow => isShadow t
  | .typography => isTypography property t

end Shape

/--
The target of a prefix that a value fits: of several targets the first one that it
fits, or else the first one.
-/
def UtilityPrefix.target (p : UtilityPrefix) (value : Text) : StyleTarget :=
  match p.others with
  | [] => p.first
  | _ =>
      (p.targets.find? fun t => Shape.fits t.category (some t.property.toList) value).getD p.first

end DesignTokens
