import DesignTokens.Style.Shape
import DesignTokens.Text.Quoted

/-!
# Layers of shadows

A shadow is a list of layers between commas. The lengths in a layer are, in
their order, both offsets, the blur and the spread; the word `inset` may stand
anywhere, and all other words make up the color.
-/

namespace DesignTokens

structure ShadowLayer where
  offsetX : Text
  offsetY : Text
  blur : Text
  spread : Text
  color : Text
  inset : Bool
deriving DecidableEq, Repr

inductive ShadowFault where
  /-- a layer with less than two or more than four lengths -/
  | lengthCount (layer : Text)
  /-- no layers -/
  | noLayers (value : Text)
deriving DecidableEq, Repr

def ShadowFault.message : ShadowFault → Text
  | .lengthCount layer => "Cannot read offsets from shadow layer ".toList ++ Text.quoted layer
  | .noLayers value => "Empty shadow value ".toList ++ Text.quoted value

namespace ShadowLayer

def isUnitChar (c : Char) : Bool :=
  Text.isFoldedLetter c || c = '%'

/-- Whether a word of a layer is a length: digits with an optional sign, point and unit. -/
def isLengthWord (word : Text) : Bool :=
  match Shape.magnitude? (Text.removeLead ['-'] word) with
  | some (_, unit) => unit.all isUnitChar
  | none => false

def ofPiece? (piece : Text) : Except ShadowFault ShadowLayer :=
  let layer := Text.strip piece
  let words := Pieces.texts .words layer
  let rest := words.filter fun w => !Shape.isInset w
  let color :=
    match Text.join [' '] (rest.filter fun w => !isLengthWord w) with
    | [] => "currentColor".toList
    | color => color
  match rest.filter isLengthWord with
  | x :: y :: more =>
      if more.length ≤ 2 then
        .ok
          { offsetX := x
            offsetY := y
            blur := more.headD ['0']
            spread := more.tail.headD ['0']
            color := color
            inset := words.any Shape.isInset }
      else .error (.lengthCount layer)
  | _ => .error (.lengthCount layer)

def ofText? (value : Text) : Except ShadowFault (List ShadowLayer) :=
  match Pieces.texts .commas value with
  | [] => .error (.noLayers value)
  | pieces => pieces.mapM ofPiece?

end ShadowLayer
end DesignTokens
