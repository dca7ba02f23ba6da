import DesignTokens.Style.Shape

/-!
# Details of values

What a value shows of itself: the family of a color, magnitude and unit of the
first length, or the layers of a shadow.
-/

namespace DesignTokens

inductive DetailKind where
  | color (format : Option ColorFormat)
  | length (magnitude : Option Float) (unit : Option Text)
  | shadow (layerCount : Nat) (inset : Bool)

/-- Details of a value, and whether it is only a part of what the source computes. -/
structure Details where
  kind : DetailKind
  dynamic : Bool

namespace Details

/-- The layers of a shadow, and whether one of them falls inwards. -/
def shadowKind (value : Text) : DetailKind :=
  let layers := Pieces.texts .commas value
  .shadow layers.length (layers.any fun layer => (Pieces.texts .words layer).any Shape.isInset)

/-- Magnitude and unit of the first word of a value, if that has the form of a length. -/
def lengthKind (value : Text) : DetailKind :=
  match Shape.lengthParts? ((Text.words value).headD []) with
  | none => .length none none
  | some (digits, unit) => .length (Numeral.float? digits) unit

def describe (category : Category) (value : Text) (dynamic : Bool) : Details :=
  match category with
  | .color => ⟨.color (ColorFormat.ofText? value), dynamic⟩
  | .shadow => ⟨shadowKind value, dynamic⟩
  | .typography => ⟨lengthKind value, dynamic⟩
  | .spacing => ⟨lengthKind value, dynamic⟩
  | .borderRadius => ⟨lengthKind value, dynamic⟩

end Details
end DesignTokens
