import DesignTokens.Json.Writer
import DesignTokens.Token.Basic

/-!
# Tokens as documents

A token is written as an object. Fields without a value are left out. How numbers
are represented is a parameter, so that they can be written as they are or be
marked by their kind.
-/

namespace DesignTokens

structure NumberForm where
  integer : Int → Json
  float : Float → Json

namespace NumberForm

/-- Numbers of a document without finite value are written as `NaN` and `Infinity`. -/
def style : NumberStyle :=
  { NumberStyle.standard with notANumber := "NaN".toList, infinity := "Infinity".toList }

def plain : NumberForm where
  integer n := .number (Text.ofInt n)
  float x := .number (style.float x)

def scalar (form : NumberForm) : Scalar → Json
  | .integer n => form.integer n
  | .float x => form.float x
  | .text t => .text t

end NumberForm

namespace Json

def ofFields (fields : List (String × Option Json)) : Json :=
  .object (fields.filterMap fun f => f.2.map fun j => (f.1.toList, j))

end Json

def Rgb.document (form : NumberForm) (c : Rgb) : Json :=
  .ofFields
    [("r", some (form.integer c.r)), ("g", some (form.integer c.g)),
     ("b", some (form.integer c.b)), ("a", c.a.map form.float)]

def Hsl.document (form : NumberForm) (c : Hsl) : Json :=
  .ofFields
    [("h", some (form.integer c.h)), ("s", some (form.integer c.s)),
     ("l", some (form.integer c.l)), ("a", c.a.map form.float)]

def Oklch.document (form : NumberForm) (c : Oklch) : Json :=
  .ofFields
    [("l", some (form.float c.l)), ("c", some (form.float c.c)),
     ("h", some (form.float c.h)), ("a", c.a.map form.float)]

def Swatch.document (form : NumberForm) (s : Swatch) : Json :=
  .ofFields
    [("hex", some (.text s.hex)), ("rgb", some (s.rgb.document form)),
     ("hsl", s.hsl.map (Hsl.document form)), ("oklch", s.oklch.map (Oklch.document form))]

def Font.document (form : NumberForm) (f : Font) : Json :=
  .ofFields
    [("fontFamily", f.family.map .text), ("fontSize", f.size.map .text),
     ("fontWeight", f.weight.map form.scalar), ("lineHeight", f.lineHeight.map form.scalar),
     ("letterSpacing", f.letterSpacing.map .text)]

def ShadowLayer.document (l : ShadowLayer) : Json :=
  .ofFields
    [("offsetX", some (.text l.offsetX)), ("offsetY", some (.text l.offsetY)),
     ("blur", some (.text l.blur)), ("spread", some (.text l.spread)),
     ("color", some (.text l.color)), ("inset", some (.bool l.inset))]

namespace TokenValue

def declaredText? : TokenValue → Option Text
  | .color declared _ => some declared
  | _ => none

def document (form : NumberForm) : TokenValue → Json
  | .color _ swatch => swatch.document form
  | .typography font => font.document form
  | .spacing value => .text value
  | .borderRadius value => .text value
  | .shadow value _ => .text value

def layers? : TokenValue → Option (List ShadowLayer)
  | .shadow _ layers => layers
  | _ => none

end TokenValue

def Token.document (form : NumberForm) (t : Token) : Json :=
  .ofFields
    [("name", some (.text t.name)), ("cssVariable", some (.text t.variableName)),
     ("tailwindClass", t.utilityClass.map .text), ("category", some (.text t.category.name)),
     ("originalValue", t.value.declaredText?.map .text), ("value", some (t.value.document form)),
     ("components", t.value.layers?.map fun ls => .array (ls.map ShadowLayer.document))]

def Token.exported (ts : List Token) : Text :=
  (Json.array (ts.map (Token.document .plain))).written 0

end DesignTokens
