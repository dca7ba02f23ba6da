import DesignTokens.Number.Numeral
import DesignTokens.Number.Written

/-!
# Scalars

A value that may be a number is kept as an integer if it is written like one, as
a float if it is another number, and otherwise as the text that it is.
-/

namespace DesignTokens

inductive Scalar where
  | integer (n : Int)
  | float (x : Float)
  | text (t : Text)

namespace Scalar

def hasPointOrExponent (t : Text) : Bool :=
  t.any fun c => c = '.' || c = 'e' || c = 'E'

def ofText (t : Text) : Scalar :=
  match Numeral.float? t with
  | none => .text t
  | some x =>
      if hasPointOrExponent t then .float x
      else
        match integer? x with
        | some n => .integer n
        | none => .float x

def toText : Scalar → Text
  | .integer n => Text.ofInt n
  | .float x => NumberStyle.standard.float x
  | .text t => t

end Scalar
end DesignTokens
