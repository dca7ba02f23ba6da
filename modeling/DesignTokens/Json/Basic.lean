import DesignTokens.Text.Basic

/-!
# Documents

Documents are the JSON values in which tokens are exported and options are
given. A number keeps the literal that stands for it, so that integers, floats
and numbers of any size are told apart. The fields of an object keep their order.
-/

namespace DesignTokens

inductive Json where
  | null
  | bool (b : Bool)
  /-- a number as it is written -/
  | number (literal : Text)
  | text (t : Text)
  | array (items : List Json)
  | object (fields : List (Text × Json))
deriving Repr, Inhabited

namespace Json

def fields : Json → List (Text × Json)
  | .object fs => fs
  | _ => []

def field? (name : Text) (j : Json) : Option Json :=
  (j.fields.find? fun f => f.1 = name).map (·.2)

def items : Json → List Json
  | .array js => js
  | _ => []

/--
Whether the literal of a number stands for a float: it has a fraction or an exponent,
or it is a word.
-/
def isFractional (literal : Text) : Bool :=
  literal.any fun c => !(c.isDigit || c = '-')

end Json
end DesignTokens
