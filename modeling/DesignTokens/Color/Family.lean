import DesignTokens.Color.Basic
import DesignTokens.Text.Digit
import DesignTokens.Text.Hex
import DesignTokens.Text.LetterCase
import DesignTokens.Text.Reader

/-!
# Families of color texts

Three tests of increasing strictness tell colors from other values. The family
is told by the beginning of a text alone. A color shape is a number sign with
digits, or a color function with one pair of parentheses. A color literal is a
text that as a whole is a color in its usual spelling.
-/

namespace DesignTokens
namespace ColorFormat

/-- The family that the beginning of a text names, blanks and case ignored. -/
def ofText? (t : Text) : Option ColorFormat :=
  let cleaned := Text.lower (t.filter fun c => !Text.isBlank c)
  if Text.startsWith "oklch(".toList cleaned then some .oklch
  else if Text.startsWith ['#'] cleaned then some .hex
  else if Text.startsWith "rgb(".toList cleaned || Text.startsWith "rgba(".toList cleaned then
    some .rgb
  else if Text.startsWith "hsl(".toList cleaned || Text.startsWith "hsla(".toList cleaned then
    some .hsl
  else none

end ColorFormat

namespace Color

def isHexLiteral : Text → Bool
  | '#' :: ds =>
      ds.all Text.isHexDigit &&
        (ds.length = 3 || ds.length = 4 || ds.length = 6 || ds.length = 8)
  | _ => false

open Reader

def digits : Reader :=
  some1 Text.isDecimal

def number : Reader :=
  some1 fun c => Text.isDecimal c || c = '.'

def comma : Reader :=
  Reader.sequence [blanks, exactly [','], blanks]

def percentage : Reader :=
  Reader.sequence [digits, exactly ['%']]

def ratio : Reader :=
  Reader.sequence [number, optional (exactly ['%'])]

def close : Reader :=
  Reader.sequence [blanks, exactly [')']]

def function (name : String) (args : List Reader) : Reader :=
  Reader.sequence ([exactly name.toList, exactly ['('], blanks] ++ args ++ [close])

def literalFunctions : List Reader :=
  [function "rgb" [digits, comma, digits, comma, digits],
   function "rgba" [digits, comma, digits, comma, digits, comma, number],
   function "hsl" [digits, comma, percentage, comma, percentage],
   function "hsla" [digits, comma, percentage, comma, percentage, comma, number],
   function "oklch"
    [ratio, some1 Text.isBlank, number, some1 Text.isBlank, number,
     optional (Reader.sequence [blanks, exactly ['/'], blanks, ratio])]]

/-- Whether a text, apart from blanks around it, is a color literal. -/
def isLiteral (t : Text) : Bool :=
  let s := Text.strip t
  isHexLiteral s || literalFunctions.any fun r => accepts r s

def functionNames : List Text :=
  ["rgb".toList, "rgba".toList, "hsl".toList, "hsla".toList, "oklch".toList]

/-- A color function of this name, case ignored, with no parentheses inside. -/
def functionShape (name : Text) : Reader :=
  Reader.sequence
    [Text.afterFolded? name, blanks, exactly ['('],
     many fun c => c ≠ '(' && c ≠ ')', exactly [')']]

def isShape (t : Text) : Bool :=
  let s := Text.strip t
  isHexLiteral s || functionNames.any fun name => accepts (functionShape name) s

end Color
end DesignTokens
