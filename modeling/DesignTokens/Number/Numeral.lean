import DesignTokens.Number.Binary
import DesignTokens.Text.Blank
import DesignTokens.Text.Digit

/-!
# Numerals

A numeral is an optional sign followed by a decimal with an optional exponent,
or by one of the words for infinity and for what is not a number. It denotes the
nearest float. The numerals that stand in texts may use the digits of any script,
single underscores between digits, and white space around them.
-/

namespace DesignTokens
namespace Numeral

def digitsValue (ds : Text) : Nat :=
  ds.foldl (fun n c => 10 * n + (c.toNat - 0x30)) 0

/--
The float nearest to the row of digits `ds` times ten to the power `exponent`.
Beyond the range of floats the power is not computed.
-/
def nearestDecimal (ds : Text) (exponent : Int) : Float :=
  let n := digitsValue ds
  let top := exponent + ds.length
  if n = 0 ∨ top < -400 then Binary.nearest 0 1
  else if 400 < exponent then Binary.nearest (twoPow 1024) 1
  else Binary.nearest (n * tenPow exponent.toNat) (tenPow (-exponent).toNat)

def exponent? (t : Text) : Option Int :=
  let (negative, ds) :=
    match t with
    | '-' :: r => (true, r)
    | '+' :: r => (false, r)
    | r => (false, r)
  if ds ≠ [] ∧ ds.all Char.isDigit then
    some (if negative then -(digitsValue ds : Int) else digitsValue ds)
  else none

/--
A decimal without sign: digits on at least one side of an optional point, and an
optional exponent.
-/
def decimal? (t : Text) : Option Float :=
  let whole := t.takeWhile Char.isDigit
  let rest := t.dropWhile Char.isDigit
  let (fraction, rest) :=
    match rest with
    | '.' :: r => (r.takeWhile Char.isDigit, r.dropWhile Char.isDigit)
    | r => ([], r)
  if whole = [] ∧ fraction = [] then none
  else
    let value := fun (e : Int) => nearestDecimal (whole ++ fraction) (e - fraction.length)
    match rest with
    | [] => some (value 0)
    | c :: r => if c = 'e' ∨ c = 'E' then (exponent? r).map value else none

def unsigned? (t : Text) : Option Float :=
  let word := t.map Char.toLower
  if word = ['i', 'n', 'f'] ∨ word = ['i', 'n', 'f', 'i', 'n', 'i', 't', 'y'] then
    some (1.0 / 0.0)
  else if word = ['n', 'a', 'n'] then some (0.0 / 0.0)
  else decimal? t

def ascii? : Text → Option Float
  | '-' :: t => (unsigned? t).map fun x => -x
  | '+' :: t => unsigned? t
  | t => unsigned? t

/-- A text without its underscores, where each of them stands between two ASCII digits. -/
def joined? : (before : Option Char) → Text → Option Text
  | before, [] => if before = some '_' then none else some []
  | before, c :: t =>
      if c = '_' then
        if before.any Char.isDigit then joined? (some c) t else none
      else if before = some '_' ∧ !c.isDigit then none
      else (joined? (some c) t).map (c :: ·)

def asciiDigit (c : Char) : Char :=
  match Text.digitValue? c with
  | some d => Char.ofNat (0x30 + d)
  | none => c

def float? (t : Text) : Option Float :=
  (joined? none ((Text.stripWhiteSpace t).map asciiDigit)).bind ascii?

end Numeral
end DesignTokens
