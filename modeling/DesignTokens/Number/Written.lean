import DesignTokens.Number.Shortest
import DesignTokens.Text.Basic

/-!
# Written numbers

A float is written with the fewest digits that read back as the same float. A
style says when the digits stand at their places and when an exponent follows
them, and how what is no finite number is written.
-/

namespace DesignTokens

structure NumberStyle where
  /-- the least exponent of the leading digit that is written without exponent -/
  plainFrom : Int
  /-- the least exponent of the leading digit beyond `plainFrom` that is written with exponent -/
  plainBelow : Int
  /-- the least number of digits of an exponent -/
  exponentWidth : Nat
  /-- the text for what is not a number -/
  notANumber : Text
  /-- the text for infinity, without its sign -/
  infinity : Text
deriving DecidableEq, Repr

namespace NumberStyle

/-- Numbers from 0.0001 up to 10^16 stand without an exponent, which has at least two digits. -/
def standard : NumberStyle where
  plainFrom := -4
  plainBelow := 16
  exponentWidth := 2
  notANumber := "nan".toList
  infinity := "inf".toList

def zeroPadded (width : Nat) (t : Text) : Text :=
  List.replicate (width - t.length) '0' ++ t

def exponentPart (style : NumberStyle) (e : Int) : Text :=
  ['e', if e < 0 then '-' else '+'] ++ zeroPadded style.exponentWidth (Text.ofNat e.natAbs)

def plain (d : Decimal) : Text :=
  let ds := Text.ofNat d.digits
  if 0 ≤ d.exponent then ds ++ List.replicate d.exponent.toNat '0' ++ ['.', '0']
  else
    let places := (-d.exponent).toNat
    if places < ds.length then
      ds.take (ds.length - places) ++ '.' :: ds.drop (ds.length - places)
    else '0' :: '.' :: zeroPadded places ds

def scientific (style : NumberStyle) (d : Decimal) : Text :=
  let ds := Text.ofNat d.digits
  let e := d.exponent + ds.length - 1
  match ds with
  | [] => []
  | [first] => first :: style.exponentPart e
  | first :: rest => first :: '.' :: rest ++ style.exponentPart e

def decimal (style : NumberStyle) (d : Decimal) : Text :=
  let leading := d.exponent + (Text.ofNat d.digits).length - 1
  if d.digits = 0 ∨ (style.plainFrom ≤ leading ∧ leading < style.plainBelow) then plain d
  else style.scientific d

def float (style : NumberStyle) (x : Float) : Text :=
  match Binary.ofFloat x with
  | .notANumber => style.notANumber
  | .infinite negative => (if negative then ['-'] else []) ++ style.infinity
  | .finite negative mantissa exponent =>
      (if negative then ['-'] else []) ++ style.decimal (Decimal.shortest mantissa exponent)

end NumberStyle
end DesignTokens
