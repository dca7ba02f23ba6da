import DesignTokens.Number.Binary

/-!
# Shortest decimals

A float stands for all real numbers that round to it. Among the decimals in this
interval the shortest one is chosen, and of two shortest ones the nearer to the
float. The search compares natural numbers only.
-/

namespace DesignTokens

/-- The number `digits * 10 ^ exponent`. -/
structure Decimal where
  digits : Nat
  exponent : Int
deriving DecidableEq, Repr

namespace Decimal

def compareBinary (a : Nat) (i : Int) (n : Nat) (j : Int) : Ordering :=
  compare (a * tenPow i.toNat * twoPow (-j).toNat) (n * twoPow j.toNat * tenPow (-i).toNat)

/--
Whether a decimal is among the numbers that round to `mantissa * 2 ^ exponent`.
The interval reaches half way to both neighbours, and the neighbour below a
power of two is closer. The ends belong to it if the mantissa is even.
-/
def readsBack (mantissa : Nat) (exponent : Int) (d : Decimal) : Bool :=
  let narrow := decide (mantissa = twoPow 52 ∧ -1074 < exponent)
  let low := if narrow then 4 * mantissa - 1 else 4 * mantissa - 2
  let high := 4 * mantissa + 2
  let closed := decide (mantissa % 2 = 0)
  let below := compareBinary d.digits d.exponent low (exponent - 2)
  let above := compareBinary d.digits d.exponent high (exponent - 2)
  (below = .gt || (closed && below = .eq)) && (above = .lt || (closed && above = .eq))

/--
The largest multiple of `10 ^ place` that is not above `mantissa * 2 ^ exponent`, as
a factor.
-/
def gridBelow (mantissa : Nat) (exponent place : Int) : Nat :=
  (mantissa * twoPow exponent.toNat * tenPow (-place).toNat) /
    (twoPow (-exponent).toNat * tenPow place.toNat)

/-- The nearer of the two neighbours on the grid of `10 ^ place`, if one of them reads back. -/
def onGrid? (mantissa : Nat) (exponent place : Int) : Option Decimal :=
  let d := gridBelow mantissa exponent place
  let lower : Decimal := ⟨d, place⟩
  let upper : Decimal := ⟨d + 1, place⟩
  match readsBack mantissa exponent lower, readsBack mantissa exponent upper with
  | false, false => none
  | true, false => some lower
  | false, true => some upper
  | true, true =>
      match compareBinary (2 * d + 1) place (2 * mantissa) exponent with
      | .lt => some upper
      | .gt => some lower
      | .eq => some (if d % 2 = 0 then lower else upper)

def leadingPlace (mantissa : Nat) (exponent : Int) : Int :=
  let bits : Int := (mantissa.log2 : Int) + exponent
  let estimate := bits * 30103 / 100000
  match [estimate - 1, estimate, estimate + 1, estimate + 2].find? fun k =>
      compareBinary 1 k mantissa exponent = .gt with
  | some k => k
  | none => estimate + 3

def trimmed : (fuel : Nat) → Decimal → Decimal
  | 0, d => d
  | fuel + 1, d =>
      if d.digits ≠ 0 ∧ d.digits % 10 = 0 then trimmed fuel ⟨d.digits / 10, d.exponent + 1⟩ else d

/-- The exact value of a positive number, used if no short decimal reads back. -/
def exact (mantissa : Nat) (exponent : Int) : Decimal :=
  ⟨mantissa * twoPow exponent.toNat * Nat.pow 5 (-exponent).toNat, min exponent 0⟩

def shortest (mantissa : Nat) (exponent : Int) : Decimal :=
  if mantissa = 0 then ⟨0, 0⟩
  else
    let place := leadingPlace mantissa exponent
    match (List.range 17).findSome? fun n =>
        onGrid? mantissa exponent (place - (n : Nat) - 1) with
    | some d => trimmed 20 d
    | none => exact mantissa exponent

end Decimal
end DesignTokens
