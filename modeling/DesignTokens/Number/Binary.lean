import DesignTokens.Number.Fault
import DesignTokens.Number.Power

/-!
# Binary64 numbers, exactly

A finite float is an integer multiple of a power of two. This module takes a
float apart into these integers, finds the float nearest to a quotient of
integers, and computes on the integers what core does not offer on floats in the
logic: the floor, the rounding of halves upwards and the remainder.
-/

namespace DesignTokens

/-- A float as a sign, a natural number and an exponent of two. -/
inductive Binary where
  | notANumber
  | infinite (negative : Bool)
  /-- the number `mantissa * 2 ^ exponent`, with a sign also for zero -/
  | finite (negative : Bool) (mantissa : Nat) (exponent : Int)
deriving DecidableEq, Repr

namespace Binary

def ofFloat (x : Float) : Binary :=
  let bits := x.toBits.toNat
  let negative := decide (bits / twoPow 63 = 1)
  let biased : Nat := bits / twoPow 52 % twoPow 11
  let fraction : Nat := bits % twoPow 52
  if biased = twoPow 11 - 1 then
    if fraction = 0 then .infinite negative else .notANumber
  else if biased = 0 then .finite negative fraction (-1074)
  else .finite negative (twoPow 52 + fraction) ((biased : Int) - 1075)

/-- The quotient `num / den` rounded to an integer, a half to the even neighbour. -/
def roundHalfEven (num den : Nat) : Nat :=
  let q := num / den
  let r := num % den
  if 2 * r < den then q
  else if den < 2 * r then q + 1
  else if q % 2 = 0 then q else q + 1

/-- `n` times two to the power `k`, where a negative power divides and drops the fraction. -/
def scaled (n : Nat) (k : Int) : Nat :=
  n * twoPow k.toNat / twoPow (-k).toNat

/--
The exponent at which the quotient of two positive numbers has 53 binary digits,
but not less than the least exponent of a float.
-/
def quotientExponent (num den : Nat) : Int :=
  let e : Int := (num.log2 : Int) - den.log2 - 52
  let e := if num * twoPow (-e).toNat < twoPow 52 * (den * twoPow e.toNat) then e - 1 else e
  max e (-1074)

/--
The bits of the float nearest to `num / den`, ties to the even mantissa. A
mantissa that rounding carries to 2^53 moves into the exponent by itself.
-/
def nearestBits (num den : Nat) : Nat :=
  if num = 0 then 0
  else
    let e := quotientExponent num den
    let mantissa := roundHalfEven (num * twoPow (-e).toNat) (den * twoPow e.toNat)
    min ((e + 1074).toNat * twoPow 52 + mantissa) (0x7FF * twoPow 52)

/-- The float nearest to `num / den`, infinite if the quotient is too large. -/
def nearest (num den : Nat) : Float :=
  Float.ofBits (UInt64.ofNat (nearestBits num den))

def signed (negative : Bool) (x : Float) : Float :=
  if negative then -x else x

end Binary

def floatOfInt? (n : Int) : Except ArithmeticFault Float :=
  let x := Binary.nearest n.natAbs 1
  if x.isInf then .error .integerTooLarge else .ok (Binary.signed (n < 0) x)

def quotient? (n : Int) (den : Nat) : Except ArithmeticFault Float :=
  let x := Binary.nearest n.natAbs den
  if x.isInf then .error .quotientTooLarge else .ok (Binary.signed (n < 0) x)

def divide? (x y : Float) : Except ArithmeticFault Float :=
  if y == 0 then .error .divisionByZero else .ok (x / y)

def floor? (x : Float) : Except ArithmeticFault Int :=
  match Binary.ofFloat x with
  | .notANumber => .error .notANumberToInteger
  | .infinite _ => .error .infiniteToInteger
  | .finite negative mantissa exponent =>
      let n : Int := if negative then -(mantissa : Int) else mantissa
      .ok (n * twoPow exponent.toNat / twoPow (-exponent).toNat)

/-- The nearest integer, halves upwards. The half is added as floats are added. -/
def roundHalfUp? (x : Float) : Except ArithmeticFault Int :=
  floor? (x + 0.5)

def integer? (x : Float) : Option Int :=
  match Binary.ofFloat x with
  | .finite negative mantissa exponent =>
      if mantissa * twoPow exponent.toNat % twoPow (-exponent).toNat = 0 then
        let n := Binary.scaled mantissa exponent
        some (if negative then -(n : Int) else n)
      else none
  | _ => none

/-- The remainder on division by a positive number, with the sign of the dividend. -/
def remainder? (x : Float) (modulus : Nat) : Except ArithmeticFault Float :=
  match Binary.ofFloat x with
  | .notANumber => .ok x
  | .infinite _ => .error .outsideDomain
  | .finite negative mantissa exponent =>
      let den := twoPow (-exponent).toNat
      let r := mantissa * twoPow exponent.toNat % (modulus * den)
      .ok (Binary.signed negative (Binary.nearest r den))

/-- A finite float brought into the interval from zero to the modulus. -/
def wrap? (x : Float) (modulus : Nat) : Except ArithmeticFault Float := do
  let r ← remainder? x modulus
  if r == 0 then return 0
  else if r < 0 then return r + Float.ofNat modulus
  else return r

/--
The number in the interval from `lo` to `hi` that is closest to `x`; `hi` if `x` is
not a number.
-/
def clamp (lo hi x : Float) : Float :=
  let m := if x < hi then x else hi
  if lo < m then m else lo

def clampInt (lo hi n : Int) : Int :=
  max lo (min hi n)

end DesignTokens
