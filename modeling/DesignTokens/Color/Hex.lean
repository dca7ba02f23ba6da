import DesignTokens.Color.Basic
import DesignTokens.Text.Blank

/-!
# Hexadecimal colors

A color is written as a number sign and two small hexadecimal digits for each
channel, and two more for an opacity below 1. It is read from three, four, six or
eight digits in either case, where a short form stands for each digit doubled.
-/

namespace DesignTokens

/-- A channel as a number from 0 to 255. Channels outside are moved to the nearer end. -/
def channelByte? (n : Int) : Except ArithmeticFault Nat :=
  if twoPow 1024 - twoPow 970 ≤ n.natAbs then .error .integerTooLarge
  else .ok (clampInt 0 255 n).toNat

def alphaByte? (a : Float) : Except ArithmeticFault Nat :=
  (roundHalfUp? (a * 255)).map fun n => (clampInt 0 255 n).toNat

def Rgb.hex? (c : Rgb) : Except ArithmeticFault Text := do
  let r ← channelByte? c.r
  let g ← channelByte? c.g
  let b ← channelByte? c.b
  let channels := '#' :: Text.hexPadded 2 r ++ Text.hexPadded 2 g ++ Text.hexPadded 2 b
  match c.a with
  | some a =>
      if a < 1 then
        let n ← alphaByte? a
        return channels ++ Text.hexPadded 2 n
      else return channels
  | none => return channels

namespace Hex

def doubled (ds : Text) : Text :=
  ds.flatMap fun c => [c, c]

/-- The digits of a hexadecimal color: without blanks around it and number signs before it. -/
def digits (t : Text) : Text :=
  (Text.strip t).dropWhile (· = '#')

def ofValues? : List Nat → Option Rgb
  | [r1, r0, g1, g0, b1, b0] =>
      some ⟨(16 * r1 + r0 : Nat), (16 * g1 + g0 : Nat), (16 * b1 + b0 : Nat), none⟩
  | [r1, r0, g1, g0, b1, b0, a1, a0] =>
      some
        ⟨(16 * r1 + r0 : Nat), (16 * g1 + g0 : Nat), (16 * b1 + b0 : Nat),
          some (Binary.nearest (16 * a1 + a0) 255)⟩
  | _ => none

def ofDigits? (ds : Text) : Option Rgb :=
  let full := if ds.length = 3 ∨ ds.length = 4 then doubled ds else ds
  (full.mapM Text.hexValue?).bind ofValues?

end Hex

def Rgb.ofHex? (t : Text) : Except ColorFault Rgb :=
  match Hex.ofDigits? (Hex.digits t) with
  | some c => .ok c
  | none => .error (.notHex t)

end DesignTokens
