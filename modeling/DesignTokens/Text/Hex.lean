import DesignTokens.Text.Basic

/-!
# Hexadecimal digits

The sixteen digits are written with small letters and read in either case.
-/

namespace DesignTokens
namespace Text

def hexDigit (n : Nat) : Char :=
  if n < 10 then Char.ofNat (0x30 + n) else Char.ofNat (0x57 + n)

def hexValue? (c : Char) : Option Nat :=
  let n := c.toNat
  if 0x30 ≤ n && n ≤ 0x39 then some (n - 0x30)
  else if 0x61 ≤ n && n ≤ 0x66 then some (n - 0x57)
  else if 0x41 ≤ n && n ≤ 0x46 then some (n - 0x37)
  else none

def isHexDigit (c : Char) : Bool :=
  (hexValue? c).isSome

/-- The last `width` hexadecimal digits of a number, with zeros in front. -/
def hexPadded : (width : Nat) → Nat → Text
  | 0, _ => []
  | width + 1, n => hexPadded width (n / 16) ++ [hexDigit (n % 16)]

@[simp] theorem length_hexPadded (width n : Nat) :
    (hexPadded width n).length = width := by
  induction width generalizing n with
  | zero => rfl
  | succ width ih => simp [hexPadded, ih]

def hexNumber? : Text → Option Nat :=
  fun t => t.foldlM (fun n c => (hexValue? c).map fun d => 16 * n + d) 0

end Text
end DesignTokens
