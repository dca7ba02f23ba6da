import DesignTokens.Text.Basic

/-!
# Offsets

An offset into a source counts its characters from the beginning. An offset below
zero counts from the end: the last character lies at -1. A text that is read from
such an offset goes on at the beginning of the source when its end is reached.
-/

namespace DesignTokens
namespace Source

/--
The place of an offset, counted from the beginning. Offsets outside of the source are
moved to its nearer end.
-/
def place (source : Text) (offset : Int) : Nat :=
  if offset < 0 then (source.length + offset).toNat else min offset.toNat source.length

def charAt? (source : Text) (offset : Int) : Option Char :=
  if 0 ≤ offset then source[offset.toNat]?
  else if -(source.length : Int) ≤ offset then source[(source.length + offset).toNat]?
  else none

def stretch (source : Text) (start stop : Int) : Text :=
  Text.slice source (place source start) (place source stop)

def find? (part source : Text) (start stop : Int) : Option Nat :=
  (Text.cut? part (stretch source start stop)).map fun c => place source start + c.1.length

def readFrom? (source : Text) (offset : Int) : Option Text :=
  if 0 ≤ offset then some (source.drop offset.toNat)
  else if -(source.length : Int) ≤ offset then
    some (source.drop (source.length + offset).toNat ++ source)
  else none

/-- The characters up to a limit, and how many of them are missing. -/
structure Reach where
  text : Text
  missing : Nat
deriving DecidableEq, Repr

def reach? (source : Text) (start limit : Int) : Option Reach :=
  let size := (limit - start).toNat
  (readFrom? source start).map fun t => ⟨t.take size, size - t.length⟩

end Source
end DesignTokens
