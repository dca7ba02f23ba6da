import DesignTokens.Source.Offset
import DesignTokens.Text.Blank
import DesignTokens.Text.Word

/-!
# Positions in a source

An offset has a line and a column, both counted from one. Around an offset lie
its line, a snippet of the source, and the element whose attributes it belongs
to, as far as that can be told without parsing the source.
-/

namespace DesignTokens
namespace Source

def lineBefore (source : Text) (offset : Nat) : Text :=
  ((source.take offset).reverse.takeWhile (· ≠ '\n')).reverse

def lineAfter (source : Text) (offset : Nat) : Text :=
  (source.drop offset).takeWhile (· ≠ '\n')

/-- Line and column of an offset, and zeros for an offset outside of the source. -/
def lineAndColumn (source : Text) (offset : Int) : Nat × Nat :=
  if offset < 0 ∨ (source.length : Int) < offset then (0, 0)
  else
    let n := offset.toNat
    ((source.take n).count '\n' + 1, (lineBefore source n).length + 1)

def fullLine (source : Text) (offset : Int) : Text :=
  lineBefore source (place source offset) ++ lineAfter source (place source offset)

/-- A stretch of a source with up to `size` characters on both sides. -/
def snippet (source : Text) (start stop size : Int) : Text :=
  stretch source (max 0 (start - size)) (min source.length (stop + size))

def isNameChar (c : Char) : Bool :=
  Text.isWord c || c = '.' || c = '$'

def lastTag? : Text → Option (Text × Text)
  | [] => none
  | c :: t =>
      match lastTag? t with
      | some tag => some tag
      | none =>
          if c = '<' ∧ (t.head?.any Char.isAlpha) then
            some (t.takeWhile isNameChar, t.dropWhile isNameChar)
          else none

/-- Whether a text closes an element: it holds a greater-than sign that is not part of an arrow. -/
def closesTag : (before : Option Char) → Text → Bool
  | _, [] => false
  | before, c :: t => (c = '>' && before ≠ some '=') || closesTag (some c) t

/--
The name of the element whose attributes contain an offset: the last one that
is opened before it on the same line, or else the last one that is opened before
it and not closed.
-/
def elementName? (source : Text) (offset : Int) : Option Text :=
  let n := offset.toNat
  match lastTag? (lineBefore source n) with
  | some tag => some tag.1
  | none =>
      match lastTag? (source.take n) with
      | some tag => if closesTag none tag.2 then none else some tag.1
      | none => none

structure Location where
  start : Int
  stop : Int
  line : Nat
  column : Nat
deriving DecidableEq, Repr

def location (source : Text) (start stop : Int) : Location :=
  let position := lineAndColumn source start
  ⟨start, stop, position.1, position.2⟩

structure Context where
  line : Text
  element : Option Text
  snippet : Text
deriving DecidableEq, Repr

end Source
end DesignTokens
