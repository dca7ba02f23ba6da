import DesignTokens.Source.Offset
import DesignTokens.Source.Scan
import DesignTokens.Source.Window

/-!
# Reading at any offset

Literals and brackets are read from any offset of a source up to any limit. Offsets
below zero count from the end, and a limit may lie behind the end: then reading fails
if it gets there.
-/

namespace DesignTokens
namespace Source

/-- What a scan finds that begins at `start` and counts its offsets from there. -/
def scanAt {α : Type} (scan : Reach → Scan α) (source : Text) (start limit : Int) : Scan α :=
  if limit ≤ start then .ok none
  else
    match reach? source start limit with
    | none => .error .outside
    | some r => scan r

def placed (source : Text) (start : Int) (l : Literal Nat) : Literal Int where
  quote := l.quote
  start := start + l.start
  stop := start + l.stop
  text := stretch source (start + l.start + 1) (start + l.stop - 1)
  interpolations := l.interpolations.map fun span => (start + span.1, start + span.2)

def literalAt (source : Text) (start limit : Int) : Scan (Literal Int) :=
  (scanAt (fun r => Scan.literal r.missing 0 r.text) source start limit).map fun l =>
    l.map (placed source start)

def closingAt (source : Text) (start limit : Int) : Scan Int :=
  (scanAt (fun r => Scan.bracket r.missing 0 r.text) source start limit).map fun close =>
    close.map fun n => start + n

def skipBlanks (source : Text) (offset : Int) : Except SourceFault Int :=
  match readFrom? source offset with
  | none => .error .outside
  | some t => .ok (offset + (t.takeWhile Text.isBlank).length)

def literalsInside (source : Text) (nested : Bool) (start : Nat) (limit : Int) :
    Except SourceFault (List (Literal Int)) :=
  match reach? source start limit with
  | none => .error .outside
  | some r =>
      (Scan.literals r.missing nested (Window.charBefore? source start) 0 r.text).map fun ls =>
        ls.map (placed source start)

def opensComment (source : Text) (second : Char) (offset limit : Int) : Bool :=
  charAt? source offset = some '/' && offset + 1 < limit &&
    charAt? source (offset + 1) = some second

/--
The literals between two offsets, comments skipped, where a comment that begins at an
offset below zero ends at the first end mark behind its beginning. Each step takes one
unit of fuel.
-/
def literalsFrom (source : Text) (nested : Bool) :
    (fuel : Nat) → (offset limit : Int) → Except SourceFault (List (Literal Int))
  | 0, _, _ => .ok []
  | fuel + 1, offset, limit => do
      if limit ≤ offset then return []
      else if 0 ≤ offset then literalsInside source nested offset.toNat limit
      else if (charAt? source offset).isNone then throw .outside
      else if opensComment source '/' offset limit then
        match charAt? source (offset - 1) with
        | none => throw .outside
        | some ':' => literalsFrom source nested fuel (offset + 1) limit
        | some _ =>
            match find? ['\n'] source offset limit with
            | none => return []
            | some n => literalsFrom source nested fuel (n + 1) limit
      else if opensComment source '*' offset limit then
        match find? ['*', '/'] source (offset + 2) limit with
        | none => return []
        | some n => literalsFrom source nested fuel (n + 2) limit
      else
        match ← literalAt source offset limit with
        | none => literalsFrom source nested fuel (offset + 1) limit
        | some l =>
            let inner ←
              if nested then
                l.interpolations.mapM fun span => literalsFrom source nested fuel span.1 span.2
              else pure []
            let later ← literalsFrom source nested fuel l.stop limit
            return l :: inner.flatten ++ later

def literalsBetween (source : Text) (nested : Bool) (start limit : Int) :
    Except SourceFault (List (Literal Int)) :=
  literalsFrom source nested ((limit - start).toNat + 1) start limit

end Source
end DesignTokens
