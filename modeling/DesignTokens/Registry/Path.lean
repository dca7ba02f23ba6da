import DesignTokens.Text.Basic

/-!
# Paths

A path is a root and a list of names. Single dots and repeated slashes have no
meaning and are dropped; two dots stay. A path that leads nowhere else is written
as a dot.
-/

namespace DesignTokens

/-- The root of a path, empty for a path that is relative, and the names on the way. -/
structure Path where
  root : Text
  names : List Text
deriving DecidableEq, Repr

namespace Path

/-- The root that a number of slashes stands for: two of them are kept. -/
def rootOf : (slashes : Nat) → Text
  | 0 => []
  | 2 => ['/', '/']
  | _ => ['/']

def ofText (t : Text) : Path where
  root := rootOf (t.takeWhile (· = '/')).length
  names := (Text.fields (· = '/') t).filter (· ≠ ['.'])

def toText (p : Path) : Text :=
  match p.root ++ Text.join ['/'] p.names with
  | [] => ['.']
  | t => t

def hasNull (p : Path) : Bool :=
  p.toText.any (· = '\x00')

end Path
end DesignTokens
