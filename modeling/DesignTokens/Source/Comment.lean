import DesignTokens.Source.Literal
import DesignTokens.Text.Blank

/-!
# Comments around values

Comments before the key of an entry end where they end. Comments behind a value
are looked at as a whole: the rest of the entry is nothing but comments if it
can be cut into comments in some way, where a block comment may run past an end
mark and a line comment may stop early. All ways are followed at once.
-/

namespace DesignTokens
namespace Source

theorem length_dropWhile_le (p : Char → Bool) (t : Text) :
    (t.dropWhile p).length ≤ t.length :=
  (List.dropWhile_sublist p).length_le

/-- A text without the comments at its beginning and the blanks before each of them. -/
def skipComments (t : Text) : Text :=
  match _ : t.dropWhile Text.isBlank with
  | '/' :: '/' :: rest =>
      have := length_dropWhile_le Text.isBlank t
      have := length_dropWhile_le (· ≠ '\n') rest
      skipComments (rest.dropWhile (· ≠ '\n'))
  | '/' :: '*' :: rest =>
      have := length_dropWhile_le Text.isBlank t
      match h' : Scan.afterBlock? 0 rest with
      | some (_, rest') =>
          have := Scan.length_of_afterBlock? h'
          skipComments rest'
      | none => t
  | _ => t
termination_by t.length
decreasing_by
  all_goals simp_all
  all_goals omega

inductive CommentPlace where
  /-- before the row, or behind a complete comment -/
  | between
  /-- behind blanks that a comment has to follow -/
  | blanks
  /-- behind the first slash of a comment -/
  | slash
  /-- in a line comment -/
  | line
  /-- in a block comment -/
  | block
  /-- behind an asterisk that may end a block comment -/
  | star
deriving DecidableEq, Repr

namespace CommentPlace

def next : CommentPlace → Char → List CommentPlace
  | between, c => if Text.isBlank c then [blanks] else if c = '/' then [slash] else []
  | blanks, c => if Text.isBlank c then [blanks] else if c = '/' then [slash] else []
  | slash, c => if c = '/' then [line, between] else if c = '*' then [block] else []
  | line, c => if c = '\n' then [] else [line, between]
  | block, c => if c = '*' then [block, star] else [block]
  | star, c => if c = '/' then [between] else []

/-- Whether a text can lead from one of these places to the end of a row of comments. -/
def reachesEnd (places : List CommentPlace) : Text → Bool
  | [] => between ∈ places
  | c :: t => reachesEnd (places.flatMap fun p => p.next c).eraseDups t

end CommentPlace

/-- Whether a text is a row of comments with blanks before each of them. -/
def isComments (t : Text) : Bool :=
  CommentPlace.reachesEnd [.between] t

end Source
end DesignTokens
