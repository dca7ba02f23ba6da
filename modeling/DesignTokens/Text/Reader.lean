import DesignTokens.Text.Blank

/-!
# Readers

A reader takes a beginning off a text and returns the rest, or refuses the
text. Readers of parts are put in sequence to read a whole; none of them ever
reconsiders what it has taken, so a sequence is used only where the parts
cannot share characters.
-/

namespace DesignTokens

/-- Takes a beginning off a text, or refuses the text. -/
abbrev Reader := Text → Option Text

namespace Reader

def exactly (lead : Text) : Reader :=
  Text.after? lead

def many (p : Char → Bool) : Reader :=
  fun t => some (t.dropWhile p)

def some1 (p : Char → Bool) : Reader
  | [] => none
  | c :: t => if p c then some (t.dropWhile p) else none

def blanks : Reader :=
  many Text.isBlank

def sequence : List Reader → Reader
  | [] => some
  | r :: rs => fun t => (r t).bind (sequence rs)

def optional (r : Reader) : Reader :=
  fun t => some ((r t).getD t)

def anyOf (rs : List Reader) : Reader :=
  fun t => rs.findSome? fun r => r t

/-- Reads again and again with `r`, as long as it takes something. -/
def star (r : Reader) (t : Text) : Option Text :=
  match r t with
  | none => some t
  | some rest => if rest.length < t.length then star r rest else some t
termination_by t.length

def accepts (r : Reader) (t : Text) : Bool :=
  r t = some []

end Reader
end DesignTokens
