import DesignTokens.Text.Blank

/-!
# Pieces of nested text

A text with brackets and quotes is cut at the separators that stand outside all
of them. The scan is an automaton that sees one character at a time, the one
before it and the one after it. A backslash inside quotes takes the next
character with it. A closing bracket without an opening one is ignored, and
brackets of different kinds close each other.

Where comments are recognised, a line comment runs through its newline, a block
comment through its first end mark, and two slashes directly behind a colon are
part of an address and begin no comment.
-/

namespace DesignTokens
namespace Pieces

inductive Separator where
  /-- at every blank -/
  | blank
  /-- at this character -/
  | char (c : Char)
  /-- nowhere -/
  | never
deriving DecidableEq, Repr

def Separator.holds : Separator → Char → Bool
  | .blank, c => Text.isBlank c
  | .char s, c => c = s
  | .never, _ => false

inductive Place where
  /-- outside quotes and comments -/
  | plain
  /-- between quotes of this kind -/
  | quoted (quote : Char)
  /-- between quotes, behind a backslash -/
  | escaped (quote : Char)
  /-- in a line comment -/
  | line
  /-- before the asterisk that opens a block comment -/
  | opening
  /-- in a block comment -/
  | block
  /-- before the slash that closes a block comment -/
  | closing
deriving DecidableEq, Repr

/-- The place of the scan and the number of open brackets. -/
structure State where
  place : Place
  depth : Nat
deriving DecidableEq, Repr

def State.top : State :=
  ⟨.plain, 0⟩

def isQuote (c : Char) : Bool :=
  c = '"' || c = '\'' || c = '`'

def isOpener (c : Char) : Bool :=
  c = '(' || c = '[' || c = '{'

def isCloser (c : Char) : Bool :=
  c = ')' || c = ']' || c = '}'

/-- How a text is cut: the separators, and whether comments are recognised. -/
structure Rule where
  separator : Separator
  comments : Bool
deriving DecidableEq, Repr

def Rule.commas : Rule :=
  ⟨.char ',', false⟩

def Rule.words : Rule :=
  ⟨.blank, false⟩

def Rule.entries : Rule :=
  ⟨.char ',', true⟩

/-- The place that a comment puts the scan in, if one begins at this character. -/
def commentAt? (before : Option Char) (c : Char) (next : Option Char) : Option Place :=
  if c = '/' && next = some '/' && before ≠ some ':' then some .line
  else if c = '/' && next = some '*' then some .opening
  else none

/-- One character outside quotes and comments: the new state, and whether the text is cut here. -/
def stepPlain (separator : Separator) (depth : Nat) (c : Char) : State × Bool :=
  if isQuote c then (⟨.quoted c, depth⟩, false)
  else if isOpener c then (⟨.plain, depth + 1⟩, false)
  else if isCloser c then (⟨.plain, depth - 1⟩, false)
  else (⟨.plain, depth⟩, depth = 0 && separator.holds c)

def step (rule : Rule) (s : State) (before : Option Char) (c : Char) (next : Option Char) :
    State × Bool :=
  match s.place with
  | .plain =>
      match if rule.comments then commentAt? before c next else none with
      | some place => (⟨place, s.depth⟩, false)
      | none => stepPlain rule.separator s.depth c
  | .quoted quote =>
      if c = '\\' then (⟨.escaped quote, s.depth⟩, false)
      else if c = quote then (⟨.plain, s.depth⟩, false)
      else (s, false)
  | .escaped quote => (⟨.quoted quote, s.depth⟩, false)
  | .line => if c = '\n' then (⟨.plain, s.depth⟩, false) else (s, false)
  | .opening => (⟨.block, s.depth⟩, false)
  | .block => if c = '*' && next = some '/' then (⟨.closing, s.depth⟩, false) else (s, false)
  | .closing => (⟨.plain, s.depth⟩, false)

/-- The text between the cuts, blank pieces included. -/
def between (rule : Rule) : State → (before : Option Char) → Text → List Text
  | _, _, [] => [[]]
  | s, before, c :: t =>
      let (s', cut) := step rule s before c t.head?
      let rest := between rule s' (some c) t
      if cut then [] :: rest
      else
        match rest with
        | [] => [[c]]
        | piece :: pieces => (c :: piece) :: pieces

/-- The texts with their offsets, where one character stands between neighbours. -/
def placed : (offset : Nat) → List Text → List (Nat × Text)
  | _, [] => []
  | offset, piece :: pieces => (offset, piece) :: placed (offset + piece.length + 1) pieces

/-- The pieces of a text that are not blank, each with its offset. -/
def ofText (rule : Rule) (t : Text) : List (Nat × Text) :=
  (placed 0 (between rule .top none t)).filter fun piece => !Text.isAllBlank piece.2

def texts (rule : Rule) (t : Text) : List Text :=
  (ofText rule t).map (·.2)

end Pieces
end DesignTokens
