import DesignTokens.Text.Basic

/-!
# Scanning literals and brackets

A literal begins with a quote and ends with the next quote of the same kind. A
backslash takes the next character with it. A literal in single quotes does not
go past the end of its line. A literal between backticks may hold expressions
behind a dollar sign and between braces, in which brackets are balanced and
which are skipped as a whole.

Brackets are balanced if every opening one is closed by one of its own kind;
literals between them are skipped as a whole, and a quote that begins no literal
is skipped by itself.

A scan goes up to a limit. If the limit lies behind the end of the source, the
scan fails as soon as it asks for one of the characters that are missing there.
-/

namespace DesignTokens

inductive SourceFault where
  /-- a character outside of the source is asked for -/
  | outside
deriving DecidableEq, Repr

def SourceFault.message : SourceFault → String
  | .outside => "string index out of range"

abbrev Scan (α : Type) := Except SourceFault (Option α)

namespace Scan

/-- What a scan finds at the end of its text if `missing` characters are left up to the limit. -/
def atEnd {α : Type} (missing : Nat) : Scan α :=
  if missing = 0 then .ok none else .error .outside

def found {α : Type} : Scan α → Option α
  | .ok r => r
  | .error _ => none

def isQuote (c : Char) : Bool :=
  c = '"' || c = '\'' || c = '`'

def closer? : Char → Option Char
  | '{' => some '}'
  | '[' => some ']'
  | '(' => some ')'
  | _ => none

/-- One past the quote that ends a literal, for the text behind its first quote. -/
def quotedStop (missing : Nat) (quote : Char) : (offset : Nat) → Text → Scan Nat
  | _, [] => atEnd missing
  | offset, c :: t =>
      if c = '\\' then
        match t with
        | [] => atEnd (missing - 1)
        | _ :: t => quotedStop missing quote (offset + 2) t
      else if c = quote then .ok (some (offset + 1))
      else if c = '\n' ∧ quote = '\'' then .ok none
      else quotedStop missing quote (offset + 1) t

mutual

/--
One past the backtick that ends a literal, and its expressions, for the text behind
its first backtick.
-/
def templateStop (missing offset : Nat) : Text → Scan (Nat × List (Nat × Nat))
  | [] => atEnd missing
  | c :: t =>
      if c = '\\' then
        match t with
        | [] => atEnd (missing - 1)
        | _ :: t => templateStop missing (offset + 2) t
      else if c = '`' then .ok (some (offset + 1, []))
      else if c = '$' ∧ t.head? = some '{' then
        match closing missing '}' [] (offset + 2) t.tail with
        | .error fault => .error fault
        | .ok none => .ok none
        | .ok (some close) =>
            (templateStop missing (close + 1) (t.drop (close - offset))).map fun stop =>
              stop.map fun r => (r.1, (offset + 2, close) :: r.2)
      else templateStop missing (offset + 1) t
termination_by t => t.length
decreasing_by
  all_goals simp only [List.length_cons, List.length_drop, List.length_tail]
  all_goals omega

/--
The offset of the bracket that closes the outermost one of the open brackets:
`top` closes the innermost one, `below` the others from the inside out.
-/
def closing (missing : Nat) (top : Char) (below : List Char) (offset : Nat) : Text → Scan Nat
  | [] => atEnd missing
  | c :: t =>
      if isQuote c then
        let stop :=
          if c = '`' then (templateStop missing (offset + 1) t).map fun stop => stop.map (·.1)
          else quotedStop missing c (offset + 1) t
        match stop with
        | .error fault => .error fault
        | .ok (some stop) => closing missing top below stop (t.drop (stop - offset - 1))
        | .ok none => closing missing top below (offset + 1) t
      else
        match closer? c with
        | some d => closing missing d (top :: below) (offset + 1) t
        | none =>
            if c = top then
              match below with
              | [] => .ok (some offset)
              | next :: rest => closing missing next rest (offset + 1) t
            else closing missing top below (offset + 1) t
termination_by t => t.length
decreasing_by
  all_goals simp only [List.length_cons, List.length_drop]
  all_goals omega

end

def bracket (missing offset : Nat) : Text → Scan Nat
  | [] => atEnd missing
  | c :: t =>
      match closer? c with
      | some d => closing missing d [] (offset + 1) t
      | none => .ok none

end Scan

/--
A string literal: its quotes lie at `start` and before `stop`, and its expressions
at `interpolations`.
-/
structure Literal (Offset : Type) where
  quote : Char
  start : Offset
  stop : Offset
  text : Text
  interpolations : List (Offset × Offset)
deriving DecidableEq, Repr

namespace Literal

def contentStart {Offset : Type} [Add Offset] [OfNat Offset 1] (l : Literal Offset) : Offset :=
  l.start + 1

def contentStop {Offset : Type} [Sub Offset] [OfNat Offset 1] (l : Literal Offset) : Offset :=
  l.stop - 1

def isTemplate {Offset : Type} (l : Literal Offset) : Bool :=
  l.quote = '`'

def isDynamic {Offset : Type} (l : Literal Offset) : Bool :=
  !l.interpolations.isEmpty

end Literal

namespace Scan

def literal (missing offset : Nat) : Text → Scan (Literal Nat)
  | [] => atEnd missing
  | c :: t =>
      if c = '`' then
        (templateStop missing (offset + 1) t).map fun stop =>
          stop.map fun r => ⟨c, offset, r.1, t.take (r.1 - offset - 2), r.2⟩
      else if isQuote c then
        (quotedStop missing c (offset + 1) t).map fun stop =>
          stop.map fun n => ⟨c, offset, n, t.take (n - offset - 2), []⟩
      else .ok none

def afterLine? (offset : Nat) : Text → Option (Nat × Text)
  | [] => none
  | c :: t => if c = '\n' then some (offset + 1, t) else afterLine? (offset + 1) t

theorem length_of_afterLine? {offset stop : Nat} {t rest : Text}
    (h : afterLine? offset t = some (stop, rest)) : rest.length < t.length := by
  induction t generalizing offset with
  | nil => simp [afterLine?] at h
  | cons c t ih =>
      unfold afterLine? at h
      split at h
      · simp only [Option.some.injEq, Prod.mk.injEq] at h
        obtain ⟨_, rfl⟩ := h
        simp
      · have := ih h
        simp only [List.length_cons]
        omega

def afterBlock? (offset : Nat) : Text → Option (Nat × Text)
  | [] => none
  | c :: t =>
      if c = '*' ∧ t.head? = some '/' then some (offset + 2, t.tail)
      else afterBlock? (offset + 1) t

theorem length_of_afterBlock? {offset stop : Nat} {t rest : Text}
    (h : afterBlock? offset t = some (stop, rest)) : rest.length < t.length := by
  induction t generalizing offset with
  | nil => simp [afterBlock?] at h
  | cons c t ih =>
      unfold afterBlock? at h
      split at h
      · simp only [Option.some.injEq, Prod.mk.injEq] at h
        obtain ⟨_, rfl⟩ := h
        simp only [List.length_cons, List.length_tail]
        omega
      · have := ih h
        simp only [List.length_cons]
        omega

/--
The literals of a text at an offset, comments skipped. With `nested`, the literals in
the expressions of a literal follow it.
-/
def literals (missing : Nat) (nested : Bool) (before : Option Char) (offset : Nat) :
    Text → Except SourceFault (List (Literal Nat))
  | [] => if missing = 0 then .ok [] else .error .outside
  | c :: t =>
      if c = '/' ∧ t.head? = some '/' ∧ before ≠ some ':' then
        match h : afterLine? (offset + 1) t with
        | none => .ok []
        | some (stop, rest) =>
            have := length_of_afterLine? h
            literals missing nested (some '\n') stop rest
      else if c = '/' ∧ t.head? = some '*' then
        match h : afterBlock? (offset + 2) t.tail with
        | none => .ok []
        | some (stop, rest) =>
            have := length_of_afterBlock? h
            literals missing nested (some '/') stop rest
      else do
        match ← literal missing offset (c :: t) with
        | none => literals missing nested (some c) (offset + 1) t
        | some l =>
            let inner ←
              if nested then
                l.interpolations.mapM fun span =>
                  literals 0 nested (some '{') span.1
                    ((t.drop (span.1 - offset - 1)).take (span.2 - span.1))
              else .ok []
            let later ← literals missing nested (some c) l.stop (t.drop (l.stop - offset - 1))
            return l :: inner.flatten ++ later
termination_by t => t.length
decreasing_by
  · simp only [List.length_cons]
    omega
  · simp only [List.length_cons, List.length_tail] at *
    omega
  · simp only [List.length_cons]
    omega
  · simp only [List.length_cons, List.length_drop]
    omega
  · simp only [List.length_cons, List.length_take, List.length_drop]
    omega

end Scan
end DesignTokens
