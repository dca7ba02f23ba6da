import DesignTokens.Source.Literal
import DesignTokens.Table
import DesignTokens.Text.Blank

/-!
# Declarations of custom properties

A custom property is declared where a statement begins: at the beginning of a
stylesheet, behind an opening brace or behind a semicolon. Its value goes up to
the semicolon or the closing brace that stands outside quotes and brackets.
Comments are removed first. Selectors and conditions are not looked at, and of
several declarations of a property the last one counts.
-/

namespace DesignTokens
namespace Stylesheet

/-- A stylesheet without its comments. A comment that is not closed stays. -/
def withoutComments : Text → Text
  | [] => []
  | c :: t =>
      if c = '/' ∧ t.head? = some '*' then
        match h : Scan.afterBlock? 0 t.tail with
        | some (_, rest) =>
            have := Scan.length_of_afterBlock? h
            withoutComments rest
        | none => c :: withoutComments t
      else c :: withoutComments t
termination_by t => t.length
decreasing_by
  · simp only [List.length_cons, List.length_tail] at *
    omega
  all_goals simp only [List.length_cons, Nat.lt_succ_self]

/-!
## Values
-/

inductive ValuePlace where
  /-- outside quotes -/
  | plain
  /-- between quotes of this kind -/
  | quoted (quote : Char)
  /-- between quotes, behind a backslash -/
  | escaped (quote : Char)
deriving DecidableEq, Repr

structure ValueState where
  place : ValuePlace
  depth : Nat
deriving DecidableEq, Repr

namespace ValueState

def top : ValueState :=
  ⟨.plain, 0⟩

def ends (s : ValueState) (c : Char) : Bool :=
  s = top && (c = ';' || c = '}')

def step (s : ValueState) (c : Char) : ValueState :=
  match s.place with
  | .quoted quote =>
      if c = '\\' then ⟨.escaped quote, s.depth⟩
      else if c = quote then ⟨.plain, s.depth⟩
      else s
  | .escaped quote => ⟨.quoted quote, s.depth⟩
  | .plain =>
      if c = '"' ∨ c = '\'' then ⟨.quoted c, s.depth⟩
      else if c = '(' ∨ c = '[' ∨ c = '\x7b' then ⟨.plain, s.depth + 1⟩
      else if c = ')' ∨ c = ']' ∨ c = '\x7d' then ⟨.plain, s.depth - 1⟩
      else s

end ValueState

def splitValue (s : ValueState) : Text → Text × Text
  | [] => ([], [])
  | c :: t =>
      if s.ends c then ([], c :: t)
      else
        let r := splitValue (s.step c) t
        (c :: r.1, r.2)

theorem splitValue_append (s : ValueState) (t : Text) :
    (splitValue s t).1 ++ (splitValue s t).2 = t := by
  induction t generalizing s with
  | nil => rfl
  | cons c t ih =>
      unfold splitValue
      split
      · rfl
      · simp [ih]

theorem length_splitValue_le (s : ValueState) (t : Text) :
    (splitValue s t).2.length ≤ t.length := by
  have h := congrArg List.length (splitValue_append s t)
  simp only [List.length_append] at h
  omega

/-!
## Declarations
-/

def isNameChar (c : Char) : Bool :=
  c.isAlphanum || c = '_' || c = '-'

def declarationHead? (t : Text) : Option (Text × Text) :=
  match t with
  | '-' :: '-' :: rest =>
      match (rest.dropWhile isNameChar).dropWhile Text.isBlank with
      | ':' :: value =>
          if rest.takeWhile isNameChar = [] then none
          else some ('-' :: '-' :: rest.takeWhile isNameChar, value)
      | _ => none
  | _ => none

theorem length_of_declarationHead? {t name rest : Text}
    (h : declarationHead? t = some (name, rest)) : rest.length < t.length := by
  unfold declarationHead? at h
  split at h
  · rename_i r
    split at h
    · rename_i value hv
      split at h
      · simp at h
      · simp only [Option.some.injEq, Prod.mk.injEq] at h
        obtain ⟨_, rfl⟩ := h
        have h1 := (List.dropWhile_sublist (l := r.dropWhile isNameChar) Text.isBlank).length_le
        have h2 := (List.dropWhile_sublist (l := r) isNameChar).length_le
        rw [hv] at h1
        simp only [List.length_cons] at h1 ⊢
        omega
    · simp at h
  · simp at h

def beginsStatement (last : Option Char) : Bool :=
  last = none || last = some '\x7b' || last = some ';'

/--
The declarations in a text without comments, where `last` is the last character
before it that is not blank.
-/
def declarationsFrom (last : Option Char) : Text → List (Text × Text)
  | [] => []
  | c :: t =>
      match h : if beginsStatement last then declarationHead? (c :: t) else none with
      | some (name, rest) =>
          have : rest.length < t.length + 1 := by
            split at h
            · simpa using length_of_declarationHead? h
            · simp at h
          have := length_splitValue_le .top rest
          let r := splitValue .top rest
          (name, Text.strip r.1) :: declarationsFrom r.2.head? r.2.tail
      | none => declarationsFrom (if Text.isBlank c then last else some c) t
termination_by t => t.length
decreasing_by
  · simp only [List.length_cons, List.length_tail] at *
    omega
  · simp only [List.length_cons, Nat.lt_succ_self]

def declarations (css : Text) : List (Text × Text) :=
  declarationsFrom none (withoutComments css)

/-- The custom properties of a stylesheet with their last values. An empty value does not count. -/
def properties (css : Text) : Table Text :=
  (declarations css).foldl (fun table d => if d.2 = [] then table else table.put d.1 d.2) []

end Stylesheet
end DesignTokens
