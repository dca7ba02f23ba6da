import DesignTokens.Number.Numeral
import DesignTokens.Pattern.Basic

/-!
# Written patterns

In a written pattern a point stands for any character but the line feed, square
brackets enclose a set, parentheses a group, and a bar separates alternatives. The
first group is marked, groups that begin with a question mark and a colon do not
count. An asterisk, a plus, a question mark or a count in braces repeats what stands
before it: with another question mark as little as possible, with a plus without
giving back. A circumflex and a dollar sign stand for the ends of the text. A
backslash takes the meaning from the punctuation behind it, and makes classes and
anchors of letters. Other characters stand for themselves, and so do braces without
a count.

A text with anything else is refused as a broken pattern: with a look ahead or back,
a reference to a group, a group that has a name, a condition or flags, or a character
that is given by its number.
-/

namespace DesignTokens
namespace Pattern

def letterClass? : Char → Option CharClass
  | 'd' => some .digit
  | 's' => some .blank
  | 'w' => some .word
  | 'D' => some .noDigit
  | 'S' => some .noBlank
  | 'W' => some .noWord
  | 'n' => some (.range '\n' '\n')
  | 'r' => some (.range '\r' '\r')
  | 't' => some (.range '\t' '\t')
  | 'f' => some (.range '\x0c' '\x0c')
  | 'v' => some (.range '\x0b' '\x0b')
  | 'a' => some (.range '\x07' '\x07')
  | _ => none

def letterAnchor? : Char → Option Anchor
  | 'A' => some .start
  | 'Z' => some .stop
  | 'b' => some .wordEdge
  | 'B' => some .noWordEdge
  | _ => none

/--
The class of a character behind a backslash. ASCII letters and digits that name none
are refused.
-/
def escapedClass? (c : Char) : Option CharClass :=
  match letterClass? c with
  | some k => some k
  | none => if c.isAlphanum then none else some (.range c c)

/-- One character or class of a set, and the rest. In a set the letter b names the backspace. -/
def setItem? : Text → Option (CharClass × Text)
  | '\\' :: 'b' :: rest => some (.range '\x08' '\x08', rest)
  | '\\' :: c :: rest => (escapedClass? c).map fun k => (k, rest)
  | ['\\'] => none
  | c :: rest => some (.range c c, rest)
  | [] => none

theorem length_of_setItem? {t rest : Text} {k : CharClass} (h : setItem? t = some (k, rest)) :
    rest.length < t.length := by
  unfold setItem? at h
  split at h
  · simp only [Option.some.injEq, Prod.mk.injEq] at h
    obtain ⟨_, rfl⟩ := h
    simp only [List.length_cons]
    omega
  · simp only [Option.map_eq_some_iff, Prod.mk.injEq] at h
    obtain ⟨_, _, _, rfl⟩ := h
    simp only [List.length_cons]
    omega
  · simp at h
  · simp only [Option.some.injEq, Prod.mk.injEq] at h
    obtain ⟨_, rfl⟩ := h
    simp
  · simp at h

def rangeBetween? : CharClass → CharClass → Option CharClass
  | .range a b, .range c d => if a = b ∧ c = d ∧ a ≤ c then some (.range a c) else none
  | _, _ => none

def setItems? (t : Text) : Option (List CharClass × Text) :=
  match h : setItem? t with
  | none => none
  | some (k, ']' :: rest) => some ([k], rest)
  | some (k, '-' :: ']' :: rest) => some ([k, .range '-' '-'], rest)
  | some (k, '-' :: rest) =>
      have := length_of_setItem? h
      match h' : setItem? rest with
      | none => none
      | some (k', ']' :: rest) => (rangeBetween? k k').map fun r => ([r], rest)
      | some (k', rest) =>
          have := length_of_setItem? h'
          match rangeBetween? k k' with
          | none => none
          | some r => (setItems? rest).map fun s => (r :: s.1, s.2)
  | some (k, rest) =>
      have := length_of_setItem? h
      (setItems? rest).map fun s => (k :: s.1, s.2)
termination_by t.length
decreasing_by
  · simp only [List.length_cons] at *
    omega
  · assumption

/--
A set behind its opening bracket, and the rest. A closing bracket that comes first
belongs to the set.
-/
def set? : Text → Option (CharSet × Text)
  | '^' :: t => (setItems? t).map fun s => (⟨true, s.1⟩, s.2)
  | t => (setItems? t).map fun s => (⟨false, s.1⟩, s.2)

def count? (t : Text) : Option (Repeats × Text) :=
  let low := t.takeWhile Char.isDigit
  let least := Numeral.digitsValue low
  match t.drop low.length with
  | '}' :: rest => if low = [] then none else some (⟨least, some least, true⟩, rest)
  | ',' :: t =>
      let high := t.takeWhile Char.isDigit
      match t.drop high.length with
      | '}' :: rest =>
          some (⟨least, if high = [] then none else some (Numeral.digitsValue high), true⟩, rest)
      | _ => none
  | _ => none

def repeats? : Text → Option (Repeats × Text)
  | '*' :: rest => some (⟨0, none, true⟩, rest)
  | '+' :: rest => some (⟨1, none, true⟩, rest)
  | '?' :: rest => some (⟨0, some 1, true⟩, rest)
  | '{' :: rest => count? rest
  | _ => none

def Repeats.isOrdered (r : Repeats) : Bool :=
  r.most.all fun most => r.least ≤ most

def isRepeatable : Pattern → Bool
  | .at _ => false
  | _ => true

def modified (r : Repeats) (p : Pattern) : Text → Pattern × Text
  | '?' :: rest => (.repeated { r with greedy := false } p, rest)
  | '+' :: rest => (.kept (.repeated r p), rest)
  | rest => (.repeated r p, rest)

/--
A part with the mark of repetition behind it, and the rest. A second mark of
repetition is refused.
-/
def repeatedPart? (p : Pattern) (t : Text) : Option (Pattern × Text) :=
  match repeats? t with
  | none => some (p, t)
  | some (r, rest) =>
      let result := modified r p rest
      if isRepeatable p && Repeats.isOrdered r && (repeats? result.2).isNone then some result
      else none

mutual

def alternatives? : (fuel : Nat) → (seen : Bool) → Text → Option (Pattern × Bool × Text)
  | 0, _, _ => none
  | fuel + 1, seen, t =>
      match parts? fuel seen t with
      | none => none
      | some (p, seen, '|' :: rest) =>
          (alternatives? fuel seen rest).map fun r => (.either p r.1, r.2)
      | some r => some r

def parts? : (fuel : Nat) → (seen : Bool) → Text → Option (Pattern × Bool × Text)
  | 0, _, _ => none
  | fuel + 1, seen, t =>
      match t with
      | [] => some (.empty, seen, [])
      | '|' :: rest => some (.empty, seen, '|' :: rest)
      | ')' :: rest => some (.empty, seen, ')' :: rest)
      | t =>
          match part? fuel seen t with
          | none => none
          | some (p, seen, rest) =>
              match repeatedPart? p rest with
              | none => none
              | some (p, rest) =>
                  (parts? fuel seen rest).map fun r => (.andThen p r.1, r.2)

def part? : (fuel : Nat) → (seen : Bool) → Text → Option (Pattern × Bool × Text)
  | 0, _, _ => none
  | fuel + 1, seen, t =>
      match t with
      | '(' :: '?' :: ':' :: rest =>
          match alternatives? fuel seen rest with
          | some (p, seen, ')' :: rest) => some (p, seen, rest)
          | _ => none
      | '(' :: rest =>
          match alternatives? fuel true rest with
          | some (p, seen', ')' :: rest) =>
              some (if seen then p else .marked p, seen', rest)
          | _ => none
      | '[' :: rest => (set? rest).map fun s => (.one s.1, seen, s.2)
      | '\\' :: c :: rest =>
          match letterAnchor? c with
          | some a => some (.at a, seen, rest)
          | none => (escapedClass? c).map fun k => (.one ⟨false, [k]⟩, seen, rest)
      | ['\\'] => none
      | '.' :: rest => some (.one .anyInLine, seen, rest)
      | '^' :: rest => some (.at .start, seen, rest)
      | '$' :: rest => some (.at .lastStop, seen, rest)
      | c :: rest =>
          if (repeats? (c :: rest)).isSome then none else some (.one (.single c), seen, rest)
      | [] => none

end

def ofText? (t : Text) : Option Pattern :=
  match alternatives? (3 * t.length + 3) false t with
  | some (p, _, []) => some p
  | _ => none

end Pattern
end DesignTokens
