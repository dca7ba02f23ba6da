import DesignTokens.Json.Basic
import DesignTokens.Text.Hex

/-!
# Reading documents

A document is read from any spelling that JSON allows, and the words for what is
not a number and for infinity are accepted as numbers. The literal of a number is
kept as it stands. A surrogate without its partner is read as U+FFFD.
-/

namespace DesignTokens
namespace Json

def unit? : Text → Option (Nat × Text)
  | a :: b :: c :: d :: rest => (Text.hexNumber? [a, b, c, d]).map fun n => (n, rest)
  | _ => none

theorem length_of_unit? {t rest : Text} {n : Nat} (h : unit? t = some (n, rest)) :
    rest.length < t.length := by
  unfold unit? at h
  split at h
  · simp only [Option.map_eq_some_iff, Prod.mk.injEq] at h
    obtain ⟨_, _, _, rfl⟩ := h
    simp only [List.length_cons]
    omega
  · simp at h

def isLeading (n : Nat) : Bool :=
  0xD800 ≤ n && n < 0xDC00

def isTrailing (n : Nat) : Bool :=
  0xDC00 ≤ n && n < 0xE000

def ofUnit (n : Nat) : Char :=
  if isLeading n || isTrailing n then '\ufffd' else Char.ofNat n

/-- The character that a second unit completes, and the rest. -/
def partner? (leading : Nat) : Text → Option (Char × Text)
  | '\\' :: 'u' :: t =>
      match unit? t with
      | some (n, rest) =>
          if isTrailing n then
            some (Char.ofNat (0x10000 + (leading - 0xD800) * 0x400 + (n - 0xDC00)), rest)
          else none
      | none => none
  | _ => none

theorem length_of_partner? {leading : Nat} {t rest : Text} {c : Char}
    (h : partner? leading t = some (c, rest)) : rest.length < t.length := by
  unfold partner? at h
  split at h
  · split at h
    · next hu =>
        have := length_of_unit? hu
        split at h
        · simp only [Option.some.injEq, Prod.mk.injEq] at h
          obtain ⟨_, rfl⟩ := h
          simp only [List.length_cons]
          omega
        · simp at h
    · simp at h
  · simp at h

def escape? : Text → Option (Char × Text)
  | 'u' :: t =>
      match unit? t with
      | none => none
      | some (n, rest) =>
          if isLeading n then
            match partner? n rest with
            | some (c, rest') => some (c, rest')
            | none => some (ofUnit n, rest)
          else some (ofUnit n, rest)
  | '"' :: rest => some ('"', rest)
  | '\\' :: rest => some ('\\', rest)
  | '/' :: rest => some ('/', rest)
  | 'n' :: rest => some ('\n', rest)
  | 'r' :: rest => some ('\r', rest)
  | 't' :: rest => some ('\t', rest)
  | 'f' :: rest => some ('\x0c', rest)
  | 'b' :: rest => some ('\x08', rest)
  | _ => none

theorem length_of_escape? {t rest : Text} {c : Char} (h : escape? t = some (c, rest)) :
    rest.length < t.length := by
  unfold escape? at h
  split at h
  · split at h
    · simp at h
    · next n r hu =>
        have h1 := length_of_unit? hu
        split at h
        · split at h
          · next hp =>
              have h2 := length_of_partner? hp
              simp only [Option.some.injEq, Prod.mk.injEq] at h
              obtain ⟨_, rfl⟩ := h
              simp only [List.length_cons]
              omega
          · simp only [Option.some.injEq, Prod.mk.injEq] at h
            obtain ⟨_, rfl⟩ := h
            simp only [List.length_cons]
            omega
        · simp only [Option.some.injEq, Prod.mk.injEq] at h
          obtain ⟨_, rfl⟩ := h
          simp only [List.length_cons]
          omega
  all_goals simp_all

def string? : Text → Option (Text × Text)
  | [] => none
  | '"' :: rest => some ([], rest)
  | '\\' :: t =>
      match h : escape? t with
      | none => none
      | some (c, rest) =>
          have := length_of_escape? h
          (string? rest).map fun s => (c :: s.1, s.2)
  | c :: rest => (string? rest).map fun s => (c :: s.1, s.2)
termination_by t => t.length

def isSpace (c : Char) : Bool :=
  c = ' ' || c = '\t' || c = '\n' || c = '\r'

def skipSpace (t : Text) : Text :=
  t.dropWhile isSpace

def isNumeric (c : Char) : Bool :=
  c.isAlphanum || c = '+' || c = '-' || c = '.'

def bare? (literal : Text) : Option Json :=
  if literal = ['n', 'u', 'l', 'l'] then some .null
  else if literal = ['t', 'r', 'u', 'e'] then some (.bool true)
  else if literal = ['f', 'a', 'l', 's', 'e'] then some (.bool false)
  else if literal = [] then none
  else some (.number literal)

mutual

/--
A value at the beginning of a text, and the rest. Each level of a value takes one
unit of fuel.
-/
def value? : (fuel : Nat) → Text → Option (Json × Text)
  | 0, _ => none
  | fuel + 1, t =>
      match skipSpace t with
      | '"' :: rest => (string? rest).map fun s => (.text s.1, s.2)
      | '[' :: rest =>
          match skipSpace rest with
          | ']' :: rest => some (.array [], rest)
          | rest => (items? fuel rest).map fun r => (.array r.1, r.2)
      | '{' :: rest =>
          match skipSpace rest with
          | '}' :: rest => some (.object [], rest)
          | rest => (fields? fuel rest).map fun r => (.object r.1, r.2)
      | rest => (bare? (rest.takeWhile isNumeric)).map fun j => (j, rest.dropWhile isNumeric)

def items? : (fuel : Nat) → Text → Option (List Json × Text)
  | 0, _ => none
  | fuel + 1, t =>
      match value? fuel t with
      | none => none
      | some (j, rest) =>
          match skipSpace rest with
          | ',' :: rest => (items? fuel rest).map fun r => (j :: r.1, r.2)
          | ']' :: rest => some ([j], rest)
          | _ => none

def fields? : (fuel : Nat) → Text → Option (List (Text × Json) × Text)
  | 0, _ => none
  | fuel + 1, t =>
      match skipSpace t with
      | '"' :: rest =>
          match string? rest with
          | none => none
          | some (name, rest) =>
              match skipSpace rest with
              | ':' :: rest =>
                  match value? fuel rest with
                  | none => none
                  | some (j, rest) =>
                      match skipSpace rest with
                      | ',' :: rest => (fields? fuel rest).map fun r => ((name, j) :: r.1, r.2)
                      | '}' :: rest => some ([(name, j)], rest)
                      | _ => none
              | _ => none
      | _ => none

end

def ofText? (t : Text) : Option Json :=
  match value? (2 * t.length + 2) t with
  | some (j, rest) => if skipSpace rest = [] then some j else none
  | none => none

end Json
end DesignTokens
