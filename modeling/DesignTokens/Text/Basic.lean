/-!
# Text

Text is a list of Unicode scalar values, so that offsets and lengths count code points,
and no text holds half of a surrogate pair.
This module holds the cuts and searches that every reader of the library uses:
what follows a given beginning, the first occurrence of a text in another, and
the segments between separating characters.
-/

namespace DesignTokens

abbrev Text := List Char

namespace Text

def after? : (lead : Text) → Text → Option Text
  | [], t => some t
  | _ :: _, [] => none
  | p :: lead, c :: t => if p = c then after? lead t else none

@[simp] theorem after?_nil (t : Text) : after? [] t = some t := by
  cases t <;> rfl

theorem after?_eq_some_iff {lead t rest : Text} :
    after? lead t = some rest ↔ t = lead ++ rest := by
  induction lead generalizing t with
  | nil => simp [eq_comm]
  | cons p lead ih =>
      cases t with
      | nil => simp [after?]
      | cons c t =>
          by_cases h : p = c
          · simp [after?, h, ih]
          · simp [after?, h, Ne.symm h]

def startsWith (lead t : Text) : Bool :=
  (after? lead t).isSome

def removeLead (lead t : Text) : Text :=
  (after? lead t).getD t

def before? (tail t : Text) : Option Text :=
  (after? tail.reverse t.reverse).map List.reverse

def removeTail (tail t : Text) : Text :=
  (before? tail t).getD t

def cut? (part : Text) : Text → Option (Text × Text)
  | [] => if part = [] then some ([], []) else none
  | c :: t =>
      match after? part (c :: t) with
      | some rest => some ([], rest)
      | none => (cut? part t).map fun cut => (c :: cut.1, cut.2)

def has (part t : Text) : Bool :=
  (cut? part t).isSome

def byteLength (t : Text) : Nat :=
  t.foldl (fun n c => n + c.utf8Size) 0

/-- The characters from offset `start` up to, and without, offset `stop`. -/
def slice (t : Text) (start stop : Nat) : Text :=
  (t.drop start).take (stop - start)

/--
The segments between the characters that satisfy `separates`. There is one more
segment than there are such characters, and a segment may be empty.
-/
def segments (separates : Char → Bool) : Text → List Text
  | [] => [[]]
  | c :: t =>
      if separates c then
        [] :: segments separates t
      else
        match segments separates t with
        | [] => [[c]]
        | s :: rest => (c :: s) :: rest

theorem segments_ne_nil (separates : Char → Bool) (t : Text) :
    segments separates t ≠ [] := by
  cases t with
  | nil => simp [segments]
  | cons c t =>
      unfold segments
      split
      · simp
      · split <;> simp

def fields (separates : Char → Bool) (t : Text) : List Text :=
  (segments separates t).filter fun s => !s.isEmpty

def join (glue : Text) : List Text → Text
  | [] => []
  | [t] => t
  | t :: rest => t ++ glue ++ join glue rest

def ofNat (n : Nat) : Text :=
  Nat.toDigits 10 n

def ofInt (n : Int) : Text :=
  if n < 0 then '-' :: ofNat n.natAbs else ofNat n.natAbs

end Text
end DesignTokens
