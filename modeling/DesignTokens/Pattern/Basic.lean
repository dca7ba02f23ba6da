import DesignTokens.Text.Blank
import DesignTokens.Text.Digit
import DesignTokens.Text.Word

/-!
# Patterns

A pattern describes stretches of text: characters from sets, one after the
other, repeated, or in alternatives, at places that have to be ends or edges. One
of its groups marks a part of what is found. A repetition takes as much as it can,
or as little, and gives back or takes more where what follows would otherwise not
be found, unless it keeps what it has taken.

A search goes through a text from left to right. Behind a stretch that is empty
the search goes on at the same place, for a stretch that is not.
-/

namespace DesignTokens

inductive CharClass where
  | range (low high : Char)
  | digit
  | word
  | blank
  | noDigit
  | noWord
  | noBlank
deriving DecidableEq, Repr

def CharClass.holds : CharClass → Char → Bool
  | .range low high, c => low ≤ c && c ≤ high
  | .digit, c => Text.isDecimal c
  | .word, c => Text.isWord c
  | .blank, c => Text.isBlank c
  | .noDigit, c => !Text.isDecimal c
  | .noWord, c => !Text.isWord c
  | .noBlank, c => !Text.isBlank c

/-- A set of characters: the union of its parts, or what is outside all of them. -/
structure CharSet where
  negated : Bool
  classes : List CharClass
deriving DecidableEq, Repr

def CharSet.holds (s : CharSet) (c : Char) : Bool :=
  (s.classes.any fun k => k.holds c) != s.negated

def CharSet.single (c : Char) : CharSet :=
  ⟨false, [.range c c]⟩

def CharSet.anyInLine : CharSet :=
  ⟨true, [.range '\n' '\n']⟩

structure Repeats where
  /-- how often the part has to be there -/
  least : Nat
  /-- how often it may be there, if there is a bound -/
  most : Option Nat
  /-- whether as much as possible is taken -/
  greedy : Bool
deriving DecidableEq, Repr

/--
How often a part may be repeated further, once it is there as often as it has to be,
before a rest of `length` characters.
-/
def Repeats.further (r : Repeats) (length : Nat) : Nat :=
  match r.most with
  | some most => most - r.least
  | none => length + 1

inductive Anchor where
  | start
  | stop
  /-- the end, or the place before a line feed at the end -/
  | lastStop
  /-- a place with a character of a word on one of its sides -/
  | wordEdge
  | noWordEdge
deriving DecidableEq, Repr

def Anchor.holds (before : Option Char) (rest : Text) : Anchor → Bool
  | .start => before.isNone
  | .stop => rest.isEmpty
  | .lastStop => rest.isEmpty || rest = ['\n']
  | .wordEdge => before.any Text.isWord != rest.head?.any Text.isWord
  | .noWordEdge =>
      !(before.isNone && rest.isEmpty) && before.any Text.isWord == rest.head?.any Text.isWord

inductive Pattern where
  | empty
  | one (s : CharSet)
  | at (a : Anchor)
  | andThen (p q : Pattern)
  | either (p q : Pattern)
  | repeated (r : Repeats) (p : Pattern)
  /-- a part that keeps what it has taken first -/
  | kept (p : Pattern)
  /-- the part that is marked -/
  | marked (p : Pattern)
deriving DecidableEq, Repr

namespace Pattern

/-- A place in a text, with the character before it, and the ends of the marked part. -/
structure Cursor where
  offset : Nat
  before : Option Char
  rest : Text
  mark : Option (Nat × Nat)
deriving DecidableEq, Repr

abbrev Search := Cursor → Option Cursor

def orElse (first second : Option Cursor) : Option Cursor :=
  match first with
  | some c => some c
  | none => second

/--
Repeats `body` any number of times before `next`. A repetition that takes
nothing is the last one. Each repetition takes one unit of fuel.
-/
def iterate (greedy : Bool) (body : Search → Search) (next : Search) : (fuel : Nat) → Search
  | 0 => next
  | fuel + 1 => fun s =>
      let more := body (fun s' =>
        if s'.rest.length < s.rest.length then iterate greedy body next fuel s' else next s') s
      if greedy then orElse more (next s) else orElse (next s) more

def times (body : Search → Search) (next : Search) : (n : Nat) → Search
  | 0 => next
  | n + 1 => body (times body next n)

/-- What is found where the pattern is followed by `next`. -/
def find? : Pattern → (next : Search) → Search
  | .empty, next => next
  | .one set, next => fun s =>
      match s.rest with
      | [] => none
      | c :: rest => if set.holds c then next ⟨s.offset + 1, some c, rest, s.mark⟩ else none
  | .at a, next => fun s => if a.holds s.before s.rest then next s else none
  | .andThen p q, next => p.find? (q.find? next)
  | .either p q, next => fun s => orElse (p.find? next s) (q.find? next s)
  | .marked p, next => fun s =>
      p.find? (fun s' => next { s' with mark := some (s.offset, s'.offset) }) s
  | .kept p, next => fun s => (p.find? some s).bind next
  | .repeated r p, next =>
      times p.find? (fun s => iterate r.greedy p.find? next (r.further s.rest.length) s) r.least

/-- A stretch of text that a pattern describes, and the ends of the marked part. -/
structure Stretch where
  start : Nat
  stop : Nat
  mark : Option (Nat × Nat)
deriving DecidableEq, Repr

/--
The stretches from a place on, given by its offset and the character before it. If
`advance` holds, a stretch at the place itself must not be empty.
-/
def stretchesFrom (p : Pattern) (offset : Nat) (advance : Bool) (before : Option Char)
    (rest : Text) : List Stretch :=
  let accept : Search := fun s => if advance && s.offset = offset then none else some s
  match p.find? accept ⟨offset, before, rest, none⟩ with
  | some s =>
      ⟨offset, s.offset, s.mark⟩ ::
        (if s.rest.length < rest.length then stretchesFrom p s.offset false s.before s.rest
        else if advance then []
        else stretchesFrom p offset true before rest)
  | none =>
      match rest with
      | [] => []
      | c :: rest => stretchesFrom p (offset + 1) false (some c) rest
termination_by 2 * rest.length + (if advance then 0 else 1)
decreasing_by
  · simp only [if_false]
    split <;> omega
  · simp_all
  · simp only [List.length_cons, if_false]
    split <;> omega

def stretches (p : Pattern) (t : Text) : List Stretch :=
  stretchesFrom p 0 false none t

def hasMark : Pattern → Bool
  | .empty => false
  | .one _ => false
  | .at _ => false
  | .andThen p q => p.hasMark || q.hasMark
  | .either p q => p.hasMark || q.hasMark
  | .repeated _ p => p.hasMark
  | .kept p => p.hasMark
  | .marked _ => true

end Pattern
end DesignTokens
