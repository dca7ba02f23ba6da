import DesignTokens.Category
import DesignTokens.Json.Basic
import DesignTokens.Number.Numeral

/-!
# Forms

A form is an object whose fields are read one by one. All faults are collected:
those of the expected fields in their order, then the fields that nobody asked
for in the order in which they are given. Values are read leniently: a number may
be given by a numeral, a truth value by a number or by a word.
-/

namespace DesignTokens

inductive FaultKind where
  | missing
  | unknownField
  | notInteger
  | badInteger
  /-- a number with too many digits for an integer -/
  | oversized
  | fractional
  /-- an infinite number, or what is not a number, for an integer -/
  | notFinite
  | notNumber
  | badNumber
  | notTruthValue
  | badTruthValue
  | notOneOf
  | notList
  | notText
  | notPath
  | notPattern
  | tooLarge
  | tooSmall
  /-- a list of categories that is empty -/
  | noCategory
deriving DecidableEq, Repr

inductive FormPlace where
  | form
  | field (name : Text)
  | item (name : Text) (index : Nat)
deriving DecidableEq, Repr

structure FormFault where
  kind : FaultKind
  place : FormPlace
deriving DecidableEq, Repr

/-- What was read, or all faults that were found. -/
abbrev Checked (α : Type) := Except (List FormFault) α

namespace Checked

/-- Two readings of which the faults are collected. -/
def both {α β : Type} : Checked α → Checked β → Checked (α × β)
  | .ok a, .ok b => .ok (a, b)
  | .ok _, .error fs => .error fs
  | .error fs, .ok _ => .error fs
  | .error fs, .error gs => .error (fs ++ gs)

end Checked

abbrev ValueReader (α : Type) := Json → Except FaultKind α

namespace ValueReader

def nullable {α : Type} (read : ValueReader α) : ValueReader (Option α)
  | .null => .ok none
  | j => (read j).map some

/-- A text without its underscores, of which none is at an end or beside another one. -/
def withoutUnderscores? (t : Text) : Option Text :=
  let parts := Text.segments (· = '_') t
  if parts.any List.isEmpty then none else some parts.flatten

def longestInteger : Nat :=
  4300

def isOversized (t : Text) : Bool :=
  let (sign, ds) :=
    match t with
    | '-' :: ds => (1, ds)
    | ds => (0, ds)
  ds.head? ≠ some '0' && longestInteger < sign + (ds.takeWhile Char.isDigit).length

/-- The number that a row of digits denotes. Only zero itself begins with a zero. -/
def naturalOfDigits? : Text → Option Nat
  | [] => none
  | ['0'] => some 0
  | c :: ds =>
      if c ≠ '0' ∧ (c :: ds).all Char.isDigit then some (Numeral.digitsValue (c :: ds)) else none

def plainInteger? : Text → Option Int
  | '-' :: ds => (naturalOfDigits? ds).map fun n => -(n : Int)
  | ds => (naturalOfDigits? ds).map fun n => (n : Int)

/--
What is left when zeros and underscores behind a zero are dropped, where `last` is
the last of them. The last one stays if no digit follows it.
-/
def behindZeros? (last : Char) : Text → Option Text
  | [] => some [last]
  | c :: t =>
      if c = '0' ∨ c = '_' then behindZeros? c t
      else if c = '.' then some (last :: c :: t)
      else if c.isDigit ∨ c = '-' then some (c :: t)
      else none

/--
A text that begins with a digit or a minus sign without the zeros at its beginning. A
minus sign may stand behind zeros as well.
-/
def withoutLeadingZeros? : Text → Option Text
  | [] => none
  | c :: t =>
      if c = '0' then behindZeros? c t
      else if c.isDigit ∨ c = '-' then some (c :: t)
      else none

def withoutZeroFraction (t : Text) : Text :=
  match Text.cut? ['.'] t with
  | some (whole, fraction) => if fraction ≠ [] ∧ fraction.all (· = '0') then whole else t
  | none => t

/--
The plain form of an integer that is written with blanks around it, a plus sign,
zeros at its beginning, a fraction of zeros, or underscores.
-/
def plainForm? (t : Text) : Option Text :=
  let unsigned? :=
    match Text.stripWhiteSpace t with
    | '+' :: '-' :: _ => none
    | '+' :: t => some t
    | t => some t
  (unsigned?.bind withoutLeadingZeros?).bind fun t => withoutUnderscores? (withoutZeroFraction t)

/-- The integer that a text denotes. A text that is too long is told so only in its plain form. -/
def integerOfText (t : Text) : Except FaultKind Int :=
  if isOversized t then .error .oversized
  else
    match plainInteger? t with
    | some n => .ok n
    | none =>
        match ((plainForm? t).filter fun t => !isOversized t).bind plainInteger? with
        | some n => .ok n
        | none => .error .badInteger

/-- The integer that a float is equal to. It has to lie between the 64-bit integers. -/
def integerOfFloat (x : Float) : Except FaultKind Int :=
  if x.isNaN || x.isInf then .error .notFinite
  else
    match integer? x with
    | none => .error .fractional
    | some n => if n.natAbs < twoPow 63 then .ok n else .error .oversized

def integerOfLiteral (literal : Text) : Int :=
  match literal with
  | '-' :: ds => -(Numeral.digitsValue ds : Int)
  | ds => Numeral.digitsValue ds

def floatOfLiteral (literal : Text) : Except FaultKind Float :=
  if Json.isFractional literal then
    match Numeral.ascii? literal with
    | some x => .ok x
    | none => .error .notNumber
  else
    match floatOfInt? (integerOfLiteral literal) with
    | .ok x => .ok x
    | .error _ => .error .notNumber

def integer : ValueReader Int
  | .number literal =>
      if Json.isFractional literal then (floatOfLiteral literal).bind integerOfFloat
      else .ok (integerOfLiteral literal)
  | .bool b => .ok (if b then 1 else 0)
  | .text t => integerOfText t
  | _ => .error .notInteger

def floatOfText? (t : Text) : Option Float :=
  match Numeral.ascii? (Text.stripWhiteSpace t) with
  | some x => some x
  | none => (withoutUnderscores? t).bind Numeral.ascii?

def float : ValueReader Float
  | .number literal => floatOfLiteral literal
  | .bool b => .ok (if b then 1 else 0)
  | .text t =>
      match floatOfText? t with
      | some x => .ok x
      | none => .error .badNumber
  | _ => .error .notNumber

def trueWords : List Text :=
  ["1".toList, "t".toList, "y".toList, "on".toList, "yes".toList, "true".toList]

def falseWords : List Text :=
  ["0".toList, "f".toList, "n".toList, "no".toList, "off".toList, "false".toList]

/-- The truth value that an integer stands for. Integers of more than 64 bits stand for none. -/
def truthOfInteger (n : Int) : Except FaultKind Bool :=
  if n = 1 then .ok true
  else if n = 0 then .ok false
  else if -(twoPow 63 : Int) ≤ n ∧ n < twoPow 63 then .error .badTruthValue
  else .error .notTruthValue

def truthValue : ValueReader Bool
  | .bool b => .ok b
  | .number literal =>
      if Json.isFractional literal then
        match (floatOfLiteral literal).bind integerOfFloat with
        | .ok n => truthOfInteger n
        | .error _ => .error .notTruthValue
      else truthOfInteger (integerOfLiteral literal)
  | .text t =>
      let word := t.map Char.toLower
      if trueWords.any (· = word) then .ok true
      else if falseWords.any (· = word) then .ok false
      else .error .badTruthValue
  | _ => .error .notTruthValue

def text : ValueReader Text
  | .text t => .ok t
  | _ => .error .notText

def oneOf {α : Type} (ofName? : Text → Option α) : ValueReader α
  | .text t =>
      match ofName? t with
      | some a => .ok a
      | none => .error .notOneOf
  | _ => .error .notOneOf

end ValueReader

namespace Form

def readAt {α : Type} (name : Text) (read : ValueReader α) (j : Json) : Checked α :=
  match read j with
  | .ok a => .ok a
  | .error kind => .error [⟨kind, .field name⟩]

def required {α : Type} (name : Text) (read : ValueReader α) (form : Json) : Checked α :=
  match form.field? name with
  | some j => readAt name read j
  | none => .error [⟨.missing, .field name⟩]

def withDefault {α : Type} (name : Text) (standard : α) (read : ValueReader α) (form : Json) :
    Checked α :=
  match form.field? name with
  | some j => readAt name read j
  | none => .ok standard

def readItems {α : Type} (name : Text) (read : ValueReader α) :
    (index : Nat) → List Json → Checked (List α)
  | _, [] => .ok []
  | index, j :: js =>
      let item : Checked α :=
        match read j with
        | .ok a => .ok a
        | .error kind => .error [⟨kind, .item name index⟩]
      (item.both (readItems name read (index + 1) js)).map fun r => r.1 :: r.2

def readList {α : Type} (name : Text) (read : ValueReader α) : Json → Checked (List α)
  | .array js => readItems name read 0 js
  | _ => .error [⟨.notList, .field name⟩]

/-- A field with a list, or with null, which stands for the list that is not there. -/
def optionalList {α : Type} (name : Text) (read : ValueReader α) (form : Json) :
    Checked (Option (List α)) :=
  match form.field? name with
  | none => .ok none
  | some .null => .ok none
  | some j => (readList name read j).map some

def onlyKnown (known : List Text) (form : Json) : Checked Unit :=
  match form.fields.filter fun f => f.1 ∉ known with
  | [] => .ok ()
  | fs => .error (fs.map fun f => ⟨.unknownField, .field f.1⟩)

def closed {α : Type} (known : List Text) (form : Json) (fields : Checked α) : Checked α :=
  (fields.both (onlyKnown known form)).map (·.1)

end Form
end DesignTokens
