import DesignTokens.Finding.Basic
import DesignTokens.Source.Literal
import DesignTokens.Source.Occurrence

/-!
# Utility classes

A utility class with a value of its own is a prefix and a value between brackets.
Such classes are looked for in the literals of `className` attributes and in what
custom patterns describe; in a source with neither of them, in all literals.
-/

namespace DesignTokens
namespace UtilityClass

/-!
## Classes in a text
-/

/--
A utility class with a value of its own: what stands before its bracket, the
bracket's offset, and the value.
-/
structure Written where
  lead : Text
  bracket : Nat
  value : Text
deriving DecidableEq, Repr

namespace Written

def text (w : Written) : Text :=
  w.lead ++ '[' :: w.value ++ [']']

def valueStart (w : Written) : Nat :=
  w.bracket + 1

def valueStop (w : Written) : Nat :=
  w.valueStart + w.value.length

end Written

def isLeadChar (c : Char) : Bool :=
  Text.isAlphanumeric c || c = '-'

/--
The classes in a text from an offset on, where `run` holds the characters of a
prefix before the offset, the last one first. Expressions outside of brackets are
skipped; one that is not closed ends the search.
-/
def writtenFrom (run : Text) (offset : Nat) : Text → List Written
  | [] => []
  | c :: t =>
      if c = '$' ∧ t.head? = some '{' then
        match Scan.found (Scan.closing 0 '}' [] (offset + 2) t.tail) with
        | none => []
        | some close => writtenFrom [] (close + 1) (t.drop (close - offset))
      else if c = '[' then
        match Scan.found (Scan.closing 0 ']' [] (offset + 1) t) with
        | none => writtenFrom [] (offset + 1) t
        | some close =>
            ⟨run.reverse, offset, t.take (close - offset - 1)⟩ ::
              writtenFrom [] (close + 1) (t.drop (close - offset))
      else writtenFrom (if isLeadChar c then c :: run else []) (offset + 1) t
termination_by t => t.length
decreasing_by
  all_goals simp only [List.length_cons, List.length_drop]
  all_goals omega

def written (w : Window) : List Written :=
  writtenFrom [] w.start w.text

def finding? (site : Site) (w : Written) : Option Finding :=
  match UtilityPrefix.ofText? (w.lead.dropWhile (· = '-')) with
  | none => none
  | some p =>
      let target := p.target w.value
      if !Text.isAllBlank w.value && target.category ∈ site.options.categories then
        let dynamic := Text.has ['$', '{'] w.value
        some
          (site.finding .utilityClass w.valueStart w.valueStop target.category
            target.property.toList ["className".toList, w.text]
            (.describe target.category w.value dynamic))
      else none

/-!
## Where classes are looked for
-/

/-- A window that may hold classes, and the offset that tells the element. -/
structure Candidate where
  window : Window
  anchor : Nat
deriving DecidableEq, Repr

def Candidate.ofLiteral (source : Text) (anchor : Nat) (l : Literal Nat) : Candidate :=
  ⟨.between source l.contentStart l.contentStop, anchor⟩

open Reader

def attributeHead : Reader :=
  Reader.sequence [exactly "className".toList, blanks, exactly ['='], blanks]

/-- The literals in the value of an attribute: those between its braces, or the one that it is. -/
def attributeLiterals (value : Window) : List (Literal Nat) :=
  if value.text.head? = some '{' then
    match value.body? with
    | some body => body.literals true
    | none => []
  else value.literal?.toList

def attributeCandidates (source : Text) (head : Nat × Nat) : List Candidate :=
  (attributeLiterals (.between source head.2 source.length)).map (.ofLiteral source head.1)

/--
The candidate of a stretch that a pattern describes: its marked part if the pattern
marks one.
-/
def stretchCandidate? (source : Text) (p : Pattern) (stretch : Pattern.Stretch) :
    Option Candidate :=
  let span := if p.hasMark then stretch.mark else some (stretch.start, stretch.stop)
  span.map fun s => ⟨.between source s.1 s.2, stretch.start⟩

def chosenCandidates (source : Text) (options : ScanOptions) : List Candidate :=
  (Source.occurrences attributeHead source).flatMap (attributeCandidates source) ++
    options.customPatterns.flatMap fun p =>
      (p.pattern.stretches source).filterMap (stretchCandidate? source p.pattern)

def candidates (source : Text) (options : ScanOptions) : List Candidate :=
  match chosenCandidates source options with
  | [] => ((Window.whole source).literals true).map fun l => .ofLiteral source l.start l
  | cs => cs

def candidateFindings (source : Text) (options : ScanOptions) (c : Candidate) : List Finding :=
  (written c.window).filterMap (finding? ⟨source, options, c.anchor⟩)

def report (source : Text) (options : ScanOptions) : Report :=
  ⟨(candidates source options).flatMap (candidateFindings source options), []⟩

end UtilityClass
end DesignTokens
