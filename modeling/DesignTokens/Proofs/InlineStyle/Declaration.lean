import DesignTokens.Proofs.InlineStyle.Entry
import DesignTokens.Proofs.Source.Occurrence
import DesignTokens.Proofs.Text.Reader
import Mathlib.Data.Nat.Find

/-!
# Declarations of style variables

A name in a `style` attribute stands for the object of the first declaration of the name.
The object is that of the declaration itself unless the type in front of the equals sign
holds a semicolon outside of brackets: a type is everything up to the next equals sign,
so it may reach over the ends of statements into a later one.
-/

namespace DesignTokens
namespace InlineStyle

open Reader (Takes exactly_append takes_anyOf takes_exactly takes_many takes_optional
  takes_sequence takes_single takes_some1)
open Source (FirstAt StartsAt)

/-!
## What a declaration is written with

A reader takes all the blanks that there are, and a type up to the next equals sign. So a
declaration has its parts in one way only.
-/

structure Declaration (name : Text) where
  keyword : Text
  space : Text
  before : Text
  type : Option Text
  after : Text
  keyword_mem : keyword ∈ ["const".toList, "let".toList, "var".toList]
  space_ne : space ≠ []
  space_blank : ∀ c ∈ space, Text.isBlank c = true
  before_blank : ∀ c ∈ before, Text.isBlank c = true
  type_ne : ∀ t ∈ type, t ≠ []
  type_no_equals : ∀ t ∈ type, ∀ c ∈ t, c ≠ '='
  after_blank : ∀ c ∈ after, Text.isBlank c = true

namespace Declaration

variable {name : Text}

def lead (d : Declaration name) : Text :=
  d.keyword ++ d.space ++ name

def annotation (d : Declaration name) : Text :=
  match d.type with
  | some t => ':' :: t
  | none => []

def gap (d : Declaration name) : Text :=
  d.before ++ d.annotation ++ '=' :: d.after

def text (d : Declaration name) : Text :=
  d.lead ++ d.gap ++ ['{']

end Declaration

section Head

variable {name : Text}

theorem takes_keyword :
    Takes (fun x => x ∈ ["const".toList, "let".toList, "var".toList])
      (Reader.anyOf [Reader.exactly "const".toList, Reader.exactly "let".toList,
        Reader.exactly "var".toList]) := by
  apply takes_anyOf
  simp only [List.forall_mem_cons, List.not_mem_nil, false_implies, implies_true, and_true]
  constructor
  · exact (takes_exactly _).mono fun x hx => by simp [hx]
  · constructor
    · exact (takes_exactly _).mono fun x hx => by simp [hx]
    · exact (takes_exactly _).mono fun x hx => by simp [hx]

theorem takes_declarationHead (name : Text) :
    Takes (fun x => ∃ d : Declaration name, x = d.text) (declarationHead name) := by
  have htype := takes_optional
    (takes_sequence (takes_exactly [':']) (takes_single (takes_some1 fun c => decide (c ≠ '='))))
  have hblanks := takes_many Text.isBlank
  apply (takes_sequence takes_keyword (takes_sequence (takes_some1 Text.isBlank)
    (takes_sequence (takes_exactly name) (takes_sequence hblanks (takes_sequence htype
      (takes_sequence (takes_exactly ['=']) (takes_sequence hblanks
        (takes_single (takes_exactly ['{']))))))))).mono
  intro x hx
  rcases hx with ⟨keyword, _, rfl, hkeyword, space, _, rfl, hspace, _, _, rfl, rfl, before, _, rfl,
    hbefore, annotation, _, rfl, hannotation, _, _, rfl, rfl, after, _, rfl, hafter, rfl⟩
  rcases hannotation with rfl | ⟨_, type, rfl, rfl, htype⟩
  · exact ⟨⟨keyword, space, before, none, after, hkeyword, hspace.1, hspace.2, hbefore, nofun,
      nofun, hafter⟩, by simp [Declaration.text, Declaration.lead, Declaration.gap,
        Declaration.annotation]⟩
  · refine ⟨⟨keyword, space, before, some type, after, hkeyword, hspace.1, hspace.2, hbefore, ?_,
      ?_, hafter⟩, by simp [Declaration.text, Declaration.lead, Declaration.gap,
        Declaration.annotation]⟩
    · intro t ht
      cases ht
      exact htype.1
    · intro t ht c hc
      cases ht
      simpa using htype.2 c hc

theorem keyword_append {keyword : Text} (h : keyword ∈ ["const".toList, "let".toList, "var".toList])
    (rest : Text) :
    Reader.anyOf [Reader.exactly "const".toList, Reader.exactly "let".toList,
      Reader.exactly "var".toList] (keyword ++ rest) = some rest := by
  simp only [List.mem_cons, List.not_mem_nil, or_false] at h
  rcases h with rfl | rfl | rfl <;> rfl

theorem Declaration.annotation_append (d : Declaration name) (rest : Text) :
    Reader.optional (Reader.sequence [Reader.exactly [':'], Reader.some1 (· ≠ '=')])
      (d.annotation ++ '=' :: rest) = some ('=' :: rest) := by
  unfold annotation
  cases htype : d.type with
  | none => rfl
  | some t =>
      have hequals : ∀ c ∈ ('=' :: rest).head?, decide (c ≠ '=') = false := by
        intro c hc
        cases hc
        decide
      have hcolon : Reader.exactly [':'] (':' :: (t ++ '=' :: rest)) = some (t ++ '=' :: rest) :=
        exactly_append [':'] _
      apply Reader.optional_of_some
      rw [List.cons_append, Reader.sequence_cons hcolon, Reader.sequence_singleton]
      apply Reader.some1_append (d.type_ne t htype) _ hequals
      intro c hc
      exact decide_eq_true (d.type_no_equals t htype c hc)

theorem Declaration.head?_annotation (d : Declaration name) (rest : Text) :
    ∀ c ∈ (d.annotation ++ '=' :: rest).head?, Text.isBlank c = false := by
  unfold annotation
  intro c hc
  cases htype : d.type <;> rw [htype] at hc <;> cases hc <;> decide

theorem head?_of_isName (hname : isName name = true) (rest : Text) :
    ∀ c ∈ (name ++ rest).head?, Text.isBlank c = false := by
  intro c hc
  cases name with
  | nil => cases hname
  | cons x name =>
      cases hc
      exact isBlank_of_isNameStart (Bool.and_eq_true_iff.mp hname).1

theorem declarationHead_text (hname : isName name = true) (d : Declaration name) (rest : Text) :
    declarationHead name (d.text ++ rest) = some rest := by
  have htext : d.text ++ rest = d.keyword ++ (d.space ++ (name ++ (d.before ++ (d.annotation ++
      '=' :: (d.after ++ '{' :: rest))))) := by
    simp [Declaration.text, Declaration.lead, Declaration.gap]
  have hbrace : ∀ c ∈ ('{' :: rest).head?, Text.isBlank c = false := by
    intro c hc
    cases hc
    decide
  have hbefore : Reader.blanks (d.before ++ (d.annotation ++ '=' :: (d.after ++ '{' :: rest))) =
      some (d.annotation ++ '=' :: (d.after ++ '{' :: rest)) :=
    Reader.many_append d.before_blank (d.head?_annotation (d.after ++ '{' :: rest))
  have hequals : Reader.exactly ['='] ('=' :: (d.after ++ '{' :: rest)) =
      some (d.after ++ '{' :: rest) :=
    exactly_append ['='] _
  have hafter : Reader.blanks (d.after ++ '{' :: rest) = some ('{' :: rest) :=
    Reader.many_append d.after_blank hbrace
  rw [htext, declarationHead, Reader.sequence_cons (keyword_append d.keyword_mem _),
    Reader.sequence_cons (Reader.some1_append d.space_ne d.space_blank (head?_of_isName hname _)),
    Reader.sequence_cons (exactly_append name _), Reader.sequence_cons hbefore,
    Reader.sequence_cons (d.annotation_append _), Reader.sequence_cons hequals,
    Reader.sequence_cons hafter, Reader.sequence_singleton]
  exact exactly_append ['{'] rest

theorem declarationHead_eq_some_iff (hname : isName name = true) {t rest : Text} :
    declarationHead name t = some rest ↔ ∃ d : Declaration name, t = d.text ++ rest := by
  constructor
  · intro h
    rcases takes_declarationHead name t rest h with ⟨_, ht, d, rfl⟩
    exact ⟨d, ht⟩
  · intro h
    rcases h with ⟨d, rfl⟩
    exact declarationHead_text hname d rest

end Head

/-!
## What stands outside of brackets

A semicolon outside of all brackets ends a statement. If there is one between the name and
the brace, it stands in the type, and the object is that of a later statement.
-/

/-- The number of brackets that a text leaves open, of any kind. Quotes count for nothing. -/
def openBrackets (t : Text) : Nat :=
  t.foldl (fun n c =>
    if Pieces.isOpener c then n + 1 else if Pieces.isCloser c then n - 1 else n) 0

def HoldsOutside (x : Char) (t : Text) : Prop :=
  ∃ u v, t = u ++ x :: v ∧ openBrackets u = 0

section Outside

variable {x : Char} {t : Text}

theorem openBrackets_append {lead : Text} (t : Text)
    (h : ∀ c ∈ lead, Pieces.isOpener c = false ∧ Pieces.isCloser c = false) :
    openBrackets (lead ++ t) = openBrackets t := by
  induction lead with
  | nil => rfl
  | cons c lead ih =>
      rw [List.forall_mem_cons] at h
      rw [← ih h.2, openBrackets, List.cons_append, List.foldl_cons, h.1.1, h.1.2]
      rfl

theorem holdsOutside_append_left {lead : Text} (hx : x ∉ lead)
    (h : ∀ c ∈ lead, Pieces.isOpener c = false ∧ Pieces.isCloser c = false) :
    HoldsOutside x (lead ++ t) ↔ HoldsOutside x t := by
  constructor
  · intro hout
    rcases hout with ⟨u, v, huv, hu⟩
    -- `x` stands in `t`, right behind `lead`, or in `lead`
    rcases List.append_eq_append_iff.mp huv with ⟨u', rfl, ht⟩ | ⟨_ | ⟨y, w⟩, hlead, hv⟩
    · exact ⟨u', v, ht, openBrackets_append u' h ▸ hu⟩
    · exact ⟨[], v, hv.symm, rfl⟩
    · cases hv
      exact absurd (hlead ▸ List.mem_append_right u List.mem_cons_self) hx
  · intro hout
    rcases hout with ⟨u, v, rfl, hu⟩
    exact ⟨lead ++ u, v, (List.append_assoc lead u _).symm, (openBrackets_append u h).trans hu⟩

theorem holdsOutside_append_right {tail : Text} (hx : x ∉ tail) :
    HoldsOutside x (t ++ tail) ↔ HoldsOutside x t := by
  constructor
  · intro hout
    rcases hout with ⟨u, v, huv, hu⟩
    rcases List.append_eq_append_iff.mp huv with ⟨u', -, htail⟩ | ⟨_ | ⟨y, w⟩, ht, hv⟩
    · exact absurd (htail ▸ List.mem_append_right u' List.mem_cons_self) hx
    · rw [List.nil_append] at hv
      exact absurd (hv ▸ List.mem_cons_self) hx
    · cases hv
      exact ⟨u, w, ht, hu⟩
  · intro hout
    rcases hout with ⟨u, v, rfl, hu⟩
    exact ⟨u, v ++ tail, List.append_assoc u _ tail, hu⟩

theorem not_holdsOutside (hx : x ∉ t) : ¬ HoldsOutside x t := by
  intro hout
  rcases hout with ⟨u, v, rfl, -⟩
  exact hx (List.mem_append_right u List.mem_cons_self)

theorem not_bracket_of_isBlank {c : Char} (h : Text.isBlank c = true) :
    Pieces.isOpener c = false ∧ Pieces.isCloser c = false := by
  constructor
  · by_contra hc
    simp only [Pieces.isOpener, Bool.not_eq_false, Bool.or_eq_true, decide_eq_true_eq] at hc
    rcases hc with (rfl | rfl) | rfl <;> cases h
  · by_contra hc
    simp only [Pieces.isCloser, Bool.not_eq_false, Bool.or_eq_true, decide_eq_true_eq] at hc
    rcases hc with (rfl | rfl) | rfl <;> cases h

/-- Only the type can hold a semicolon between the name and the brace. -/
theorem Declaration.holdsOutside_gap {name : Text} (d : Declaration name) :
    HoldsOutside ';' d.gap ↔ ∃ t ∈ d.type, HoldsOutside ';' t := by
  have hbefore : ';' ∉ d.before := fun h => Bool.false_ne_true (d.before_blank ';' h)
  have hafter : ';' ∉ '=' :: d.after := by
    intro h
    rcases List.mem_cons.mp h with h | h
    · cases h
    · exact Bool.false_ne_true (d.after_blank ';' h)
  rw [Declaration.gap, List.append_assoc, holdsOutside_append_left hbefore fun c hc =>
    not_bracket_of_isBlank (d.before_blank c hc), holdsOutside_append_right hafter,
    Declaration.annotation]
  cases htype : d.type with
  | none =>
      simp only [Option.not_mem_none, false_and, exists_false, iff_false]
      exact not_holdsOutside List.not_mem_nil
  | some t =>
      simp only [Option.mem_some_iff, exists_eq_left']
      exact @holdsOutside_append_left ';' t [':'] (by decide)
        (List.forall_mem_singleton.mpr (by decide))

end Outside

/-!
## Where a declaration stands
-/

namespace Declaration

variable {name source : Text} {i : Nat}

/-- A declaration that stands in a source, at a place where a word may begin. -/
structure StandsAt (d : Declaration name) (source : Text) (i : Nat) : Prop where
  edge : (Window.charBefore? source i).any Text.isWord = false
  hasAt : Source.HasAt source i d.text

structure StandsFirst (d : Declaration name) (source : Text) (i : Nat) : Prop where
  stands : d.StandsAt source i
  first : ∀ j < i, ∀ d' : Declaration name, ¬ d'.StandsAt source j

def nameEnd (d : Declaration name) (i : Nat) : Nat :=
  i + d.lead.length

def brace (d : Declaration name) (i : Nat) : Nat :=
  d.nameEnd i + d.gap.length

theorem length_text (d : Declaration name) (i : Nat) :
    i + d.text.length = d.brace i + 1 := by
  simp only [text, brace, nameEnd, List.length_append, List.length_singleton]
  omega

theorem StandsAt.gap_eq {d : Declaration name} (h : d.StandsAt source i) :
    Text.slice source (d.nameEnd i) (d.brace i) = d.gap := by
  have hlead := h.hasAt.left.right
  exact hlead.slice

theorem StandsAt.getElem?_brace {d : Declaration name} (h : d.StandsAt source i) :
    source[d.brace i]? = some '{' := by
  have hbrace := h.hasAt.right
  rw [List.length_append, ← Nat.add_assoc] at hbrace
  exact hbrace.getElem?

theorem StandsAt.brace_lt {d : Declaration name} (h : d.StandsAt source i) :
    d.brace i < source.length :=
  (List.getElem?_eq_some_iff.mp h.getElem?_brace).1

theorem StandsAt.startsAt {d : Declaration name} (hname : isName name = true)
    (h : d.StandsAt source i) :
    StartsAt (declarationHead name) source i (source.drop (d.brace i + 1)) := by
  have hlength := d.length_text i
  have hlt := h.brace_lt
  rcases h.hasAt with ⟨rest, hrest⟩
  have hdrop : source.drop (d.brace i + 1) = rest := by
    rw [← hlength, ← List.drop_drop, ← hrest, List.drop_left]
  refine ⟨h.edge, ?_, ?_⟩
  · unfold brace nameEnd at hlt
    omega
  · rw [hdrop, ← hrest]
    exact (declarationHead_eq_some_iff hname).mpr ⟨d, rfl⟩

theorem exists_standsAt {rest : Text} (hname : isName name = true)
    (h : StartsAt (declarationHead name) source i rest) :
    ∃ d : Declaration name, d.StandsAt source i := by
  rcases (declarationHead_eq_some_iff hname).mp h.read with ⟨d, hdrop⟩
  exact ⟨d, h.edge, ⟨rest, hdrop.symm⟩⟩

theorem StandsFirst.firstAt {d : Declaration name} (hname : isName name = true)
    (h : d.StandsFirst source i) :
    FirstAt (declarationHead name) source i (source.drop (d.brace i + 1)) := by
  refine ⟨h.stands.startsAt hname, fun j hj rest hstarts => ?_⟩
  rcases exists_standsAt hname hstarts with ⟨d', hd'⟩
  exact h.first j hj d' hd'

theorem exists_standsFirst {d : Declaration name} (h : d.StandsAt source i) :
    ∃ j, ∃ d' : Declaration name, d'.StandsFirst source j := by
  classical
  have hex : ∃ j, ∃ d' : Declaration name, d'.StandsAt source j := ⟨i, d, h⟩
  rcases Nat.find_spec hex with ⟨d', hd'⟩
  exact ⟨Nat.find hex, d', hd', fun j hj e he => Nat.find_min hex hj ⟨e, he⟩⟩

end Declaration

/-!
## Which object a name stands for
-/

def braceReport (site : Site) (path : List Text) (brace : Nat) : Report :=
  match (tailAt site.source brace).body? with
  | some body => objectReport site path body
  | none => .empty

section Name

variable {site : Site} {name : Text}

theorem variableReport_of_none (hname : isName name = true)
    (hnone : ∀ i, ∀ d : Declaration name, ¬ d.StandsAt site.source i) :
    variableReport site name =
      remark .info "Style variable has no object literal declaration".toList name := by
  have hnil : Source.occurrences (declarationHead name) site.source = [] := by
    apply Source.occurrences_eq_nil
    intro i rest hstarts
    rcases Declaration.exists_standsAt hname hstarts with ⟨d, hd⟩
    exact hnone i d hd
  rw [variableReport, hnil]

theorem variableReport_of_standsFirst {d : Declaration name} {i : Nat} (hname : isName name = true)
    (h : d.StandsFirst site.source i) :
    variableReport site name = braceReport site [name, "style".toList] (d.brace i) := by
  -- the search gives the stop of the head, which is behind the brace
  have hstop : i + (site.source.length - (i + 1) -
      (site.source.drop (d.brace i + 1)).length) + 1 - 1 = d.brace i := by
    have hlt := h.stands.brace_lt
    have hle : i ≤ d.brace i := Nat.le_add_right_of_le (Nat.le_add_right i _)
    rw [List.length_drop]
    omega
  rcases (h.firstAt hname).occurrences_eq with ⟨spans, hspans⟩
  rw [variableReport, hspans]
  simp only [hstop]
  rfl

theorem expressionReport_of_name {expression : Window} (htext : Text.strip expression.text = name)
    (hname : isName name = true) : expressionReport site expression = variableReport site name := by
  have hobject : expression.skipBlanks.text.head? ≠ some '{' := by
    intro hhead
    rcases List.head?_eq_some_iff.mp hhead with ⟨t, ht⟩
    rw [Window.skipBlanks_text] at ht
    rw [← htext, Text.strip, ht, Text.stripRight_cons (by decide)] at hname
    cases hname
  rw [expressionReport, if_neg hobject, htext, if_pos hname]

/--
An attribute that holds a name is reported on by the object of the first declaration of the
name, with only blanks, a type and an equals sign between the name and the brace. A semicolon
stands there outside of brackets exactly if the type holds one, so that the object belongs to
a later statement. Without a declaration there is nothing but a remark.
-/
theorem attributeReport_of_name (source : Text) (options : ScanOptions) (head : Nat × Nat)
    {expression : Window} {name : Text}
    (hbody : (tailAt source (head.2 - 1)).body? = some expression)
    (htext : Text.strip expression.text = name) (hname : isName name = true) :
    (∀ i, ∀ d : Declaration name, ¬ d.StandsAt source i) ∧
        attributeReport source options head =
          remark .info "Style variable has no object literal declaration".toList name ∨
      (∃ i, ∃ d : Declaration name, d.StandsFirst source i) ∧
        ∀ i, ∀ d : Declaration name, d.StandsFirst source i →
          attributeReport source options head =
              braceReport ⟨source, options, head.1⟩ [name, "style".toList] (d.brace i) ∧
            Text.slice source (d.nameEnd i) (d.brace i) = d.gap ∧
            source[d.brace i]? = some '{' ∧
            (HoldsOutside ';' d.gap ↔ ∃ t ∈ d.type, HoldsOutside ';' t) := by
  have hreport : attributeReport source options head =
      variableReport ⟨source, options, head.1⟩ name := by
    rw [attributeReport, hbody]
    exact expressionReport_of_name htext hname
  by_cases hstands : ∃ i, ∃ d : Declaration name, d.StandsAt source i
  · rcases hstands with ⟨i, d, hd⟩
    refine .inr ⟨Declaration.exists_standsFirst hd, fun i d h => ?_⟩
    refine ⟨?_, h.stands.gap_eq, h.stands.getElem?_brace, d.holdsOutside_gap⟩
    rw [hreport]
    exact variableReport_of_standsFirst hname h
  · simp only [not_exists] at hstands
    exact .inl ⟨hstands, hreport.trans (variableReport_of_none hname hstands)⟩

end Name

def typedVariable : Text :=
  "let s: any; const t = \x7b color: '#fff' \x7d; <div style=\x7bs\x7d />".toList

def typedDeclaration : Declaration "s".toList where
  keyword := "let".toList
  space := [' ']
  before := []
  type := some " any; const t ".toList
  after := [' ']
  keyword_mem := by decide
  space_ne := by decide
  space_blank := Text.isBlank_space
  before_blank := nofun
  type_ne := by
    intro t ht
    cases ht
    decide
  type_no_equals := by
    intro t ht c hc hequals
    cases ht
    exact absurd (hequals ▸ hc) (by decide)
  after_blank := Text.isBlank_space

theorem attributeReport_of_name_typedVariable :
    typedDeclaration.StandsFirst typedVariable 0 ∧
      Text.slice typedVariable 5 22 = ": any; const t = ".toList ∧
      HoldsOutside ';' (Text.slice typedVariable 5 22) ∧
      attributeReport typedVariable .standard (46, 53) =
        braceReport ⟨typedVariable, .standard, 46⟩ ["s".toList, "style".toList] 22 ∧
      (attributeReport typedVariable .standard (46, 53)).findings.map (·.path) =
        [["s".toList, "style".toList, "color".toList]] := by
  have hfirst : typedDeclaration.StandsFirst typedVariable 0 :=
    ⟨⟨rfl, typedVariable.drop 23, by decide⟩, nofun⟩
  have htype : HoldsOutside ';' " any; const t ".toList :=
    ⟨" any".toList, " const t ".toList, rfl, rfl⟩
  have hbody : (tailAt typedVariable 52).body?.map (·.text) = some "s".toList := by
    decide +kernel
  rcases Option.map_eq_some_iff.mp hbody with ⟨expression, hbody, hexpression⟩
  have htext : Text.strip expression.text = "s".toList := by
    rw [hexpression]
    decide
  rcases attributeReport_of_name typedVariable .standard (46, 53) hbody htext (by decide) with
    ⟨hnone, -⟩ | ⟨-, hreport⟩
  · exact absurd hfirst.stands (hnone 0 typedDeclaration)
  · rcases hreport 0 typedDeclaration hfirst with ⟨hreport, hgap, -, hout⟩
    have hslice : Text.slice typedVariable 5 22 = typedDeclaration.gap := hgap
    refine ⟨hfirst, hslice, ?_, hreport, ?_⟩
    · rw [hslice]
      exact hout.mpr ⟨_, rfl, htype⟩
    · decide +kernel

end InlineStyle
end DesignTokens
