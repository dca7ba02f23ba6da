import DesignTokens.Proofs.Color.Literal
import DesignTokens.Proofs.Number.Decimal
import DesignTokens.Proofs.Text.Reader

/-!
# Literals of color functions

A literal of a color function is its name with numbers in parentheses. The numbers
are parted by separators, and some of them may have a percent sign. So the parts that
were written are the components that reading finds, and the literal has the shape of
a color.
-/

namespace DesignTokens
namespace Color

open Text (isNumeric)
open Reader (Takes sequence_append sequence_singleton takes_exactly takes_many takes_optional
  takes_sequence takes_single takes_some1)

/-!
## Separators and parts
-/

def IsSeparator (t : Text) : Prop :=
  t ≠ [] ∧ ∀ c ∈ t, separatesComponents c = true

theorem separatesComponents_of_isBlank {c : Char} (h : Text.isBlank c = true) :
    separatesComponents c = true := by
  simp [separatesComponents, h]

theorem takes_blanks :
    Takes (fun x => ∀ c ∈ x, separatesComponents c = true) Reader.blanks :=
  (takes_many Text.isBlank).mono fun _ hx c hc => separatesComponents_of_isBlank (hx c hc)

theorem takes_mark {mark : Char} (h : separatesComponents mark = true) :
    Takes IsSeparator
      (Reader.sequence [Reader.blanks, Reader.exactly [mark], Reader.blanks]) := by
  apply (takes_sequence takes_blanks
    (takes_sequence (takes_exactly [mark]) (takes_single takes_blanks))).mono
  rintro x ⟨before, _, rfl, hbefore, _, after, rfl, rfl, hafter⟩
  refine ⟨by simp, ?_⟩
  simp only [List.forall_mem_append, List.forall_mem_singleton]
  exact ⟨hbefore, h, hafter⟩

theorem takes_some1_blank : Takes IsSeparator (Reader.some1 Text.isBlank) :=
  (takes_some1 Text.isBlank).mono fun _ hx =>
    ⟨hx.1, fun c hc => separatesComponents_of_isBlank (hx.2 c hc)⟩

/-- A number with its sign, behind what parts it from the number before. -/
structure Part where
  lead : Text
  number : Text
  sign : Text

namespace Part

def text (p : Part) : Text :=
  p.lead ++ p.number ++ p.sign

def component (p : Part) : Text :=
  p.number ++ p.sign

/-- Whether a part is written as in a literal, with a percent sign only if it may have one. -/
structure IsWritten (signed : Bool) (p : Part) : Prop where
  lead : ∀ c ∈ p.lead, separatesComponents c = true
  number : p.number ≠ [] ∧ ∀ c ∈ p.number, isNumeric c = true
  sign : p.sign = [] ∨ signed = true ∧ p.sign = ['%']

end Part

def IsArgument (signed : Bool) (r : Reader) : Prop :=
  Takes (fun x => ∃ number sign, x = number ++ sign ∧ Part.IsWritten signed ⟨[], number, sign⟩) r

theorem isArgument_digits : IsArgument false digits := by
  apply (takes_some1 Text.isDecimal).mono
  intro x hx
  refine ⟨x, [], (List.append_nil x).symm, nofun, ⟨hx.1, ?_⟩, .inl rfl⟩
  intro c hc
  rw [isNumeric, hx.2 c hc]
  rfl

theorem isArgument_number : IsArgument false number :=
  (takes_some1 isNumeric).mono fun x hx =>
    ⟨x, [], (List.append_nil x).symm, nofun, hx, .inl rfl⟩

theorem isArgument_percentage : IsArgument true percentage := by
  apply (takes_sequence (takes_some1 Text.isDecimal) (takes_single (takes_exactly ['%']))).mono
  rintro x ⟨number, _, rfl, hnumber, rfl⟩
  refine ⟨number, ['%'], rfl, nofun, ⟨hnumber.1, ?_⟩, .inr ⟨rfl, rfl⟩⟩
  intro c hc
  rw [isNumeric, hnumber.2 c hc]
  rfl

theorem isArgument_ratio : IsArgument true ratio := by
  apply (takes_sequence (takes_some1 isNumeric)
    (takes_single (takes_optional (takes_exactly ['%'])))).mono
  rintro x ⟨number, sign, rfl, hnumber, rfl | rfl⟩
  · exact ⟨number, [], rfl, nofun, hnumber, .inl rfl⟩
  · exact ⟨number, ['%'], rfl, nofun, hnumber, .inr ⟨rfl, rfl⟩⟩

/-- Readers of numbers, with readers of separators between them. -/
inductive AreArguments : List Bool → List Reader → Prop where
  | last {signed : Bool} {r : Reader} (h : IsArgument signed r) : AreArguments [signed] [r]
  | cons {signed : Bool} {r : Reader} {signs : List Bool} {separator rs : List Reader}
      (h : IsArgument signed r) (hseparator : Takes IsSeparator (Reader.sequence separator))
      (hrest : AreArguments signs rs) : AreArguments (signed :: signs) (r :: (separator ++ rs))

structure ArePartsOf (signs : List Bool) (parts : List Part) : Prop where
  written : List.Forall₂ Part.IsWritten signs parts
  parted : ∀ p ∈ parts.tail, p.lead ≠ []

theorem AreArguments.exists_parts {signs : List Bool} {rs : List Reader}
    (h : AreArguments signs rs) {lead t rest : Text}
    (hlead : ∀ c ∈ lead, separatesComponents c = true)
    (ht : Reader.sequence rs t = some rest) :
    ∃ p parts, p.lead = lead ∧ lead ++ t = (p :: parts).flatMap Part.text ++ rest ∧
      ArePartsOf signs (p :: parts) := by
  induction h generalizing lead t with
  | last h =>
      rcases takes_single h t rest ht with ⟨_, rfl, number, sign, rfl, hpart⟩
      refine ⟨⟨lead, number, sign⟩, [], rfl, by simp [Part.text], ?_, nofun⟩
      exact .cons ⟨hlead, hpart.number, hpart.sign⟩ .nil
  | cons h hseparator _ ih =>
      rcases Option.bind_eq_some_iff.mp ht with ⟨t₁, ht₁, hbehind⟩
      rw [sequence_append] at hbehind
      rcases Option.bind_eq_some_iff.mp hbehind with ⟨t₂, ht₂, hrest⟩
      rcases h t t₁ ht₁ with ⟨_, rfl, number, sign, rfl, hpart⟩
      rcases hseparator t₁ t₂ ht₂ with ⟨gap, rfl, hgap⟩
      rcases ih hgap.2 hrest with ⟨q, parts, hq, htext, hparts⟩
      refine ⟨⟨lead, number, sign⟩, q :: parts, rfl, ?_, ?_, ?_⟩
      · rw [htext]
        simp only [List.flatMap_cons, Part.text, List.append_assoc]
      · exact .cons ⟨hlead, hpart.number, hpart.sign⟩ hparts.written
      · exact List.forall_mem_cons.mpr ⟨hq ▸ hgap.1, hparts.parted⟩

/-!
## Calls
-/

/-- Whether a text is a call of a function with these parts. -/
structure IsCall (name : Text) (signs : List Bool) (parts : List Part) (t : Text) : Prop where
  areParts : ArePartsOf signs parts
  text : ∃ tail, (∀ c ∈ tail, Text.isBlank c = true) ∧
    t = name ++ '(' :: (parts.flatMap Part.text ++ tail ++ [')'])

theorem exists_isCall_of_function {signs : List Bool} {args : List Reader} {name : String}
    {t : Text} (hargs : AreArguments signs args) (ht : function name args t = some []) :
    ∃ parts, IsCall name.toList signs parts t := by
  unfold function at ht
  rw [sequence_append, sequence_append] at ht
  rcases Option.bind_eq_some_iff.mp ht with ⟨t₂, ht₂, hclose⟩
  rcases Option.bind_eq_some_iff.mp ht₂ with ⟨t₁, hopen, harguments⟩
  rcases takes_sequence (takes_exactly _)
      (takes_sequence (takes_exactly _) (takes_single takes_blanks)) t t₁ hopen with
    ⟨_, rfl, _, _, rfl, rfl, _, lead, rfl, rfl, hlead⟩
  rcases hargs.exists_parts hlead harguments with ⟨p, parts, _, htext, hparts⟩
  rcases takes_single (takes_sequence (takes_many Text.isBlank)
      (takes_single (takes_exactly _))) t₂ [] hclose with ⟨_, rfl, tail, _, rfl, htail, rfl⟩
  refine ⟨p :: parts, hparts, tail, htail, ?_⟩
  rw [List.append_assoc, List.append_assoc, htext]
  simp

/-- The functions of literals, with the numbers that may have a percent sign. -/
inductive Spelling : Text → ColorFormat → List Bool → Prop where
  | rgb : Spelling "rgb".toList .rgb [false, false, false]
  | rgba : Spelling "rgba".toList .rgb [false, false, false, false]
  | hsl : Spelling "hsl".toList .hsl [false, true, true]
  | hsla : Spelling "hsla".toList .hsl [false, true, true, false]
  | oklch : Spelling "oklch".toList .oklch [true, false, false]
  | oklchAlpha : Spelling "oklch".toList .oklch [true, false, false, true]

theorem takes_comma : Takes IsSeparator (Reader.sequence [comma]) :=
  takes_single (takes_mark (by decide))

theorem takes_gap : Takes IsSeparator (Reader.sequence [Reader.some1 Text.isBlank]) :=
  takes_single takes_some1_blank

theorem optional_eq (r : Reader) (t : Text) :
    r t = none ∧ Reader.optional r t = some t ∨
      ∃ rest, r t = some rest ∧ Reader.optional r t = some rest := by
  unfold Reader.optional
  cases h : r t with
  | none => exact .inl ⟨rfl, rfl⟩
  | some rest => exact .inr ⟨rest, rfl, rfl⟩

/-- A function with an optional last argument is written with or without it. -/
theorem function_optional {name : String} (args rs : List Reader) {t : Text}
    (h : function name (args ++ [Reader.optional (Reader.sequence rs)]) t = some []) :
    function name args t = some [] ∨ function name (args ++ rs) t = some [] := by
  unfold function at h ⊢
  simp only [sequence_append, Option.bind_eq_some_iff] at h ⊢
  rcases h with ⟨t₃, ⟨t₁, hopen, t₂, hargs, hlast⟩, hclose⟩
  rw [sequence_singleton] at hlast
  rcases optional_eq (Reader.sequence rs) t₂ with ⟨_, hskip⟩ | ⟨t₄, hread, hgiven⟩
  · rw [hskip] at hlast
    cases hlast
    exact .inl ⟨t₃, ⟨t₁, hopen, hargs⟩, hclose⟩
  · rw [hgiven] at hlast
    cases hlast
    exact .inr ⟨t₃, ⟨t₁, hopen, t₂, hargs, hread⟩, hclose⟩

section Arguments

variable {second : Bool} {r : Reader}

theorem areArguments_three (hr : IsArgument second r) :
    AreArguments [false, second, second] [digits, comma, r, comma, r] :=
  .cons isArgument_digits takes_comma (.cons hr takes_comma (.last hr))

theorem areArguments_four (hr : IsArgument second r) :
    AreArguments [false, second, second, false] [digits, comma, r, comma, r, comma, number] :=
  .cons isArgument_digits takes_comma
    (.cons hr takes_comma (.cons hr takes_comma (.last isArgument_number)))

theorem areArguments_oklch {signs : List Bool} {rs : List Reader}
    (h : AreArguments (false :: signs) (number :: rs)) :
    AreArguments (true :: false :: false :: signs)
      (ratio :: Reader.some1 Text.isBlank :: number :: Reader.some1 Text.isBlank :: number :: rs) :=
  .cons isArgument_ratio takes_gap (.cons isArgument_number takes_gap h)

theorem areArguments_opacity :
    AreArguments [false, true]
      (number :: ([Reader.blanks, Reader.exactly ['/'], Reader.blanks] ++ [ratio])) :=
  .cons isArgument_number (takes_mark (by decide)) (.last isArgument_ratio)

end Arguments

/-- A literal is a number sign with digits, or a call of a function with its numbers. -/
theorem exists_call_of_isLiteral {t : Text} (h : isLiteral t = true) :
    isHexLiteral (Text.strip t) = true ∨
      ∃ name family signs parts, Spelling name family signs ∧
        IsCall name signs parts (Text.strip t) := by
  have hcall : ∀ {name : String} {family : ColorFormat} {signs : List Bool} {args : List Reader},
      Spelling name.toList family signs → AreArguments signs args →
        function name args (Text.strip t) = some [] →
          ∃ name family signs parts, Spelling name family signs ∧
            IsCall name signs parts (Text.strip t) := by
    intro name family signs args hspelling hargs hread
    rcases exists_isCall_of_function hargs hread with ⟨parts, hparts⟩
    exact ⟨_, family, signs, parts, hspelling, hparts⟩
  unfold isLiteral at h
  rcases Bool.or_eq_true_iff.mp h with hhex | hfunction
  · exact .inl hhex
  · right
    rcases List.any_eq_true.mp hfunction with ⟨r, hr, haccepts⟩
    have hsome : r (Text.strip t) = some [] := by simpa [Reader.accepts] using haccepts
    simp only [literalFunctions, List.mem_cons, List.not_mem_nil, or_false] at hr
    rcases hr with rfl | rfl | rfl | rfl | rfl
    · exact hcall .rgb (areArguments_three isArgument_digits) hsome
    · exact hcall .rgba (areArguments_four isArgument_digits) hsome
    · exact hcall .hsl (areArguments_three isArgument_percentage) hsome
    · exact hcall .hsla (areArguments_four isArgument_percentage) hsome
    · -- the reader may give up the last argument, so that there are two spellings of one name
      rcases function_optional
          [ratio, Reader.some1 Text.isBlank, number, Reader.some1 Text.isBlank, number]
          [Reader.blanks, Reader.exactly ['/'], Reader.blanks, ratio] hsome with hplain | hfull
      · exact hcall .oklch (areArguments_oklch (.last isArgument_number)) hplain
      · exact hcall .oklchAlpha (areArguments_oklch areArguments_opacity) hfull

/-!
## What is found in a call

There are no parentheses in the body of a call, and its fields end only where a separator
stands. So its components are the parts that it is written with.
-/

structure IsFunctionName (name : Text) : Prop where
  nonempty : name ≠ []
  letters : ∀ c ∈ name, Text.isFoldedLetter c = true
  dark : ∀ c ∈ name, Text.isBlank c = false
  small : Text.lower name = name
  folded : ∀ c ∈ name, Text.fold c = c
  plain : ∀ c ∈ name, isNumeric c = false
  known : name ∈ functionNames

theorem Spelling.isFunctionName {name : Text} {family : ColorFormat} {signs : List Bool}
    (h : Spelling name family signs) : IsFunctionName name := by
  cases h <;>
    exact ⟨by decide, List.all_iff_forall_prop.mp (by decide),
      List.all_iff_forall_prop.mp (by decide), by decide, List.all_iff_forall_prop.mp (by decide),
      List.all_iff_forall_prop.mp (by decide +kernel), by decide⟩

theorem Part.IsWritten.sign_subset {signed : Bool} {p : Part} (h : p.IsWritten signed) :
    ∀ c ∈ p.sign, c = '%' := by
  rcases h.sign with hnone | ⟨_, hpercent⟩
  · rw [hnone]
    exact nofun
  · rw [hpercent]
    simp

theorem ArePartsOf.isWritten {signs : List Bool} {parts : List Part} (h : ArePartsOf signs parts) :
    ∀ p ∈ parts, ∃ signed, p.IsWritten signed := by
  intro p hp
  rcases List.mem_iff_getElem.mp hp with ⟨i, hi, rfl⟩
  have hlength := h.written.length_eq
  exact ⟨signs[i], h.written.get (by omega) hi⟩

theorem isNumeric_of_separates {c : Char} (h : separatesComponents c = true) :
    isNumeric c = false := by
  by_contra hnumeric
  rw [Bool.not_eq_false] at hnumeric
  have hblank := Text.isBlank_of_isNumeric hnumeric
  simp only [separatesComponents, hblank, Bool.false_or, Bool.or_eq_true, decide_eq_true_eq] at h
  rcases h with rfl | rfl
  · exact absurd hnumeric (by decide)
  · exact absurd hnumeric (by decide)

theorem ArePartsOf.fields_component {signs : List Bool} {parts : List Part}
    (h : ArePartsOf signs parts) {tail : Text} (htail : ∀ c ∈ tail, Text.isBlank c = true) :
    Text.fields separatesComponents (parts.flatMap Part.text ++ tail) =
      parts.map Part.component := by
  have htext : Part.text = fun p => p.lead ++ p.component ++ [] := by
    funext p
    simp [Part.text, Part.component]
  rw [htext]
  apply Text.fields_flatMap
  · intro p hp
    rcases h.isWritten p hp with ⟨_, hpart⟩
    exact hpart.lead
  · intro p hp
    rcases h.isWritten p hp with ⟨_, hpart⟩
    refine ⟨List.append_ne_nil_of_left_ne_nil hpart.number.1 _, ?_⟩
    intro c hc
    by_contra hseparates
    rw [Bool.not_eq_false] at hseparates
    rcases List.mem_append.mp hc with hnumber | hsign
    · have hnumeric := isNumeric_of_separates hseparates
      rw [hpart.number.2 c hnumber] at hnumeric
      cases hnumeric
    · rw [hpart.sign_subset c hsign] at hseparates
      exact absurd hseparates (by decide)
  · exact fun _ _ => nofun
  · exact h.parted
  · exact fun c hc => separatesComponents_of_isBlank (htail c hc)

def numerals (t : Text) : List Text :=
  Text.fields (fun c => !isNumeric c) t

theorem ArePartsOf.fields_number {signs : List Bool} {parts : List Part}
    (h : ArePartsOf signs parts) {tail : Text} (htail : ∀ c ∈ tail, isNumeric c = false) :
    numerals (parts.flatMap Part.text ++ tail) = parts.map Part.number := by
  apply Text.fields_flatMap Part.lead Part.number Part.sign
  · intro p hp c hc
    rcases h.isWritten p hp with ⟨_, hpart⟩
    rw [isNumeric_of_separates (hpart.lead c hc)]
    rfl
  · intro p hp
    rcases h.isWritten p hp with ⟨_, hpart⟩
    refine ⟨hpart.number.1, ?_⟩
    intro c hc
    rw [hpart.number.2 c hc]
    rfl
  · intro p hp c hc
    rcases h.isWritten p hp with ⟨_, hpart⟩
    rw [hpart.sign_subset c hc]
    decide
  · exact h.parted
  · intro c hc
    rw [htail c hc]
    rfl

theorem functionParts?_written {name : Text} (hname : IsFunctionName name) (body : Text) :
    functionParts? (name ++ '(' :: (body ++ [')'])) = some (name, body) := by
  have hopen : Text.isFoldedLetter '(' = false := by decide
  have htake : (name ++ '(' :: (body ++ [')'])).takeWhile Text.isFoldedLetter = name := by
    rw [List.takeWhile_append_of_pos hname.letters, List.takeWhile_cons_of_neg (by simp [hopen]),
      List.append_nil]
  have hdrop : (name ++ '(' :: (body ++ [')'])).dropWhile Text.isFoldedLetter =
      '(' :: (body ++ [')']) := by
    rw [List.dropWhile_append_of_pos hname.letters, List.dropWhile_cons_of_neg (by simp [hopen])]
  have hblank : ('(' :: (body ++ [')'])).dropWhile Text.isBlank = '(' :: (body ++ [')']) :=
    List.dropWhile_cons_of_neg (by decide)
  simp [functionParts?, htake, hdrop, hblank, hname.nonempty]

theorem strip_written {name : Text} (hname : IsFunctionName name) (body : Text) :
    Text.strip (name ++ '(' :: (body ++ [')'])) = name ++ '(' :: (body ++ [')']) := by
  apply Text.strip_of_ends
  · intro c hc
    rw [List.head?_append_of_ne_nil _ hname.nonempty] at hc
    exact hname.dark c (List.mem_of_mem_head? hc)
  · intro c hc
    rw [← List.cons_append, ← List.append_assoc, List.getLast?_concat] at hc
    cases hc
    decide

theorem components?_written {name : Text} (hname : IsFunctionName name) {names : List Text}
    (hmem : name ∈ names) (body : Text) :
    components? names (name ++ '(' :: (body ++ [')'])) =
      .ok (Text.fields separatesComponents body) := by
  have hany : (names.any fun n => n = Text.lower name) = true := by
    rw [hname.small, List.any_eq_true]
    exact ⟨name, hmem, decide_eq_true rfl⟩
  unfold components?
  rw [strip_written hname, functionParts?_written hname]
  exact if_pos hany

section Calls

variable {name t : Text} {signs : List Bool} {parts : List Part}

/-- The components of a call are its parts. -/
theorem IsCall.components?_eq (h : IsCall name signs parts t) (hname : IsFunctionName name)
    (names : List Text) (hmem : name ∈ names) :
    components? names t = .ok (parts.map Part.component) := by
  rcases h.text with ⟨tail, htail, rfl⟩
  rw [components?_written hname hmem, h.areParts.fields_component htail]

theorem IsCall.numerals_eq (h : IsCall name signs parts t) (hname : IsFunctionName name)
    {before after : Text} (hbefore : ∀ c ∈ before, Text.isBlank c = true)
    (hafter : ∀ c ∈ after, Text.isBlank c = true) :
    numerals (before ++ t ++ after) = parts.map Part.number := by
  have hblank : ∀ {c : Char}, Text.isBlank c = true → isNumeric c = false :=
    fun hc => isNumeric_of_separates (separatesComponents_of_isBlank hc)
  rcases h.text with ⟨tail, htail, rfl⟩
  have hsplit : before ++ (name ++ '(' :: (parts.flatMap Part.text ++ tail ++ [')'])) ++ after =
      (before ++ name ++ ['(']) ++ (parts.flatMap Part.text ++ (tail ++ [')'] ++ after)) := by
    simp
  have hlead : ∀ c ∈ before ++ name ++ ['('], (!isNumeric c) = true := by
    simp only [List.forall_mem_append, List.forall_mem_singleton]
    refine ⟨⟨?_, ?_⟩, by decide⟩
    · intro c hc
      rw [hblank (hbefore c hc)]
      rfl
    · intro c hc
      rw [hname.plain c hc]
      rfl
  have hrest : ∀ c ∈ tail ++ [')'] ++ after, isNumeric c = false := by
    simp only [List.forall_mem_append, List.forall_mem_singleton]
    exact ⟨⟨fun c hc => hblank (htail c hc), by decide⟩, fun c hc => hblank (hafter c hc)⟩
  have hfields := h.areParts.fields_number hrest
  unfold numerals at hfields ⊢
  rw [hsplit, Text.fields_of_separates _ hlead, hfields]

theorem afterFolded?_append {lead : Text} (rest : Text) (h : ∀ c ∈ lead, Text.fold c = c) :
    Text.afterFolded? lead (lead ++ rest) = some rest := by
  induction lead with
  | nil => cases rest <;> rfl
  | cons c lead ih =>
      rw [List.forall_mem_cons] at h
      rw [List.cons_append, Text.afterFolded?, if_pos h.1.symm, ih h.2]

theorem not_parenthesis {c : Char}
    (h : separatesComponents c = true ∨ isNumeric c = true ∨ c = '%') :
    (decide (c ≠ '(') && decide (c ≠ ')')) = true := by
  rw [Bool.and_eq_true, decide_eq_true_eq, decide_eq_true_eq]
  constructor
  · rintro rfl
    revert h
    decide
  · rintro rfl
    revert h
    decide

theorem Part.IsWritten.not_parenthesis {signed : Bool} {p : Part} (h : p.IsWritten signed) :
    ∀ c ∈ p.text, (decide (c ≠ '(') && decide (c ≠ ')')) = true := by
  unfold Part.text
  simp only [List.forall_mem_append]
  refine ⟨⟨?_, ?_⟩, ?_⟩
  · intro c hc
    exact Color.not_parenthesis (.inl (h.lead c hc))
  · intro c hc
    exact Color.not_parenthesis (.inr (.inl (h.number.2 c hc)))
  · intro c hc
    exact Color.not_parenthesis (.inr (.inr (h.sign_subset c hc)))

theorem IsCall.accepts_shape (h : IsCall name signs parts t) (hname : IsFunctionName name) :
    Reader.accepts (functionShape name) t = true := by
  rcases h.text with ⟨tail, htail, rfl⟩
  generalize hbody : parts.flatMap Part.text ++ tail = body
  have hplain : ∀ c ∈ body, (decide (c ≠ '(') && decide (c ≠ ')')) = true := by
    intro c hc
    rw [← hbody] at hc
    rcases List.mem_append.mp hc with hparts | hc
    · rcases List.mem_flatMap.mp hparts with ⟨p, hp, hc⟩
      rcases h.areParts.isWritten p hp with ⟨_, hpart⟩
      exact hpart.not_parenthesis c hc
    · exact not_parenthesis (.inl (separatesComponents_of_isBlank (htail c hc)))
  have hblanks : Reader.blanks ('(' :: (body ++ [')'])) = some ('(' :: (body ++ [')'])) :=
    congrArg some (List.dropWhile_cons_of_neg (by decide))
  have hopen : Reader.exactly ['('] ('(' :: (body ++ [')'])) = some (body ++ [')']) :=
    Text.after?_eq_some_iff.mpr rfl
  have hmany : Reader.many (fun c => decide (c ≠ '(') && decide (c ≠ ')')) (body ++ [')']) =
      some [')'] := by
    unfold Reader.many
    rw [List.dropWhile_append_of_pos hplain]
    rfl
  have hshape : functionShape name (name ++ '(' :: (body ++ [')'])) = some [] := by
    simp only [functionShape, Reader.sequence]
    rw [afterFolded?_append _ hname.folded, Option.bind_some, hblanks, Option.bind_some, hopen,
      Option.bind_some, hmany]
    rfl
  unfold Reader.accepts
  rw [hshape]
  rfl

end Calls

end Color
end DesignTokens
