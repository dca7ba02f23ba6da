import DesignTokens.Proofs.Except
import DesignTokens.Proofs.Style.Length
import DesignTokens.Proofs.Text.Words
import DesignTokens.Token.ShadowLayer

/-!
# Layers of shadows and their normal form

The words of a layer are lengths, the word `inset`, and words of a color. A layer in
normal form has the words in this order: `inset`, four lengths, and the color. What was
read of a shadow is read again of its normal form, also if a bracket or a quote is left
open, since that is in the last word of the color of the last layer.
-/

namespace DesignTokens

open Pieces

/-!
## Kinds of words
-/

theorem Text.small_of_isDecimal {c : Char} (h : isDecimal c = true) : small c = c :=
  of_isDecimal (P := fun c => small c = c) (by decide +kernel) h

namespace ShadowLayer

theorem exists_of_isLengthWord {w : Text} (h : isLengthWord w = true) :
    ∃ magnitude unit, (w = magnitude ++ unit ∨ w = '-' :: (magnitude ++ unit)) ∧
      Shape.IsMagnitude magnitude ∧ ∀ c ∈ unit, isUnitChar c = true := by
  unfold isLengthWord at h
  split at h
  · rename_i magnitude unit hmagnitude
    rcases Shape.magnitude?_eq_some hmagnitude with ⟨hw, hform⟩
    refine ⟨magnitude, unit, ?_, hform, List.all_eq_true.mp h⟩
    rw [← hw]
    exact (Text.removeLead_cases ['-'] w).imp_left Eq.symm
  · cases h

theorem isInset_of_isLengthWord {w : Text} (h : isLengthWord w = true) :
    Shape.isInset w = false := by
  rcases exists_of_isLengthWord h with ⟨magnitude, unit, hw, hform, -⟩
  rcases List.any_eq_true.mp hform.digit with ⟨c, hc, hdigit⟩
  have hmem : c ∈ w := by rcases hw with rfl | rfl <;> simp [hc]
  have hletters : ∀ d ∈ "inset".toList, Text.isDecimal d = false :=
    List.all_iff_forall_prop.mp (by decide)
  refine decide_eq_false fun hinset => ?_
  have hsmall : Text.small c ∈ "inset".toList := by
    rw [← hinset]
    exact List.mem_map_of_mem hmem
  rw [Text.small_of_isDecimal hdigit] at hsmall
  exact Bool.false_ne_true ((hletters c hsmall).symm.trans hdigit)

theorem isLengthWord_of_isInset {w : Text} (h : Shape.isInset w = true) :
    isLengthWord w = false := by
  by_contra hlength
  rw [Bool.not_eq_false] at hlength
  exact Bool.false_ne_true ((isInset_of_isLengthWord hlength).symm.trans h)

theorem isClosed_of_isLengthWord {rule : Rule} {w : Text} (h : isLengthWord w = true) :
    IsClosed rule w := by
  rcases exists_of_isLengthWord h with ⟨magnitude, unit, hw, hform, hunit⟩
  refine isClosed_of_forall (p := fun c => Text.isNumeric c || isUnitChar c || c = '-')
    (by decide) ?_
  have hplain : ∀ c ∈ magnitude ++ unit,
      (Text.isNumeric c || isUnitChar c || decide (c = '-')) = true := by
    refine List.forall_mem_append.mpr ⟨fun c hc => ?_, fun c hc => ?_⟩
    · rw [hform.numeric c hc, Bool.true_or, Bool.true_or]
    · rw [hunit c hc, Bool.or_true, Bool.true_or]
  rcases hw with rfl | rfl
  · exact hplain
  · exact List.forall_mem_cons.mpr ⟨by decide, hplain⟩

theorem isClosed_of_isInset {rule : Rule} {w : Text} (h : Shape.isInset w = true) :
    IsClosed rule w := by
  refine isClosed_of_forall (p := fun c => "inset".toList.contains (Text.small c)) (by decide) ?_
  intro c hc
  rw [← of_decide_eq_true h, List.contains_iff_mem]
  exact List.mem_map_of_mem hc

/-- The words of a layer are told apart: the word `inset`, the lengths, and all others. -/
inductive IsDividedInto : (words insets lengths colors : List Text) → Prop where
  | nil : IsDividedInto [] [] [] []
  | inset {w : Text} {ws insets lengths colors : List Text} (hw : Shape.isInset w = true)
      (hws : IsDividedInto ws insets lengths colors) :
      IsDividedInto (w :: ws) (w :: insets) lengths colors
  | length {w : Text} {ws insets lengths colors : List Text} (hw : isLengthWord w = true)
      (hws : IsDividedInto ws insets lengths colors) :
      IsDividedInto (w :: ws) insets (w :: lengths) colors
  | color {w : Text} {ws insets lengths colors : List Text} (hinset : Shape.isInset w = false)
      (hlength : isLengthWord w = false) (hws : IsDividedInto ws insets lengths colors) :
      IsDividedInto (w :: ws) insets lengths (w :: colors)

def isColorWord (w : Text) : Bool :=
  !Shape.isInset w && !isLengthWord w

theorem isDividedInto_iff {ws insets lengths colors : List Text} :
    IsDividedInto ws insets lengths colors ↔ insets = ws.filter Shape.isInset ∧
      lengths = ws.filter isLengthWord ∧ colors = ws.filter isColorWord := by
  constructor
  · intro h
    induction h with
    | nil => exact ⟨rfl, rfl, rfl⟩
    | inset hw _ ih =>
        simp [isColorWord, hw, isLengthWord_of_isInset hw, ← ih.1, ← ih.2.1, ← ih.2.2]
    | length hw _ ih =>
        simp [isColorWord, hw, isInset_of_isLengthWord hw, ← ih.1, ← ih.2.1, ← ih.2.2]
    | color hinset hlength _ ih =>
        simp [isColorWord, hinset, hlength, ← ih.1, ← ih.2.1, ← ih.2.2]
  · rintro ⟨rfl, rfl, rfl⟩
    induction ws with
    | nil => exact .nil
    | cons w ws ih =>
        by_cases hlength : isLengthWord w = true
        · simp only [List.filter_cons, isColorWord, hlength, isInset_of_isLengthWord hlength]
          exact .length hlength ih
        · rw [Bool.not_eq_true] at hlength
          cases hinset : Shape.isInset w with
          | true =>
              simp only [List.filter_cons, isColorWord, hlength, hinset]
              exact .inset hinset ih
          | false =>
              simp only [List.filter_cons, isColorWord, hlength, hinset]
              exact .color hinset hlength ih

theorem isDividedInto_append {insets lengths colors : List Text}
    (hinsets : ∀ w ∈ insets, Shape.isInset w = true)
    (hlengths : ∀ w ∈ lengths, isLengthWord w = true)
    (hcolors : ∀ w ∈ colors, Shape.isInset w = false ∧ isLengthWord w = false) :
    IsDividedInto (insets ++ (lengths ++ colors)) insets lengths colors := by
  induction insets with
  | cons w insets ih =>
      rw [List.forall_mem_cons] at hinsets
      exact .inset hinsets.1 (ih hinsets.2)
  | nil =>
      induction lengths with
      | cons w lengths ih =>
          rw [List.forall_mem_cons] at hlengths
          exact .length hlengths.1 (ih hlengths.2)
      | nil =>
          induction colors with
          | nil => exact .nil
          | cons w colors ih =>
              rw [List.forall_mem_cons] at hcolors
              exact .color hcolors.1.1 hcolors.1.2 (ih hcolors.2)

/-!
## The layer in a part

The words of a part are divided by their kinds in one way, and the layer is made of the three
lists.
-/

def wordsOf (part : Text) : List Text :=
  texts .words (Text.strip part)

/-- Four lengths, where a blur or a spread that is not written is zero. -/
def fourLengths (lengths : List Text) : List Text :=
  lengths ++ List.replicate (4 - lengths.length) ['0']

def colorWords (colors : List Text) : List Text :=
  if colors = [] then ["currentColor".toList] else colors

theorem colorWords_eq_self {colors : List Text} (h : colors ≠ []) : colorWords colors = colors :=
  if_neg h

structure IsMadeOf (layer : ShadowLayer) (insets lengths colors : List Text) : Prop where
  atLeast : 2 ≤ lengths.length
  atMost : lengths.length ≤ 4
  lengths_eq : [layer.offsetX, layer.offsetY, layer.blur, layer.spread] = fourLengths lengths
  color_eq : layer.color = Text.join [' '] (colorWords colors)
  inset_eq : layer.inset = !insets.isEmpty

def IsWrittenIn (layer : ShadowLayer) (words : List Text) : Prop :=
  ∃ insets lengths colors, IsDividedInto words insets lengths colors ∧
    layer.IsMadeOf insets lengths colors

theorem IsMadeOf.unique {layer layer' : ShadowLayer} {insets lengths colors : List Text}
    (h : layer.IsMadeOf insets lengths colors) (h' : layer'.IsMadeOf insets lengths colors) :
    layer = layer' := by
  have hlengths := h.lengths_eq.trans h'.lengths_eq.symm
  have hcolor := h.color_eq.trans h'.color_eq.symm
  have hinset := h.inset_eq.trans h'.inset_eq.symm
  cases layer
  cases layer'
  simp only [List.cons.injEq, and_true] at hlengths
  simp only at hcolor hinset
  rw [hlengths.1, hlengths.2.1, hlengths.2.2.1, hlengths.2.2.2, hcolor, hinset]

theorem join_eq_nil_iff {ws : List Text} (h : ∀ w ∈ ws, w ≠ []) :
    Text.join [' '] ws = [] ↔ ws = [] := by
  cases ws with
  | nil => exact iff_of_true rfl rfl
  | cons w ws =>
      have hw := h w List.mem_cons_self
      cases ws with
      | nil => exact iff_of_false hw (List.cons_ne_nil w [])
      | cons v ws =>
          rw [Text.join_cons (List.cons_ne_nil v ws)]
          exact iff_of_false (List.append_ne_nil_of_left_ne_nil hw _) (List.cons_ne_nil w _)

theorem ne_nil_of_mem_wordsOf {part w : Text} (h : w ∈ wordsOf part) : w ≠ [] := by
  rintro rfl
  cases isAllBlank_of_mem_texts h

section Words

variable (ws : List Text)

theorem filter_isLengthWord :
    (ws.filter fun w => !Shape.isInset w).filter isLengthWord = ws.filter isLengthWord := by
  rw [List.filter_filter]
  refine List.filter_congr fun w _ => ?_
  cases hlength : isLengthWord w with
  | false => rfl
  | true => rw [isInset_of_isLengthWord hlength]; rfl

theorem filter_isColorWord :
    (ws.filter fun w => !Shape.isInset w).filter (fun w => !isLengthWord w) =
      ws.filter isColorWord := by
  rw [List.filter_filter]
  exact List.filter_congr fun w _ => Bool.and_comm _ _

theorem any_isInset : ws.any Shape.isInset = !(ws.filter Shape.isInset).isEmpty := by
  rw [Bool.eq_iff_iff, List.any_eq_true, Bool.not_eq_true', List.isEmpty_eq_false_iff,
    ne_eq, List.filter_eq_nil_iff]
  simp

end Words

theorem ofPiece?_eq (part : Text) :
    ofPiece? part =
      match (wordsOf part).filter isLengthWord with
      | x :: y :: more =>
          if more.length ≤ 2 then
            .ok ⟨x, y, more.headD ['0'], more.tail.headD ['0'],
              Text.join [' '] (colorWords ((wordsOf part).filter isColorWord)),
              !((wordsOf part).filter Shape.isInset).isEmpty⟩
          else .error (.lengthCount (Text.strip part))
      | _ => .error (.lengthCount (Text.strip part)) := by
  have hnonempty : ∀ w ∈ (wordsOf part).filter isColorWord, w ≠ [] :=
    fun w hw => ne_nil_of_mem_wordsOf (List.mem_of_mem_filter hw)
  unfold ofPiece?
  simp only
  rw [show texts .words (Text.strip part) = wordsOf part from rfl, filter_isLengthWord,
    filter_isColorWord, any_isInset]
  cases hcolors : (wordsOf part).filter isColorWord with
  | nil => rfl
  | cons w ws =>
      -- the words are not empty, so that what they are joined to is the color
      rw [hcolors] at hnonempty
      rw [colorWords_eq_self (List.cons_ne_nil w ws)]
      cases hjoin : Text.join [' '] (w :: ws) with
      | nil => exact absurd ((join_eq_nil_iff hnonempty).mp hjoin) (List.cons_ne_nil w ws)
      | cons c color => rfl

def lengthCount (part : Text) : Nat :=
  ((wordsOf part).filter isLengthWord).length

/-- A part with two to four lengths has a layer. -/
theorem exists_ofPiece?_eq {part : Text} (hleast : 2 ≤ lengthCount part)
    (hmost : lengthCount part ≤ 4) :
    ∃ layer, ofPiece? part = .ok layer ∧
      layer.IsMadeOf ((wordsOf part).filter Shape.isInset) ((wordsOf part).filter isLengthWord)
        ((wordsOf part).filter isColorWord) := by
  rw [ofPiece?_eq]
  unfold lengthCount at hleast hmost
  rcases hlengths : (wordsOf part).filter isLengthWord with _ | ⟨x, _ | ⟨y, more⟩⟩
  · rw [hlengths] at hleast
    cases hleast
  · rw [hlengths] at hleast
    exact absurd hleast (by simp)
  · rw [hlengths] at hleast hmost
    have hmore : more.length ≤ 2 := by
      rw [List.length_cons, List.length_cons] at hmost
      omega
    refine ⟨_, if_pos hmore, hleast, hmost, ?_, rfl, rfl⟩
    -- the blur and the spread are the third and the fourth length, as far as they are written
    rcases more with _ | ⟨z, _ | ⟨w, _ | ⟨v, more⟩⟩⟩
    · rfl
    · rfl
    · rfl
    · exact absurd hmore (by rw [List.length_cons, List.length_cons, List.length_cons]; omega)

theorem ofPiece?_eq_error {part : Text} (h : lengthCount part < 2 ∨ 4 < lengthCount part) :
    ofPiece? part = .error (.lengthCount (Text.strip part)) := by
  rw [ofPiece?_eq]
  unfold lengthCount at h
  rcases hlengths : (wordsOf part).filter isLengthWord with _ | ⟨x, _ | ⟨y, more⟩⟩
  · rfl
  · rfl
  · rw [hlengths] at h
    refine if_neg ?_
    simp only [List.length_cons] at h
    omega

theorem ofPiece?_eq_ok_iff {part : Text} {layer : ShadowLayer} :
    ofPiece? part = .ok layer ↔ layer.IsWrittenIn (wordsOf part) := by
  constructor
  · intro h
    by_cases hcount : 2 ≤ lengthCount part ∧ lengthCount part ≤ 4
    · rcases exists_ofPiece?_eq hcount.1 hcount.2 with ⟨layer', hlayer, hmade⟩
      rw [hlayer] at h
      cases h
      exact ⟨_, _, _, isDividedInto_iff.mpr ⟨rfl, rfl, rfl⟩, hmade⟩
    · rw [ofPiece?_eq_error (by omega)] at h
      cases h
  · rintro ⟨insets, lengths, colors, hdivided, hmade⟩
    rcases isDividedInto_iff.mp hdivided with ⟨rfl, rfl, rfl⟩
    rcases exists_ofPiece?_eq hmade.atLeast hmade.atMost with ⟨layer', hlayer, hmade'⟩
    rw [hlayer, hmade.unique hmade']

theorem exists_ofPiece?_error_iff {part : Text} :
    (∃ fault, ofPiece? part = .error fault) ↔ lengthCount part < 2 ∨ 4 < lengthCount part := by
  constructor
  · rintro ⟨fault, hfault⟩
    by_contra hcount
    rw [not_or, not_lt, not_lt] at hcount
    rcases exists_ofPiece?_eq hcount.1 hcount.2 with ⟨layer, hlayer, -⟩
    rw [hlayer] at hfault
    cases hfault
  · exact fun h => ⟨_, ofPiece?_eq_error h⟩

/-!
## Layers in normal form
-/

def toText (layer : ShadowLayer) : Text :=
  Text.join [' '] ((if layer.inset then ["inset".toList] else []) ++
    [layer.offsetX, layer.offsetY, layer.blur, layer.spread, layer.color])

def insetWords (insets : List Text) : List Text :=
  if insets = [] then [] else ["inset".toList]

def normalWords (insets lengths colors : List Text) : List Text :=
  insetWords insets ++ (fourLengths lengths ++ colorWords colors)

section Normal

variable {layer : ShadowLayer} {ws insets lengths colors : List Text}

theorem colorWords_ne_nil (colors : List Text) : colorWords colors ≠ [] := by
  unfold colorWords
  split
  · exact List.cons_ne_nil _ _
  · assumption

theorem normalWords_ne_nil (insets lengths colors : List Text) :
    normalWords insets lengths colors ≠ [] :=
  List.append_ne_nil_of_right_ne_nil _
    (List.append_ne_nil_of_right_ne_nil _ (colorWords_ne_nil colors))

theorem IsMadeOf.toText_eq (h : layer.IsMadeOf insets lengths colors) :
    layer.toText = Text.join [' '] (normalWords insets lengths colors) := by
  have hinset : (if layer.inset then ["inset".toList] else []) = insetWords insets := by
    rw [h.inset_eq]
    cases insets <;> rfl
  have hlengths : [layer.offsetX, layer.offsetY, layer.blur, layer.spread, layer.color] =
      fourLengths lengths ++ [layer.color] := by
    rw [← h.lengths_eq]
    rfl
  rw [toText, normalWords, hinset, hlengths, ← List.append_assoc, ← List.append_assoc,
    Text.join_concat, h.color_eq, Text.join_append_of_ne_nil _ _ (colorWords_ne_nil colors)]

theorem forall_mem_normalWords {P : Text → Prop} (hinset : P "inset".toList) (hzero : P ['0'])
    (hcurrent : P "currentColor".toList) (hlengths : ∀ w ∈ lengths, P w)
    (hcolors : ∀ w ∈ colors, P w) : ∀ w ∈ normalWords insets lengths colors, P w := by
  refine List.forall_mem_append.mpr ⟨?_, List.forall_mem_append.mpr ⟨?_, ?_⟩⟩
  · unfold insetWords
    split
    · exact nofun
    · exact List.forall_mem_singleton.mpr hinset
  · refine List.forall_mem_append.mpr ⟨hlengths, fun w hw => ?_⟩
    rw [List.eq_of_mem_replicate hw]
    exact hzero
  · unfold colorWords
    split
    · exact List.forall_mem_singleton.mpr hcurrent
    · exact hcolors

theorem length_fourLengths (h : lengths.length ≤ 4) : (fourLengths lengths).length = 4 := by
  rw [fourLengths, List.length_append, List.length_replicate]
  omega

theorem fourLengths_eq_self (h : lengths.length = 4) : fourLengths lengths = lengths := by
  rw [fourLengths, h]
  exact List.append_nil lengths

theorem isDividedInto_normalWords (hws : IsDividedInto ws insets lengths colors) :
    IsDividedInto (normalWords insets lengths colors) (insetWords insets) (fourLengths lengths)
      (colorWords colors) := by
  rcases isDividedInto_iff.mp hws with ⟨-, hlengths, hcolors⟩
  apply isDividedInto_append
  · unfold insetWords
    split
    · exact nofun
    · exact List.forall_mem_singleton.mpr (by decide)
  · refine List.forall_mem_append.mpr ⟨fun w hw => ?_, fun w hw => ?_⟩
    · rw [hlengths] at hw
      exact (List.mem_filter.mp hw).2
    · rw [List.eq_of_mem_replicate hw]
      decide
  · unfold colorWords
    split
    · exact List.forall_mem_singleton.mpr (by decide)
    · intro w hw
      rw [hcolors, List.mem_filter, isColorWord, Bool.and_eq_true, Bool.not_eq_true',
        Bool.not_eq_true'] at hw
      exact hw.2

/-- A layer is also written in the words of its normal form. -/
theorem IsMadeOf.isWrittenIn_normalWords (h : layer.IsMadeOf insets lengths colors)
    (hws : IsDividedInto ws insets lengths colors) :
    layer.IsWrittenIn (normalWords insets lengths colors) := by
  have hfour := length_fourLengths h.atMost
  refine ⟨_, _, _, isDividedInto_normalWords hws, by omega, by omega, ?_, ?_, ?_⟩
  · rw [h.lengths_eq, fourLengths_eq_self hfour]
  · rw [h.color_eq, colorWords_eq_self (colorWords_ne_nil colors)]
  · rw [h.inset_eq]
    cases insets <;> rfl

theorem isWord_inset : IsWord "inset".toList where
  uncut := rfl
  joint := rfl
  nonempty := by decide
  last := by
    intro c hc
    obtain rfl : 't' = c := Option.some.inj hc
    decide

theorem isWord_zero : IsWord ['0'] where
  uncut := rfl
  joint := rfl
  nonempty := by decide
  last := by
    intro c hc
    obtain rfl : '0' = c := Option.some.inj hc
    decide

theorem isWord_currentColor : IsWord "currentColor".toList where
  uncut := rfl
  joint := rfl
  nonempty := by decide
  last := by
    intro c hc
    obtain rfl : 'r' = c := Option.some.inj hc
    decide

theorem areWords_normalWords (hws : AreWords ws) (h : IsDividedInto ws insets lengths colors) :
    AreWords (normalWords insets lengths colors) := by
  rcases isDividedInto_iff.mp h with ⟨-, hlengths, hcolors⟩
  have hinset : ∀ w ∈ insetWords insets, IsWord w ∧ IsClosed .words w := by
    unfold insetWords
    split
    · exact nofun
    · exact List.forall_mem_singleton.mpr ⟨isWord_inset, rfl⟩
  have hfour : ∀ w ∈ fourLengths lengths, IsWord w ∧ IsClosed .words w := by
    refine List.forall_mem_append.mpr ⟨fun w hw => ?_, fun w hw => ?_⟩
    · rw [hlengths, List.mem_filter] at hw
      exact ⟨hws.isWord w hw.1, isClosed_of_isLengthWord hw.2⟩
    · rw [List.eq_of_mem_replicate hw]
      exact ⟨isWord_zero, rfl⟩
  have hcolor : AreWords (colorWords colors) := by
    unfold colorWords
    split
    · exact ⟨List.forall_mem_singleton.mpr isWord_currentColor, List.pairwise_singleton _ _⟩
    · rw [hcolors]
      exact hws.sublist List.filter_sublist
  exact .append hinset (.append hfour hcolor)

end Normal

/-!
## The normal form of a part
-/

section Part

variable {layer : ShadowLayer} {part : Text}

theorem ofPiece?_congr {part' : Text} (h : Text.strip part' = Text.strip part) :
    ofPiece? part' = ofPiece? part := by
  unfold ofPiece?
  rw [h]

structure IsNormalized (layer : ShadowLayer) : Prop where
  joint : IsUncut .commas layer.toText
  kept : Text.isAllBlank layer.toText = false
  read : ofPiece? layer.toText = .ok layer

theorem IsWrittenIn.isNormalized (hpart : IsUncut .commas part)
    (h : layer.IsWrittenIn (wordsOf part)) : layer.IsNormalized := by
  rcases h with ⟨insets, lengths, colors, hdivided, hmade⟩
  have hwords := areWords_normalWords (areWords_texts hpart) hdivided
  have hread : wordsOf layer.toText = normalWords insets lengths colors := by
    rw [wordsOf, hmade.toText_eq, hwords.strip_join, hwords.texts_eq]
  refine ⟨?_, ?_, ?_⟩
  · rw [hmade.toText_eq]
    exact hwords.isUncut_commas
  · rw [hmade.toText_eq]
    exact hwords.isAllBlank_join (normalWords_ne_nil insets lengths colors)
  · rw [ofPiece?_eq_ok_iff, hread]
    exact hmade.isWrittenIn_normalWords hdivided

theorem IsWrittenIn.isClosed (hpart : IsClosed .words part)
    (h : layer.IsWrittenIn (wordsOf part)) : IsClosed .words layer.toText := by
  rcases h with ⟨insets, lengths, colors, hdivided, hmade⟩
  rcases isDividedInto_iff.mp hdivided with ⟨-, hlengths, hcolors⟩
  have hwords : ∀ w ∈ wordsOf part, IsClosed .words w := fun w hw =>
    isClosed_of_mem_texts isUnmarked_words (isClosed_strip_iff.mpr hpart) hw
  rw [hmade.toText_eq]
  refine isClosed_join (by decide) (forall_mem_normalWords rfl rfl rfl ?_ ?_)
  · rw [hlengths]
    exact fun w hw => hwords w (List.mem_of_mem_filter hw)
  · rw [hcolors]
    exact fun w hw => hwords w (List.mem_of_mem_filter hw)

end Part

/-!
## The layers of a shadow
-/

theorem ofText?_eq_mapM {value : Text} (h : texts .commas value ≠ []) :
    ofText? value = (texts .commas value).mapM ofPiece? := by
  unfold ofText?
  split
  · rename_i hnone
    exact absurd hnone h
  · rfl

theorem ofText?_eq_ok_iff {value : Text} {layers : List ShadowLayer} :
    ofText? value = .ok layers ↔ texts .commas value ≠ [] ∧
      List.Forall₂ (fun part layer => layer.IsWrittenIn (wordsOf part)) (texts .commas value)
        layers := by
  simp only [← ofPiece?_eq_ok_iff]
  rw [← Except.mapM_eq_ok_iff]
  by_cases hparts : texts .commas value = []
  · rw [ofText?, hparts]
    exact iff_of_false nofun fun h => h.1 rfl
  · rw [ofText?_eq_mapM hparts]
    exact (and_iff_right hparts).symm

theorem exists_ofText?_error_iff {value : Text} :
    (∃ fault, ofText? value = .error fault) ↔ texts .commas value = [] ∨
      ∃ part ∈ texts .commas value, lengthCount part < 2 ∨ 4 < lengthCount part := by
  simp only [← exists_ofPiece?_error_iff]
  rw [← Except.exists_mapM_error_iff]
  by_cases hparts : texts .commas value = []
  · rw [ofText?, hparts]
    exact iff_of_true ⟨_, rfl⟩ (.inl rfl)
  · rw [ofText?_eq_mapM hparts]
    exact (or_iff_right hparts).symm

def written (layers : List ShadowLayer) : Text :=
  Text.join ", ".toList (layers.map toText)

theorem areNormalized {parts : List Text} {layers : List ShadowLayer}
    (huncut : ∀ part ∈ parts, IsUncut .commas part)
    (hclosed : parts.Pairwise fun part _ => IsClosed .commas part)
    (h : List.Forall₂ (fun part layer => layer.IsWrittenIn (wordsOf part)) parts layers) :
    (∀ layer ∈ layers, layer.IsNormalized) ∧
      layers.Pairwise fun layer _ => IsClosed .words layer.toText := by
  induction h with
  | nil => exact ⟨nofun, .nil⟩
  | @cons part layer parts layers hwritten hrest ih =>
      rw [List.forall_mem_cons] at huncut
      rcases ih huncut.2 hclosed.of_cons with ⟨hnormalized, hpairwise⟩
      refine ⟨List.forall_mem_cons.mpr ⟨hwritten.isNormalized huncut.1, hnormalized⟩,
        .cons (fun layer' hlayer' => ?_) hpairwise⟩
      have hparts : parts ≠ [] := by
        rintro rfl
        cases hrest
        cases hlayer'
      exact hwritten.isClosed (isClosed_commas_iff.mp (isClosed_of_pairwise hparts hclosed))

theorem strip_space (t : Text) : Text.strip (' ' :: t) = Text.strip t :=
  rfl

theorem texts_written {layer : ShadowLayer} {layers : List ShadowLayer}
    (hnormalized : ∀ l ∈ layer :: layers, l.IsNormalized)
    (hclosed : (layer :: layers).Pairwise fun l _ => IsClosed .words l.toText) :
    texts .commas (written (layer :: layers)) =
      layer.toText :: layers.map fun l => ' ' :: l.toText := by
  have hglue : ", ".toList = [','] ++ [' '] := rfl
  rw [List.forall_mem_cons] at hnormalized
  rw [List.pairwise_cons] at hclosed
  rw [written, hglue, List.map_cons, Text.join_append, List.map_map]
  refine texts_join isUnmarked_commas rfl ?_ ?_ ?_
  · refine List.forall_mem_cons.mpr ⟨hnormalized.1.joint, List.forall_mem_map.mpr fun l hl => ?_⟩
    have hjoint := isUncut_commas_strip_iff.mpr (hnormalized.2 l hl).joint
    rw [← strip_space] at hjoint
    exact isUncut_commas_strip_iff.mp hjoint
  · refine List.forall_mem_cons.mpr ⟨hnormalized.1.kept, List.forall_mem_map.mpr fun l hl => ?_⟩
    exact (hnormalized.2 l hl).kept
  · refine .cons ?_ (List.pairwise_map.mpr (hclosed.2.imp fun hl => ?_))
    · rw [List.forall_mem_map]
      exact fun l hl => isClosed_commas_iff.mpr (hclosed.1 l hl)
    · have hstrip := isClosed_strip_iff.mpr hl
      rw [← strip_space] at hstrip
      exact isClosed_commas_iff.mpr (isClosed_strip_iff.mp hstrip)

theorem ofText?_written {value : Text} {layers : List ShadowLayer}
    (h : ofText? value = .ok layers) : ofText? (written layers) = .ok layers := by
  rcases ofText?_eq_ok_iff.mp h with ⟨hparts, hwritten⟩
  rcases areNormalized (fun part hpart => isUncut_of_mem_texts isUnmarked_commas hpart)
    (pairwise_texts isUnmarked_commas) hwritten with ⟨hnormalized, hclosed⟩
  cases layers with
  | nil => exact absurd (List.forall₂_nil_right_iff.mp hwritten) hparts
  | cons layer layers =>
      have hread := texts_written hnormalized hclosed
      rw [ofText?_eq_mapM (by rw [hread]; exact List.cons_ne_nil _ _), hread]
      rw [List.forall_mem_cons] at hnormalized
      refine Except.mapM_eq_ok_iff.mpr (.cons hnormalized.1.read ?_)
      refine List.forall₂_map_left_iff.mpr (List.forall₂_same.mpr fun l hl => ?_)
      rw [ofPiece?_congr (strip_space l.toText)]
      exact (hnormalized.2 l hl).read

/--
A shadow has a layer for each of its parts, in their order, which has the words of the part
by their kinds. Its normal form has the same layers. There are no layers exactly if there is
no part, or a part with less than two or more than four lengths.
-/
theorem ofText?_normalForm (value : Text) :
    (∀ layers, ofText? value = .ok layers →
      ofText? (written layers) = .ok layers ∧
        List.Forall₂ (fun part layer => layer.IsWrittenIn (wordsOf part)) (texts .commas value)
          layers) ∧
      ((∃ fault, ofText? value = .error fault) ↔ texts .commas value = [] ∨
        ∃ part ∈ texts .commas value, lengthCount part < 2 ∨ 4 < lengthCount part) :=
  ⟨fun _ h => ⟨ofText?_written h, (ofText?_eq_ok_iff.mp h).2⟩, exists_ofText?_error_iff⟩

theorem ofText?_normalForm_open :
    ∃ layers, ofText? "rgb(0, 0, 0) 0 1px INSET , 2px 3px 'a, b".toList = .ok layers ∧
      written layers = "inset 0 1px 0 0 rgb(0, 0, 0), 2px 3px 0 0 'a, b".toList ∧
      ofText? (written layers) = .ok layers := by
  have hread : ofText? "rgb(0, 0, 0) 0 1px INSET , 2px 3px 'a, b".toList = .ok
      [⟨['0'], "1px".toList, ['0'], ['0'], "rgb(0, 0, 0)".toList, true⟩,
        ⟨"2px".toList, "3px".toList, ['0'], ['0'], "'a, b".toList, false⟩] := by
    decide
  exact ⟨_, hread, by decide, ((ofText?_normalForm _).1 _ hread).1⟩

end ShadowLayer
end DesignTokens
