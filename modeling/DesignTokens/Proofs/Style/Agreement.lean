import DesignTokens.Proofs.Text.Reader
import DesignTokens.Proofs.Token.ShadowLayer
import DesignTokens.Style.Details

/-!
# Shapes, details and layers

A value is told by its shape to be a shadow, a list of lengths or a color. The layers and
the details are read of it by other tests, which know the same values.
-/

namespace DesignTokens

open Pieces

/-!
## Letters
-/

namespace Text

theorem isFoldedLetter_of_isAlpha {c : Char} (h : c.isAlpha = true) : isFoldedLetter c = true := by
  have hascii : ∀ n < 128, (Char.ofNat n).isAlpha = true →
      isFoldedLetter (Char.ofNat n) = true := by
    decide
  have hlt : c.toNat < 128 := by
    unfold Char.isAlpha Char.isUpper Char.isLower at h
    simp only [Bool.or_eq_true, Bool.and_eq_true, decide_eq_true_eq, UInt32.le_iff_toNat_le] at h
    rcases h with ⟨-, h⟩ | ⟨-, h⟩
    · exact Nat.lt_of_le_of_lt h (by decide)
    · exact Nat.lt_of_le_of_lt h (by decide)
  have hc := hascii c.toNat hlt
  rw [Char.ofNat_toNat] at hc
  exact hc h

theorem small_of_isBlank {c : Char} (h : isBlank c = true) : small c = c := by
  have hkelvin : c ≠ '\u212a' := by
    rintro rfl
    exact absurd h (by decide)
  have hcapital : ¬ (c.val ≥ 'A'.val ∧ c.val ≤ 'Z'.val) := by
    rintro ⟨hleast, hmost⟩
    have hgraphic := isBlank_of_graphic (c := c)
      ⟨Nat.le_trans (by decide) hleast, Nat.le_trans hmost (by decide)⟩
    exact Bool.false_ne_true (hgraphic.symm.trans h)
  exact (if_neg hkelvin).trans (dif_neg hcapital)

theorem isBlank_of_mem_lower {t : Text} (h : ∀ c ∈ lower t, isBlank c = false) :
    ∀ c ∈ t, isBlank c = false := by
  intro c hc
  by_contra hblank
  rw [Bool.not_eq_false] at hblank
  have hsmall := h (small c) (List.mem_map_of_mem hc)
  rw [small_of_isBlank hblank] at hsmall
  exact Bool.false_ne_true (hsmall.symm.trans hblank)

theorem fold_of_isDecimal {c : Char} (h : isDecimal c = true) : fold c = c :=
  of_isDecimal (P := fun c => fold c = c) (by decide +kernel) h

/-- Apart from the long s and from the letter i, folding makes small letters. -/
theorem small_eq_fold {c : Char} (hlong : c ≠ '\u017f') (hi : fold c ≠ 'i') :
    small c = fold c := by
  unfold fold at hi ⊢
  rw [if_neg hlong] at hi ⊢
  split at hi
  · exact absurd rfl hi
  · rw [if_neg ‹_›]

theorem lower_eq_map_fold {name : Text} (hlong : '\u017f' ∉ name) (hi : 'i' ∉ name.map fold) :
    lower name = name.map fold := by
  refine List.map_congr_left fun c hc => small_eq_fold ?_ ?_
  · rintro rfl
    exact hlong hc
  · intro hfold
    rw [← hfold] at hi
    exact hi (List.mem_map_of_mem hc)

theorem lower_append (t u : Text) : lower (t ++ u) = lower t ++ lower u :=
  List.map_append

theorem takes_afterFolded? (lead : Text) :
    Reader.Takes (fun x => x.map fold = lead) (afterFolded? lead) := by
  induction lead with
  | nil =>
      intro t rest h
      rw [afterFolded?] at h
      cases h
      exact ⟨[], rfl, rfl⟩
  | cons p lead ih =>
      intro t rest h
      cases t with
      | nil => cases h
      | cons c t =>
          rw [afterFolded?] at h
          split at h
          · rename_i hfold
            rcases ih t rest h with ⟨taken, rfl, htaken⟩
            exact ⟨c :: taken, rfl, congrArg₂ List.cons hfold.symm htaken⟩
          · cases h

end Text

/-!
## Colors
-/

namespace ColorFormat

def leads : List Text :=
  ["oklch(".toList, ['#'], "rgb(".toList, "rgba(".toList, "hsl(".toList, "hsla(".toList]

theorem exists_ofText? {t lead : Text} (hlead : lead ∈ leads)
    (h : lead <+: Text.lower (t.filter fun c => !Text.isBlank c)) :
    ∃ format, ofText? t = some format := by
  have hstarts : Text.startsWith lead (Text.lower (t.filter fun c => !Text.isBlank c)) = true := by
    rcases h with ⟨rest, hrest⟩
    rw [Text.startsWith, Text.after?_eq_some_iff.mpr hrest.symm]
    rfl
  unfold ofText?
  simp only
  split_ifs with hoklch hhex hrgb hhsl
  · exact ⟨_, rfl⟩
  · exact ⟨_, rfl⟩
  · exact ⟨_, rfl⟩
  · exact ⟨_, rfl⟩
  · rw [Bool.or_eq_true, not_or] at hrgb hhsl
    simp only [leads, List.mem_cons, List.not_mem_nil, or_false] at hlead
    rcases hlead with rfl | rfl | rfl | rfl | rfl | rfl
    · exact absurd hstarts hoklch
    · exact absurd hstarts hhex
    · exact absurd hstarts hrgb.1
    · exact absurd hstarts hrgb.2
    · exact absurd hstarts hhsl.1
    · exact absurd hstarts hhsl.2

end ColorFormat

namespace Color

theorem takes_functionShape (name : Text) :
    Reader.Takes (fun x => ∃ written blanks rest, x = written ++ (blanks ++ '(' :: rest) ∧
      written.map Text.fold = name ∧ ∀ c ∈ blanks, Text.isBlank c = true) (functionShape name) := by
  refine Reader.Takes.mono (Reader.takes_sequence (Text.takes_afterFolded? name)
    (Reader.takes_sequence (Reader.takes_many Text.isBlank)
      (Reader.takes_sequence (Reader.takes_exactly ['(']) (Reader.takes_sequence
        (Reader.takes_many _) (Reader.takes_single (Reader.takes_exactly [')'])))))) ?_
  rintro _ ⟨written, _, rfl, hwritten, blanks, _, rfl, hblanks, _, rest, rfl, rfl, -⟩
  exact ⟨written, blanks, rest, rfl, hwritten, hblanks⟩

theorem plain_of_mem_functionNames {name : Text} (h : name ∈ functionNames) :
    name ++ ['('] ∈ ColorFormat.leads ∧ 'i' ∉ name ∧ ∀ c ∈ name, Text.isBlank c = false := by
  simp only [functionNames, List.mem_cons, List.not_mem_nil, or_false] at h
  rcases h with rfl | rfl | rfl | rfl | rfl <;>
    exact ⟨by decide, by decide, List.all_iff_forall_prop.mp (by decide)⟩

theorem exists_hash_of_isHexLiteral {t : Text} (h : isHexLiteral t = true) :
    ∃ ds, t = '#' :: ds := by
  unfold isHexLiteral at h
  split at h
  · exact ⟨_, rfl⟩
  · cases h

/-- A color has a format, unless its name is written with the long s. -/
theorem exists_ofText?_of_isShape {t : Text} (h : isShape t = true) (hlong : '\u017f' ∉ t) :
    ∃ format, ColorFormat.ofText? t = some format := by
  unfold isShape at h
  rw [Bool.or_eq_true] at h
  rcases h with hhex | hfunction
  · rcases exists_hash_of_isHexLiteral hhex with ⟨ds, hds⟩
    refine ColorFormat.exists_ofText? (List.mem_cons_of_mem _ List.mem_cons_self) ?_
    rw [← Text.filter_strip, hds]
    exact ⟨_, rfl⟩
  · rcases List.any_eq_true.mp hfunction with ⟨name, hname, haccepts⟩
    rcases plain_of_mem_functionNames hname with ⟨hlead, hi, hplain⟩
    rcases takes_functionShape name _ _ (of_decide_eq_true haccepts) with
      ⟨_, ht, written, blanks, rest, rfl, hwritten, hblanks⟩
    rw [List.append_nil] at ht
    have hlower : Text.lower written = name := by
      rw [← hwritten] at hi ⊢
      refine Text.lower_eq_map_fold (fun hmem => hlong ?_) hi
      apply Text.mem_of_mem_strip
      rw [ht]
      exact List.mem_append_left _ hmem
    have hkept : ∀ c ∈ written, Text.isBlank c = false := by
      rw [← hlower] at hplain
      exact Text.isBlank_of_mem_lower hplain
    have hfilter : (written ++ (blanks ++ '(' :: rest)).filter (fun c => !Text.isBlank c) =
        written ++ '(' :: rest.filter fun c => !Text.isBlank c := by
      rw [List.filter_append, List.filter_append,
        List.filter_eq_self.mpr fun c hc => by rw [hkept c hc]; rfl,
        List.filter_eq_nil_iff.mpr fun c hc => by rw [hblanks c hc]; decide]
      rfl
    refine ColorFormat.exists_ofText? hlead ⟨Text.lower (rest.filter fun c => !Text.isBlank c), ?_⟩
    rw [← Text.filter_strip t, ht, hfilter, Text.lower_append, hlower, List.append_assoc]
    rfl

def beginsColor (c : Char) : Bool :=
  "#rho".toList.contains (Text.fold c)

theorem exists_head_of_isShape {t : Text} (h : isShape t = true) :
    ∃ c u, Text.strip t = c :: u ∧ beginsColor c = true := by
  unfold isShape at h
  rw [Bool.or_eq_true] at h
  rcases h with hhex | hfunction
  · rcases exists_hash_of_isHexLiteral hhex with ⟨ds, hds⟩
    exact ⟨'#', ds, hds, by decide⟩
  · rcases List.any_eq_true.mp hfunction with ⟨name, hname, haccepts⟩
    rcases takes_functionShape name _ _ (of_decide_eq_true haccepts) with
      ⟨_, ht, written, blanks, rest, rfl, hwritten, -⟩
    have hhead : ∀ name ∈ functionNames, name.head?.any ("#rho".toList.contains ·) = true := by
      decide
    have hfirst := hhead name hname
    rw [← hwritten] at hfirst
    cases written with
    | nil => cases hfirst
    | cons c written => exact ⟨c, _, ht, hfirst⟩

end Color

/-!
## Lengths
-/

namespace Shape

theorem isUnitChar_of_unit? {t : Text} {unit : Option Text} (h : unit? t = some unit) :
    ∀ c ∈ t, ShadowLayer.isUnitChar c = true := by
  by_cases hnone : t = []
  · rw [hnone]
    exact List.forall_mem_nil _
  · by_cases hpercent : t = ['%']
    · rw [hpercent]
      exact List.forall_mem_singleton.mpr (by decide)
    · rw [unit?.eq_3 t hnone hpercent, Option.ite_none_right_eq_some] at h
      intro c hc
      rw [ShadowLayer.isUnitChar,
        Text.isFoldedLetter_of_isAlpha (List.all_eq_true.mp h.1 c hc), Bool.true_or]

theorem exists_parts_of_isLength {t : Text} (h : isLength t = true) :
    ∃ digits unit x, lengthParts? (Text.strip t) = some (digits, unit) ∧
      Numeral.float? digits = some x ∧ (unit = none → (x == 0) = true) := by
  unfold isLength at h
  cases hparts : lengthParts? (Text.strip t) with
  | none =>
      rw [hparts] at h
      cases h
  | some parts =>
      rcases parts with ⟨digits, unit⟩
      rcases exists_float?_of_lengthParts? hparts with ⟨x, hx⟩
      refine ⟨digits, unit, x, rfl, hx, ?_⟩
      rintro rfl
      rw [hparts] at h
      simp only [hx] at h
      exact h

theorem isLengthWord_of_isLength {w : Text} (hw : Text.strip w = w) (h : isLength w = true) :
    ShadowLayer.isLengthWord w = true := by
  rcases exists_parts_of_isLength h with ⟨digits, unit, x, hparts, -, -⟩
  rw [hw] at hparts
  rcases lengthParts?_eq_some hparts with ⟨magnitude, rest, hmagnitude, hunit, -⟩
  unfold ShadowLayer.isLengthWord
  rw [hmagnitude]
  exact List.all_eq_true.mpr (isUnitChar_of_unit? hunit)

theorem strip_of_mem_words {t w : Text} (h : w ∈ Text.words t) : Text.strip w = w :=
  Text.strip_eq_self (Text.separates_of_mem_segments (List.mem_of_mem_filter h))

theorem exists_lengthKind_of_isLengthList {most : Nat} {t : Text}
    (h : isLengthList most t = true) :
    ∃ x unit, Details.lengthKind t = .length (some x) unit ∧ (unit = none → (x == 0) = true) := by
  unfold isLengthList at h
  simp only [Bool.and_eq_true, decide_eq_true_eq] at h
  unfold Details.lengthKind
  cases hwords : Text.words t with
  | nil =>
      rw [hwords] at h
      exact absurd h.1.1 (Nat.lt_irrefl 0)
  | cons first rest =>
      have hmem : first ∈ Text.words t := hwords ▸ List.mem_cons_self
      rcases exists_parts_of_isLength (List.all_eq_true.mp h.2 first hmem) with
        ⟨digits, unit, x, hparts, hx, hzero⟩
      rw [strip_of_mem_words hmem] at hparts
      refine ⟨x, unit, ?_, hzero⟩
      rw [List.headD_cons, hparts, ← hx]

end Shape

/-!
## Shadows
-/

namespace ShadowLayer

theorem exists_head_of_isLengthWord {w : Text} (h : isLengthWord w = true) :
    ∃ c u, w = c :: u ∧ (Text.isNumeric c = true ∨ c = '-') := by
  rcases exists_of_isLengthWord h with ⟨magnitude, unit, hw, hform, -⟩
  rcases hw with rfl | rfl
  · cases magnitude with
    | nil => cases hform.digit
    | cons c magnitude =>
        exact ⟨c, magnitude ++ unit, rfl, .inl (hform.numeric c List.mem_cons_self)⟩
  · exact ⟨'-', _, rfl, .inr rfl⟩

theorem beginsColor_of_isNumeric {c : Char} (h : Text.isNumeric c = true) :
    Color.beginsColor c = false := by
  have hletters : ∀ d ∈ "#rho".toList, Text.isNumeric d = false :=
    List.all_iff_forall_prop.mp (by decide)
  have hfold : Text.fold c = c := by
    rcases Bool.or_eq_true_iff.mp h with hdigit | hpoint
    · exact Text.fold_of_isDecimal hdigit
    · rw [of_decide_eq_true hpoint]
      decide
  unfold Color.beginsColor
  rw [hfold]
  by_contra hmem
  rw [Bool.not_eq_false, List.contains_iff_mem] at hmem
  exact Bool.false_ne_true ((hletters c hmem).symm.trans h)

theorem isLengthWord_of_isShape {w : Text} (hw : Text.strip w = w)
    (h : Color.isShape w = true) : isLengthWord w = false := by
  by_contra hlength
  rw [Bool.not_eq_false] at hlength
  rcases Color.exists_head_of_isShape h with ⟨c, u, hcolor, hbegins⟩
  rcases exists_head_of_isLengthWord hlength with ⟨d, v, rfl, hd⟩
  rw [hw] at hcolor
  cases hcolor
  have hnot : Color.beginsColor c = false := by
    rcases hd with hnumeric | rfl
    · exact beginsColor_of_isNumeric hnumeric
    · decide
  exact Bool.false_ne_true (hnot.symm.trans hbegins)

theorem isInset_of_not_isClosed {w : Text} (h : ¬ IsClosed .words w) :
    Shape.isInset w = false := by
  by_contra hinset
  rw [Bool.not_eq_false] at hinset
  exact h (isClosed_of_isInset hinset)

theorem isInset_strip {w : Text} (h : IsUncut .words w) :
    Shape.isInset (Text.strip w) = Shape.isInset w := by
  by_cases hclosed : IsClosed .words w
  · rw [Text.strip_of_ends (isBlank_of_head? h) (isBlank_of_getLast? h hclosed)]
  · rw [isInset_of_not_isClosed hclosed,
      isInset_of_not_isClosed (fun hstrip => hclosed (isClosed_strip_iff.mp hstrip))]

theorem any_isInset_wordsOf {part : Text} (h : IsUncut .commas part) :
    (wordsOf part).any Shape.isInset = (texts .words part).any Shape.isInset := by
  rw [wordsOf, ← map_strip_texts h, List.any_map, Bool.eq_iff_iff, List.any_eq_true,
    List.any_eq_true]
  refine exists_congr fun w => and_congr_right fun hw => ?_
  rw [Function.comp_apply, isInset_strip (isUncut_of_mem_texts isUnmarked_words hw)]

/-- Apart from the word inset, a layer by its shape is lengths and a color. -/
theorem exists_words_of_isShadowLayer {part : Text}
    (hplain : Shape.dropShadowBody? (Text.strip part) = none)
    (h : Shape.isShadowLayer part = true) :
    ∃ lengths color, ((wordsOf part).filter fun w => !Shape.isInset w) = lengths ++ [color] ∧
      Color.isShape color = true ∧ 2 ≤ lengths.length ∧ lengths.length ≤ 4 ∧
        ∀ w ∈ lengths, Shape.isLength w = true := by
  have hunwrapped : Shape.unwrappedLayer part = Text.strip part := by
    unfold Shape.unwrappedLayer
    simp only [hplain]
  unfold Shape.isShadowLayer at h
  rw [hunwrapped] at h
  simp only at h
  split at h
  · cases h
  · rename_i color hcolor
    simp only [Bool.and_eq_true, decide_eq_true_eq] at h
    rcases h with ⟨⟨⟨hshape, hleast⟩, hmost⟩, hlengths⟩
    exact ⟨_, color, (List.dropLast_append_getLast? color hcolor).symm, hshape, hleast, hmost,
      List.all_eq_true.mp hlengths⟩

theorem exists_layer_of_isShadowLayer {part : Text} (hpart : IsUncut .commas part)
    (hplain : Shape.dropShadowBody? (Text.strip part) = none)
    (h : Shape.isShadowLayer part = true) :
    ∃ layer, ofPiece? part = .ok layer ∧ Color.isShape layer.color = true ∧
      layer.inset = (texts .words part).any Shape.isInset := by
  rcases exists_words_of_isShadowLayer hplain h with
    ⟨lengths, color, hwords, hshape, hleast, hmost, hlengths⟩
  have hstrip : ∀ w ∈ lengths ++ [color], Text.strip w = w := by
    intro w hw
    rw [← hwords] at hw
    exact ((areWords_texts hpart).isWord w (List.mem_of_mem_filter hw)).strip_eq
  rw [List.forall_mem_append, List.forall_mem_singleton] at hstrip
  have hlength : ∀ w ∈ lengths, isLengthWord w = true :=
    fun w hw => Shape.isLengthWord_of_isLength (hstrip.1 w hw) (hlengths w hw)
  have hcolor : isLengthWord color = false := isLengthWord_of_isShape hstrip.2 hshape
  have hlengthWords : (wordsOf part).filter isLengthWord = lengths := by
    rw [← filter_isLengthWord, hwords, List.filter_append, List.filter_eq_self.mpr hlength,
      List.filter_singleton, hcolor]
    exact List.append_nil lengths
  have hcolorWords : (wordsOf part).filter isColorWord = [color] := by
    rw [← filter_isColorWord, hwords, List.filter_append, List.filter_singleton, hcolor,
      List.filter_eq_nil_iff.mpr fun w hw => by rw [hlength w hw]; decide]
    rfl
  rw [← hlengthWords] at hleast hmost
  rcases exists_ofPiece?_eq hleast hmost with ⟨layer, hlayer, hmade⟩
  refine ⟨layer, hlayer, ?_, ?_⟩
  · rw [hmade.color_eq, hcolorWords]
    exact hshape
  · rw [hmade.inset_eq, ← any_isInset, any_isInset_wordsOf hpart]

theorem forall₂_any {parts : List Text} {layers : List ShadowLayer}
    (h : List.Forall₂ (fun part layer => layer.inset = (texts .words part).any Shape.isInset)
      parts layers) :
    (parts.any fun part => (texts .words part).any Shape.isInset) = layers.any (·.inset) := by
  induction h with
  | nil => rfl
  | cons hlayer _ ih => rw [List.any_cons, List.any_cons, ih, hlayer]

/-- A shadow by its shape is read, and its details are those of the layers. -/
theorem exists_layers_of_isShadow {value : Text} (h : Shape.isShadow value = true)
    (hplain : ∀ part ∈ texts .commas value, Shape.dropShadowBody? (Text.strip part) = none) :
    ∃ layers, ofText? value = .ok layers ∧ (∀ layer ∈ layers, Color.isShape layer.color = true) ∧
      Details.shadowKind value = .shadow layers.length (layers.any (·.inset)) := by
  unfold Shape.isShadow at h
  simp only [Bool.and_eq_true, Bool.not_eq_true', List.isEmpty_eq_false_iff] at h
  have hparts : ∀ part ∈ texts .commas value, ∃ layer, ofPiece? part = .ok layer ∧
      Color.isShape layer.color = true ∧
        layer.inset = (texts .words part).any Shape.isInset :=
    fun part hpart => exists_layer_of_isShadowLayer
      (isUncut_of_mem_texts isUnmarked_commas hpart) (hplain part hpart)
      (List.all_eq_true.mp h.2 part hpart)
  rcases Except.exists_mapM (P := fun layer => Color.isShape layer.color = true)
    (fun part hpart => (hparts part hpart).imp fun _ hlayer => ⟨hlayer.1, hlayer.2.1⟩) with
    ⟨layers, hlayers, hlength, hshapes⟩
  have hinsets : List.Forall₂ (fun part layer => layer.inset =
      (texts .words part).any Shape.isInset) (texts .commas value) layers := by
    refine ((List.forall₂_and_left _ _).mpr ⟨hparts, Except.mapM_eq_ok_iff.mp hlayers⟩).imp ?_
    rintro part layer ⟨⟨layer', hlayer', -, hinset⟩, hlayer⟩
    rw [hlayer'] at hlayer
    cases hlayer
    exact hinset
  refine ⟨layers, (ofText?_eq_mapM h.1).trans hlayers, hshapes, ?_⟩
  rw [← forall₂_any hinsets, hlength]
  rfl

end ShadowLayer

namespace Details

/--
What is told by its shape to be a shadow, without calls of `drop-shadow`, is read as layers
with colors, and its details are those of the layers. A list of lengths has a magnitude in
its details, and a unit unless that is zero. A color has a format, unless its name is written
with the long s.
-/
theorem describe_of_shape (value : Text) (dynamic : Bool) :
    (Shape.isShadow value = true →
      (∀ part ∈ texts .commas value, Shape.dropShadowBody? (Text.strip part) = none) →
      ∃ layers, ShadowLayer.ofText? value = .ok layers ∧
        (∀ layer ∈ layers, Color.isShape layer.color = true) ∧
        describe .shadow value dynamic =
          ⟨.shadow layers.length (layers.any (·.inset)), dynamic⟩) ∧
      (∀ most, Shape.isLengthList most value = true →
        ∃ magnitude unit,
          describe .spacing value dynamic = ⟨.length (some magnitude) unit, dynamic⟩ ∧
            (unit = none → (magnitude == 0) = true)) ∧
      (Color.isShape value = true → '\u017f' ∉ value →
        ∃ format, describe .color value dynamic = ⟨.color (some format), dynamic⟩) := by
  refine ⟨fun hshadow hplain => ?_, fun most hlengths => ?_, fun hcolor hlong => ?_⟩
  · rcases ShadowLayer.exists_layers_of_isShadow hshadow hplain with
      ⟨layers, hlayers, hshapes, hkind⟩
    exact ⟨layers, hlayers, hshapes, by rw [← hkind]; rfl⟩
  · rcases Shape.exists_lengthKind_of_isLengthList hlengths with ⟨x, unit, hkind, hzero⟩
    exact ⟨x, unit, by rw [← hkind]; rfl, hzero⟩
  · rcases Color.exists_ofText?_of_isShape hcolor hlong with ⟨format, hformat⟩
    exact ⟨format, by rw [← hformat]; rfl⟩

theorem describe_of_shape_instances :
    (∃ layers, ShadowLayer.ofText? "inset 1px 2px #000, 1px 2px 3px RGB(0, 0, 0)".toList =
        .ok layers ∧
      (∀ layer ∈ layers, Color.isShape layer.color = true) ∧
        describe .shadow "inset 1px 2px #000, 1px 2px 3px RGB(0, 0, 0)".toList false =
          ⟨.shadow layers.length (layers.any (·.inset)), false⟩) ∧
      (∃ magnitude unit,
        describe .spacing "1.5rem 2px".toList true = ⟨.length (some magnitude) unit, true⟩ ∧
          (unit = none → (magnitude == 0) = true)) ∧
      ∃ format, describe .color "O\u212aLCH (1 2 3)".toList false =
        ⟨.color (some format), false⟩ :=
  ⟨(describe_of_shape _ false).1 (by decide +kernel) (by decide +kernel),
    (describe_of_shape _ true).2.1 2 (by decide +kernel),
    (describe_of_shape _ false).2.2 (by decide +kernel) (by decide +kernel)⟩

end Details

end DesignTokens
