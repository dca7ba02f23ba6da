import DesignTokens.Proofs.Text.Partition
import Mathlib.Data.List.Pairwise

/-!
# Words in parts of a text

A text is cut at commas into parts, and a part at blanks into words. Both scans go through
the same states, so that a word of a part holds no cut of either kind. Only the last word
of the last part can leave a bracket or a quote open. So words that are joined by blanks,
and parts that are joined by commas, are found again as they were.
-/

namespace DesignTokens
namespace Pieces

theorem isUnmarked_words : Rule.words.separator.IsUnmarked :=
  isUnmarked_of_usual (.inl rfl)

theorem isUnmarked_commas : Rule.commas.separator.IsUnmarked :=
  isUnmarked_of_usual (.inr rfl)

/-!
## Blanks behind a text
-/

def Place.IsCommentless : Place → Prop
  | .plain => True
  | .quoted quote => isQuote quote = true
  | .escaped quote => isQuote quote = true
  | _ => False

section Behind

variable {rule : Rule} {s : State} {before : Option Char} {offset : Nat} {c : Char} {t : Text}

theorem isCommentless_step (hrule : rule.comments = false) (hs : s.place.IsCommentless)
    (next : Option Char) : (step rule s before c next).1.place.IsCommentless := by
  rcases s with ⟨place, depth⟩
  cases place with
  | plain =>
      simp only [step, hrule, Bool.false_eq_true, if_false, stepPlain]
      split_ifs with hquote
      · exact hquote
      all_goals trivial
  | quoted quote =>
      simp only [step]
      split_ifs
      · exact hs
      · trivial
      · exact hs
  | escaped quote => exact hs
  | _ => exact hs.elim

theorem not_mem_marks_of_isBlank (hc : Text.isBlank c = true) : c ∉ marks :=
  isUnmarked_words.not_mem hc

theorem step_blank_eq_top_iff (hrule : rule.comments = false) (hs : s.place.IsCommentless)
    (hc : Text.isBlank c = true) (next : Option Char) :
    (step rule s before c next).1 = .top ↔ s = .top := by
  have hmarks := not_mem_marks_of_isBlank hc
  rcases s with ⟨place, depth⟩
  cases place with
  | plain =>
      simp only [marks, List.mem_cons, List.not_mem_nil, or_false, not_or] at hmarks
      simp [step, hrule, stepPlain, isQuote, isOpener, isCloser, hmarks]
  | quoted quote =>
      have hquote : c ≠ quote := by
        rintro rfl
        rw [Scan.isBlank_of_isQuote hs] at hc
        cases hc
      simp only [step, hquote, if_false]
      split_ifs <;> simp [State.top]
  | escaped quote => simp [step, State.top]
  | _ => exact hs.elim

theorem finish_concat_eq_top_iff (hrule : rule.comments = false) (hs : s.place.IsCommentless)
    (hc : Text.isBlank c = true) :
    finish rule s before (t ++ [c]) = .top ↔ finish rule s before t = .top := by
  induction t generalizing s before with
  | nil => exact step_blank_eq_top_iff hrule hs hc _
  | cons d t ih =>
      rw [List.cons_append, finish, finish, step_head?_append t [] (not_mem_marks_of_isBlank hc)]
      exact ih (isCommentless_step hrule hs _)

theorem cuts_concat_of_open (hrule : rule.comments = false) (hs : s.place.IsCommentless)
    (hc : Text.isBlank c = true) (hopen : finish rule s before t ≠ .top) :
    cuts rule s before offset (t ++ [c]) = cuts rule s before offset t := by
  induction t generalizing s before offset with
  | nil =>
      rcases hstep : step rule s before c none with ⟨s', cut⟩
      cases cut with
      | false => exact cuts_cons hstep
      | true => exact absurd (step_cut hstep).1 hopen
  | cons d t ih =>
      rw [finish] at hopen
      rw [List.cons_append, cuts_eq, cuts_eq, step_head?_append t [] (not_mem_marks_of_isBlank hc),
        ih (isCommentless_step hrule hs _) hopen]

end Behind

theorem isClosed_concat_iff {t : Text} {c : Char} (hc : Text.isBlank c = true) :
    IsClosed .words (t ++ [c]) ↔ IsClosed .words t :=
  finish_concat_eq_top_iff rfl trivial hc

/-- A separator of another kind behind a text makes no difference to its pieces. -/
theorem isUncut_concat_iff {rule : Rule} {t : Text} {c : Char} (hrule : rule.comments = false)
    (hc : Text.isBlank c = true) (hholds : rule.separator.holds c = false) :
    IsUncut rule (t ++ [c]) ↔ IsUncut rule t := by
  by_cases hclosed : IsClosed rule t
  · rw [isUncut_append_iff (not_mem_marks_of_isBlank hc) hclosed]
    exact ⟨fun h => h.1, fun h => ⟨h, hholds, rfl⟩⟩
  · have hplain : State.top.place.IsCommentless := trivial
    unfold IsUncut
    rw [cuts_concat_of_open hrule hplain hc hclosed]

/-!
## Two scans of a text
-/

theorem finish_congr {rule rule' : Rule} (hcomments : rule'.comments = rule.comments)
    {s : State} {before : Option Char} {t : Text} :
    finish rule' s before t = finish rule s before t := by
  induction t generalizing s before with
  | nil => rfl
  | cons c t ih => rw [finish, finish, step_fst hcomments, ih]

theorem finish_of_not_mem {rule : Rule} {before : Option Char} {t : Text}
    (h : ∀ c ∈ t, c ∉ marks) : finish rule .top before t = .top := by
  induction t generalizing before with
  | nil => rfl
  | cons c t ih =>
      rw [List.forall_mem_cons] at h
      rw [finish, step_top _ h.1]
      exact ih h.2

theorem isClosed_of_forall {rule : Rule} {t : Text} {p : Char → Bool}
    (hmarks : marks.any p = false) (h : ∀ c ∈ t, p c = true) : IsClosed rule t :=
  finish_of_not_mem fun c hc hmark => List.any_eq_false.mp hmarks c hmark (h c hc)

/-- Whether a text leaves something open does not depend on what separates. -/
theorem isClosed_commas_iff {t : Text} : IsClosed .commas t ↔ IsClosed .words t := by
  have hcomments : Rule.commas.comments = Rule.words.comments := rfl
  unfold IsClosed
  rw [finish_congr hcomments]

section Scans

variable {rule : Rule} {t : Text} {pieces : List Text} (hrule : rule.separator.IsUnmarked)

include hrule

theorem IsCutInto.between_eq (h : IsCutInto rule t pieces) :
    between rule .top none t = pieces := by
  induction h with
  | whole h => exact h.between_eq hrule
  | cut huncut hclosed hc _ ih =>
      rw [between_append (hrule.not_mem hc) hc hclosed, huncut.between_eq hrule, ih,
        List.singleton_append]

omit hrule in
/-- Only the last piece can leave something open. -/
theorem IsCutInto.pairwise (h : IsCutInto rule t pieces) :
    pieces.Pairwise fun piece _ => IsClosed rule piece := by
  induction h with
  | whole _ => exact List.pairwise_singleton _ _
  | cut _ hclosed _ _ ih => exact .cons (fun _ _ => hclosed) ih

theorem IsCutInto.isClosed (h : IsCutInto rule t pieces) (ht : IsClosed rule t) :
    ∀ piece ∈ pieces, IsClosed rule piece := by
  induction h with
  | whole _ => exact List.forall_mem_singleton.mpr ht
  | cut _ hclosed hc _ ih =>
      rw [isClosed_append_iff (hrule.not_mem hc) hclosed] at ht
      exact List.forall_mem_cons.mpr ⟨hclosed, ih ht⟩

theorem IsCutInto.isUncut_of {rule' : Rule} (hcomments : rule'.comments = rule.comments)
    (h : IsCutInto rule t pieces) (ht : IsUncut rule' t) :
    ∀ piece ∈ pieces, IsUncut rule' piece := by
  induction h with
  | whole _ => exact List.forall_mem_singleton.mpr ht
  | cut _ hclosed hc _ ih =>
      have hclosed' : IsClosed rule' _ := (finish_congr hcomments).trans hclosed
      rw [isUncut_append_iff (hrule.not_mem hc) hclosed'] at ht
      exact List.forall_mem_cons.mpr ⟨ht.1, ih ht.2.2⟩

end Scans

/-!
## Texts of pieces
-/

theorem map_placed (offset : Nat) (ps : List Text) :
    (placed offset ps).map (fun piece => piece.2) = ps := by
  induction ps generalizing offset with
  | nil => rfl
  | cons p ps ih => rw [placed, List.map_cons, ih]

theorem texts_eq_filter (rule : Rule) (t : Text) :
    texts rule t = (between rule .top none t).filter fun piece => !Text.isAllBlank piece := by
  conv => rhs; rw [← map_placed 0 (between rule .top none t), List.filter_map]
  rfl

theorem isAllBlank_of_mem_texts {rule : Rule} {t piece : Text} (h : piece ∈ texts rule t) :
    Text.isAllBlank piece = false := by
  rw [texts_eq_filter, List.mem_filter, Bool.not_eq_true'] at h
  exact h.2

section Texts

variable {rule : Rule} {t u : Text} {c : Char} (hrule : rule.separator.IsUnmarked)

include hrule

theorem texts_append (hc : rule.separator.holds c = true) (hclosed : IsClosed rule t) :
    texts rule (t ++ c :: u) = texts rule t ++ texts rule u := by
  rw [texts_eq_filter, texts_eq_filter, texts_eq_filter,
    between_append (hrule.not_mem hc) hc hclosed, List.filter_append]

theorem texts_of_isUncut (huncut : IsUncut rule t) (hkept : Text.isAllBlank t = false) :
    texts rule t = [t] := by
  rw [texts, ofText_of_isUncut hrule huncut hkept]
  rfl

theorem pairwise_texts :
    (texts rule t).Pairwise fun piece _ => IsClosed rule piece := by
  rw [texts_eq_filter]
  exact (isCutInto_between hrule t).pairwise.filter _

theorem isUncut_of_mem_texts {piece : Text} (h : piece ∈ texts rule t) : IsUncut rule piece := by
  rw [texts_eq_filter] at h
  exact (isCutInto_between hrule t).isUncut piece (List.mem_of_mem_filter h)

theorem isClosed_of_mem_texts {piece : Text} (ht : IsClosed rule t) (h : piece ∈ texts rule t) :
    IsClosed rule piece := by
  rw [texts_eq_filter] at h
  exact (isCutInto_between hrule t).isClosed hrule ht piece (List.mem_of_mem_filter h)

omit hrule in
theorem isClosed_of_pairwise {ts : List Text} (hts : ts ≠ [])
    (h : (t :: ts).Pairwise fun t _ => IsClosed rule t) : IsClosed rule t := by
  rcases List.exists_mem_of_ne_nil ts hts with ⟨u, hu⟩
  exact (List.pairwise_cons.mp h).1 u hu

theorem texts_join {ts : List Text} (hc : rule.separator.holds c = true)
    (huncut : ∀ t ∈ ts, IsUncut rule t) (hkept : ∀ t ∈ ts, Text.isAllBlank t = false)
    (hclosed : ts.Pairwise fun t _ => IsClosed rule t) : texts rule (Text.join [c] ts) = ts := by
  induction ts using Text.join.induct with
  | case1 => rfl
  | case2 t =>
      exact texts_of_isUncut hrule (huncut t List.mem_cons_self) (hkept t List.mem_cons_self)
  | case3 t ts hts ih =>
      rw [List.forall_mem_cons] at huncut hkept
      rw [Text.join_cons hts, texts_append hrule hc (isClosed_of_pairwise hts hclosed),
        texts_of_isUncut hrule huncut.1 hkept.1, ih huncut.2 hkept.2 hclosed.of_cons,
        List.singleton_append]

omit hrule

theorem isUncut_join {ts : List Text} (hmark : c ∉ marks) (hc : rule.separator.holds c = false)
    (huncut : ∀ t ∈ ts, IsUncut rule t) (hclosed : ts.Pairwise fun t _ => IsClosed rule t) :
    IsUncut rule (Text.join [c] ts) := by
  induction ts using Text.join.induct with
  | case1 => rfl
  | case2 t => exact huncut t List.mem_cons_self
  | case3 t ts hts ih =>
      rw [List.forall_mem_cons] at huncut
      rw [Text.join_cons hts, isUncut_append_iff hmark (isClosed_of_pairwise hts hclosed)]
      exact ⟨huncut.1, hc, ih huncut.2 hclosed.of_cons⟩

theorem isClosed_join {ts : List Text} (hmark : c ∉ marks) (hclosed : ∀ t ∈ ts, IsClosed rule t) :
    IsClosed rule (Text.join [c] ts) := by
  induction ts using Text.join.induct with
  | case1 => rfl
  | case2 t => exact hclosed t List.mem_cons_self
  | case3 t ts hts ih =>
      rw [List.forall_mem_cons] at hclosed
      rw [Text.join_cons hts, isClosed_append_iff hmark hclosed.1]
      exact ih hclosed.2

end Texts

/-!
## Blanks at the ends
-/

theorem isClosed_strip_iff {t : Text} : IsClosed .words (Text.strip t) ↔ IsClosed .words t :=
  Text.strip_iff
    (fun _ _ hc => isClosed_append_iff (t := []) (not_mem_marks_of_isBlank hc) rfl)
    (fun _ _ hc => isClosed_concat_iff hc) t

theorem isUncut_commas_strip_iff {t : Text} :
    IsUncut .commas (Text.strip t) ↔ IsUncut .commas t := by
  have hholds : ∀ {c : Char}, Text.isBlank c = true → Rule.commas.separator.holds c = false := by
    intro c hc
    apply decide_eq_false
    rintro rfl
    cases hc
  refine Text.strip_iff (fun c t hc => ?_) (fun t c hc => isUncut_concat_iff rfl hc (hholds hc)) t
  have hparted : IsUncut .commas ([] ++ c :: t) ↔ _ :=
    isUncut_append_iff (not_mem_marks_of_isBlank hc) rfl
  exact hparted.trans ⟨fun h => h.2.2, fun h => ⟨rfl, hholds hc, h⟩⟩

theorem isBlank_of_head? {t : Text} (h : IsUncut .words t) :
    ∀ c ∈ t.head?, Text.isBlank c = false := by
  intro c hc
  rcases List.head?_eq_some_iff.mp hc with ⟨u, rfl⟩
  by_contra hblank
  rw [Bool.not_eq_false] at hblank
  have hparted := (isUncut_append_iff (t := []) (not_mem_marks_of_isBlank hblank) rfl).mp h
  exact Bool.false_ne_true (hparted.2.1.symm.trans hblank)

theorem isBlank_of_getLast? {t : Text} (h : IsUncut .words t) (hclosed : IsClosed .words t) :
    ∀ c ∈ t.getLast?, Text.isBlank c = false := by
  intro c hc
  rcases List.getLast?_eq_some_iff.mp hc with ⟨u, rfl⟩
  by_contra hblank
  rw [Bool.not_eq_false] at hblank
  rw [isClosed_concat_iff hblank] at hclosed
  have hparted := (isUncut_append_iff (not_mem_marks_of_isBlank hblank) hclosed).mp h
  exact Bool.false_ne_true (hparted.2.1.symm.trans hblank)

theorem IsCutInto.isBlank_of_getLast? {t : Text} {pieces : List Text}
    (h : IsCutInto .words t pieces) (ht : ∀ c ∈ t.getLast?, Text.isBlank c = false) :
    ∀ piece ∈ pieces, ∀ c ∈ piece.getLast?, Text.isBlank c = false := by
  induction h with
  | whole _ => exact List.forall_mem_singleton.mpr ht
  | @cut t u d _ huncut hclosed _ _ ih =>
      refine List.forall_mem_cons.mpr ⟨Pieces.isBlank_of_getLast? huncut hclosed, ih ?_⟩
      intro c hc
      rcases List.getLast?_eq_some_iff.mp hc with ⟨v, rfl⟩
      apply ht
      rw [← List.cons_append, ← List.append_assoc, List.getLast?_concat]
      rfl

theorem IsCutInto.concat_of_open {t : Text} {pieces : List Text} {c : Char}
    (h : IsCutInto .words t pieces) (hc : Text.isBlank c = true) (hopen : ¬ IsClosed .words t) :
    ∃ init last, pieces = init ++ [last] ∧
      IsCutInto .words (t ++ [c]) (init ++ [last ++ [c]]) := by
  induction h with
  | @whole t huncut =>
      refine ⟨[], t, rfl, .whole ?_⟩
      have hplain : State.top.place.IsCommentless := trivial
      exact (cuts_concat_of_open rfl hplain hc hopen).trans huncut
  | cut huncut hclosed hd _ ih =>
      rw [isClosed_append_iff (not_mem_marks_of_isBlank hd) hclosed] at hopen
      rcases ih hopen with ⟨init, last, rfl, hcut⟩
      refine ⟨_ :: init, last, rfl, ?_⟩
      rw [List.append_assoc]
      exact .cut huncut hclosed hd hcut

/-!
## Words of a part
-/

structure IsWord (w : Text) : Prop where
  uncut : IsUncut .words w
  /-- no comma parts it -/
  joint : IsUncut .commas w
  nonempty : w ≠ []
  last : ∀ c ∈ w.getLast?, Text.isBlank c = false

theorem IsWord.strip_eq {w : Text} (h : IsWord w) : Text.strip w = w :=
  Text.strip_of_ends (isBlank_of_head? h.uncut) h.last

theorem IsWord.isAllBlank_eq {w : Text} (h : IsWord w) : Text.isAllBlank w = false := by
  cases w with
  | nil => exact absurd rfl h.nonempty
  | cons c w =>
      have hc : Text.isBlank c = false := isBlank_of_head? h.uncut c rfl
      rw [Text.isAllBlank, List.all_cons, hc, Bool.false_and]

/-- Words of which only the last one may leave something open. -/
structure AreWords (ws : List Text) : Prop where
  isWord : ∀ w ∈ ws, IsWord w
  isClosed : ws.Pairwise fun w _ => IsClosed .words w

theorem areWords_texts {part : Text} (h : IsUncut .commas part) :
    AreWords (texts .words (Text.strip part)) where
  isWord := by
    intro w hw
    have hcomments : Rule.commas.comments = Rule.words.comments := rfl
    have hcut := isCutInto_between isUnmarked_words (Text.strip part)
    have hkept := isAllBlank_of_mem_texts hw
    rw [texts_eq_filter] at hw
    have hmem := List.mem_of_mem_filter hw
    refine ⟨hcut.isUncut w hmem,
      hcut.isUncut_of isUnmarked_words hcomments (isUncut_commas_strip_iff.mpr h) w hmem, ?_,
      hcut.isBlank_of_getLast? (fun c hc => Text.isBlank_of_getLast?_strip hc) w hmem⟩
    rintro rfl
    cases hkept
  isClosed := pairwise_texts isUnmarked_words

namespace AreWords

variable {us ws : List Text}

theorem sublist (h : AreWords ws) (hsub : us.Sublist ws) : AreWords us :=
  ⟨fun u hu => h.isWord u (hsub.subset hu), h.isClosed.sublist hsub⟩

theorem append (hu : ∀ u ∈ us, IsWord u ∧ IsClosed .words u) (hw : AreWords ws) :
    AreWords (us ++ ws) := by
  induction us with
  | nil => exact hw
  | cons u us ih =>
      rw [List.forall_mem_cons] at hu
      have hrest := ih hu.2
      exact ⟨List.forall_mem_cons.mpr ⟨hu.1.1, hrest.isWord⟩,
        .cons (fun _ _ => hu.1.2) hrest.isClosed⟩

/-- Words that are joined by blanks are found again. -/
theorem texts_eq (h : AreWords ws) : texts .words (Text.join [' '] ws) = ws :=
  texts_join isUnmarked_words (by decide) (fun w hw => (h.isWord w hw).uncut)
    (fun w hw => (h.isWord w hw).isAllBlank_eq) h.isClosed

theorem isUncut_commas (h : AreWords ws) : IsUncut .commas (Text.join [' '] ws) :=
  isUncut_join (by decide) (by decide) (fun w hw => (h.isWord w hw).joint)
    (h.isClosed.imp fun hclosed => isClosed_commas_iff.mpr hclosed)

theorem strip_join (h : AreWords ws) : Text.strip (Text.join [' '] ws) = Text.join [' '] ws := by
  apply Text.strip_of_ends
  · cases ws with
    | nil => exact nofun
    | cons w ws =>
        have hw := h.isWord w List.mem_cons_self
        rcases List.exists_cons_of_ne_nil hw.nonempty with ⟨d, u, rfl⟩
        have hhead := isBlank_of_head? hw.uncut
        cases ws with
        | nil => exact hhead
        | cons v ws => exact hhead
  · rcases List.eq_nil_or_concat' ws with rfl | ⟨us, w, rfl⟩
    · exact nofun
    · have hw := h.isWord w (List.mem_append_right us (List.mem_singleton_self w))
      intro c hc
      rw [Text.join_concat, List.getLast?_append_of_ne_nil _ hw.nonempty] at hc
      exact hw.last c hc

theorem isAllBlank_join (h : AreWords ws) (hne : ws ≠ []) :
    Text.isAllBlank (Text.join [' '] ws) = false := by
  cases ws with
  | nil => exact absurd rfl hne
  | cons w ws =>
      have hw := (h.isWord w List.mem_cons_self).isAllBlank_eq
      cases ws with
      | nil => exact hw
      | cons v ws =>
          unfold Text.isAllBlank at hw ⊢
          rw [Text.join_cons (List.cons_ne_nil v ws), List.all_append, hw, Bool.false_and]

end AreWords

/-!
## Words of a part with blanks around it
-/

theorem map_strip_texts_concat {t : Text} {c : Char} (hc : Text.isBlank c = true) :
    (texts .words (t ++ [c])).map Text.strip = (texts .words t).map Text.strip := by
  by_cases hclosed : IsClosed .words t
  · rw [texts_append isUnmarked_words hc hclosed, show texts .words [] = [] from rfl,
      List.append_nil]
  · rcases (isCutInto_between isUnmarked_words t).concat_of_open hc hclosed with
      ⟨init, last, hpieces, hcut⟩
    have hblank : Text.isAllBlank (last ++ [c]) = Text.isAllBlank last := by
      simp [Text.isAllBlank, hc]
    have hstrip : Text.strip ([] ++ last ++ [c]) = Text.strip last :=
      Text.strip_pad last nofun (List.forall_mem_singleton.mpr hc)
    rw [List.nil_append] at hstrip
    rw [texts_eq_filter, texts_eq_filter, hpieces, hcut.between_eq isUnmarked_words,
      List.filter_append, List.filter_append, List.map_append, List.map_append,
      List.filter_singleton, List.filter_singleton, hblank]
    cases Text.isAllBlank last with
    | true => rfl
    | false => simp [hstrip]

theorem map_strip_texts {t : Text} (h : IsUncut .commas t) :
    (texts .words t).map Text.strip = texts .words (Text.strip t) := by
  have hcongr : (texts .words (Text.strip t)).map Text.strip = (texts .words t).map Text.strip := by
    refine (Text.strip_iff (P := fun u =>
      (texts .words u).map Text.strip = (texts .words t).map Text.strip) ?_ ?_ t).mpr rfl
    · intro c u hc
      have hcons : texts .words (c :: u) = texts .words u :=
        texts_append (t := []) isUnmarked_words hc rfl
      rw [hcons]
    · intro u c hc
      rw [map_strip_texts_concat hc]
  rw [← hcongr, List.map_congr_left fun w hw => ((areWords_texts h).isWord w hw).strip_eq,
    List.map_id']

end Pieces
end DesignTokens
