import DesignTokens.Proofs.Source.Comment
import DesignTokens.Proofs.Source.Scan
import DesignTokens.Text.Pieces

/-!
# Cutting written texts

A text that leads the scan from one state to another without a cut stays in one
piece, whatever follows it. Written literals and comments lead back to where
they begin, also if they hold commas and brackets.
-/

namespace DesignTokens
namespace Pieces

theorem between_ne_nil (rule : Rule) (s : State) (before : Option Char) (t : Text) :
    between rule s before t ≠ [] := by
  cases t with
  | nil => simp [between]
  | cons c t =>
      simp only [between]
      split
      · simp
      · split <;> simp

theorem between_cons {rule : Rule} {s s' : State} {before : Option Char} {c : Char} {t : Text}
    (h : step rule s before c t.head? = (s', false)) :
    between rule s before (c :: t) = (between rule s' (some c) t).modifyHead (c :: ·) := by
  simp only [between, h, Bool.false_eq_true, if_false]
  cases hrest : between rule s' (some c) t with
  | nil => exact absurd hrest (between_ne_nil rule s' (some c) t)
  | cons piece pieces => rfl

theorem between_cut {rule : Rule} {s s' : State} {before : Option Char} {c : Char} {t : Text}
    (h : step rule s before c t.head? = (s', true)) :
    between rule s before (c :: t) = [] :: between rule s' (some c) t := by
  simp only [between, h, if_true]

/-!
## Texts that stay in one piece
-/

/-- A text leads from one state to another without a cut, whatever stands around it. -/
def Leads (rule : Rule) (s : State) (t : Text) (s' : State) : Prop :=
  ∀ before rest, ∃ before',
    between rule s before (t ++ rest) = (between rule s' before' rest).modifyHead (t ++ ·)

/-- A text at the end is one piece, whatever stands before it. -/
def IsWhole (rule : Rule) (s : State) (t : Text) : Prop :=
  ∀ before, between rule s before t = [t]

section Leads

variable {rule : Rule} {s s' s'' : State} {c : Char} {t u : Text}

theorem Leads.nil : Leads rule s [] s := by
  intro before rest
  refine ⟨before, ?_⟩
  cases hpieces : between rule s before rest with
  | nil => exact absurd hpieces (between_ne_nil rule s before rest)
  | cons piece pieces => simp [hpieces]

theorem Leads.cons
    (hstep : ∀ before rest, step rule s before c (t ++ rest).head? = (s', false))
    (h : Leads rule s' t s'') : Leads rule s (c :: t) s'' := by
  intro before rest
  rcases h (some c) rest with ⟨before', hrest⟩
  refine ⟨before', ?_⟩
  rw [List.cons_append, between_cons (hstep before rest), hrest, List.modifyHead_modifyHead]
  rfl

theorem Leads.append (ht : Leads rule s t s') (hu : Leads rule s' u s'') :
    Leads rule s (t ++ u) s'' := by
  intro before rest
  rcases ht before (u ++ rest) with ⟨before', ht⟩
  rcases hu before' rest with ⟨before'', hu⟩
  refine ⟨before'', ?_⟩
  rw [List.append_assoc, ht, hu, List.modifyHead_modifyHead]
  congr 1
  funext piece
  simp

theorem IsWhole.nil : IsWhole rule s [] := fun _ => rfl

theorem IsWhole.cons (hstep : ∀ before, step rule s before c t.head? = (s', false))
    (h : IsWhole rule s' t) : IsWhole rule s (c :: t) := by
  intro before
  rw [between_cons (hstep before), h (some c)]
  rfl

theorem Leads.isWhole_append (ht : Leads rule s t s') (hu : IsWhole rule s' u) :
    IsWhole rule s (t ++ u) := by
  intro before
  rcases ht before u with ⟨before', ht⟩
  rw [ht, hu before']
  rfl

theorem Leads.isWhole (h : Leads rule s t s') : IsWhole rule s t := by
  have hwhole := h.isWhole_append (u := []) .nil
  rwa [List.append_nil] at hwhole

end Leads

/-!
## Literals
-/

theorem step_quote (rule : Rule) (depth : Nat) (before : Option Char) {quote : Char}
    (next : Option Char) (h : isQuote quote = true) :
    step rule ⟨.plain, depth⟩ before quote next = (⟨.quoted quote, depth⟩, false) := by
  have hslash : quote ≠ '/' := by
    rintro rfl
    revert h
    decide
  simp [step, commentAt?, hslash, stepPlain, h]

theorem step_quoted (rule : Rule) (depth : Nat) (before : Option Char) {quote c : Char}
    (next : Option Char) (hc : c ≠ '\\') (h : c ≠ quote) :
    step rule ⟨.quoted quote, depth⟩ before c next = (⟨.quoted quote, depth⟩, false) := by
  simp [step, hc, h]

theorem step_backslash (rule : Rule) (depth : Nat) (before : Option Char) (quote : Char)
    (next : Option Char) :
    step rule ⟨.quoted quote, depth⟩ before '\\' next = (⟨.escaped quote, depth⟩, false) := by
  simp [step]

theorem leads_literalText (rule : Rule) (depth : Nat) {quote : Char} {t : Text}
    (h : Scan.IsLiteralText quote t) :
    Leads rule ⟨.quoted quote, depth⟩ t ⟨.quoted quote, depth⟩ := by
  induction h with
  | nil => exact .nil
  | escaped c _ ih =>
      exact .cons (fun before rest => step_backslash rule depth before quote _)
        (.cons (fun _ _ => rfl) ih)
  | cons hc hstays _ ih =>
      exact .cons (fun before rest => step_quoted rule depth before _ hc hstays.ends) ih

theorem leads_literal (rule : Rule) (depth : Nat) {quote : Char} {t : Text}
    (hquote : isQuote quote = true) (h : Scan.IsLiteralText quote t) :
    Leads rule ⟨.plain, depth⟩ (quote :: (t ++ [quote])) ⟨.plain, depth⟩ := by
  have hback : quote ≠ '\\' := Scan.isQuote_ne_backslash hquote
  have hlast : Leads rule ⟨.quoted quote, depth⟩ [quote] ⟨.plain, depth⟩ :=
    .cons (fun _ _ => by simp [step, hback]) .nil
  exact .cons (fun before rest => step_quote rule depth before _ hquote)
    ((leads_literalText rule depth h).append hlast)

theorem isWhole_literal_prefix (rule : Rule) (depth : Nat) {quote : Char} {s t : Text}
    (hquote : isQuote quote = true) (h : Scan.IsLiteralText quote t) (hs : s <+: t) :
    IsWhole rule ⟨.plain, depth⟩ (quote :: s) := by
  refine .cons (fun before => step_quote rule depth before _ hquote) ?_
  induction h generalizing s with
  | nil =>
      rw [List.prefix_nil.mp hs]
      exact .nil
  | escaped c _ ih =>
      rcases List.prefix_cons_iff.mp hs with rfl | ⟨u, rfl, hu⟩
      · exact .nil
      · refine .cons (fun before => step_backslash rule depth before quote _) ?_
        rcases List.prefix_cons_iff.mp hu with rfl | ⟨v, rfl, hv⟩
        · exact .nil
        · exact .cons (fun _ => rfl) (ih hv)
  | cons hc hstays _ ih =>
      rcases List.prefix_cons_iff.mp hs with rfl | ⟨u, rfl, hu⟩
      · exact .nil
      · exact .cons (fun before => step_quoted rule depth before _ hc hstays.ends) (ih hu)

/-!
## Comments
-/

theorem step_block (rule : Rule) (depth : Nat) (before : Option Char) {c : Char}
    {next : Option Char} (h : ¬ (c = '*' ∧ next = some '/')) :
    step rule ⟨.block, depth⟩ before c next = (⟨.block, depth⟩, false) := by
  have hmark : (decide (c = '*') && decide (next = some '/')) = false := by
    rw [← Bool.decide_and]
    exact decide_eq_false h
  simp only [step, hmark, Bool.false_eq_true, if_false]

theorem leads_commentBody (rule : Rule) (depth : Nat) {body : Text}
    (h : Source.IsCommentBody body) :
    Leads rule ⟨.block, depth⟩ (body ++ "*/".toList) ⟨.plain, depth⟩ := by
  induction body with
  | nil => exact .cons (fun _ _ => rfl) (.cons (fun _ _ => rfl) .nil)
  | cons c body ih =>
      have hstep : ∀ before rest,
          step rule ⟨.block, depth⟩ before c (body ++ "*/".toList ++ rest).head? =
            (⟨.block, depth⟩, false) := by
        intro before rest
        have hmark := Scan.not_mark_of_not_infix ('/' :: rest) h
        have htext : body ++ "*/".toList ++ rest = body ++ '*' :: '/' :: rest := by simp
        rw [htext]
        exact step_block rule depth before hmark
      have htail : Source.IsCommentBody body := fun hmark => h (List.infix_cons hmark)
      exact .cons hstep (ih htail)

theorem isWhole_commentBody (rule : Rule) (depth : Nat) {body : Text}
    (h : Source.IsCommentBody body) : IsWhole rule ⟨.block, depth⟩ body := by
  induction body with
  | nil => exact .nil
  | cons c body ih =>
      have hmark : ¬ (c = '*' ∧ body.head? = some '/') := by
        rintro ⟨rfl, hhead⟩
        rcases List.head?_eq_some_iff.mp hhead with ⟨rest, rfl⟩
        exact h ⟨[], rest, rfl⟩
      have htail : Source.IsCommentBody body := fun hmark => h (List.infix_cons hmark)
      exact .cons (fun before => step_block rule depth before hmark) (ih htail)

theorem leads_comment (separator : Separator) (depth : Nat) {body : Text}
    (h : Source.IsCommentBody body) :
    Leads ⟨separator, true⟩ ⟨.plain, depth⟩ (Source.commentText body) ⟨.plain, depth⟩ := by
  have htext : Source.commentText body = '/' :: '*' :: (body ++ "*/".toList) := by
    simp [Source.commentText]
  rw [htext]
  exact .cons (fun _ _ => rfl) (.cons (fun _ _ => rfl) (leads_commentBody _ depth h))

/-- A comment that does not end is in one piece with whatever stands before it. -/
theorem isWhole_comment_prefix (separator : Separator) (depth : Nat) {s body : Text}
    (h : Source.IsCommentBody body) (hs : s <+: body) :
    IsWhole ⟨separator, true⟩ ⟨.plain, depth⟩ ('/' :: '*' :: s) := by
  have hbody : Source.IsCommentBody s := fun hmark => h (hmark.trans hs.isInfix)
  exact .cons (fun _ => rfl) (.cons (fun _ => rfl) (isWhole_commentBody _ depth hbody))

/-!
## Entries
-/

def isOrdinary (c : Char) : Bool :=
  !isQuote c && !isOpener c && !isCloser c && c ≠ '/' && c ≠ ','

theorem isOrdinary_of {p : Char → Bool} {c : Char}
    (hmarks : ['"', '\'', '`', '(', '[', '{', ')', ']', '}', '/', ','].any p = false)
    (h : p c = true) : isOrdinary c = true := by
  have hne : ∀ d ∈ ['"', '\'', '`', '(', '[', '{', ')', ']', '}', '/', ','], c ≠ d := by
    rintro d hd rfl
    exact List.any_eq_false.mp hmarks c hd h
  simp only [List.forall_mem_cons] at hne
  simp [isOrdinary, isQuote, isOpener, isCloser, hne]

theorem isPlain_of_isOrdinary {c : Char} (h : isOrdinary c = true) : Scan.isPlain c = true := by
  simp only [isOrdinary, isQuote, isOpener, isCloser, Bool.and_eq_true, Bool.not_eq_true',
    Bool.or_eq_false_iff, decide_eq_true_eq, decide_eq_false_iff_not] at h
  have hopener : Scan.closer? c = none := by
    unfold Scan.closer?
    split <;> simp_all
  simp [Scan.isPlain, Scan.isQuote, hopener, h]

theorem leads_ordinary {t : Text} (h : ∀ c ∈ t, isOrdinary c = true) :
    Leads .entries .top t .top := by
  induction t with
  | nil => exact .nil
  | cons c t ih =>
      have hc : isOrdinary c = true := h c List.mem_cons_self
      simp only [isOrdinary, Bool.and_eq_true, Bool.not_eq_true', decide_eq_true_eq] at hc
      rcases hc with ⟨⟨⟨⟨hquote, hopener⟩, hcloser⟩, hslash⟩, hcomma⟩
      have hstep : ∀ before rest, step .entries .top before c (t ++ rest).head? =
          (.top, false) := by
        intro before rest
        simp [step, State.top, Rule.entries, commentAt?, hslash, stepPlain, hquote, hopener,
          hcloser, Separator.holds, hcomma]
      exact .cons hstep (ih fun d hd => h d (List.mem_cons_of_mem _ hd))

/-- Texts between commas are the pieces that they are cut into. -/
theorem between_entries {ps : List Text} {last : Text} (before : Option Char)
    (hps : ∀ p ∈ ps, Leads .entries .top p .top) (hlast : IsWhole .entries .top last) :
    between .entries .top before (ps.flatMap (· ++ [',']) ++ last) = ps ++ [last] := by
  induction ps generalizing before with
  | nil => exact hlast before
  | cons p ps ih =>
      have hp : Leads .entries .top p .top := hps p List.mem_cons_self
      rcases hp before (',' :: (ps.flatMap (· ++ [',']) ++ last)) with ⟨before', hp⟩
      have hcut : step .entries .top before' ',' (ps.flatMap (· ++ [',']) ++ last).head? =
          (.top, true) := rfl
      have htail : ∀ q ∈ ps, Leads .entries .top q .top :=
        fun q hq => hps q (List.mem_cons_of_mem _ hq)
      have htext : (p :: ps).flatMap (· ++ [',']) ++ last =
          p ++ ',' :: (ps.flatMap (· ++ [',']) ++ last) := by simp
      rw [htext, hp, between_cut hcut, ih (some ',') htail]
      simp

/-!
## Offsets
-/

theorem mem_of_mem_placed {offset : Nat} {ps : List Text} {x : Nat × Text}
    (h : x ∈ placed offset ps) : x.2 ∈ ps := by
  induction ps generalizing offset with
  | nil => simp [placed] at h
  | cons p ps ih =>
      rcases List.mem_cons.mp h with rfl | h
      · exact List.mem_cons_self
      · exact List.mem_cons_of_mem _ (ih h)

theorem ofText_eq_placed {rule : Rule} {t : Text} {ps : List Text}
    (h : between rule .top none t = ps) (hps : ∀ p ∈ ps, Text.isAllBlank p = false) :
    ofText rule t = placed 0 ps := by
  rw [ofText, h, List.filter_eq_self]
  intro x hx
  rw [hps x.2 (mem_of_mem_placed hx)]
  rfl

end Pieces
end DesignTokens
