import DesignTokens.Proofs.Source.Comment
import DesignTokens.Proofs.Text

/-!
# Rows of comments

Behind a value a row of comments is accepted in every way in which it can be cut into
comments. So a block comment may run past an end mark, with anything in front of its
last one, and a line comment may stop anywhere in its line. What can be removed around
a value are blanks and complete comments, of which each ends where it ends in a source:
a block comment at its first end mark, a line comment at the end of its line.
-/

namespace DesignTokens
namespace Source

/-!
## What is accepted

All places in which a row of comments may be are followed at once. By induction over the text,
one of them leads to the end if and only if the text can be cut into comments.
-/

/-- A text that can be cut into comments with blanks before each of them. -/
inductive IsLooseRow : Text → Prop where
  | nil : IsLooseRow []
  | block {blanks t : Text} (body : Text) : (∀ c ∈ blanks, Text.isBlank c = true) →
      IsLooseRow t → IsLooseRow (blanks ++ '/' :: '*' :: (body ++ '*' :: '/' :: t))
  | line {blanks body t : Text} : (∀ c ∈ blanks, Text.isBlank c = true) → '\n' ∉ body →
      IsLooseRow t → IsLooseRow (blanks ++ '/' :: '/' :: (body ++ t))

theorem IsLooseRow.blank {c : Char} {t : Text} (hc : Text.isBlank c = true) (hne : t ≠ [])
    (h : IsLooseRow t) : IsLooseRow (c :: t) := by
  cases h with
  | nil => exact absurd rfl hne
  | block body hblanks ht => exact .block body (List.forall_mem_cons.mpr ⟨hc, hblanks⟩) ht
  | line hblanks hbody ht => exact .line (List.forall_mem_cons.mpr ⟨hc, hblanks⟩) hbody ht

def IsInLine (t : Text) : Prop :=
  ∃ body row, '\n' ∉ body ∧ IsLooseRow row ∧ t = body ++ row

def IsInBlock (t : Text) : Prop :=
  ∃ body row, IsLooseRow row ∧ t = body ++ '*' :: '/' :: row

namespace CommentPlace

/-- Whether a text leads from a place to the end of a row of comments. -/
def Leads : CommentPlace → Text → Prop
  | between, t => IsLooseRow t
  | blanks, t => IsLooseRow t ∧ t ≠ []
  | slash, t => ∃ u, t = '/' :: u ∧ IsInLine u ∨ t = '*' :: u ∧ IsInBlock u
  | line, t => ∃ c u, t = c :: u ∧ c ≠ '\n' ∧ IsInLine u
  | block, t => IsInBlock t
  | star, t => ∃ row, t = '/' :: row ∧ IsLooseRow row

theorem leads_nil_iff {p : CommentPlace} : p.Leads [] ↔ p = between := by
  cases p <;> simp [Leads, IsLooseRow.nil, IsInBlock]

theorem isLooseRow_cons_iff {c : Char} {t : Text} :
    IsLooseRow (c :: t) ↔ Text.isBlank c = true ∧ blanks.Leads t ∨ c = '/' ∧ slash.Leads t := by
  constructor
  · intro h
    generalize hu : c :: t = u at h
    cases h with
    | nil => cases hu
    | @block bs row body hblanks hrow =>
        cases bs with
        | nil =>
            cases hu
            exact .inr ⟨rfl, _, .inr ⟨rfl, body, row, hrow, rfl⟩⟩
        | cons b bs =>
            cases hu
            rw [List.forall_mem_cons] at hblanks
            exact .inl ⟨hblanks.1, .block body hblanks.2 hrow, by simp⟩
    | @line bs body row hblanks hbody hrow =>
        cases bs with
        | nil =>
            cases hu
            exact .inr ⟨rfl, _, .inl ⟨rfl, body, row, hbody, hrow, rfl⟩⟩
        | cons b bs =>
            cases hu
            rw [List.forall_mem_cons] at hblanks
            exact .inl ⟨hblanks.1, .line hblanks.2 hbody hrow, by simp⟩
  · rintro (⟨hc, ht, hne⟩ | ⟨rfl, _, ⟨rfl, body, row, hbody, hrow, rfl⟩ |
      ⟨rfl, body, row, hrow, rfl⟩⟩)
    · exact ht.blank hc hne
    · exact @IsLooseRow.line [] body row (by simp) hbody hrow
    · exact @IsLooseRow.block [] row body (by simp) hrow

theorem isInLine_iff {t : Text} : IsInLine t ↔ line.Leads t ∨ IsLooseRow t := by
  constructor
  · rintro ⟨body, row, hbody, hrow, rfl⟩
    cases body with
    | nil => exact .inr hrow
    | cons c body =>
        rw [List.mem_cons, not_or] at hbody
        exact .inl ⟨c, body ++ row, rfl, Ne.symm hbody.1, body, row, hbody.2, hrow, rfl⟩
  · rintro (⟨c, _, rfl, hc, body, row, hbody, hrow, rfl⟩ | h)
    · exact ⟨c :: body, row, by simp [hbody, Ne.symm hc], hrow, rfl⟩
    · exact ⟨[], t, by simp, h, rfl⟩

theorem isInBlock_cons_iff {c : Char} {t : Text} :
    IsInBlock (c :: t) ↔ IsInBlock t ∨ c = '*' ∧ star.Leads t := by
  constructor
  · rintro ⟨body, row, hrow, h⟩
    cases body with
    | nil =>
        cases h
        exact .inr ⟨rfl, row, rfl, hrow⟩
    | cons d body =>
        cases h
        exact .inl ⟨body, row, hrow, rfl⟩
  · rintro (⟨body, row, hrow, rfl⟩ | ⟨rfl, row, rfl, hrow⟩)
    · exact ⟨c :: body, row, hrow, rfl⟩
    · exact ⟨[], row, hrow, rfl⟩

theorem leads_cons_iff {p : CommentPlace} {c : Char} {t : Text} :
    p.Leads (c :: t) ↔ ∃ q ∈ p.next c, q.Leads t := by
  have hslash : Text.isBlank '/' = false := by decide
  have hrow : IsLooseRow (c :: t) ↔ ∃ q ∈ between.next c, q.Leads t := by
    rw [isLooseRow_cons_iff, next]
    split
    · rename_i hc
      have hne : c ≠ '/' := by
        rintro rfl
        rw [hslash] at hc
        cases hc
      simp [hc, hne]
    · rename_i hc
      split <;> simp_all
  cases p with
  | between => exact hrow
  | blanks =>
      have hblanks : blanks.Leads (c :: t) ↔ IsLooseRow (c :: t) :=
        and_iff_left (List.cons_ne_nil c t)
      exact hblanks.trans hrow
  | slash =>
      have hmark : slash.Leads (c :: t) ↔ c = '/' ∧ IsInLine t ∨ c = '*' ∧ IsInBlock t := by
        simp only [Leads, List.cons.injEq]
        grind
      rw [hmark, isInLine_iff, next]
      split
      · rename_i hc
        simp [hc, Leads]
      · split <;> simp_all [Leads]
  | line =>
      have hline : line.Leads (c :: t) ↔ c ≠ '\n' ∧ IsInLine t := by
        simp only [Leads, List.cons.injEq]
        grind
      rw [hline, isInLine_iff, next]
      split <;> simp_all [Leads]
  | block =>
      have hblock : block.Leads (c :: t) ↔ IsInBlock (c :: t) := Iff.rfl
      rw [hblock, isInBlock_cons_iff, next]
      split <;> simp_all [Leads]
  | star =>
      have hstar : star.Leads (c :: t) ↔ c = '/' ∧ IsLooseRow t := by
        simp only [Leads, List.cons.injEq]
        grind
      rw [hstar, next]
      split <;> simp_all [Leads]

theorem reachesEnd_iff {places : List CommentPlace} {t : Text} :
    reachesEnd places t = true ↔ ∃ p ∈ places, p.Leads t := by
  -- the places after a step are those that any of the ways to cut the text has come to
  induction t generalizing places with
  | nil => simp [reachesEnd, leads_nil_iff]
  | cons c t ih =>
      rw [reachesEnd, ih]
      simp only [List.mem_eraseDups, List.mem_flatMap, leads_cons_iff]
      constructor
      · rintro ⟨q, ⟨p, hp, hq⟩, ht⟩
        exact ⟨p, hp, q, hq, ht⟩
      · rintro ⟨p, hp, q, hq, ht⟩
        exact ⟨q, ⟨p, hp, hq⟩, ht⟩

end CommentPlace

/-- What is accepted behind a value is what can be cut into comments. -/
theorem isComments_iff {t : Text} : isComments t = true ↔ IsLooseRow t := by
  rw [isComments, CommentPlace.reachesEnd_iff]
  simp [CommentPlace.Leads]

/-!
## What can be removed
-/

/-- Blanks and complete comments. The end of a value (`final`) ends a line comment as well. -/
inductive IsGap (final : Bool) : Text → Prop where
  | nil : IsGap final []
  | blank {c : Char} {t : Text} : Text.isBlank c = true → IsGap final t → IsGap final (c :: t)
  | block {body t : Text} : IsCommentBody body → IsGap final t →
      IsGap final (commentText body ++ t)
  | line {body t : Text} : '\n' ∉ body → IsGap final t →
      IsGap final ('/' :: '/' :: (body ++ '\n' :: t))
  | last {body : Text} : final = true → '\n' ∉ body → IsGap final ('/' :: '/' :: body)

theorem IsGap.head {final : Bool} {c : Char} {t : Text} (h : IsGap final (c :: t)) :
    Text.isBlank c = true ∨ c = '/' := by
  generalize hu : c :: t = u at h
  cases h with
  | nil => cases hu
  | blank hc _ =>
      cases hu
      exact .inl hc
  | block _ _ =>
      rw [commentText_append] at hu
      exact .inr (List.cons.inj hu).1
  | line _ _ => exact .inr (List.cons.inj hu).1
  | last _ _ => exact .inr (List.cons.inj hu).1

theorem IsGap.blanks {final : Bool} {blanks t : Text}
    (hblanks : ∀ c ∈ blanks, Text.isBlank c = true) (h : IsGap final t) :
    IsGap final (blanks ++ t) := by
  induction blanks with
  | nil => exact h
  | cons c blanks ih =>
      rw [List.forall_mem_cons] at hblanks
      exact .blank hblanks.1 (ih hblanks.2)

theorem IsGap.tail {final : Bool} {c : Char} {t : Text} (hc : c ≠ '/')
    (h : IsGap final (c :: t)) : IsGap final t := by
  generalize hu : c :: t = u at h
  cases h with
  | nil => cases hu
  | blank _ ht =>
      cases hu
      exact ht
  | block _ _ =>
      rw [commentText_append] at hu
      exact absurd (List.cons.inj hu).1 hc
  | line _ _ => exact absurd (List.cons.inj hu).1 hc
  | last _ _ => exact absurd (List.cons.inj hu).1 hc

theorem IsGap.lineComment {t : Text} (h : IsGap true (t.dropWhile (· ≠ '\n'))) :
    IsGap true ('/' :: '/' :: t) := by
  have hbody : '\n' ∉ t.takeWhile (· ≠ '\n') := by
    intro hmem
    exact absurd (List.mem_takeWhile_imp hmem) (by decide)
  have hstop := List.head?_dropWhile_not (· ≠ '\n') t
  rw [← @List.takeWhile_append_dropWhile _ (· ≠ '\n') t]
  generalize t.dropWhile (· ≠ '\n') = rest at h hstop ⊢
  cases rest with
  | nil =>
      rw [List.append_nil]
      exact .last rfl hbody
  | cons c rest =>
      have hc : c = '\n' := by simpa using hstop
      subst hc
      exact .line hbody (h.tail (by decide))

/-- What can be removed is accepted as a row of comments if it does not end with a blank. -/
theorem IsGap.isLooseRow {final : Bool} {t : Text} (h : IsGap final t)
    (hlast : ∀ c ∈ t.getLast?, Text.isBlank c = false) : IsLooseRow t := by
  induction h with
  | nil => exact .nil
  | @blank c t hc ht ih =>
      have hne : t ≠ [] := by
        rintro rfl
        rw [hlast c rfl] at hc
        cases hc
      refine (ih fun d hd => hlast d ?_).blank hc hne
      rw [List.getLast?_cons, hd]
      rfl
  | @block body t hbody ht ih =>
      rw [commentText_append]
      refine @IsLooseRow.block [] t body (by simp) (ih fun d hd => hlast d ?_)
      rw [List.getLast?_append, hd]
      rfl
  | @line body t hbody ht ih =>
      -- the newline becomes a blank of the next comment, of which there is one
      have hnewline : Text.isBlank '\n' = true := by decide
      have hne : t ≠ [] := by
        rintro rfl
        have hlast := hlast '\n' (by simp [List.getLast?_cons, List.getLast?_append])
        rw [hnewline] at hlast
        cases hlast
      refine @IsLooseRow.line [] body ('\n' :: t) (by simp) hbody ?_
      refine (ih fun d hd => hlast d ?_).blank hnewline hne
      simp [List.getLast?_cons, List.getLast?_append, Option.mem_def.mp hd]
  | @last body _ hbody =>
      have hline := @IsLooseRow.line [] body [] (by simp) hbody .nil
      rwa [List.append_nil] at hline

/-!
## Removing it
-/

theorem stripLeft_skipComments_blank {c : Char} (t : Text) (hc : Text.isBlank c = true) :
    Text.stripLeft (skipComments (c :: t)) = Text.stripLeft (skipComments t) := by
  have hdrop : (c :: t).dropWhile Text.isBlank = t.dropWhile Text.isBlank :=
    List.dropWhile_cons_of_pos hc
  rw [skipComments_eq, skipComments_eq t, hdrop]
  split
  · rfl
  · split
    · rfl
    · exact hdrop
  · exact hdrop

theorem skipComments_line {body rest : Text} (hbody : '\n' ∉ body)
    (hrest : ∀ c ∈ rest.head?, c = '\n') :
    skipComments ('/' :: '/' :: (body ++ rest)) = skipComments rest := by
  have hslash : ('/' :: '/' :: (body ++ rest)).dropWhile Text.isBlank =
      '/' :: '/' :: (body ++ rest) := List.dropWhile_cons_of_neg (by decide)
  have hline : (body ++ rest).dropWhile (· ≠ '\n') = rest := by
    apply Text.dropWhile_append_of_stop
    · intro c hc
      exact decide_eq_true fun hnewline => hbody (hnewline ▸ hc)
    · intro c hc
      simp [hrest c hc]
  rw [skipComments_eq, hslash]
  simp only [hline]

theorem isGap_iff {t : Text} : IsGap true t ↔ Text.stripLeft (skipComments t) = [] := by
  have hnil : Text.stripLeft (skipComments []) = [] := by decide +kernel
  constructor
  · intro h
    induction h with
    | nil => exact hnil
    | blank hc _ ih => rw [stripLeft_skipComments_blank _ hc, ih]
    | @block body t hbody _ ih =>
        have hcomment := @skipComments_comment [] body t (by simp) hbody
        rw [List.nil_append] at hcomment
        rw [hcomment, ih]
    | line hbody _ ih =>
        rw [skipComments_line hbody (by simp), stripLeft_skipComments_blank _ (by decide), ih]
    | @last body _ hbody =>
        have hline := @skipComments_line body [] hbody (by simp)
        rw [List.append_nil] at hline
        rw [hline, hnil]
  · intro h
    have hblanks : ∀ t : Text, ∀ c ∈ t.takeWhile Text.isBlank, Text.isBlank c = true :=
      fun _ _ hc => List.mem_takeWhile_imp hc
    fun_induction skipComments t with
    | case1 t rest hrest _ _ ih =>
        rw [← @List.takeWhile_append_dropWhile _ Text.isBlank t, hrest]
        exact (ih h).lineComment.blanks (hblanks t)
    | case2 t rest hrest _ stop later hend _ ih =>
        rcases Scan.exists_of_afterBlock? hend with ⟨body, hbody, hbody'⟩
        rw [← @List.takeWhile_append_dropWhile _ Text.isBlank t, hrest, hbody',
          ← commentText_append]
        exact ((ih h).block hbody).blanks (hblanks t)
    | case3 t rest hrest _ hend =>
        rw [Text.stripLeft, hrest] at h
        cases h
    | case4 t hline hblock =>
        rw [← @List.takeWhile_append_dropWhile _ Text.isBlank t]
        rw [Text.stripLeft] at h
        rw [h]
        exact IsGap.nil.blanks (hblanks t)

instance (t : Text) : Decidable (IsGap true t) :=
  decidable_of_iff _ isGap_iff.symm

end Source
end DesignTokens
