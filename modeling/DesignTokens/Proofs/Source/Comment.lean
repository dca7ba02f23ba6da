import DesignTokens.Source.Comment
import Mathlib.Data.List.Infix

/-!
# Written block comments

A block comment that is written around a text without an end mark ends behind
that text. A beginning of it has no end, and then nothing of it is skipped.
-/

namespace DesignTokens

/-- No end mark begins in a text without one and ends with an asterisk behind it. -/
theorem Scan.not_mark_of_not_infix {c : Char} {body : Text} (rest : Text)
    (h : ¬ ['*', '/'] <:+: c :: body) :
    ¬ (c = '*' ∧ (body ++ '*' :: rest).head? = some '/') := by
  rintro ⟨rfl, hhead⟩
  cases body with
  | nil => simp at hhead
  | cons d body =>
      have hd : d = '/' := by simpa using hhead
      subst hd
      exact h ⟨[], body, rfl⟩

theorem Scan.afterBlock?_append (offset : Nat) {body : Text} (rest : Text)
    (h : ¬ ['*', '/'] <:+: body) :
    Scan.afterBlock? offset (body ++ '*' :: '/' :: rest) =
      some (offset + body.length + 2, rest) := by
  induction body generalizing offset with
  | nil => simp [Scan.afterBlock?]
  | cons c body ih =>
      have hstop := Scan.not_mark_of_not_infix ('/' :: rest) h
      rw [List.infix_cons_iff, not_or] at h
      rw [List.cons_append, Scan.afterBlock?, if_neg hstop, ih (offset + 1) h.2]
      simp only [List.length_cons, Option.some.injEq, Prod.mk.injEq, and_true]
      omega

theorem Scan.exists_of_afterBlock? {offset : Nat} {t : Text} {r : Nat × Text}
    (h : Scan.afterBlock? offset t = some r) :
    ∃ body, ¬ ['*', '/'] <:+: body ∧ t = body ++ '*' :: '/' :: r.2 := by
  induction t generalizing offset with
  | nil => cases h
  | cons c t ih =>
      rw [Scan.afterBlock?] at h
      split at h
      · rename_i hmark
        rcases List.head?_eq_some_iff.mp hmark.2 with ⟨rest, rfl⟩
        cases h
        exact ⟨[], by simp, by rw [hmark.1]; rfl⟩
      · rename_i hmark
        rcases ih h with ⟨body, hbody, rfl⟩
        refine ⟨c :: body, ?_, rfl⟩
        rw [List.infix_cons_iff, not_or]
        refine ⟨fun hprefix => hmark ?_, hbody⟩
        rcases List.cons_prefix_cons.mp hprefix with ⟨hc, rest, rfl⟩
        exact ⟨hc.symm, rfl⟩

theorem Scan.afterBlock?_eq_none (offset : Nat) {body : Text} (h : ¬ ['*', '/'] <:+: body) :
    Scan.afterBlock? offset body = none := by
  induction body generalizing offset with
  | nil => rfl
  | cons c body ih =>
      rw [List.infix_cons_iff, not_or] at h
      have hstop : ¬ (c = '*' ∧ body.head? = some '/') := by
        rintro ⟨rfl, hhead⟩
        rcases List.head?_eq_some_iff.mp hhead with ⟨rest, rfl⟩
        exact h.1 ⟨rest, rfl⟩
      rw [Scan.afterBlock?, if_neg hstop, ih (offset + 1) h.2]

namespace Source

def commentText (body : Text) : Text :=
  "/*".toList ++ body ++ "*/".toList

def IsCommentBody (body : Text) : Prop :=
  ¬ ['*', '/'] <:+: body

instance (body : Text) : Decidable (IsCommentBody body) :=
  inferInstanceAs (Decidable (¬ _))

theorem commentText_append (body rest : Text) :
    commentText body ++ rest = '/' :: '*' :: (body ++ '*' :: '/' :: rest) := by
  simp [commentText]

theorem skipComments_eq (t : Text) :
    skipComments t =
      match t.dropWhile Text.isBlank with
      | '/' :: '/' :: rest => skipComments (rest.dropWhile (· ≠ '\n'))
      | '/' :: '*' :: rest =>
          match Scan.afterBlock? 0 rest with
          | some r => skipComments r.2
          | none => t
      | _ => t := by
  rw [skipComments.eq_def]
  split
  · rename_i h
    simp only [h]
  · rename_i h
    simp only [h]
    split <;> rename_i h' <;> simp only [h']
  · rename_i hline hblock
    split
    · rename_i h
      exact absurd h (hline _)
    · rename_i h
      exact absurd h (hblock _)
    · rfl

theorem skipComments_comment {blanks body : Text} (rest : Text)
    (hblanks : ∀ c ∈ blanks, Text.isBlank c = true) (h : IsCommentBody body) :
    skipComments (blanks ++ (commentText body ++ rest)) = skipComments rest := by
  have htext : (blanks ++ (commentText body ++ rest)).dropWhile Text.isBlank =
      '/' :: '*' :: (body ++ '*' :: '/' :: rest) := by
    rw [List.dropWhile_append_of_pos hblanks, commentText_append]
    rfl
  rw [skipComments_eq, htext]
  simp only [Scan.afterBlock?_append 0 rest h]

theorem skipComments_open {blanks s body : Text} (hblanks : ∀ c ∈ blanks, Text.isBlank c = true)
    (h : IsCommentBody body) (hs : s <+: body) :
    skipComments (blanks ++ '/' :: '*' :: s) = blanks ++ '/' :: '*' :: s := by
  have htext : (blanks ++ '/' :: '*' :: s).dropWhile Text.isBlank = '/' :: '*' :: s := by
    rw [List.dropWhile_append_of_pos hblanks]
    rfl
  have hend : Scan.afterBlock? 0 s = none :=
    Scan.afterBlock?_eq_none 0 fun hmark => h (hmark.trans hs.isInfix)
  rw [skipComments_eq, htext]
  simp only [hend]

theorem skipComments_of_ne_slash {blanks t : Text} {c : Char}
    (hblanks : ∀ c ∈ blanks, Text.isBlank c = true) (hblank : Text.isBlank c = false)
    (hslash : c ≠ '/') : skipComments (blanks ++ c :: t) = blanks ++ c :: t := by
  have htext : (blanks ++ c :: t).dropWhile Text.isBlank = c :: t := by
    rw [List.dropWhile_append_of_pos hblanks, List.dropWhile_cons, hblank]
    rfl
  rw [skipComments_eq, htext]
  split
  · rename_i h
    exact absurd (List.cons.inj h).1 hslash
  · rename_i h
    exact absurd (List.cons.inj h).1 hslash
  · rfl

end Source
end DesignTokens
