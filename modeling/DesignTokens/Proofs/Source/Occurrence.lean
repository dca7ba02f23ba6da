import DesignTokens.Source.Occurrence
import DesignTokens.Source.Window

/-!
# Occurrences part by part

A reader stops at a character if it reads a text up to that character as if the
text ended there. What such a reader takes lies on one side of the character, so
that the occurrences in a text are those in its parts.
-/

namespace DesignTokens
namespace Reader

/-- What a reader does with a text does not depend on what follows the character `x`. -/
def StopsAt (x : Char) (r : Reader) : Prop :=
  ∀ s v : Text, r (s ++ x :: v) = (r s).map (· ++ x :: v)

section StopsAt

variable {x : Char}

theorem stopsAt_exactly {lead : Text} (h : x ∉ lead) : StopsAt x (exactly lead) := by
  intro s v
  unfold exactly
  induction lead generalizing s with
  | nil => simp
  | cons p lead ih =>
      rw [List.mem_cons, not_or] at h
      cases s with
      | nil => simp [Text.after?, Ne.symm h.1]
      | cons c s =>
          by_cases hp : p = c
          · simp only [List.cons_append, Text.after?, if_pos hp, ih h.2 s]
          · simp only [List.cons_append, Text.after?, if_neg hp, Option.map_none]

theorem stopsAt_many {p : Char → Bool} (h : p x = false) : StopsAt x (many p) := by
  intro s v
  simp only [many, Option.map_some, Option.some.injEq]
  induction s with
  | nil => simp [h]
  | cons c s ih =>
      cases hc : p c with
      | true => simp only [List.cons_append, List.dropWhile_cons, hc, if_true, ih]
      | false => simp [hc]

theorem stopsAt_sequence {rs : List Reader} (h : ∀ r ∈ rs, StopsAt x r) :
    StopsAt x (sequence rs) := by
  intro s v
  induction rs generalizing s with
  | nil => simp [sequence]
  | cons r rs ih =>
      have hr : StopsAt x r := h r List.mem_cons_self
      have hrs : ∀ r ∈ rs, StopsAt x r := fun r hmem => h r (List.mem_cons_of_mem _ hmem)
      simp only [sequence, hr s v]
      cases r s with
      | none => rfl
      | some t => simpa using ih hrs t

end StopsAt
end Reader

namespace Source

open Reader

theorem occurrencesFrom_cons {r : Reader} {c : Char} {t : Text} (before : Option Char)
    (offset : Nat) (h : r (c :: t) = none) :
    occurrencesFrom r before offset (c :: t) = occurrencesFrom r (some c) (offset + 1) t := by
  rw [occurrencesFrom]
  simp [h]

theorem occurrencesFrom_of_not_mem {r : Reader} {x : Char} {t : Text}
    (hr : ∀ s : Text, x ∉ s → r s = none) (before : Option Char) (offset : Nat) (h : x ∉ t) :
    occurrencesFrom r before offset t = [] := by
  induction t generalizing before offset with
  | nil => rw [occurrencesFrom]
  | cons c t ih =>
      rw [occurrencesFrom_cons before offset (hr _ h)]
      exact ih (some c) (offset + 1) (List.not_mem_of_not_mem_cons h)

theorem read_append {r : Reader} {x : Char} (hstop : StopsAt x r) (before : Option Char) (c : Char)
    (s v : Text) :
    (if before.any Text.isWord then none else r (c :: (s ++ x :: v))) =
      (if before.any Text.isWord then none else r (c :: s)).map (· ++ x :: v) := by
  split
  · rfl
  · exact hstop (c :: s) v

/-- The occurrences in a text are those before and those behind a character. -/
theorem occurrencesFrom_append {r : Reader} {x : Char} (hstop : StopsAt x r) (hnil : r [] = none)
    (before : Option Char) (offset : Nat) (s v : Text) :
    occurrencesFrom r before offset (s ++ x :: v) =
      occurrencesFrom r before offset s ++
        occurrencesFrom r (some x) (offset + s.length + 1) v := by
  -- no stretch goes across `x`, so that the scan comes to `x` as it comes to the end of `s`
  induction before, offset, s using occurrencesFrom.induct r with
  | case1 before offset =>
      have hx : r (x :: v) = none := by
        have h := hstop [] v
        rw [hnil] at h
        exact h
      rw [List.nil_append, occurrencesFrom_cons before offset hx, occurrencesFrom, List.nil_append]
      rfl
  | case2 before offset c s hnone ih =>
      rw [dite_eq_ite] at hnone
      have hread : (if before.any Text.isWord then none else r (c :: (s ++ x :: v))) = none := by
        rw [read_append hstop, hnone]
        rfl
      rw [List.cons_append, occurrencesFrom, hread, occurrencesFrom, hnone]
      simp only
      rw [ih, List.length_cons]
      congr 2
      omega
  | case3 before offset c s rest hrest n ih =>
      rw [dite_eq_ite] at hrest
      have hread : (if before.any Text.isWord then none else r (c :: (s ++ x :: v))) =
          some (rest ++ x :: v) := by
        rw [read_append hstop, hrest]
        rfl
      have hn : (s ++ x :: v).length - (rest ++ x :: v).length = n := by
        simp only [List.length_append, List.length_cons]
        omega
      have hle : n ≤ s.length := Nat.sub_le _ _
      have hget : (c :: (s ++ x :: v))[n]? = (c :: s)[n]? := by
        rw [← List.cons_append, List.getElem?_append_left]
        exact Nat.lt_succ_of_le hle
      have hdrop : (s ++ x :: v).drop n = s.drop n ++ x :: v :=
        List.drop_append_of_le_length hle
      have hoffset : offset + n + 1 + (s.drop n).length + 1 = offset + (c :: s).length + 1 := by
        rw [List.length_drop, List.length_cons]
        omega
      rw [List.cons_append, occurrencesFrom, hread, occurrencesFrom, hrest]
      simp only [hn, hget, hdrop]
      rw [ih, hoffset]
      rfl

/-- Where a text has no occurrences, the offset does not matter, and what stands before it matters
only if it is a word character. -/
theorem occurrencesFrom_eq_nil {r : Reader} {before before' : Option Char} {offset : Nat}
    {t : Text} (offset' : Nat)
    (hword : before.any Text.isWord = true → before'.any Text.isWord = true)
    (h : occurrencesFrom r before offset t = []) : occurrencesFrom r before' offset' t = [] := by
  induction t generalizing before before' offset offset' with
  | nil => simp [occurrencesFrom]
  | cons c t ih =>
      cases hread : (if before.any Text.isWord then none else r (c :: t)) with
      | some rest => simp [occurrencesFrom, hread] at h
      | none =>
          have hread' : (if before'.any Text.isWord then none else r (c :: t)) = none := by
            split at hread
            · rename_i hbefore
              rw [if_pos (hword hbefore)]
            · rw [hread, ite_self]
          rw [occurrencesFrom, hread] at h
          rw [occurrencesFrom, hread']
          exact ih (offset' + 1) id h

/-!
## The first occurrence
-/

/-- A place where a word may begin and a reader takes a beginning of the text. -/
structure StartsAt (r : Reader) (source : Text) (i : Nat) (rest : Text) : Prop where
  edge : (Window.charBefore? source i).any Text.isWord = false
  lt : i < source.length
  read : r (source.drop i) = some rest

structure FirstAt (r : Reader) (source : Text) (i : Nat) (rest : Text) : Prop where
  starts : StartsAt r source i rest
  first : ∀ j < i, ∀ rest', ¬ StartsAt r source j rest'

theorem occurrencesFrom_drop {r : Reader} {source : Text} {k : Nat} (hk : k < source.length)
    (h : ∀ rest, ¬ StartsAt r source k rest) :
    occurrencesFrom r (Window.charBefore? source k) k (source.drop k) =
      occurrencesFrom r (Window.charBefore? source (k + 1)) (k + 1) (source.drop (k + 1)) := by
  have hread : (if (Window.charBefore? source k).any Text.isWord then none
      else r (source[k] :: source.drop (k + 1))) = none := by
    split
    · rfl
    · rename_i hedge
      cases hrest : r (source[k] :: source.drop (k + 1)) with
      | none => rfl
      | some rest =>
          rw [← List.drop_eq_getElem_cons hk] at hrest
          exact absurd ⟨Bool.not_eq_true _ ▸ hedge, hk, hrest⟩ (h rest)
  have hbefore : Window.charBefore? source (k + 1) = some source[k] := List.getElem?_eq_getElem hk
  rw [List.drop_eq_getElem_cons hk, occurrencesFrom, hread, hbefore]

theorem occurrences_eq_drop {r : Reader} {source : Text} {k : Nat} (hk : k ≤ source.length)
    (h : ∀ j < k, ∀ rest, ¬ StartsAt r source j rest) :
    occurrences r source =
      occurrencesFrom r (Window.charBefore? source k) k (source.drop k) := by
  induction k with
  | zero => rfl
  | succ k ih =>
      rw [ih (by omega) fun j hj => h j (by omega)]
      exact occurrencesFrom_drop (by omega) (h k (by omega))

theorem occurrences_eq_nil {r : Reader} {source : Text}
    (h : ∀ i rest, ¬ StartsAt r source i rest) : occurrences r source = [] := by
  rw [occurrences_eq_drop (Nat.le_refl _) fun j _ => h j, List.drop_length, occurrencesFrom]

theorem FirstAt.occurrences_eq {r : Reader} {source rest : Text} {i : Nat}
    (h : FirstAt r source i rest) :
    ∃ spans, occurrences r source =
      (i, i + (source.length - (i + 1) - rest.length) + 1) :: spans := by
  have hlt := h.starts.lt
  have hread := h.starts.read
  rw [List.drop_eq_getElem_cons hlt] at hread
  rw [occurrences_eq_drop (Nat.le_of_lt hlt) h.first, List.drop_eq_getElem_cons hlt,
    occurrencesFrom, h.starts.edge]
  simp only [Bool.false_eq_true, if_false, hread, List.length_drop]
  exact ⟨_, rfl⟩

end Source
end DesignTokens
