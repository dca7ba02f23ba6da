import DesignTokens.Proofs.Number.Decimal
import DesignTokens.Style.Shape

/-!
# Lengths

A length is a sign, a magnitude and a unit. The sign and the magnitude together are a
numeral, whatever script the digits are from.
-/

namespace DesignTokens
namespace Shape

open Text (isDecimal isNumeric)

/-!
## Magnitudes
-/

structure IsMagnitude (t : Text) : Prop where
  numeric : ∀ c ∈ t, isNumeric c = true
  digit : t.any isDecimal = true
  point : t.count '.' ≤ 1

theorem count_point_of_isDecimal {w : Text} (hw : ∀ c ∈ w, isDecimal c = true) :
    w.count '.' = 0 :=
  Numeral.count_point_eq_zero (by decide) hw

theorem isMagnitude_whole {w : Text} (hw : ∀ c ∈ w, isDecimal c = true) (hne : w ≠ []) :
    IsMagnitude w where
  numeric c hc := Text.isNumeric_of_isDecimal (hw c hc)
  digit := (Numeral.any_iff_ne_nil hw).mpr hne
  point := by rw [count_point_of_isDecimal hw]; exact Nat.zero_le 1

theorem isMagnitude_point {w f : Text} (hw : ∀ c ∈ w, isDecimal c = true)
    (hf : ∀ c ∈ f, isDecimal c = true) (hne : w ++ f ≠ []) : IsMagnitude (w ++ '.' :: f) where
  numeric := List.forall_mem_append.mpr ⟨fun c hc => Text.isNumeric_of_isDecimal (hw c hc),
    List.forall_mem_cons.mpr ⟨by decide, fun c hc => Text.isNumeric_of_isDecimal (hf c hc)⟩⟩
  digit := by
    have hany := (Numeral.any_iff_ne_nil (List.forall_mem_append.mpr ⟨hw, hf⟩)).mpr hne
    rw [List.any_append, Bool.or_eq_true] at hany
    rw [List.any_append, List.any_cons, Bool.or_eq_true, Bool.or_eq_true]
    exact hany.imp_right .inr
  point := by
    rw [List.count_append, List.count_cons_self, count_point_of_isDecimal hw,
      count_point_of_isDecimal hf]

theorem magnitude?_eq_some {t magnitude rest : Text} (h : magnitude? t = some (magnitude, rest)) :
    t = magnitude ++ rest ∧ IsMagnitude magnitude := by
  have htake : ∀ {u : Text}, ∀ c ∈ u.takeWhile isDecimal, isDecimal c = true :=
    fun c hc => List.mem_takeWhile_imp hc
  have ht := t.takeWhile_append_dropWhile (p := isDecimal)
  unfold magnitude? at h
  simp only at h
  split at h
  · -- a fraction alone
    rename_i r hwhole hrest
    rw [hwhole, hrest] at ht
    split at h
    · cases h
    · rename_i hfraction
      cases h
      refine ⟨?_, isMagnitude_point (w := []) nofun htake hfraction⟩
      rw [← ht, List.nil_append, List.cons_append, List.takeWhile_append_dropWhile]
  · cases h
  · -- a point behind digits
    rename_i r hrest hwhole
    cases h
    refine ⟨?_, isMagnitude_point htake htake (List.append_ne_nil_of_left_ne_nil hwhole _)⟩
    rw [List.append_assoc, List.cons_append, List.takeWhile_append_dropWhile, ← hrest, ht]
  · rename_i hwhole _ _
    cases h
    exact ⟨ht.symm, isMagnitude_whole htake hwhole⟩

theorem IsMagnitude.exists_float? {t : Text} (h : IsMagnitude t) :
    ∃ x, Numeral.float? t = some x := by
  rw [Numeral.float?_of_isNumeric h.numeric,
    Numeral.decimal?_of_isRow (Numeral.isRow_map_asciiDigit h.numeric), Numeral.any_isDigit_map,
    Numeral.count_point_map, if_pos ⟨h.digit, h.point⟩]
  exact ⟨_, rfl⟩

/-!
## Signs and units
-/

theorem removeLead_of_ne {t : Text} (h : ∀ r, t ≠ '-' :: r) : Text.removeLead ['-'] t = t := by
  rcases Text.removeLead_cases ['-'] t with hsame | hminus
  · exact hsame
  · exact absurd hminus (h _)

theorem lengthParts?_minus (t : Text) :
    lengthParts? ('-' :: t) =
      (magnitude? t).bind fun p => (unit? p.2).map fun unit => ('-' :: p.1, unit) := by
  unfold lengthParts?
  simp only
  cases magnitude? t <;> rfl

theorem lengthParts?_of_ne {t : Text} (h : ∀ r, t ≠ '-' :: r) :
    lengthParts? t = (magnitude? t).bind fun p => (unit? p.2).map fun unit => (p.1, unit) := by
  unfold lengthParts?
  split
  rename_i hsplit
  split at hsplit
  · exact absurd rfl (h _)
  · cases hsplit
    cases magnitude? t <;> rfl

theorem lengthParts?_eq_some {t digits : Text} {unit : Option Text}
    (h : lengthParts? t = some (digits, unit)) :
    ∃ magnitude rest, magnitude? (Text.removeLead ['-'] t) = some (magnitude, rest) ∧
      unit? rest = some unit ∧ (digits = magnitude ∨ digits = '-' :: magnitude) := by
  by_cases hminus : ∃ r, t = '-' :: r
  · rcases hminus with ⟨r, rfl⟩
    rw [lengthParts?_minus] at h
    rcases Option.bind_eq_some_iff.mp h with ⟨⟨magnitude, rest⟩, hmagnitude, h⟩
    rcases Option.map_eq_some_iff.mp h with ⟨unit, hunit, heq⟩
    cases heq
    exact ⟨magnitude, rest, hmagnitude, hunit, .inr rfl⟩
  · rw [not_exists] at hminus
    rw [lengthParts?_of_ne hminus] at h
    rcases Option.bind_eq_some_iff.mp h with ⟨⟨magnitude, rest⟩, hmagnitude, h⟩
    rcases Option.map_eq_some_iff.mp h with ⟨unit, hunit, heq⟩
    cases heq
    rw [removeLead_of_ne hminus]
    exact ⟨magnitude, rest, hmagnitude, hunit, .inl rfl⟩

/-- The sign and the magnitude of a length are a numeral. -/
theorem exists_float?_of_lengthParts? {t digits : Text} {unit : Option Text}
    (h : lengthParts? t = some (digits, unit)) : ∃ x, Numeral.float? digits = some x := by
  rcases lengthParts?_eq_some h with ⟨magnitude, rest, hmagnitude, -, hdigits⟩
  have hform := (magnitude?_eq_some hmagnitude).2
  rcases hform.exists_float? with ⟨x, hx⟩
  rcases hdigits with rfl | rfl
  · exact ⟨x, hx⟩
  · exact ⟨-x, by rw [Numeral.float?_neg hform.numeric, hx, Option.map_some]⟩

end Shape
end DesignTokens
