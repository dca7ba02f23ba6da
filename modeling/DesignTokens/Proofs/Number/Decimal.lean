import DesignTokens.Number.Numeral
import DesignTokens.Proofs.Number.Infinite
import DesignTokens.Proofs.Text
import Mathlib.Data.Bool.AllAny

/-!
# Digits and points as numerals

A row of digits and points, as a color literal has it for a number, is read without
white space, underscores, signs, words and exponents. It denotes a finite float unless
it has no digit, has two points, or is too large.
-/

namespace DesignTokens

open Binary

/-!
## Digits of any script
-/

namespace Text

theorem exists_zero_of_isDecimal {c : Char} (h : isDecimal c = true) :
    ∃ z ∈ 0x30 :: zeros, ∃ k < 10, c = Char.ofNat (z + k) ∧ digitValue? c = some k := by
  rcases Option.isSome_iff_exists.mp h with ⟨k, hk⟩
  have hvalue := hk
  unfold digitValue? at hk
  simp only at hk
  split at hk
  · rename_i hdigit
    rw [Char.isDigit_iff_toNat] at hdigit
    change 0x30 ≤ c.toNat ∧ c.toNat ≤ 0x39 at hdigit
    cases hk
    refine ⟨0x30, List.mem_cons_self, c.toNat - 0x30, by omega, ?_, hvalue⟩
    rw [Nat.add_sub_cancel' hdigit.1, Char.ofNat_toNat]
  · split at hk
    · cases hk
    · rcases Option.map_eq_some_iff.mp hk with ⟨z, hz, rfl⟩
      have hrange := List.find?_some hz
      rw [Bool.and_eq_true, decide_eq_true_eq, decide_eq_true_eq] at hrange
      refine ⟨z, List.mem_cons_of_mem _ (List.mem_of_find?_eq_some hz), c.toNat - z, by omega, ?_,
        hvalue⟩
      rw [Nat.add_sub_cancel' hrange.1, Char.ofNat_toNat]

/-- What holds of each row of ten holds of every digit. -/
theorem of_isDecimal {P : Char → Prop} {c : Char}
    (hrows : ∀ z ∈ 0x30 :: zeros, ∀ k < 10, P (Char.ofNat (z + k))) (h : isDecimal c = true) :
    P c := by
  rcases exists_zero_of_isDecimal h with ⟨z, hz, k, hk, rfl, _⟩
  exact hrows z hz k hk

theorem isBlank_of_isDecimal {c : Char} (h : isDecimal c = true) : isBlank c = false :=
  of_isDecimal (P := fun c => isBlank c = false) (by decide +kernel) h

def isNumeric (c : Char) : Bool :=
  isDecimal c || c = '.'

theorem isNumeric_of_isDecimal {c : Char} (h : isDecimal c = true) : isNumeric c = true := by
  rw [isNumeric, h, Bool.true_or]

theorem isBlank_of_isNumeric {c : Char} (h : isNumeric c = true) : isBlank c = false := by
  rcases Bool.or_eq_true_iff.mp h with hdecimal | hpoint
  · exact isBlank_of_isDecimal hdecimal
  · rw [of_decide_eq_true hpoint]
    decide

theorem isWhiteSpace_of_isNumeric {c : Char} (h : isNumeric c = true) :
    isWhiteSpace c = false := by
  have hblank := isBlank_of_isNumeric h
  unfold isBlank at hblank
  exact (Bool.or_eq_false_iff.mp hblank).1

theorem stripWhiteSpace_eq_self {t : Text} (h : ∀ c ∈ t, isWhiteSpace c = false) :
    stripWhiteSpace t = t := by
  have hkept : ∀ {s : Text}, s ⊆ t → s.dropWhile isWhiteSpace = s := by
    intro s hs
    cases s with
    | nil => rfl
    | cons c s =>
        rw [List.dropWhile_cons_of_neg]
        rw [h c (hs List.mem_cons_self)]
        exact Bool.false_ne_true
  unfold stripWhiteSpace
  rw [hkept (List.Subset.refl t), hkept (List.reverse_subset.mpr (List.Subset.refl t)),
    List.reverse_reverse]

end Text

namespace Numeral

open Text

theorem isDigit_asciiDigit (c : Char) : (asciiDigit c).isDigit = isDecimal c := by
  unfold asciiDigit
  cases hvalue : digitValue? c with
  | none =>
      have hdigit : c.isDigit = false := by
        by_contra htrue
        rw [Bool.not_eq_false] at htrue
        unfold digitValue? at hvalue
        simp only [htrue, if_true] at hvalue
        cases hvalue
      rw [isDecimal, hvalue]
      exact hdigit
  | some d =>
      have hdecimal : isDecimal c = true := by
        rw [isDecimal, hvalue]
        rfl
      have hrow : ∀ k < 10, (Char.ofNat (0x30 + k)).isDigit = true := by decide
      rcases exists_zero_of_isDecimal hdecimal with ⟨_, _, k, hk, _, hk'⟩
      rw [hvalue] at hk'
      cases hk'
      rw [hdecimal]
      exact hrow d hk

theorem asciiDigit_eq_point_iff (c : Char) : asciiDigit c = '.' ↔ c = '.' := by
  constructor
  · intro h
    have hdigit := isDigit_asciiDigit c
    rw [h] at hdigit
    have hnone : digitValue? c = none := by
      rw [← Option.not_isSome_iff_eq_none, Bool.not_eq_true]
      exact hdigit.symm
    unfold asciiDigit at h
    rwa [hnone] at h
  · rintro rfl
    decide

/-!
## Rows of digits and points
-/

def IsRow (t : Text) : Prop :=
  ∀ c ∈ t, c.isDigit = true ∨ c = '.'

theorem isRow_map_asciiDigit {t : Text} (h : ∀ c ∈ t, isNumeric c = true) :
    IsRow (t.map asciiDigit) := by
  intro c hc
  rcases List.mem_map.mp hc with ⟨d, hd, rfl⟩
  rw [isDigit_asciiDigit, asciiDigit_eq_point_iff]
  simpa [isNumeric] using h d hd

theorem joined?_of_isRow {t : Text} (h : IsRow t) {before : Option Char}
    (hbefore : before ≠ some '_') : joined? before t = some t := by
  induction t generalizing before with
  | nil =>
      rw [joined?, if_neg hbefore]
  | cons c t ih =>
      have hc : c ≠ '_' := by
        rintro rfl
        rcases h _ List.mem_cons_self with hdigit | hpoint
        · exact absurd hdigit (by decide)
        · exact absurd hpoint (by decide)
      have hrest : joined? (some c) t = some t := by
        apply ih (fun d hd => h d (List.mem_cons_of_mem c hd))
        intro heq
        exact hc (Option.some.inj heq)
      rw [joined?, if_neg hc, if_neg (fun hand => hbefore hand.1), hrest]
      rfl

theorem mem_of_isDigit_or_point {c : Char} (h : c.isDigit = true ∨ c = '.') :
    c ∈ ".0123456789".toList := by
  rcases h with hdigit | rfl
  · have hrow : ∀ k < 10, Char.ofNat (0x30 + k) ∈ ".0123456789".toList := by decide
    rw [Char.isDigit_iff_toNat] at hdigit
    change 0x30 ≤ c.toNat ∧ c.toNat ≤ 0x39 at hdigit
    have hmem := hrow (c.toNat - 0x30) (by omega)
    rwa [Nat.add_sub_cancel' hdigit.1, Char.ofNat_toNat] at hmem
  · decide

theorem plain_of_isDigit_or_point {c : Char} (h : c.isDigit = true ∨ c = '.') :
    c ≠ '-' ∧ c ≠ '+' ∧ c.toLower ≠ 'i' ∧ c.toLower ≠ 'n' := by
  have hplain : ∀ d ∈ ".0123456789".toList,
      d ≠ '-' ∧ d ≠ '+' ∧ d.toLower ≠ 'i' ∧ d.toLower ≠ 'n' :=
    List.all_iff_forall_prop.mp (by decide)
  exact hplain c (mem_of_isDigit_or_point h)

theorem unsigned?_of_head {t : Text} (h : ∀ c ∈ t.head?, c.isDigit = true ∨ c = '.') :
    unsigned? t = decimal? t := by
  cases t with
  | nil => rfl
  | cons c t =>
      obtain ⟨-, -, hi, hn⟩ := plain_of_isDigit_or_point (h c rfl)
      simp [unsigned?, hi, hn]

theorem ascii?_of_head {t : Text} (h : ∀ c ∈ t.head?, c.isDigit = true ∨ c = '.') :
    ascii? t = decimal? t := by
  rw [← unsigned?_of_head h]
  cases t with
  | nil => rfl
  | cons c t =>
      obtain ⟨hminus, hplus, -, -⟩ := plain_of_isDigit_or_point (h c rfl)
      unfold ascii?
      split
      · rename_i heq
        exact absurd (List.cons.inj heq).1 hminus
      · rename_i heq
        exact absurd (List.cons.inj heq).1 hplus
      · rfl

theorem IsRow.head {t : Text} (h : IsRow t) : ∀ c ∈ t.head?, c.isDigit = true ∨ c = '.' :=
  fun c hc => h c (List.mem_of_mem_head? hc)

theorem joined?_map_asciiDigit {t : Text} (h : ∀ c ∈ t, isNumeric c = true) {before : Option Char}
    (hbefore : before ≠ some '_') : joined? before (t.map asciiDigit) = some (t.map asciiDigit) :=
  joined?_of_isRow (isRow_map_asciiDigit h) hbefore

theorem float?_of_isNumeric {t : Text} (h : ∀ c ∈ t, isNumeric c = true) :
    float? t = decimal? (t.map asciiDigit) := by
  have hjoined : joined? none (t.map asciiDigit) = some (t.map asciiDigit) :=
    joined?_map_asciiDigit h nofun
  unfold float?
  rw [stripWhiteSpace_eq_self fun c hc => isWhiteSpace_of_isNumeric (h c hc), hjoined,
    Option.bind_some, ascii?_of_head (isRow_map_asciiDigit h).head]

theorem float?_neg {t : Text} (h : ∀ c ∈ t, isNumeric c = true) :
    float? ('-' :: t) = (float? t).map fun x => -x := by
  have hwhite : ∀ c ∈ '-' :: t, isWhiteSpace c = false :=
    List.forall_mem_cons.mpr ⟨by decide, fun c hc => isWhiteSpace_of_isNumeric (h c hc)⟩
  have hminus : asciiDigit '-' = '-' := by decide
  have hjoined : joined? none ('-' :: t.map asciiDigit) = some ('-' :: t.map asciiDigit) := by
    rw [joined?, if_neg (by decide), if_neg (fun hand => nomatch hand.1),
      joined?_map_asciiDigit h (by decide)]
    rfl
  rw [float?_of_isNumeric h, ← unsigned?_of_head (isRow_map_asciiDigit h).head, float?,
    stripWhiteSpace_eq_self hwhite, List.map_cons, hminus, hjoined, Option.bind_some, ascii?]

/-!
## Decimals
-/

theorem decimal?_whole {w : Text} (hw : ∀ c ∈ w, c.isDigit = true) (hne : w ≠ []) :
    decimal? w = some (nearestDecimal w 0) := by
  simp [decimal?, List.takeWhile_eq_self_iff.mpr hw, List.dropWhile_eq_nil_iff.mpr hw, hne]

theorem takeWhile_isDigit_cons {w : Text} (hw : ∀ c ∈ w, c.isDigit = true) {c : Char}
    (hc : c.isDigit = false) (t : Text) :
    (w ++ c :: t).takeWhile Char.isDigit = w ∧ (w ++ c :: t).dropWhile Char.isDigit = c :: t := by
  have hstop : ∀ d ∈ (c :: t).head?, d.isDigit = false := by
    intro d hd
    cases hd
    exact hc
  exact ⟨Text.takeWhile_append_of_stop hw hstop, Text.dropWhile_append_of_stop hw hstop⟩

theorem decimal?_point {w f : Text} (hw : ∀ c ∈ w, c.isDigit = true)
    (hf : ∀ c ∈ f, c.isDigit = true) :
    decimal? (w ++ '.' :: f) =
      if w = [] ∧ f = [] then none else some (nearestDecimal (w ++ f) (-f.length)) := by
  rcases takeWhile_isDigit_cons hw (c := '.') (by decide) f with ⟨htake, hdrop⟩
  simp [decimal?, htake, hdrop, List.takeWhile_eq_self_iff.mpr hf,
    List.dropWhile_eq_nil_iff.mpr hf]

theorem decimal?_points {w f g : Text} (hw : ∀ c ∈ w, c.isDigit = true)
    (hf : ∀ c ∈ f, c.isDigit = true) : decimal? (w ++ '.' :: (f ++ '.' :: g)) = none := by
  rcases takeWhile_isDigit_cons hw (c := '.') (by decide) (f ++ '.' :: g) with ⟨htake, hdrop⟩
  rcases takeWhile_isDigit_cons hf (c := '.') (by decide) g with ⟨htake', hdrop'⟩
  simp [decimal?, htake, hdrop, htake', hdrop']

theorem exists_split_of_isRow {t : Text} (h : IsRow t) :
    ∃ w, (∀ c ∈ w, c.isDigit = true) ∧ (t = w ∨ ∃ rest, t = w ++ '.' :: rest ∧ IsRow rest) := by
  induction t with
  | nil => exact ⟨[], nofun, .inl rfl⟩
  | cons c t ih =>
      have hrest : IsRow t := fun d hd => h d (List.mem_cons_of_mem c hd)
      rcases h c List.mem_cons_self with hdigit | rfl
      · rcases ih hrest with ⟨w, hw, ht⟩
        refine ⟨c :: w, List.forall_mem_cons.mpr ⟨hdigit, hw⟩, ?_⟩
        rcases ht with rfl | ⟨rest, rfl, hrow⟩
        · exact .inl rfl
        · exact .inr ⟨rest, rfl, hrow⟩
      · exact ⟨[], nofun, .inr ⟨t, rfl, hrest⟩⟩

def places (t : Text) : Nat :=
  (t.dropWhile (· ≠ '.')).tail.length

theorem count_point_eq_zero {p : Char → Bool} {w : Text} (hpoint : p '.' = false)
    (hw : ∀ c ∈ w, p c = true) : w.count '.' = 0 := by
  rw [List.count_eq_zero]
  intro hmem
  exact Bool.false_ne_true (hpoint.symm.trans (hw '.' hmem))

theorem count_point_of_isDigit {w : Text} (hw : ∀ c ∈ w, c.isDigit = true) :
    w.count '.' = 0 :=
  count_point_eq_zero (by decide) hw

theorem places_of_isDigit {w : Text} (t : Text) (hw : ∀ c ∈ w, c.isDigit = true) :
    places (w ++ t) = places t := by
  unfold places
  rw [List.dropWhile_append_of_pos]
  intro c hc
  rw [decide_eq_true_eq]
  rintro rfl
  exact absurd (hw '.' hc) (by decide)

theorem any_iff_ne_nil {p : Char → Bool} {w : Text} (hw : ∀ c ∈ w, p c = true) :
    w.any p = true ↔ w ≠ [] := by
  cases w with
  | nil => exact iff_of_false Bool.false_ne_true fun h => h rfl
  | cons c w => simp [hw c List.mem_cons_self]

theorem decimal?_of_isRow {t : Text} (h : IsRow t) :
    decimal? t =
      if t.any Char.isDigit = true ∧ t.count '.' ≤ 1 then
        some (nearestDecimal (t.filter Char.isDigit) (-(places t : Nat)))
      else none := by
  -- the digits up to the first point, and those up to the second one
  rcases exists_split_of_isRow h with ⟨w, hw, rfl | ⟨rest, rfl, hrest⟩⟩
  · have hplaces : places t = 0 := by
      have hnil := places_of_isDigit [] hw
      rwa [List.append_nil] at hnil
    have hcount := count_point_of_isDigit hw
    by_cases hne : t = []
    · rw [if_neg (fun hand => (any_iff_ne_nil hw).mp hand.1 hne), hne]
      rfl
    · rw [if_pos ⟨(any_iff_ne_nil hw).mpr hne, by omega⟩, decimal?_whole hw hne,
        List.filter_eq_self.mpr hw, hplaces]
      rfl
  · rcases exists_split_of_isRow hrest with ⟨f, hf, rfl | ⟨g, rfl, _⟩⟩
    · have hdigits : (w ++ '.' :: rest).any Char.isDigit = true ↔ ¬ (w = [] ∧ rest = []) := by
        rw [List.any_append, List.any_cons, Bool.or_eq_true, any_iff_ne_nil hw, Bool.or_eq_true,
          any_iff_ne_nil hf]
        simp only [show ('.' : Char).isDigit = false by decide, Bool.false_eq_true, false_or]
        tauto
      have hplaces : places (w ++ '.' :: rest) = rest.length := by
        rw [places_of_isDigit _ hw]
        rfl
      have hcount : (w ++ '.' :: rest).count '.' = 1 := by
        rw [List.count_append, count_point_of_isDigit hw, List.count_cons_self,
          count_point_of_isDigit hf]
      have hfilter : (w ++ '.' :: rest).filter Char.isDigit = w ++ rest := by
        rw [List.filter_append, List.filter_eq_self.mpr hw, List.filter_cons_of_neg (by decide),
          List.filter_eq_self.mpr hf]
      rw [decimal?_point hw hf, hfilter, hplaces]
      by_cases hempty : w = [] ∧ rest = []
      · rw [if_pos hempty, if_neg (fun hand => hdigits.mp hand.1 hempty)]
      · rw [if_neg hempty, if_pos ⟨hdigits.mpr hempty, hcount.le⟩]
    · have hcount : 1 < (w ++ '.' :: (f ++ '.' :: g)).count '.' := by
        rw [List.count_append, List.count_cons_self, List.count_append, List.count_cons_self]
        omega
      rw [decimal?_points hw hf, if_neg (fun hand => not_le.mpr hcount hand.2)]

/-!
## Numbers that are finite
-/

def IsNumber (t : Text) : Prop :=
  ∃ x a, float? t = some x ∧ Denotes x a

/-- The number that digits with at most one point among them denote. -/
def decimalValue (t : Text) : ℚ :=
  (digitsValue ((t.map asciiDigit).filter Char.isDigit) : ℕ) / 10 ^ places t

theorem cast_tenPow (n : Nat) : ((tenPow n : ℕ) : ℚ) = 10 ^ n := by
  rw [show tenPow n = 10 ^ n from rfl]
  push_cast
  rfl

theorem tenPow_pos (n : Nat) : 0 < tenPow n :=
  Nat.pow_pos (by decide)

/-- The fraction is not longer than the digits, so that the power of ten is computed. -/
theorem nearestDecimal_eq {ds : Text} {k : Nat} (hk : k ≤ ds.length) (hne : digitsValue ds ≠ 0) :
    nearestDecimal ds (-k) = nearest (digitsValue ds) (tenPow k) := by
  have hpower : (- -(k : ℤ)).toNat = k := by omega
  have hone : (-(k : ℤ)).toNat = 0 := by omega
  unfold nearestDecimal
  simp only
  rw [if_neg (by omega), if_neg (by omega), hpower, hone]
  exact congrArg (nearest · (tenPow k)) (Nat.mul_one _)

theorem exists_denotes_nearestDecimal_iff {ds : Text} {k : Nat} (hk : k ≤ ds.length) :
    (∃ a, Denotes (nearestDecimal ds (-k)) a) ↔ (digitsValue ds : ℚ) / 10 ^ k < limit := by
  by_cases hzero : digitsValue ds = 0
  · have hvalue : nearestDecimal ds (-k) = nearest 0 1 := if_pos (.inl hzero)
    rw [hvalue, hzero, Nat.cast_zero, zero_div]
    exact iff_of_true ⟨0, denotes_nearest_zero 1⟩ limit_pos
  · rw [nearestDecimal_eq hk hzero, ← cast_tenPow]
    constructor
    · rintro ⟨a, ha⟩
      by_contra hlarge
      have hinfinite := (isInfinite_nearest (tenPow_pos k) (not_lt.mp hlarge)).isInf_eq
      rw [ha.isInf_eq] at hinfinite
      cases hinfinite
    · intro hlt
      rcases denotes_nearest (digitsValue ds) (tenPow_pos k) hlt with ⟨r, _, hr⟩
      exact ⟨r, hr⟩

theorem places_le {t : Text} (h : IsRow t) (hcount : t.count '.' ≤ 1) :
    places t ≤ (t.filter Char.isDigit).length := by
  rcases exists_split_of_isRow h with ⟨w, hw, rfl | ⟨rest, rfl, hrest⟩⟩
  · have hplaces := places_of_isDigit [] hw
    rw [List.append_nil] at hplaces
    rw [hplaces]
    exact Nat.zero_le _
  · have hdigits : ∀ c ∈ rest, c.isDigit = true := by
      rw [List.count_append, List.count_cons_self] at hcount
      have hnone : '.' ∉ rest := List.count_eq_zero.mp (by omega)
      intro c hc
      rcases hrest c hc with hdigit | rfl
      · exact hdigit
      · exact absurd hc hnone
    rw [places_of_isDigit _ hw, List.filter_append, List.filter_cons_of_neg (by decide),
      List.filter_eq_self.mpr hdigits, List.length_append]
    exact Nat.le_add_left _ _

theorem count_point_map (t : Text) : (t.map asciiDigit).count '.' = t.count '.' := by
  unfold List.count
  rw [List.countP_map]
  apply List.countP_congr
  intro c _
  simp [asciiDigit_eq_point_iff]

theorem any_isDigit_map (t : Text) :
    (t.map asciiDigit).any Char.isDigit = t.any isDecimal := by
  simp [List.any_map, Function.comp_def, isDigit_asciiDigit]

theorem places_map (t : Text) : places (t.map asciiDigit) = places t := by
  unfold places
  simp [List.dropWhile_map, Function.comp_def, asciiDigit_eq_point_iff]

/--
A row of digits and points is a number if it has a digit, at most one point, and a value
below the bound of the floats.
-/
theorem isNumber_iff {t : Text} (h : ∀ c ∈ t, isNumeric c = true) :
    IsNumber t ↔ t.any isDecimal = true ∧ t.count '.' ≤ 1 ∧ decimalValue t < limit := by
  have hrow := isRow_map_asciiDigit h
  unfold IsNumber
  rw [float?_of_isNumeric h, decimal?_of_isRow hrow, any_isDigit_map, count_point_map, places_map]
  by_cases hform : t.any isDecimal = true ∧ t.count '.' ≤ 1
  · have hplaces : places t ≤ ((t.map asciiDigit).filter Char.isDigit).length := by
      have hle := places_le hrow (by rw [count_point_map]; exact hform.2)
      rwa [places_map] at hle
    have hfinite := exists_denotes_nearestDecimal_iff hplaces
    rw [if_pos hform]
    constructor
    · rintro ⟨x, a, hx, ha⟩
      cases hx
      exact ⟨hform.1, hform.2, hfinite.mp ⟨a, ha⟩⟩
    · rintro ⟨_, _, hlt⟩
      rcases hfinite.mpr hlt with ⟨a, ha⟩
      exact ⟨_, a, rfl, ha⟩
  · rw [if_neg hform]
    constructor
    · rintro ⟨x, a, hx, _⟩
      cases hx
    · rintro ⟨hdigit, hcount, _⟩
      exact absurd ⟨hdigit, hcount⟩ hform

end Numeral
end DesignTokens
