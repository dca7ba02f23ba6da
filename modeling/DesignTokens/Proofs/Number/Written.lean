import DesignTokens.Number.Written
import DesignTokens.Proofs.Number.Shortest

/-!
# Written numbers are read back

The text of a float is read as the same float. Its digits, at their places or in front of
an exponent, stand for the decimal that was chosen, and this decimal rounds to the float.
-/

namespace DesignTokens
namespace Numeral

open Binary

/-!
## Rows of digits
-/

theorem digitsValue_eq (ds : Text) : digitsValue ds = Nat.ofDigitChars 10 ds 0 :=
  rfl

theorem digitsValue_append (ds es : Text) :
    digitsValue (ds ++ es) = 10 ^ es.length * digitsValue ds + digitsValue es := by
  rw [digitsValue_eq, digitsValue_eq, digitsValue_eq, Nat.ofDigitChars_append,
    Nat.ofDigitChars_eq_ofDigitChars_zero]

theorem digitsValue_ofNat (n : Nat) : digitsValue (Text.ofNat n) = n :=
  Nat.ofDigitChars_ten_toDigits

theorem digitsValue_zeros (n : Nat) : digitsValue (List.replicate n '0') = 0 := by
  rw [digitsValue_eq, Nat.ofDigitChars_replicate_zero, mul_zero]

theorem digitsValue_lt {ds : Text} (h : ∀ c ∈ ds, c.isDigit = true) :
    digitsValue ds < 10 ^ ds.length := by
  induction ds using List.reverseRecOn with
  | nil => decide
  | append_singleton ds c ih =>
      have hc : c.isDigit = true := h c (by simp)
      have hlt := ih fun d hd => h d (List.mem_append_left _ hd)
      rw [Char.isDigit_iff_toNat] at hc
      change 0x30 ≤ c.toNat ∧ c.toNat ≤ 0x39 at hc
      have hvalue : digitsValue [c] = c.toNat - 0x30 := by
        rw [digitsValue_eq, Nat.ofDigitChars_cons, Nat.ofDigitChars_nil, mul_zero, zero_add]
        rfl
      rw [digitsValue_append, List.length_append, List.length_singleton, pow_succ]
      omega

theorem isDigit_of_mem_ofNat {n : Nat} {c : Char} (h : c ∈ Text.ofNat n) : c.isDigit = true :=
  Nat.isDigit_of_mem_toDigits (by decide) (by decide) h

theorem ofNat_ne_nil (n : Nat) : Text.ofNat n ≠ [] :=
  Nat.toDigits_ne_nil

theorem isDigit_of_mem_zeros {n : Nat} {c : Char} (h : c ∈ List.replicate n '0') :
    c.isDigit = true := by
  rw [List.eq_of_mem_replicate h]
  decide

section ZeroPadded

variable {width : Nat} {ds : Text}

theorem isDigit_zeroPadded (h : ∀ c ∈ ds, c.isDigit = true) :
    ∀ c ∈ NumberStyle.zeroPadded width ds, c.isDigit = true :=
  List.forall_mem_append.mpr ⟨fun _ => isDigit_of_mem_zeros, h⟩

theorem digitsValue_zeroPadded : digitsValue (NumberStyle.zeroPadded width ds) = digitsValue ds := by
  rw [NumberStyle.zeroPadded, digitsValue_append, digitsValue_zeros, mul_zero, zero_add]

theorem length_zeroPadded : (NumberStyle.zeroPadded width ds).length = max width ds.length := by
  rw [NumberStyle.zeroPadded, List.length_append, List.length_replicate]
  omega

end ZeroPadded

/-!
## Digits and a power of ten
-/

section Rounding

variable {m : Nat} {e : ℤ} {q : ℚ}

theorem two_zpow_le_of_roundsTo (h : RoundsTo m e q) (hm : 0 < m) (hreduced : IsReduced m e) :
    2 ^ (-1075 : ℤ) ≤ q := by
  have hm' : (1 : ℚ) ≤ m := by exact_mod_cast hm
  calc (2 : ℚ) ^ (-1075 : ℤ) ≤ 2 ^ (e - 1) :=
        zpow_le_zpow_right₀ (by norm_num) (by have := hreduced.least; omega)
    _ = 1 / 2 * 2 ^ e := by
        rw [two_zpow_sub_one]
        ring
    _ ≤ (m - 1 / 2) * 2 ^ e := mul_le_mul_of_nonneg_right (by linarith) (by positivity)
    _ ≤ q := h.half_le

theorem lt_two_zpow_of_roundsTo (h : RoundsTo m e q) (hreduced : IsReduced m e) :
    q < 2 ^ (1024 : ℤ) := by
  calc q < 2 ^ 53 * 2 ^ e := h.lt_of_isReduced hreduced
    _ = 2 ^ (((53 : ℕ) : ℤ) + e) := two_zpow_add 53 e
    _ ≤ 2 ^ (1024 : ℤ) :=
        zpow_le_zpow_right₀ (by norm_num) (by have := hreduced.greatest; push_cast; omega)

theorem two_pow_lt_ten_pow {n : Nat} (h : n ≤ 1200) : (2 : ℚ) ^ n < 10 ^ 400 := by
  calc (2 : ℚ) ^ n ≤ 2 ^ (3 * 400) := pow_le_pow_right₀ (by norm_num) h
    _ = 8 ^ 400 := by
        rw [pow_mul]
        norm_num only
    _ < 10 ^ 400 := pow_lt_pow_left₀ (by norm_num) (by norm_num) (by norm_num)

theorem ten_zpow_lt_two_zpow : (10 : ℚ) ^ (-400 : ℤ) < 2 ^ (-1075 : ℤ) := by
  rw [zpow_neg, zpow_neg, zpow_ofNat, zpow_ofNat]
  exact inv_strictAnti₀ (by positivity) (two_pow_lt_ten_pow (by decide))

theorem two_zpow_lt_ten_zpow : (2 : ℚ) ^ (1024 : ℤ) < 10 ^ (400 : ℤ) := by
  rw [zpow_ofNat, zpow_ofNat]
  exact two_pow_lt_ten_pow (by decide)

/-- Digits whose number rounds to a float are read as this float. The powers of ten that are
not computed are beyond all floats. -/
theorem denotes_nearestDecimal_of_roundsTo {ds : Text} {k : ℤ}
    (hdigits : ∀ c ∈ ds, c.isDigit = true) (h : RoundsTo m e (digitsValue ds * 10 ^ k))
    (hm : 0 < m) (hreduced : IsReduced m e) :
    Denotes (nearestDecimal ds k) (m * 2 ^ e) := by
  have hpower : (0 : ℚ) < 10 ^ k := by positivity
  have hne : digitsValue ds ≠ 0 := by
    intro hzero
    have hpos := h.pos hm
    rw [hzero, Nat.cast_zero, zero_mul] at hpos
    exact absurd hpos (lt_irrefl 0)
  have hlow : ¬ k + ds.length < -400 := by
    intro hsmall
    have hdigits' : (digitsValue ds : ℚ) < 10 ^ (ds.length : ℤ) := by
      rw [zpow_natCast]
      exact_mod_cast digitsValue_lt hdigits
    have hlt : (digitsValue ds : ℚ) * 10 ^ k < 10 ^ (-400 : ℤ) := by
      calc (digitsValue ds : ℚ) * 10 ^ k < 10 ^ (ds.length : ℤ) * 10 ^ k :=
            mul_lt_mul_of_pos_right hdigits' hpower
        _ = 10 ^ ((ds.length : ℤ) + k) := (zpow_add₀ (by norm_num) _ _).symm
        _ ≤ 10 ^ (-400 : ℤ) := zpow_le_zpow_right₀ (by norm_num) (by omega)
    exact absurd (two_zpow_le_of_roundsTo h hm hreduced)
      (not_le.mpr (hlt.trans ten_zpow_lt_two_zpow))
  have hhigh : ¬ 400 < k := by
    intro hlarge
    have hone : (1 : ℚ) ≤ digitsValue ds := by exact_mod_cast Nat.pos_of_ne_zero hne
    have hle : (10 : ℚ) ^ (400 : ℤ) ≤ digitsValue ds * 10 ^ k := by
      calc (10 : ℚ) ^ (400 : ℤ) ≤ 10 ^ k := zpow_le_zpow_right₀ (by norm_num) hlarge.le
        _ = 1 * 10 ^ k := (one_mul _).symm
        _ ≤ digitsValue ds * 10 ^ k := mul_le_mul_of_nonneg_right hone hpower.le
    exact absurd (lt_two_zpow_of_roundsTo h hreduced)
      (not_lt.mpr (two_zpow_lt_ten_zpow.le.trans hle))
  have hread : nearestDecimal ds k =
      nearest (digitsValue ds * tenPow k.toNat) (tenPow (-k).toNat) := by
    unfold nearestDecimal
    simp only
    rw [if_neg (not_or.mpr ⟨hne, hlow⟩), if_neg hhigh]
  rw [Decimal.ten_zpow_eq, mul_div_assoc', ← Nat.cast_mul] at h
  rw [hread]
  exact h.denotes_nearest (tenPow_pos _) hm hreduced

end Rounding

/-!
## Decimals with an exponent
-/

theorem exponent?_written (width : Nat) (e : ℤ) :
    exponent? ((if e < 0 then '-' else '+') ::
      NumberStyle.zeroPadded width (Text.ofNat e.natAbs)) = some e := by
  have hdigits : ∀ c ∈ NumberStyle.zeroPadded width (Text.ofNat e.natAbs), c.isDigit = true :=
    isDigit_zeroPadded fun _ => isDigit_of_mem_ofNat
  have hne : NumberStyle.zeroPadded width (Text.ofNat e.natAbs) ≠ [] :=
    List.append_ne_nil_of_right_ne_nil _ (ofNat_ne_nil _)
  have hvalue : digitsValue (NumberStyle.zeroPadded width (Text.ofNat e.natAbs)) = e.natAbs := by
    rw [digitsValue_zeroPadded, digitsValue_ofNat]
  unfold exponent?
  by_cases he : e < 0
  · simp only [he, if_true]
    rw [if_pos ⟨hne, List.all_eq_true.mpr hdigits⟩, hvalue]
    congr 1
    omega
  · simp only [he, if_false]
    rw [if_pos ⟨hne, List.all_eq_true.mpr hdigits⟩, hvalue]
    congr 1
    simp
    omega

theorem decimal?_exponent {w r : Text} (hw : ∀ c ∈ w, c.isDigit = true) (hne : w ≠ []) :
    decimal? (w ++ 'e' :: r) = (exponent? r).map fun e => nearestDecimal w e := by
  rcases takeWhile_isDigit_cons hw (c := 'e') (by decide) r with ⟨htake, hdrop⟩
  simp [decimal?, htake, hdrop, hne]

theorem decimal?_point_exponent {w f r : Text} (hw : ∀ c ∈ w, c.isDigit = true)
    (hf : ∀ c ∈ f, c.isDigit = true) (hne : w ≠ []) :
    decimal? (w ++ '.' :: (f ++ 'e' :: r)) =
      (exponent? r).map fun e => nearestDecimal (w ++ f) (e - f.length) := by
  rcases takeWhile_isDigit_cons hw (c := '.') (by decide) (f ++ 'e' :: r) with ⟨htake, hdrop⟩
  rcases takeWhile_isDigit_cons hf (c := 'e') (by decide) r with ⟨htake', hdrop'⟩
  simp [decimal?, htake, hdrop, htake', hdrop', hne]

def IsDecimalChar (c : Char) : Prop :=
  c.isDigit = true ∨ c ∈ ['.', 'e', '+', '-']

/--
Whether a text is a decimal with a point or an exponent, and is read as the float nearest
to this number.
-/
structure IsDecimalOf (t : Text) (q : ℚ) : Prop where
  begins : ∃ c ∈ t.head?, c.isDigit = true
  chars : ∀ c ∈ t, IsDecimalChar c
  marked : '.' ∈ t ∨ 'e' ∈ t
  reads : ∃ ds k, (∀ c ∈ ds, c.isDigit = true) ∧ (digitsValue ds : ℚ) * 10 ^ (k : ℤ) = q ∧
    decimal? t = some (nearestDecimal ds k)

theorem isDecimalChar_exponentPart (style : NumberStyle) (e : ℤ) :
    ∀ c ∈ style.exponentPart e, IsDecimalChar c := by
  unfold NumberStyle.exponentPart
  rw [List.forall_mem_append]
  constructor
  · have hminus : ['e', '-'] ⊆ ['.', 'e', '+', '-'] := by simp
    have hplus : ['e', '+'] ⊆ ['.', 'e', '+', '-'] := by simp
    split
    · exact fun c hc => .inr (hminus hc)
    · exact fun c hc => .inr (hplus hc)
  · exact fun c hc => .inl (isDigit_zeroPadded (fun _ => isDigit_of_mem_ofNat) c hc)

section Layouts

variable {w f : Text} {q : ℚ} (hw : ∀ c ∈ w, c.isDigit = true) (hf : ∀ c ∈ f, c.isDigit = true)
  (hne : w ≠ [])

include hw hne

theorem exists_head_append (r : Text) : ∃ c ∈ (w ++ r).head?, c.isDigit = true := by
  cases w with
  | nil => exact absurd rfl hne
  | cons c w => exact ⟨c, rfl, hw c List.mem_cons_self⟩

theorem isDecimalOf_exponent (style : NumberStyle) {e : ℤ}
    (hq : (digitsValue w : ℚ) * 10 ^ e = q) : IsDecimalOf (w ++ style.exponentPart e) q := by
  refine ⟨exists_head_append hw hne _, ?_, ?_, w, e, hw, hq, ?_⟩
  · exact List.forall_mem_append.mpr ⟨fun c hc => .inl (hw c hc), isDecimalChar_exponentPart style e⟩
  · exact .inr (List.mem_append_right w List.mem_cons_self)
  · change decimal? (w ++ 'e' :: _) = _
    rw [decimal?_exponent hw hne]
    change (exponent? ((if e < 0 then '-' else '+') :: NumberStyle.zeroPadded _ _)).map _ = _
    rw [exponent?_written]
    rfl

include hf

theorem isDecimalOf_point (hq : (digitsValue (w ++ f) : ℚ) * 10 ^ (-(f.length : ℤ)) = q) :
    IsDecimalOf (w ++ '.' :: f) q := by
  refine ⟨exists_head_append hw hne _, ?_, ?_, w ++ f, -f.length, ?_, hq, ?_⟩
  · rw [List.forall_mem_append, List.forall_mem_cons]
    exact ⟨fun c hc => .inl (hw c hc), .inr (by decide), fun c hc => .inl (hf c hc)⟩
  · exact .inl (List.mem_append_right w List.mem_cons_self)
  · exact List.forall_mem_append.mpr ⟨hw, hf⟩
  · rw [decimal?_point hw hf, if_neg fun hand => hne hand.1]

theorem isDecimalOf_point_exponent (style : NumberStyle) {e : ℤ}
    (hq : (digitsValue (w ++ f) : ℚ) * 10 ^ (e - f.length) = q) :
    IsDecimalOf (w ++ '.' :: (f ++ style.exponentPart e)) q := by
  refine ⟨exists_head_append hw hne _, ?_, ?_, w ++ f, e - f.length, ?_, hq, ?_⟩
  · rw [List.forall_mem_append, List.forall_mem_cons, List.forall_mem_append]
    exact ⟨fun c hc => .inl (hw c hc), .inr (by decide), fun c hc => .inl (hf c hc),
      isDecimalChar_exponentPart style e⟩
  · exact .inl (List.mem_append_right w List.mem_cons_self)
  · exact List.forall_mem_append.mpr ⟨hw, hf⟩
  · change decimal? (w ++ '.' :: (f ++ 'e' :: _)) = _
    rw [decimal?_point_exponent hw hf hne]
    change (exponent? ((if e < 0 then '-' else '+') :: NumberStyle.zeroPadded _ _)).map _ = _
    rw [exponent?_written]
    rfl

end Layouts

theorem isDecimalOf_plain (d : Decimal) : IsDecimalOf (NumberStyle.plain d) d.value := by
  have hdigits : ∀ c ∈ Text.ofNat d.digits, c.isDigit = true := fun _ => isDigit_of_mem_ofNat
  have hne := ofNat_ne_nil d.digits
  have hvalue := digitsValue_ofNat d.digits
  unfold NumberStyle.plain Decimal.value
  simp only
  generalize Text.ofNat d.digits = ds at *
  split
  · rename_i hexponent
    have hwhole : ∀ c ∈ ds ++ List.replicate d.exponent.toNat '0', c.isDigit = true :=
      List.forall_mem_append.mpr ⟨hdigits, fun _ => isDigit_of_mem_zeros⟩
    apply isDecimalOf_point hwhole (f := ['0']) (List.all_eq_true.mp (by decide)) (List.append_ne_nil_of_left_ne_nil hne _)
    have hzero : digitsValue ['0'] = 0 := rfl
    rw [digitsValue_append, digitsValue_append, digitsValue_zeros, hvalue, hzero,
      List.length_replicate, List.length_singleton, add_zero, add_zero]
    obtain ⟨n, hn⟩ := Int.eq_ofNat_of_zero_le hexponent
    rw [hn, Int.toNat_natCast, zpow_natCast]
    push_cast
    rw [zpow_neg, zpow_one]
    field_simp
  · rename_i hexponent
    have hpower : -((-d.exponent).toNat : ℤ) = d.exponent := by omega
    split
    · rename_i hplaces
      apply isDecimalOf_point (fun c hc => hdigits c (List.mem_of_mem_take hc))
        (fun c hc => hdigits c (List.mem_of_mem_drop hc))
      · rw [ne_eq, List.take_eq_nil_iff, not_or]
        exact ⟨by omega, hne⟩
      · rw [List.take_append_drop, hvalue, List.length_drop,
          Nat.sub_sub_self hplaces.le, hpower]
    · rename_i hplaces
      apply isDecimalOf_point (w := ['0']) (List.all_eq_true.mp (by decide))
        (isDigit_zeroPadded hdigits) (by decide)
      have hzero : digitsValue ['0'] = 0 := rfl
      rw [digitsValue_append, hzero, mul_zero, zero_add, digitsValue_zeroPadded, hvalue,
        length_zeroPadded, max_eq_left (not_lt.mp hplaces), hpower]

theorem isDecimalOf_scientific (style : NumberStyle) (d : Decimal) :
    IsDecimalOf (style.scientific d) d.value := by
  have hdigits : ∀ c ∈ Text.ofNat d.digits, c.isDigit = true := fun _ => isDigit_of_mem_ofNat
  have hne := ofNat_ne_nil d.digits
  have hvalue := digitsValue_ofNat d.digits
  unfold NumberStyle.scientific Decimal.value
  simp only
  generalize Text.ofNat d.digits = ds at *
  rcases ds with _ | ⟨first, _ | ⟨second, rest⟩⟩
  · exact absurd rfl hne
  · apply isDecimalOf_exponent hdigits hne
    rw [hvalue, List.length_singleton, Nat.cast_one, add_sub_cancel_right]
  · rw [List.forall_mem_cons] at hdigits
    apply isDecimalOf_point_exponent (w := [first]) (by simpa using hdigits.1) hdigits.2
      (List.cons_ne_nil first [])
    rw [List.singleton_append, hvalue]
    congr 2
    simp only [List.length_cons]
    push_cast
    ring

theorem isDecimalOf_decimal (style : NumberStyle) (d : Decimal) :
    IsDecimalOf (style.decimal d) d.value := by
  unfold NumberStyle.decimal
  simp only
  split
  · exact isDecimalOf_plain d
  · exact isDecimalOf_scientific style d

/-!
## Floats
-/

theorem IsDecimalOf.head {t : Text} {v : ℚ} (h : IsDecimalOf t v) :
    ∀ c ∈ t.head?, c.isDigit = true ∨ c = '.' := by
  rcases h.begins with ⟨d, hd, hdigit⟩
  intro c hc
  rw [Option.mem_unique hc hd]
  exact .inl hdigit

structure IsReadable (style : NumberStyle) : Prop where
  notANumber : ascii? style.notANumber = some (0.0 / 0.0)
  infinity : ascii? style.infinity = some (1.0 / 0.0)
  negativeInfinity : ascii? ('-' :: style.infinity) = some (-(1.0 / 0.0))

theorem ofFloat_notANumber : ofFloat (0.0 / 0.0) = .notANumber := by
  decide +kernel

theorem ofFloat_infinity : ofFloat (1.0 / 0.0) = .infinite false := by
  decide +kernel

theorem ofFloat_negativeInfinity : ofFloat (-(1.0 / 0.0)) = .infinite true := by
  decide +kernel

theorem ofFloat_zero : ofFloat (nearest 0 1) = .finite false 0 (-1074) := by
  decide +kernel

theorem ofFloat_negativeZero : ofFloat (-nearest 0 1) = .finite true 0 (-1074) := by
  decide +kernel

/-- The text of a finite float, without its sign, is read as this float without its sign. -/
theorem exists_decimal? (style : NumberStyle) {x : Float} {negative : Bool} {m : Nat} {e : ℤ}
    (hx : ofFloat x = .finite negative m e) :
    ∃ y, decimal? (style.decimal (Decimal.shortest m e)) = some y ∧ signed negative y = x := by
  have hreduced := isReduced_of_ofFloat hx
  rcases (isDecimalOf_decimal style (Decimal.shortest m e)).reads with
    ⟨ds, k, hdigits, hvalue, hread⟩
  refine ⟨_, hread, ?_⟩
  rcases Nat.eq_zero_or_pos m with rfl | hm
  · -- zero has a sign as well, which its number does not tell
    obtain rfl : e = -1074 := hreduced.normal.resolve_left (by decide)
    have hzero : digitsValue ds = 0 := by
      rw [Decimal.shortest, if_pos rfl, Decimal.value, Nat.cast_zero, zero_mul] at hvalue
      have hpower : (0 : ℚ) < 10 ^ k := by positivity
      exact_mod_cast (mul_eq_zero.mp hvalue).resolve_right hpower.ne'
    have hy : nearestDecimal ds k = nearest 0 1 := if_pos (.inl hzero)
    rw [hy]
    apply ofFloat_injective
    cases negative with
    | false => exact ofFloat_zero.trans hx.symm
    | true => exact ofFloat_negativeZero.trans hx.symm
  · have hrounds := Decimal.roundsTo_shortest hm e
    rw [← hvalue] at hrounds
    have hy := denotes_nearestDecimal_of_roundsTo hdigits hrounds hm hreduced
    cases negative with
    | false => exact hy.eq_of_ofFloat (s := .positive) hm hx
    | true => exact hy.neg.eq_of_ofFloat (s := .negative) hm hx

theorem ascii?_float {style : NumberStyle} (hstyle : IsReadable style) (x : Float) :
    ascii? (style.float x) = some x := by
  unfold NumberStyle.float
  split
  · rename_i hx
    rw [hstyle.notANumber, ofFloat_injective (hx.trans ofFloat_notANumber.symm)]
  · rename_i negative hx
    cases negative with
    | false =>
        rw [ofFloat_injective (hx.trans ofFloat_infinity.symm)]
        exact hstyle.infinity
    | true =>
        rw [ofFloat_injective (hx.trans ofFloat_negativeInfinity.symm)]
        exact hstyle.negativeInfinity
  · rename_i negative m e hx
    rcases exists_decimal? style hx with ⟨y, hy, rfl⟩
    have hhead := (isDecimalOf_decimal style (Decimal.shortest m e)).head
    cases negative with
    | false => exact (ascii?_of_head hhead).trans hy
    | true =>
        change (unsigned? (style.decimal (Decimal.shortest m e))).map _ = _
        rw [unsigned?_of_head hhead, hy]
        rfl

end Numeral
end DesignTokens
