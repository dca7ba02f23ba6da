import DesignTokens.Proofs.Color.Call
import DesignTokens.Proofs.Color.Computable

/-!
# Literals and the reader of colors

The test for color literals and the reader of colors were made separately. They agree:
a literal has the shape of a color, the reader knows its family, and it refuses the
literal only for a number in it that is none.
-/

namespace DesignTokens
namespace Color

open Numeral (IsNumber)

/-!
## Parts as components
-/

namespace Part.IsWritten

variable {signed : Bool} {p : Part}

theorem not_mem_number (h : p.IsWritten signed) {c : Char} (hc : Text.isNumeric c = false) :
    c ∉ p.number := by
  intro hmem
  rw [h.number.2 c hmem] at hc
  cases hc

theorem component_eq (h : p.IsWritten false) : p.component = p.number := by
  rcases h.sign with hnone | ⟨hsigned, _⟩
  · rw [component, hnone, List.append_nil]
  · cases hsigned

theorem before?_eq_none (h : p.IsWritten false) : Text.before? ['%'] p.component = none := by
  rw [h.component_eq]
  exact Text.before?_eq_none (List.mem_singleton_self '%') (h.not_mem_number (by decide))

theorem not_isOverflow (h : p.IsWritten false) : ¬ IsOverflow p.component := by
  rintro ⟨number, x, a, hsome, _⟩
  rw [h.before?_eq_none] at hsome
  cases hsome

theorem quantity_eq (h : p.IsWritten signed) : quantity p.component = p.number := by
  rcases h.sign with hnone | ⟨_, hpercent⟩
  · rw [component, hnone, List.append_nil]
    apply quantity_of_none
    exact Text.before?_eq_none (List.mem_singleton_self '%') (h.not_mem_number (by decide))
  · rw [component, hpercent]
    exact quantity_of_some (Text.before?_append p.number ['%'])

theorem withoutPercent_eq (h : p.IsWritten signed) : withoutPercent p.component = p.number := by
  have hsign : ∀ c ∈ p.sign.reverse, decide (c = '%') = true := by
    intro c hc
    exact decide_eq_true (h.sign_subset c (List.mem_reverse.mp hc))
  have hnumber : p.number.reverse.dropWhile (· = '%') = p.number.reverse := by
    cases hreverse : p.number.reverse with
    | nil => rfl
    | cons c t =>
        apply List.dropWhile_cons_of_neg
        rw [decide_eq_true_eq]
        rintro rfl
        apply h.not_mem_number (c := '%') (by decide)
        rw [← List.mem_reverse, hreverse]
        exact List.mem_cons_self
  unfold withoutPercent component
  rw [List.reverse_append, List.dropWhile_append_of_pos hsign, hnumber, List.reverse_reverse]

theorem removeTail_eq (h : p.IsWritten false) :
    Text.removeTail ['d', 'e', 'g'] p.component = p.number := by
  rw [h.component_eq, Text.removeTail,
    Text.before?_eq_none (c := 'g') (by decide) (h.not_mem_number (by decide))]
  rfl

end Part.IsWritten

/-!
## Reading a literal
-/

theorem not_overflowsIn {t : Text} {components : List Text}
    (h : ∀ component ∈ components, ¬ IsOverflow component) : ¬ OverflowsIn t components := by
  intro hflow
  induction hflow with
  | here hoverflow => exact h _ List.mem_cons_self hoverflow
  | later _ _ ih => exact ih fun component hmem => h component (List.mem_cons_of_mem _ hmem)

/-- A literal of a function is refused exactly for a number that is none. -/
theorem settles_parse_of_isCall {name t : Text} {family : ColorFormat} {signs : List Bool}
    {parts : List Part} (hspelling : Spelling name family signs)
    (hcall : IsCall name signs parts (Text.strip t))
    (hfamily : ColorFormat.ofText? t = some family) :
    Settles (∀ n ∈ parts.map Part.number, IsNumber n) (fun c => c.rgb.IsModerate) (parse t) := by
  have hcomponents := hcall.components?_eq hspelling.isFunctionName
  have hwritten := hcall.areParts.written
  unfold parse
  rw [hfamily]
  cases hspelling with
  | rgb =>
      rcases hwritten with _ | ⟨h1, _ | ⟨h2, _ | ⟨h3, ⟨⟩⟩⟩⟩
      apply (settles_parseRgb (hcomponents _ (by decide)) (by decide)
        (not_overflowsIn (by simp [h1.not_isOverflow, h2.not_isOverflow, h3.not_isOverflow]))).of_iff
      simp [h1.quantity_eq, h2.quantity_eq, h3.quantity_eq]
  | rgba =>
      rcases hwritten with _ | ⟨h1, _ | ⟨h2, _ | ⟨h3, _ | ⟨h4, ⟨⟩⟩⟩⟩⟩
      apply (settles_parseRgb (hcomponents _ (by decide)) le_rfl
        (not_overflowsIn (by simp [h1.not_isOverflow, h2.not_isOverflow, h3.not_isOverflow]))).of_iff
      simp [h1.quantity_eq, h2.quantity_eq, h3.quantity_eq, h4.quantity_eq]
  | hsl =>
      rcases hwritten with _ | ⟨h1, _ | ⟨h2, _ | ⟨h3, ⟨⟩⟩⟩⟩
      apply (settles_parseHsl (hcomponents _ (by decide)) (by decide)).of_iff
      simp [h1.removeTail_eq, h2.withoutPercent_eq, h3.withoutPercent_eq]
  | hsla =>
      rcases hwritten with _ | ⟨h1, _ | ⟨h2, _ | ⟨h3, _ | ⟨h4, ⟨⟩⟩⟩⟩⟩
      apply (settles_parseHsl (hcomponents _ (by decide)) le_rfl).of_iff
      simp [h1.removeTail_eq, h2.withoutPercent_eq, h3.withoutPercent_eq, h4.quantity_eq]
  | oklch =>
      rcases hwritten with _ | ⟨h1, _ | ⟨h2, _ | ⟨h3, ⟨⟩⟩⟩⟩
      apply (settles_parseOklch (hcomponents _ (by decide)) (by decide)).of_iff
      simp [h1.quantity_eq, h2.component_eq, h3.removeTail_eq]
  | oklchAlpha =>
      rcases hwritten with _ | ⟨h1, _ | ⟨h2, _ | ⟨h3, _ | ⟨h4, ⟨⟩⟩⟩⟩⟩
      apply (settles_parseOklch (hcomponents _ (by decide)) le_rfl).of_iff
      simp [h1.quantity_eq, h2.component_eq, h3.removeTail_eq, h4.quantity_eq]

/-!
## Reading a hexadecimal literal
-/

theorem isBlank_of_isHexDigit {c : Char} (h : Text.isHexDigit c = true) :
    Text.isBlank c = false := by
  rcases Option.isSome_iff_exists.mp h with ⟨n, hn⟩
  apply Text.isBlank_of_graphic
  unfold Text.hexValue? at hn
  simp only [Bool.and_eq_true, decide_eq_true_eq] at hn
  split at hn
  · omega
  · split at hn
    · omega
    · split at hn
      · omega
      · cases hn

theorem exists_mapM_hexValue? {ds : Text} (h : ∀ c ∈ ds, Text.isHexDigit c = true) :
    ∃ values, ds.mapM Text.hexValue? = some values ∧ values.length = ds.length := by
  induction ds with
  | nil => exact ⟨[], rfl, rfl⟩
  | cons c ds ih =>
      rw [List.forall_mem_cons] at h
      rcases Option.isSome_iff_exists.mp h.1 with ⟨n, hn⟩
      rcases ih h.2 with ⟨values, hvalues, hlength⟩
      refine ⟨n :: values, ?_, congrArg (· + 1) hlength⟩
      rw [List.mapM_cons, hn, hvalues]
      rfl

theorem isSome_ofValues? {values : List Nat} (h : values.length = 6 ∨ values.length = 8) :
    (Hex.ofValues? values).isSome = true := by
  rcases h with hsix | height
  · match values, hsix with
    | [_, _, _, _, _, _], _ => rfl
  · match values, height with
    | [_, _, _, _, _, _, _, _], _ => rfl

theorem isSome_ofDigits? {ds : Text} (h : ∀ c ∈ ds, Text.isHexDigit c = true)
    (hlength : ds.length = 3 ∨ ds.length = 4 ∨ ds.length = 6 ∨ ds.length = 8) :
    (Hex.ofDigits? ds).isSome = true := by
  have hfull : ∃ full : Text, (if ds.length = 3 ∨ ds.length = 4 then Hex.doubled ds else ds) = full ∧
      (∀ c ∈ full, Text.isHexDigit c = true) ∧ (full.length = 6 ∨ full.length = 8) := by
    refine ⟨_, rfl, ?_⟩
    split
    · have hdoubled : (Hex.doubled ds).length = 2 * ds.length := by
        simp [Hex.doubled, List.length_flatMap, mul_comm]
      refine ⟨?_, by omega⟩
      intro c hc
      rcases List.mem_flatMap.mp hc with ⟨d, hd, hc⟩
      simp only [List.mem_cons, List.not_mem_nil, or_false, or_self] at hc
      rw [hc]
      exact h d hd
    · exact ⟨h, by omega⟩
  rcases hfull with ⟨full, heq, hall, hsize⟩
  rcases exists_mapM_hexValue? hall with ⟨values, hvalues, hcount⟩
  unfold Hex.ofDigits?
  simp only
  rw [heq, hvalues, Option.bind_some]
  exact isSome_ofValues? (by omega)

theorem exists_digits_of_isHexLiteral {t : Text} (h : isHexLiteral t = true) :
    ∃ ds, t = '#' :: ds ∧ (∀ c ∈ ds, Text.isHexDigit c = true) ∧
      (ds.length = 3 ∨ ds.length = 4 ∨ ds.length = 6 ∨ ds.length = 8) := by
  unfold isHexLiteral at h
  split at h
  · rename_i ds
    rw [Bool.and_eq_true, List.all_eq_true] at h
    refine ⟨ds, rfl, h.1, ?_⟩
    simpa [or_assoc] using h.2
  · cases h

theorem digits_mark {ds : Text} (h : ∀ c ∈ ds, Text.isHexDigit c = true) :
    Hex.digits ('#' :: ds) = ds := by
  have hmark : ds.dropWhile (· = '#') = ds := by
    cases ds with
    | nil => rfl
    | cons c ds =>
        apply List.dropWhile_cons_of_neg
        rw [decide_eq_true_eq]
        rintro rfl
        exact absurd (h '#' List.mem_cons_self) (by decide)
  have hstrip : Text.strip ('#' :: ds) = '#' :: ds := by
    apply Text.strip_eq_self
    rw [List.forall_mem_cons]
    exact ⟨by decide, fun c hc => isBlank_of_isHexDigit (h c hc)⟩
  unfold Hex.digits
  rw [hstrip, List.dropWhile_cons_of_pos (by decide), hmark]

theorem parse_mark {ds : Text} (h : ∀ c ∈ ds, Text.isHexDigit c = true) :
    parse ('#' :: ds) = parseHex ('#' :: ds) := by
  have hblank : ∀ c ∈ '#' :: ds, (!Text.isBlank c) = true := by
    rw [List.forall_mem_cons]
    refine ⟨by decide, ?_⟩
    intro c hc
    rw [isBlank_of_isHexDigit (h c hc)]
    rfl
  unfold parse
  rw [ofText?_of_literalHead (.hex ds)]
  dsimp only
  rw [List.filter_eq_self.mpr hblank]

theorem settles_parse_of_isHexLiteral {t : Text} (h : isHexLiteral (Text.strip t) = true) :
    Settles True (fun c => c.rgb.IsModerate) (parse t) := by
  rcases exists_digits_of_isHexLiteral h with ⟨ds, hstrip, hall, hlength⟩
  rw [← parse_eq_of_strip_eq (Text.strip_strip t), hstrip, parse_mark hall]
  apply (settles_parseHex _).of_iff
  rw [digits_mark hall, isSome_ofDigits? hall hlength]
  exact iff_of_true rfl trivial

/-!
## The agreement
-/

theorem isNumeric_of_mem_numerals {t n : Text} (h : n ∈ numerals t) :
    ∀ c ∈ n, Text.isNumeric c = true := by
  intro c hc
  have hseparates := Text.separates_of_mem_segments (List.mem_filter.mp h).1 c hc
  simpa using hseparates

theorem Spelling.mem_functionFamilies {name : Text} {family : ColorFormat} {signs : List Bool}
    (h : Spelling name family signs) : (name, family) ∈ functionFamilies ∧ family ≠ .hex := by
  cases h <;> decide

/-- A literal is refused exactly for a number that is none, and only in a function. -/
theorem exists_settles_parse_of_isLiteral {t : Text} (h : isLiteral t = true) :
    ∃ family, ColorFormat.ofText? t = some family ∧
      Settles (¬ (family ≠ .hex ∧ ∃ n ∈ numerals t, ¬ IsNumber n)) (fun c => c.rgb.IsModerate)
        (parse t) := by
  have hhead : ∀ {family}, LiteralHead (Text.strip t) family →
      ColorFormat.ofText? t = some family := by
    intro family hhead
    rw [← ofText?_eq_of_strip_eq (Text.strip_strip t)]
    exact ofText?_of_literalHead hhead
  rcases exists_call_of_isLiteral h with hhex | ⟨name, family, signs, parts, hspelling, hcall⟩
  · rcases exists_digits_of_isHexLiteral hhex with ⟨ds, hstrip, _⟩
    have hfamily : ColorFormat.ofText? t = some .hex := by
      apply hhead
      rw [hstrip]
      exact .hex ds
    refine ⟨.hex, hfamily, (settles_parse_of_isHexLiteral hhex).of_iff ?_⟩
    simp
  · rcases hspelling.mem_functionFamilies with ⟨hmem, hne⟩
    rcases hcall.text with ⟨tail, _, htext⟩
    have hfamily : ColorFormat.ofText? t = some family := by
      apply hhead
      rw [htext]
      exact .function hmem _
    refine ⟨family, hfamily, (settles_parse_of_isCall hspelling hcall hfamily).of_iff ?_⟩
    rcases Text.exists_pad t with ⟨before, after, hbefore, hafter, ht⟩
    have hnumerals := hcall.numerals_eq hspelling.isFunctionName hbefore hafter
    rw [← ht] at hnumerals
    rw [hnumerals]
    simp [hne]

/-- Reading a literal ends with a color or with a fault of its text. -/
theorem ne_arithmetic_of_isLiteral {t : Text} (h : isLiteral t = true) (fault : ArithmeticFault) :
    parse t ≠ .error (.arithmetic fault) := by
  rcases exists_settles_parse_of_isLiteral h with ⟨_, _, hparse⟩
  exact hparse.ne_arithmetic fault

theorem not_overflows_of_isLiteral {t : Text} (h : isLiteral t = true) : ¬ Overflows t := by
  intro hflow
  exact ne_arithmetic_of_isLiteral h _ (parse_of_overflows hflow)

/--
What a text that is told to be a color literal is for all who read it. Its numbers are
its rows of digits and points; a row is none without a digit, with two points, or if it
is beyond the floats.
-/
structure IsAgreed (t : Text) : Prop where
  shape : isShape t = true
  family : ∃ family, ColorFormat.ofText? t = some family ∧
    ((∃ fault, parse t = .error fault) ↔ family ≠ .hex ∧ ∃ n ∈ numerals t, ¬ IsNumber n)
  genuine : ∀ c, parse t = .ok c → c.isPlaceholder = false
  computable : ∀ fault, parse t ≠ .error (.arithmetic fault)
  refused : ∀ n ∈ numerals t, ¬ IsNumber n ↔
    n.any Text.isDecimal = false ∨ 1 < n.count '.' ∨ Binary.limit ≤ Numeral.decimalValue n

theorem isShape_of_isLiteral {t : Text} (h : isLiteral t = true) : isShape t = true := by
  unfold isShape
  rw [Bool.or_eq_true]
  rcases exists_call_of_isLiteral h with hhex | ⟨name, family, signs, parts, hspelling, hcall⟩
  · exact .inl hhex
  · refine .inr (List.any_eq_true.mpr ⟨name, hspelling.isFunctionName.known, ?_⟩)
    exact hcall.accepts_shape hspelling.isFunctionName

theorem isAgreed_of_isLiteral {t : Text} (h : isLiteral t = true) : IsAgreed t := by
  rcases exists_settles_parse_of_isLiteral h with ⟨family, hfamily, hparse⟩
  refine ⟨isShape_of_isLiteral h, ⟨family, hfamily, ?_⟩, ?_, ?_, ?_⟩
  · rw [hparse.exists_error_iff, not_not]
  · intro c hc
    exact not_isPlaceholder_of_isLiteral h hc
  · exact ne_arithmetic_of_isLiteral h
  · intro n hn
    rw [Numeral.isNumber_iff (isNumeric_of_mem_numerals hn), not_and_or, not_and_or,
      Bool.not_eq_true, not_le, not_lt]

end Color
end DesignTokens
