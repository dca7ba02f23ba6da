import DesignTokens.Color.Parse
import DesignTokens.Proofs.Except
import DesignTokens.Proofs.Text

/-!
# Color literals

Blanks around a text change neither whether it is a color literal nor the color
that it denotes. The beginning of a literal names its family, so that a literal
never stands for the placeholder.
-/

namespace DesignTokens

namespace Color

/-!
## Blanks around a text
-/

theorem isLiteral_eq_of_strip_eq {s t : Text} (h : Text.strip s = Text.strip t) :
    isLiteral s = isLiteral t := by
  unfold isLiteral
  rw [h]

theorem filter_eq_of_strip_eq {s t : Text} (h : Text.strip s = Text.strip t) :
    s.filter (fun c => !Text.isBlank c) = t.filter (fun c => !Text.isBlank c) := by
  rw [← Text.filter_strip s, h, Text.filter_strip t]

theorem ofText?_eq_of_strip_eq {s t : Text} (h : Text.strip s = Text.strip t) :
    ColorFormat.ofText? s = ColorFormat.ofText? t := by
  unfold ColorFormat.ofText?
  rw [filter_eq_of_strip_eq h]

theorem parse_eq_of_strip_eq {s t : Text} (h : Text.strip s = Text.strip t) :
    parse s = parse t := by
  unfold parse
  rw [ofText?_eq_of_strip_eq h, filter_eq_of_strip_eq h, h]

/-!
## The family of a literal
-/

def functionFamilies : List (Text × ColorFormat) :=
  [("rgb".toList, .rgb), ("rgba".toList, .rgb), ("hsl".toList, .hsl), ("hsla".toList, .hsl),
    ("oklch".toList, .oklch)]

inductive LiteralHead : Text → ColorFormat → Prop where
  | hex (digits : Text) : LiteralHead ('#' :: digits) .hex
  | function {name : Text} {family : ColorFormat} (h : (name, family) ∈ functionFamilies)
      (rest : Text) : LiteralHead (name ++ '(' :: rest) family

theorem after?_of_function {name : String} {args : List Reader} {t rest : Text}
    (h : function name args t = some rest) : ∃ body, t = name.toList ++ '(' :: body := by
  simp only [function, Reader.sequence, List.cons_append, List.nil_append,
    Option.bind_eq_some_iff, Reader.exactly, Text.after?_eq_some_iff] at h
  rcases h with ⟨t1, rfl, body, rfl, _⟩
  exact ⟨body, rfl⟩

theorem literalHead_of_isLiteral {t : Text} (h : isLiteral t = true) :
    ∃ family, LiteralHead (Text.strip t) family := by
  unfold isLiteral at h
  rcases Bool.or_eq_true_iff.mp h with hhex | hfunction
  · refine ⟨.hex, ?_⟩
    unfold isHexLiteral at hhex
    split at hhex
    · rename_i digits hs
      rw [hs]
      exact .hex digits
    · cases hhex
  · rcases List.any_eq_true.mp hfunction with ⟨r, hr, haccepts⟩
    have hsome : r (Text.strip t) = some [] := by simpa [Reader.accepts] using haccepts
    simp only [literalFunctions, List.mem_cons, List.not_mem_nil, or_false] at hr
    rcases hr with rfl | rfl | rfl | rfl | rfl
    all_goals
      rcases after?_of_function hsome with ⟨body, hbody⟩
      rw [hbody]
      exact ⟨_, .function (by simp [functionFamilies]; rfl) body⟩

theorem ofText?_of_literalHead {t : Text} {family : ColorFormat} (h : LiteralHead t family) :
    ColorFormat.ofText? t = some family := by
  cases h with
  | hex digits => rfl
  | function h rest =>
      simp only [functionFamilies, List.mem_cons, Prod.mk.injEq, List.not_mem_nil, or_false] at h
      rcases h with ⟨rfl, rfl⟩ | ⟨rfl, rfl⟩ | ⟨rfl, rfl⟩ | ⟨rfl, rfl⟩ | ⟨rfl, rfl⟩ <;> rfl

theorem exists_family_of_isLiteral {t : Text} (h : isLiteral t = true) :
    ∃ family, LiteralHead (Text.strip t) family ∧ ColorFormat.ofText? t = some family := by
  rcases literalHead_of_isLiteral h with ⟨family, hhead⟩
  refine ⟨family, hhead, ?_⟩
  rw [← ofText?_eq_of_strip_eq (Text.strip_strip t)]
  exact ofText?_of_literalHead hhead

/-!
## What a reader has done
-/

theorem computed_eq_ok {α : Type} {e : Except ArithmeticFault α} {x : α} :
    computed e = .ok x ↔ e = .ok x := by
  cases e with
  | error fault => exact iff_of_false nofun nofun
  | ok y =>
      unfold computed
      rw [Except.ok.injEq, Except.ok.injEq]

theorem ofRgb?_eq_ok {rgb : Rgb} {format : ColorFormat} {oklch : Option Oklch} {c : Color}
    (h : ofRgb? rgb format oklch = .ok c) :
    rgb.hex? = .ok c.hex ∧ c.rgb = rgb ∧ c.format = some format := by
  simp only [ofRgb?, Except.bind_eq_ok, computed_eq_ok] at h
  rcases h with ⟨hex, hhex, hsl, _, hc⟩
  cases hc
  exact ⟨hhex, rfl, rfl⟩

theorem exists_of_parseHex {t : Text} {c : Color} (h : parseHex t = .ok c) :
    ∃ rgb, Rgb.ofHex? t = .ok rgb ∧ ofRgb? rgb .hex none = .ok c := by
  simpa only [parseHex, Except.bind_eq_ok] using h

theorem exists_of_parseRgb {t : Text} {c : Color} (h : parseRgb t = .ok c) :
    ∃ rgb : Rgb, (∃ r g b, channel? t r = .ok rgb.r ∧ channel? t g = .ok rgb.g ∧
        channel? t b = .ok rgb.b) ∧
      ofRgb? rgb .rgb none = .ok c := by
  unfold parseRgb at h
  rcases Except.bind_eq_ok.mp h with ⟨components, _, h⟩
  split at h
  · split at h
    · simp only [Except.bind_eq_ok] at h
      rcases h with ⟨r, hr, g, hg, b, hb, a, _, hc⟩
      exact ⟨⟨r, g, b, a⟩, ⟨_, _, _, hr, hg, hb⟩, hc⟩
    · cases h
  · cases h

/-- The only reader whose channels come of a conversion that does not move them into
their range. -/
theorem exists_of_parseHsl {t : Text} {c : Color} (h : parseHsl t = .ok c) :
    ∃ x s l a hue,
      (∃ component, componentNumber? t component = .ok x) ∧
      (∃ component, (componentNumber? t component).map (clamp 0 100) = .ok s) ∧
      (∃ component, (componentNumber? t component).map (clamp 0 100) = .ok l) ∧
      wrap? x 360 = .ok hue ∧
      Rgb.ofFractions? (hslChannels (hue / 360) (s / 100) (l / 100)) a = .ok c.rgb ∧
      c.rgb.hex? = .ok c.hex ∧ c.format = some .hsl := by
  unfold parseHsl at h
  rcases Except.bind_eq_ok.mp h with ⟨components, _, h⟩
  split at h
  · split at h
    · simp only [Except.bind_eq_ok, computed_eq_ok] at h
      rcases h with ⟨x, hx, s, hs, l, hl, a, _, hue, hhue, rgb, hrgb, _, _, _, _, _, _, hex, hhex,
        hc⟩
      cases hc
      exact ⟨x, s, l, a, hue, ⟨_, hx⟩, ⟨_, hs⟩, ⟨_, hl⟩, hhue, hrgb, hhex, rfl⟩
    · cases h
  · cases h

theorem exists_of_parseOklch {t : Text} {c : Color} (h : parseOklch t = .ok c) :
    ∃ (oklch : Oklch) (rgb : Rgb), oklch.toRgb? = .ok rgb ∧
      ofRgb? rgb .oklch (some oklch) = .ok c := by
  unfold parseOklch at h
  rcases Except.bind_eq_ok.mp h with ⟨components, _, h⟩
  split at h
  · split at h
    · split at h
      all_goals
        simp only [Except.bind_eq_ok, computed_eq_ok] at h
        rcases h with ⟨_, _, _, _, _, _, _, _, rgb, hrgb, hc⟩
        exact ⟨_, rgb, hrgb, hc⟩
    · cases h
  · cases h

/-!
## The family of a parsed color
-/

theorem format_of_parse {t : Text} {family : ColorFormat} {c : Color}
    (hfamily : ColorFormat.ofText? t = some family) (h : parse t = .ok c) :
    c.format = some family := by
  unfold parse at h
  rw [hfamily] at h
  cases family with
  | hex =>
      rcases exists_of_parseHex h with ⟨rgb, _, hc⟩
      exact (ofRgb?_eq_ok hc).2.2
  | rgb =>
      rcases exists_of_parseRgb h with ⟨rgb, _, hc⟩
      exact (ofRgb?_eq_ok hc).2.2
  | hsl =>
      rcases exists_of_parseHsl h with ⟨_, _, _, _, _, _, _, _, _, _, _, hformat⟩
      exact hformat
  | oklch =>
      rcases exists_of_parseOklch h with ⟨oklch, rgb, _, hc⟩
      exact (ofRgb?_eq_ok hc).2.2

theorem not_isPlaceholder_of_isLiteral {t : Text} {c : Color} (hl : isLiteral t = true)
    (h : parse t = .ok c) : c.isPlaceholder = false := by
  rcases exists_family_of_isLiteral hl with ⟨family, _, hfamily⟩
  unfold isPlaceholder
  rw [format_of_parse hfamily h]
  rfl

end Color
end DesignTokens
