import DesignTokens.Proofs.Stylesheet.Values
import DesignTokens.Proofs.Token.Catalog
import DesignTokens.Token.Lookup
import Mathlib.Data.List.Find

/-!
# Looking up declared values

The text from which a token was made leads back to it, or to an earlier token of
the category with the same color or the same value, and always with certainty.
-/

namespace DesignTokens

namespace Token

/-- The text that a variable declared for a token. Fonts come of several variables. -/
def declared? (t : Token) : Option Text :=
  match t.value with
  | .color declared _ => some declared
  | .typography _ => none
  | .spacing value => some value
  | .borderRadius value => some value
  | .shadow value _ => some value

/--
What tells a token from others of its category when a value is looked up: the
hexadecimal form of a color, and any other value as it is.
-/
def mark? (t : Token) : Option Text :=
  match t.value with
  | .color _ swatch => some swatch.hex
  | .typography _ => none
  | .spacing value => some value
  | .borderRadius value => some value
  | .shadow value _ => some value

theorem category_mem_of_declared? {t : Token} {value : Text} (h : t.declared? = some value)
    (hcolor : t.category ≠ .color) : t.category ∈ [Category.spacing, .borderRadius, .shadow] := by
  unfold category declared? at *
  split <;> simp_all

theorem mark?_eq_declared? {t : Token} (h : t.category ≠ .color) : t.mark? = t.declared? := by
  unfold category mark? declared? at *
  split <;> simp_all

theorem texts_eq {t : Token} (hcolor : t.category ≠ .color) (hfont : t.category ≠ .typography) :
    t.texts = t.mark?.toList := by
  unfold category mark? texts at *
  split <;> simp_all

end Token

namespace Catalog

def firstAlike? (c : Catalog) (t : Token) : Option Token :=
  (c.ofCategory t.category).find? fun u => u.mark? = t.mark?

theorem exists_entry_of_mem {normalize : Bool} {table : Table Text} {t : Token}
    (h : t ∈ (ofTable normalize table).tokens) (hfont : t.category ≠ .typography) :
    ∃ entry ∈ table, tokenFor? normalize entry = some t := by
  rw [tokens_ofTable, List.mem_append] at h
  rcases h with htoken | hfonts
  · exact List.mem_filterMap.mp htoken
  · rcases List.mem_map.mp hfonts with ⟨entry, _, rfl⟩
    exact absurd rfl hfont

theorem declared?_of_tokenFor? {normalize : Bool} {entry : Text × Text} {t : Token}
    (h : tokenFor? normalize entry = some t) : t.declared? = some entry.2 := by
  rcases exists_tokenOf_of_tokenFor? h with ⟨category, value, rfl, -, hvalue⟩
  cases hvalue <;> rfl

theorem exists_entry_of_declared? {normalize : Bool} {table : Table Text} {t : Token}
    {value : Text} (h : t ∈ (ofTable normalize table).tokens) (hvalue : t.declared? = some value) :
    ∃ property, (property, value) ∈ table ∧ tokenFor? normalize (property, value) = some t := by
  have hfont : t.category ≠ .typography := by
    intro hfont
    unfold Token.category at hfont
    unfold Token.declared? at hvalue
    split at hfont <;> simp_all
  rcases exists_entry_of_mem h hfont with ⟨entry, hentry, htoken⟩
  have heq : entry.2 = value := by
    rw [declared?_of_tokenFor? htoken] at hvalue
    exact Option.some.inj hvalue
  subst heq
  exact ⟨entry.1, hentry, htoken⟩

theorem exists_firstAlike? {c : Catalog} {t : Token} (h : t ∈ c.tokens) :
    ∃ u, c.firstAlike? t = some u := by
  rw [← Option.isSome_iff_exists]
  unfold firstAlike? ofCategory
  rw [List.find?_isSome]
  exact ⟨t, List.mem_filter.mpr ⟨h, by simp⟩, by simp⟩

/-!
## Colors
-/

theorem sameColor?_eq (c : Catalog) (hex : Text) :
    c.sameColor? hex = (c.ofCategory .color).find? fun u => u.mark? = some hex := by
  unfold sameColor? swatches ofCategory
  rw [List.find?_filter]
  induction c.tokens with
  | nil => rfl
  | cons u us ih =>
      rcases u with ⟨name, variableName, utilityClass, value⟩
      cases value with
      | color declared swatch =>
          by_cases h : swatch.hex = hex
          · simp [Token.swatch?, Token.category, Token.mark?, h]
          · simpa [Token.swatch?, Token.category, Token.mark?, h] using ih
      | _ => simpa [Token.swatch?, Token.category, Token.mark?] using ih

theorem exists_color_of_tokenFor? {normalize : Bool} {entry : Text × Text} {t : Token}
    (h : tokenFor? normalize entry = some t) (hcolor : t.category = .color) :
    ∃ color, Color.parse entry.2 = .ok color ∧ color.isPlaceholder = false ∧
      t.swatch? = some (.ofColor normalize color) ∧ t.mark? = some color.hex := by
  rcases exists_tokenOf_of_tokenFor? h with ⟨category, value, rfl, hkind, hvalue⟩
  cases hvalue with
  | @color color hparse =>
      have hgenuine := Color.not_isPlaceholder_of_isLiteral (isLiteral_of_kind? hkind) hparse
      refine ⟨color, hparse, hgenuine, rfl, ?_⟩
      cases normalize <;> rfl
  | spacing => cases hcolor
  | borderRadius => cases hcolor
  | shadow layers => cases hcolor

theorem closestColor?_of_sameColor? {c : Catalog} {value : Text} {color : Color} {u : Token}
    (hparse : Color.parse value = .ok color) (hgenuine : color.isPlaceholder = false)
    (hsame : c.sameColor? color.hex = some u) (threshold : Float) (exact : Bool) :
    c.closestColor? value threshold exact = .ok (some ⟨u, 1, value⟩) := by
  simp [closestColor?, hparse, hgenuine, colorMatch?, hsame, Except.map]

/-- The declared text of a color token leads to the first token of its color. -/
theorem closestColor?_declared {normalize : Bool} {table : Table Text} {t : Token}
    {value query : Text} (ht : t ∈ (ofTable normalize table).tokens)
    (hcolor : t.category = .color) (hvalue : t.declared? = some value)
    (hquery : Text.strip query = Text.strip value) (threshold : Float) (exact : Bool) :
    ∃ u, (ofTable normalize table).firstAlike? t = some u ∧
      (ofTable normalize table).closestColor? query threshold exact =
        .ok (some ⟨u, 1, query⟩) := by
  rcases exists_entry_of_declared? ht hvalue with ⟨property, _, htoken⟩
  rcases exists_color_of_tokenFor? htoken hcolor with ⟨color, hparse, hgenuine, -, hmark⟩
  rcases exists_firstAlike? ht with ⟨u, hu⟩
  have hsame : (ofTable normalize table).sameColor? color.hex = some u := by
    rw [sameColor?_eq, ← hu, firstAlike?, hcolor, hmark]
  rw [← Color.parse_eq_of_strip_eq hquery] at hparse
  exact ⟨u, hu, closestColor?_of_sameColor? hparse hgenuine hsame threshold exact⟩

/-!
## Other values
-/

theorem sameText?_declared {normalize : Bool} {table : Table Text} {t : Token}
    {value query : Text} (ht : t ∈ (ofTable normalize table).tokens)
    (hcolor : t.category ≠ .color) (hvalue : t.declared? = some value)
    (hquery : Text.strip query = value) :
    ∃ u, (ofTable normalize table).firstAlike? t = some u ∧
      (ofTable normalize table).sameText? t.category query = some ⟨u, 1, query⟩ := by
  have hfont : t.category ≠ .typography := by
    rcases exists_entry_of_declared? ht hvalue with ⟨property, _, htoken⟩
    intro hfont
    rw [tokenFor?_typography (hfont ▸ category_of_tokenFor? htoken)] at htoken
    cases htoken
  rcases exists_firstAlike? ht with ⟨u, hu⟩
  refine ⟨u, hu, ?_⟩
  have hsame : ∀ w ∈ (ofTable normalize table).ofCategory t.category,
      (w.texts.any fun x => x = Text.strip query) = decide (w.mark? = t.mark?) := by
    intro w hw
    have hcategory : w.category = t.category := by simpa using (List.mem_filter.mp hw).2
    rw [Token.texts_eq (hcategory ▸ hcolor) (hcategory ▸ hfont), Token.mark?_eq_declared? hcolor,
      hvalue, hquery]
    cases w.mark? <;> simp
  have hfind := (List.find?_congr hsame).trans hu
  simp only [sameText?, hfind, Option.map_some]

end Catalog
end DesignTokens
