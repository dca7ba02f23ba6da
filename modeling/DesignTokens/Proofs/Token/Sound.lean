import DesignTokens.Options.Query
import DesignTokens.Proofs.Stylesheet.Values
import DesignTokens.Proofs.Token.Color

/-!
# Sound matches

A match names a token of the category that was searched. The variable of that token has
the value that was looked up, a font has it among its texts, and a color is of the same
color or near enough.
-/

namespace DesignTokens

open Binary

namespace Threshold

theorem exists_denotes (t : Threshold) : ∃ a, Denotes t.value a :=
  denotes_zero.exists_between denotes_one t.nonneg t.le_one

/-- A finite certainty that is not below the threshold reaches it. -/
theorem le_of_not_lt (t : Threshold) {x : Float} (hx : Color.IsFinite x)
    (h : ¬ x < t.value) : t.value ≤ x := by
  rcases hx with ⟨a, ha⟩
  rcases t.exists_denotes with ⟨b, hb⟩
  rw [ha.lt_iff hb, not_lt] at h
  exact (hb.le_iff ha).mpr h

end Threshold

/-- What is promised of a token for a value that is looked up in a category. -/
structure TokenMatch.IsSound (c : Catalog) (threshold : Threshold) (exact : Bool)
    (category : Category) (value : Text) (m : TokenMatch) : Prop where
  mem : m.token ∈ c.tokens
  category_eq : m.token.category = category
  value_eq : m.value = value
  listed :
    category = .spacing ∨ category = .borderRadius ∨ category = .shadow →
      Table.get? m.token.variableName c.properties = some (Text.strip value)
  font : category = .typography → Text.strip value ∈ m.token.texts
  color :
    category = .color →
      (∃ color, Color.parse value = .ok color ∧ m.token.mark? = some color.hex ∧
        m.confidence = 1) ∨
      exact = false ∧ threshold.value ≤ m.confidence

namespace Catalog

theorem sameText?_spec {c : Catalog} {category : Category} {value : Text} {m : TokenMatch}
    (h : c.sameText? category value = some m) :
    m.token ∈ c.ofCategory category ∧ Text.strip value ∈ m.token.texts ∧ m.value = value := by
  rcases Option.map_eq_some_iff.mp h with ⟨t, ht, rfl⟩
  have hmatch := List.find?_some ht
  rcases List.any_eq_true.mp hmatch with ⟨text, htext, heq⟩
  rw [← of_decide_eq_true heq]
  exact ⟨List.mem_of_find?_eq_some ht, htext, rfl⟩

/-- The variable of a token has the text of the token as its value, fonts and colors apart. -/
theorem get?_variableName {normalize : Bool} {css text : Text} {t : Token}
    (ht : t ∈ (ofTable normalize (Stylesheet.properties css)).tokens)
    (hcolor : t.category ≠ .color) (hfont : t.category ≠ .typography) (htext : text ∈ t.texts) :
    Table.get? t.variableName (Stylesheet.properties css) = some text := by
  rcases exists_entry_of_mem ht hfont with ⟨entry, hentry, htoken⟩
  have hname : t.variableName = entry.1 := variableName_of_tokenFor? htoken
  have hvalue : text = entry.2 := by
    rw [Token.texts_eq hcolor hfont, Token.mark?_eq_declared? hcolor,
      declared?_of_tokenFor? htoken] at htext
    exact List.mem_singleton.mp htext
  rw [hname, hvalue]
  exact Table.get?_of_mem (Stylesheet.nodup_names_properties css) hentry

theorem isSound_of_sameText? {normalize exact : Bool} {css value : Text} {category : Category}
    {m : TokenMatch} (threshold : Threshold) (hcolor : category ≠ .color)
    (h : (ofTable normalize (Stylesheet.properties css)).sameText? category value = some m) :
    m.IsSound (ofTable normalize (Stylesheet.properties css)) threshold exact category value := by
  rcases sameText?_spec h with ⟨hmem, htext, hvalue⟩
  rcases List.mem_filter.mp hmem with ⟨htoken, hcategory⟩
  have hcategory' := of_decide_eq_true hcategory
  constructor
  · exact htoken
  · exact hcategory'
  · exact hvalue
  · intro hlisted
    have hfont : m.token.category ≠ .typography := by
      rw [hcategory']
      rintro rfl
      rcases hlisted with h | h | h <;> cases h
    exact get?_variableName htoken (hcategory' ▸ hcolor) hfont htext
  · intro _
    exact htext
  · intro h
    exact absurd h hcolor

theorem isSound_of_isColorMatch {c : Catalog} {threshold : Threshold} {exact : Bool}
    {value : Text} {m : TokenMatch} {color : Color} (hparse : Color.parse value = .ok color)
    (hvalue : m.value = value)
    (h : IsColorMatch c color threshold.value exact (m.token, m.confidence)) :
    m.IsSound c threshold exact .color value := by
  rcases List.mem_filter.mp h.mem with ⟨htoken, hcategory⟩
  constructor
  · exact htoken
  · exact of_decide_eq_true hcategory
  · exact hvalue
  · intro hlisted
    rcases hlisted with h | h | h <;> cases h
  · intro h
    cases h
  · intro _
    rcases h.sure with ⟨hmark, hone⟩ | ⟨hexact, hfinite, hnear⟩
    · exact .inl ⟨color, hparse, hmark, hone⟩
    · exact .inr ⟨hexact, threshold.le_of_not_lt hfinite hnear⟩

end Catalog
end DesignTokens
