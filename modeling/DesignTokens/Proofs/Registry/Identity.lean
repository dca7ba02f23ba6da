import DesignTokens.Proofs.Registry.Session
import DesignTokens.Proofs.Stylesheet.Values
import DesignTokens.Proofs.Token.Name
import DesignTokens.Proofs.Token.Variable

/-!
# Tokens by their names and variables

Within typography a name tells a token: the variables of one base name are gathered in
one token. In every other category each variable makes a token of its own, and a name
tells the token only as long as no two variables of the category differ in their leads
alone. A variable always tells the token, but that a color stands in front of a token of
typography with the same variable.
-/

namespace DesignTokens
namespace Registry

/--
Behind every loading of a stylesheet the tokens of typography have different names. The
tokens of another category have different names exactly if no two variables that make
tokens of it have the same name behind their leads.
-/
theorem load_names {s s₁ : Session} {source : Source} {css : Text}
    (hfresh : s.registry.catalog = none) (hsource : sourceText source s = .ok css s₁)
    (later : List Step) :
    ∃ s₂ c, load source s = .ok () s₂ ∧ (s₂.afterAll later).registry.catalog = some c ∧
      ((c.ofCategory .typography).map (·.name)).Nodup ∧
      ∀ category, category ≠ .typography →
        (((c.ofCategory category).map (·.name)).Nodup ↔
          ∀ entry ∈ Stylesheet.properties css, ∀ other ∈ Stylesheet.properties css,
            Catalog.makes s.registry.config.normalize category entry = true →
              Catalog.makes s.registry.config.normalize category other = true →
                Variable.ShareName entry.1 other.1 → entry = other) := by
  refine ⟨{ s₁ with registry := s.registry.loadedWith css },
    Catalog.ofTable s.registry.config.normalize (Stylesheet.properties css),
    load_of_sourceText hfresh hsource, ?_, Catalog.nodup_names_typography _ _, ?_⟩
  · rw [Session.registry_afterAll rfl]
    rfl
  · intro category hne
    exact Catalog.nodup_names_iff _ hne (Stylesheet.nodup_names_properties css)
      fun _ => Stylesheet.exists_word_of_mem_properties

def twoColors : Text :=
  ":root\x7b--color-a:#fff;--a:#000;--spacing-a:4px;--spacing-b:8px\x7d".toList

theorem load_names_twoColors :
    ∃ s₂ c, load (.text twoColors) (.start ⟨none, none, true⟩ [] ⟨none, none⟩) = .ok () s₂ ∧
      (s₂.afterAll [.bestMatch "4px".toList none .standard]).registry.catalog = some c ∧
      ¬ ((c.ofCategory .color).map (·.name)).Nodup ∧
      ((c.ofCategory .spacing).map (·.name)).Nodup := by
  have hload := @load_names (.start ⟨none, none, true⟩ [] ⟨none, none⟩) _ (.text twoColors) _ rfl
    rfl [.bestMatch "4px".toList none .standard]
  rcases hload with ⟨s₂, c, hload, hcatalog, -, hnames⟩
  refine ⟨s₂, c, hload, hcatalog, ?_, ?_⟩
  · rw [hnames .color (by decide)]
    intro hall
    have hshare : Variable.ShareName "--color-a".toList "--a".toList :=
      ⟨"a".toList, "color-".toList, [], .inl (by decide), .inr ⟨rfl, by decide⟩, rfl, rfl⟩
    have hsame := hall ("--color-a".toList, "#fff".toList) (by decide +kernel)
      ("--a".toList, "#000".toList) (by decide +kernel) (by decide +kernel) (by decide +kernel)
      hshare
    exact absurd hsame (by decide)
  · rw [hnames .spacing (by decide)]
    have hnone : ∀ entry ∈ Stylesheet.properties twoColors,
        ∀ other ∈ Stylesheet.properties twoColors,
          Catalog.makes true .spacing entry = true → Catalog.makes true .spacing other = true →
            Variable.tokenName entry.1 = Variable.tokenName other.1 → entry = other := by
      decide +kernel
    intro entry hentry other hother hmakes hmakes' hshare
    exact hnone entry hentry other hother hmakes hmakes' hshare.tokenName_eq

/--
Behind every loading of a stylesheet each token is found by its variable, whatever is done
in between. Only tokens of typography give way, and only to colors.
-/
theorem load_variables {s s₁ : Session} {source : Source} {css : Text}
    (hfresh : s.registry.catalog = none) (hsource : sourceText source s = .ok css s₁)
    (later : List Step) :
    ∃ s₂ c, load source s = .ok () s₂ ∧ (s₂.afterAll later).registry.catalog = some c ∧
      c.FindsVariables := by
  refine ⟨{ s₁ with registry := s.registry.loadedWith css },
    Catalog.ofTable s.registry.config.normalize (Stylesheet.properties css),
    load_of_sourceText hfresh hsource, ?_, ?_⟩
  · rw [Session.registry_afterAll rfl]
    rfl
  · exact Catalog.findsVariables_ofTable _ (Stylesheet.nodup_names_properties css)
      fun _ => Stylesheet.exists_word_of_mem_properties

def sharedVariable : Text :=
  ":root\x7b--h-font-size:2rem;--h:#fff;--p-font-size:1rem;--shadow-h:0 1px red\x7d".toList

theorem load_variables_sharedVariable :
    ∃ s₂ c, load (.text sharedVariable) (.start ⟨none, none, true⟩ [] ⟨none, none⟩) = .ok () s₂ ∧
      (s₂.afterAll [.bestMatch "4px".toList none .standard]).registry.catalog = some c ∧
      c.FindsVariables ∧
      ["--h".toList, "--p".toList, "--shadow-h".toList, "--h-font-size".toList].map
          (fun name => (c.findVariable? name).map (·.category)) =
        [some .color, some .typography, some .shadow, none] := by
  have hload := @load_variables (.start ⟨none, none, true⟩ [] ⟨none, none⟩) _
    (.text sharedVariable) _ rfl rfl [.bestMatch "4px".toList none .standard]
  rcases hload with ⟨s₂, c, hload, hcatalog, hfinds⟩
  refine ⟨s₂, c, hload, hcatalog, hfinds, ?_⟩
  have hrun := @load_of_sourceText (.start ⟨none, none, true⟩ [] ⟨none, none⟩) _
    (.text sharedVariable) _ rfl rfl
  rw [hload] at hrun
  cases hrun
  rw [Session.registry_afterAll rfl] at hcatalog
  cases hcatalog
  decide +kernel

end Registry
end DesignTokens
