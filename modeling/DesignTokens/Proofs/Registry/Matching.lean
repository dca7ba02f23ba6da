import DesignTokens.Proofs.Registry.Session
import DesignTokens.Proofs.Token.Lookup

/-!
# Matching declared values

A loaded registry finds every token by the text that was declared for it. Whatever
blanks stand around the text and whatever the options say, the match is certain,
and it names the first token of the category with the same color or value.
-/

namespace DesignTokens

theorem Action.bind_run {α β : Type} {a : Action α} {f : α → Action β} {s s' : Session} {x : α}
    (h : a s = .ok x s') : (a >>= f) s = f x s' := by
  change EStateM.bind a f s = f x s'
  unfold EStateM.bind
  rw [h]

namespace Registry

variable {s s' : Session} {c : Catalog} {query : Text} {options : QueryOptions}

theorem exists_stylesheet (hs : s.IsReached) (hc : s.registry.catalog = some c) :
    ∃ normalize css, c = Catalog.ofTable normalize (Stylesheet.properties css) := by
  rcases hs.isBuilt with h | ⟨css, h⟩
  · rw [h] at hc
    cases hc
  · rw [h] at hc
    cases hc
    exact ⟨_, css, rfl⟩

/-!
## One category
-/

theorem loaded_run (hc : s.registry.catalog = some c) : loaded s = .ok c s := by
  rw [loaded, Action.get_bind_run, hc]
  rfl

theorem exists_catalog {α : Type} {f : Catalog → Action α} {x : α}
    (h : (loaded >>= f) s = .ok x s') : ∃ c, s.registry.catalog = some c := by
  cases hc : s.registry.catalog with
  | some c => exact ⟨c, rfl⟩
  | none =>
      have hfault : loaded s = .error .notLoaded s := by
        rw [loaded, Action.get_bind_run, hc]
        rfl
      rw [Action.bind_error f hfault] at h
      cases h

theorem matchIn_color_run {threshold : Threshold} {found : Option TokenMatch}
    (hc : s.registry.catalog = some c) (hliteral : Color.isLiteral query = true)
    (hthreshold : Registry.threshold options s = .ok threshold s')
    (hfound : c.closestColor? query threshold.value options.exact = .ok found) :
    matchIn query options .color s = .ok found s' := by
  unfold matchIn closestColor
  rw [if_pos rfl, if_pos hliteral, Action.bind_run (loaded_run hc), Action.bind_run hthreshold,
    hfound]
  rfl

theorem matchIn_color_of_not_isLiteral (hliteral : Color.isLiteral query = false) :
    matchIn query options .color s = .ok none s := by
  unfold matchIn
  rw [if_pos rfl, hliteral]
  rfl

theorem matchIn_text_run {category : Category} (hc : s.registry.catalog = some c)
    (hcategory : category ≠ .color) :
    matchIn query options category s = .ok (c.sameText? category query) s := by
  unfold matchIn
  rw [if_neg hcategory, Action.bind_run (loaded_run hc)]
  rfl

/-!
## Several categories
-/

theorem firstMatch_of_some {category : Category} {rest : List Category} {m : TokenMatch}
    (h : matchIn query options category s = .ok (some m) s') :
    firstMatch query options (category :: rest) s = .ok (some m) s' := by
  unfold firstMatch
  rw [Action.bind_run h]
  rfl

theorem firstMatch_of_none {category : Category} {rest : List Category}
    (h : matchIn query options category s = .ok none s') :
    firstMatch query options (category :: rest) s = firstMatch query options rest s' := by
  rw [firstMatch, Action.bind_run h]

theorem confidence_of_sameText? {category : Category} {m : TokenMatch}
    (h : c.sameText? category query = some m) : m.confidence = 1 := by
  rcases Option.map_eq_some_iff.mp h with ⟨u, _, rfl⟩
  rfl

theorem firstMatch_texts (hc : s.registry.catalog = some c) {categories : List Category}
    (hcolor : .color ∉ categories) :
    firstMatch query options categories s =
      .ok (categories.findSome? fun category => c.sameText? category query) s := by
  induction categories with
  | nil => rfl
  | cons first rest ih =>
      rw [List.mem_cons, not_or] at hcolor
      have hrun : matchIn query options first s = .ok (c.sameText? first query) s :=
        matchIn_text_run hc (Ne.symm hcolor.1)
      rw [List.findSome?_cons]
      cases hsame : c.sameText? first query with
      | some m =>
          rw [hsame] at hrun
          exact firstMatch_of_some hrun
      | none =>
          rw [hsame] at hrun
          rw [firstMatch_of_none hrun, ih hcolor.2]

theorem exists_firstMatch (hc : s.registry.catalog = some c) {categories : List Category}
    (hcolor : .color ∉ categories) {category : Category} (hmem : category ∈ categories)
    (hfound : (c.sameText? category query).isSome = true) :
    ∃ m, firstMatch query options categories s = .ok (some m) s ∧ m.confidence = 1 := by
  have hsome : (categories.findSome? fun category => c.sameText? category query).isSome = true :=
    List.findSome?_isSome_iff.mpr ⟨category, hmem, hfound⟩
  rcases Option.isSome_iff_exists.mp hsome with ⟨m, hm⟩
  rcases List.exists_of_findSome?_eq_some hm with ⟨first, _, hfirst⟩
  exact ⟨m, by rw [firstMatch_texts hc hcolor, hm], confidence_of_sameText? hfirst⟩

/-!
## Declared values
-/

theorem searched_name (category : Category) (options : QueryOptions) :
    searched (some category.name) options = [category] := by
  cases category <;> rfl

theorem bestMatch_run (hc : s.registry.catalog = some c) (category : Option Text) :
    bestMatch query category options s =
      firstMatch query options (searched category options) s := by
  unfold bestMatch
  rw [Action.bind_run (loaded_run hc)]

/-- Where a certain match is found in the category of a token, and what it names. -/
theorem exists_matchIn_declared {t : Token} {value : Text} {threshold : Threshold}
    (hs : s.IsReached) (hc : s.registry.catalog = some c) (ht : t ∈ c.tokens)
    (hvalue : t.declared? = some value) (hquery : Text.strip query = Text.strip value)
    (hthreshold : Registry.threshold options s = .ok threshold s') :
    ∃ m s₁, matchIn query options t.category s = .ok (some m) s₁ ∧ m.confidence = 1 ∧
      c.firstAlike? t = some m.token := by
  rcases exists_stylesheet hs hc with ⟨normalize, css, rfl⟩
  rcases Catalog.exists_entry_of_declared? ht hvalue with ⟨property, hentry, htoken⟩
  have hkind := Catalog.category_of_tokenFor? htoken
  by_cases hcolor : t.category = .color
  · rcases Catalog.closestColor?_declared ht hcolor hvalue hquery threshold.value options.exact with
        ⟨u, hu, hfound⟩
    have hliteral : Color.isLiteral query = true := by
      rw [Color.isLiteral_eq_of_strip_eq hquery]
      exact Catalog.isLiteral_of_kind? (hcolor ▸ hkind)
    refine ⟨⟨u, 1, query⟩, s', ?_, rfl, hu⟩
    rw [hcolor]
    exact matchIn_color_run hc hliteral hthreshold hfound
  · have hstripped : Text.strip query = value := by
      rw [hquery]
      exact Stylesheet.strip_of_mem_properties hentry
    rcases Catalog.sameText?_declared ht hcolor hvalue hstripped with ⟨u, hu, hfound⟩
    refine ⟨⟨u, 1, query⟩, s, ?_, rfl, hu⟩
    rw [matchIn_text_run hc hcolor, hfound]

theorem not_isLiteral_declared {t : Token} {value : Text} (hs : s.IsReached)
    (hc : s.registry.catalog = some c) (ht : t ∈ c.tokens) (hvalue : t.declared? = some value)
    (hcolor : t.category ≠ .color) : Color.isLiteral value = false := by
  rcases exists_stylesheet hs hc with ⟨normalize, css, rfl⟩
  rcases Catalog.exists_entry_of_declared? ht hvalue with ⟨property, _, htoken⟩
  exact Catalog.not_isLiteral_of_kind? (Catalog.category_of_tokenFor? htoken) hcolor

/--
The text that was declared for a token, with any blanks around it, has a certain
match: in the category of the token the first one that is alike, and some token
also where the category is not told.
-/
theorem bestMatch_declared {t : Token} {value before after : Text} {threshold : Threshold}
    (hs : s.IsReached) (hc : s.registry.catalog = some c) (ht : t ∈ c.tokens)
    (hvalue : t.declared? = some value) (hbefore : ∀ x ∈ before, Text.isBlank x = true)
    (hafter : ∀ x ∈ after, Text.isBlank x = true)
    (hthreshold : Registry.threshold options s = .ok threshold s') :
    (∃ m s₁,
      bestMatch (before ++ value ++ after) (some t.category.name) options s = .ok (some m) s₁ ∧
        m.confidence = 1 ∧ c.firstAlike? t = some m.token) ∧
    (options.categories = none →
      ∃ m s₁, bestMatch (before ++ value ++ after) none options s = .ok (some m) s₁ ∧
        m.confidence = 1) := by
  have hquery := Text.strip_pad value hbefore hafter
  rcases exists_matchIn_declared hs hc ht hvalue hquery hthreshold with ⟨m, s₁, hrun, hsure, hfirst⟩
  constructor
  · refine ⟨m, s₁, ?_, hsure, hfirst⟩
    rw [bestMatch_run hc, searched_name]
    exact firstMatch_of_some hrun
  · intro hall
    have hsearched : searched none options = searchOrder := by
      unfold searched
      rw [hall]
    rw [bestMatch_run hc, hsearched]
    by_cases hcolor : t.category = .color
    · rw [hcolor] at hrun
      exact ⟨m, s₁, firstMatch_of_some hrun, hsure⟩
    · -- a value of another category is no color literal, so that the colors are passed over
      have hliteral : Color.isLiteral (before ++ value ++ after) = false := by
        rw [Color.isLiteral_eq_of_strip_eq hquery]
        exact not_isLiteral_declared hs hc ht hvalue hcolor
      have hmem : t.category ∈ [Category.spacing, .borderRadius, .shadow] :=
        Token.category_mem_of_declared? hvalue hcolor
      have hfound : (c.sameText? t.category (before ++ value ++ after)).isSome = true := by
        rw [matchIn_text_run hc hcolor] at hrun
        injection hrun with hsame
        rw [hsame]
        rfl
      have hfirst : ∃ m', firstMatch (before ++ value ++ after) options
          [.spacing, .borderRadius, .shadow] s = .ok (some m') s ∧ m'.confidence = 1 :=
        exists_firstMatch hc (by decide) hmem hfound
      rcases hfirst with ⟨m', hrun', hsure'⟩
      refine ⟨m', s, ?_, hsure'⟩
      rw [searchOrder, firstMatch_of_none (matchIn_color_of_not_isLiteral hliteral)]
      exact hrun'

theorem bestMatch_declared_white :
    ∃ s c t,
      s = (Session.start ⟨none, none, true⟩ [] ⟨none, none⟩).afterAll
          [.load (.text ":root \x7b --gap: 4px; --paper: #FFF \x7d".toList)] ∧
        s.registry.catalog = some c ∧ t ∈ c.tokens ∧ t.declared? = some "#FFF".toList ∧
        (∃ m s₁,
          bestMatch " #FFF\n".toList (some "color".toList) ⟨some .standard, none, true⟩ s =
              .ok (some m) s₁ ∧
            m.confidence = 1 ∧ c.firstAlike? t = some m.token) ∧
        ∃ m s₁,
          bestMatch " #FFF\n".toList none ⟨some .standard, none, true⟩ s = .ok (some m) s₁ ∧
            m.confidence = 1 := by
  have htable :
      Stylesheet.properties ":root \x7b --gap: 4px; --paper: #FFF \x7d".toList =
        [("--gap".toList, "4px".toList), ("--paper".toList, "#FFF".toList)] := by
    decide +kernel
  have hparse : (Color.parse "#FFF".toList).toOption.isSome = true := by decide +kernel
  rcases Option.isSome_iff_exists.mp hparse with ⟨color, hcolor⟩
  have hkind : Catalog.kind? ("--paper".toList, "#FFF".toList) = some .color := by decide +kernel
  have hmade : ∃ t, Catalog.tokenFor? true ("--paper".toList, "#FFF".toList) = some t ∧
      t.category = .color ∧ t.declared? = some "#FFF".toList := by
    unfold Catalog.tokenFor?
    rw [hkind, hcolor]
    exact ⟨_, rfl, rfl, rfl⟩
  rcases hmade with ⟨t, ht, hcategory, hdeclared⟩
  have hmem :
      t ∈ (Catalog.ofTable true
        (Stylesheet.properties ":root \x7b --gap: 4px; --paper: #FFF \x7d".toList)).tokens := by
    rw [Catalog.tokens_ofTable, htable]
    exact List.mem_append_left _ (List.mem_filterMap.mpr ⟨_, by simp, ht⟩)
  have hcatalog :
      ((Session.start ⟨none, none, true⟩ [] ⟨none, none⟩).afterAll
          [.load (.text ":root \x7b --gap: 4px; --paper: #FFF \x7d".toList)]).registry.catalog =
        some (Catalog.ofTable true
          (Stylesheet.properties ":root \x7b --gap: 4px; --paper: #FFF \x7d".toList)) := by
    change (sessionOf (load _ _)).registry.catalog = _
    rw [load_of_sourceText rfl rfl]
    rfl
  obtain ⟨hnamed, hunnamed⟩ :=
    bestMatch_declared ⟨⟨none, none, true⟩, [], ⟨none, none⟩, _, rfl⟩ hcatalog hmem hdeclared
      Text.isBlank_space
      (show ∀ x ∈ ['\n'], Text.isBlank x = true from List.all_eq_true.mp (by decide))
      (show threshold ⟨some .standard, none, true⟩ _ = .ok .standard _ from rfl)
  rw [hcategory] at hnamed
  exact ⟨_, _, t, rfl, hcatalog, hmem, hdeclared, hnamed, hunnamed rfl⟩

end Registry
end DesignTokens
