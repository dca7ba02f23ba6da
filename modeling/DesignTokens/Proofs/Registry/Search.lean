import DesignTokens.Proofs.Registry.Query

/-!
# Searching several categories

The question for a value of which the category is not known asks one category after the
other, in an order of its own, and takes the first answer. So it does not matter how the
categories that may be searched are listed, and further categories never lose a match.
-/

namespace DesignTokens

namespace QueryOptions

def within (options : QueryOptions) (categories : Option (List Category)) : QueryOptions :=
  { options with categories := categories }

def allows (options : QueryOptions) (category : Category) : Bool :=
  match options.categories with
  | none => true
  | some allowed => category ∈ allowed

end QueryOptions

def Action.firstOf {α : Type} : List (Action (Option α)) → Action (Option α)
  | [] => return none
  | a :: rest => do
      match ← a with
      | some x => return some x
      | none => Action.firstOf rest

namespace Registry

variable {s s' : Session} {c : Catalog} {value : Text} {options : QueryOptions}
  {allowed : Option (List Category)}

theorem searched_none (options : QueryOptions) :
    searched none options = searchOrder.filter options.allows := by
  unfold searched QueryOptions.allows
  cases options.categories with
  | none => rfl
  | some allowed => rfl

/-!
## One category at a time
-/

theorem bestMatch_name_run (hc : s.registry.catalog = some c) (category : Category) :
    bestMatch value (some category.name) options s = matchIn value options category s := by
  rw [bestMatch_run hc, searched_name]
  cases hrun : matchIn value options category s with
  | ok found s' =>
      cases found with
      | some m => exact firstMatch_of_some hrun
      | none => exact firstMatch_of_none hrun
  | error fault s' => exact Action.bind_error _ hrun

theorem catalog_matchIn {category : Category} {found : Option TokenMatch}
    (hc : s.registry.catalog = some c) (hrun : matchIn value options category s = .ok found s') :
    s'.registry.catalog = some c := by
  have hkeeps := (readsOnly_matchIn value options category).keepsRegistry s
  unfold Action.next at hkeeps
  rw [hrun] at hkeeps
  rw [← hc, ← hkeeps]
  rfl

theorem firstMatch_eq_firstOf (hc : s.registry.catalog = some c) (categories : List Category) :
    firstMatch value options categories s =
      Action.firstOf (categories.map fun category => bestMatch value (some category.name) options)
        s := by
  induction categories generalizing s with
  | nil => rfl
  | cons category rest ih =>
      have hfirst : bestMatch value (some category.name) options s =
          matchIn value options category s := bestMatch_name_run hc category
      rw [List.map_cons, Action.firstOf]
      cases hrun : matchIn value options category s with
      | ok found s' =>
          rw [Action.bind_run (hfirst.trans hrun)]
          cases found with
          | some m => exact firstMatch_of_some hrun
          | none => exact (firstMatch_of_none hrun).trans (ih (catalog_matchIn hc hrun))
      | error fault s' =>
          rw [Action.bind_error _ (hfirst.trans hrun)]
          exact Action.bind_error _ hrun

/-- The categories that may be searched do not matter where the category is known. -/
theorem matchIn_within : matchIn value (options.within allowed) = matchIn value options :=
  rfl

theorem firstMatch_within (categories : List Category) :
    firstMatch value (options.within allowed) categories = firstMatch value options categories := by
  induction categories with
  | nil => rfl
  | cons category rest ih => rw [firstMatch, firstMatch, matchIn_within, ih]

theorem bestMatch_within_run (hc : s.registry.catalog = some c) :
    bestMatch value none (options.within allowed) s =
      firstMatch value options (searchOrder.filter (options.within allowed).allows) s := by
  rw [bestMatch_run hc, searched_none, firstMatch_within]

/-!
## Answers

Behind a category in which nothing is found the session may hold the settings that were read.
The other categories answer as before, since they do not read them.
-/

/-- What a category has for a value in a session. -/
def answerIn (value : Text) (options : QueryOptions) (s : Session) (category : Category) :
    Option TokenMatch :=
  match matchIn value options category s with
  | .ok found _ => found
  | .error _ _ => none

theorem answerIn_of_run {category : Category} {found : Option TokenMatch}
    (hrun : matchIn value options category s = .ok found s') :
    answerIn value options s category = found := by
  unfold answerIn
  rw [hrun]

theorem answerIn_text {category : Category} (hc : s.registry.catalog = some c)
    (hcategory : category ≠ .color) :
    answerIn value options s category = c.sameText? category value :=
  answerIn_of_run (matchIn_text_run hc hcategory)

/-- A search that is answered takes the first answer of the categories as they are asked alone. -/
theorem eq_findSome?_answerIn {p : Category → Bool} {found : Option TokenMatch}
    (hc : s.registry.catalog = some c)
    (hrun : firstMatch value options (searchOrder.filter p) s = .ok found s') :
    found = (searchOrder.filter p).findSome? (answerIn value options s) := by
  have hcolor : .color ∉ [Category.spacing, .borderRadius, .shadow].filter p := by
    intro hmem
    exact absurd (List.mem_of_mem_filter hmem) (by decide)
  have htexts : ([Category.spacing, .borderRadius, .shadow].filter p).findSome?
      (answerIn value options s) =
        ([Category.spacing, .borderRadius, .shadow].filter p).findSome? fun category =>
          c.sameText? category value := by
    have hanswer : ∀ category ∈ [Category.spacing, .borderRadius, .shadow].filter p,
        answerIn value options s category = c.sameText? category value :=
      fun _ hmem => answerIn_text hc (ne_of_mem_of_not_mem hmem hcolor)
    have hanswers := congrArg (List.findSome? id) (List.map_congr_left hanswer)
    rwa [List.findSome?_map, List.findSome?_map] at hanswers
  unfold searchOrder at hrun ⊢
  by_cases hp : p .color = true
  · -- only the colors can read the settings, and they come first
    rw [List.filter_cons_of_pos hp] at hrun ⊢
    rw [List.findSome?_cons]
    cases hfirst : matchIn value options .color s with
    | error fault s₁ =>
        rw [firstMatch, Action.bind_error _ hfirst] at hrun
        cases hrun
    | ok answer s₁ =>
        rw [answerIn_of_run hfirst]
        cases answer with
        | some m =>
            rw [firstMatch_of_some hfirst] at hrun
            cases hrun
            rfl
        | none =>
            rw [firstMatch_of_none hfirst, firstMatch_texts (catalog_matchIn hc hfirst) hcolor]
              at hrun
            cases hrun
            exact htexts.symm
  · rw [List.filter_cons_of_neg hp] at hrun ⊢
    rw [firstMatch_texts hc hcolor] at hrun
    cases hrun
    exact htexts.symm

/-!
## Lists of categories
-/

theorem ne_typography_of_mem_searchOrder {category : Category} (h : category ∈ searchOrder) :
    category ≠ .typography := by
  rintro rfl
  exact absurd h (by decide)

theorem findSome?_filter_ne_none {α : Type} {f : Category → Option α} {p q : Category → Bool}
    {categories : List Category} (h : ∀ category ∈ categories, p category = true → q category = true)
    {m : α} (hp : (categories.filter p).findSome? f = some m) :
    (categories.filter q).findSome? f ≠ none := by
  rcases List.exists_of_findSome?_eq_some hp with ⟨category, hmem, hfound⟩
  rcases List.mem_filter.mp hmem with ⟨hmem, hcategory⟩
  intro hnone
  have hlost := List.findSome?_eq_none_iff.mp hnone category
    (List.mem_filter.mpr ⟨hmem, h category hmem hcategory⟩)
  rw [hfound] at hlost
  cases hlost

theorem bestMatch_ne_none {allowed' : Option (List Category)} {m : TokenMatch}
    (hc : s.registry.catalog = some c)
    (hmore : ∀ category ≠ .typography, (options.within allowed).allows category = true →
      (options.within allowed').allows category = true)
    (hrun : bestMatch value none (options.within allowed) s = .ok (some m) s') (s'' : Session) :
    bestMatch value none (options.within allowed') s ≠ .ok none s'' := by
  intro hrun'
  rw [bestMatch_within_run hc] at hrun hrun'
  have hfound := (eq_findSome?_answerIn hc hrun).symm
  have hlost := (eq_findSome?_answerIn hc hrun').symm
  exact findSome?_filter_ne_none
    (fun category hmem => hmore category (ne_typography_of_mem_searchOrder hmem)) hfound hlost

theorem bestMatch_within_congr {allowed' : Option (List Category)}
    (hc : s.registry.catalog = some c)
    (hsame : ∀ category ≠ .typography,
      (options.within allowed).allows category = (options.within allowed').allows category) :
    bestMatch value none (options.within allowed) s =
      bestMatch value none (options.within allowed') s := by
  rw [bestMatch_within_run hc, bestMatch_within_run hc, List.filter_congr]
  intro category hmem
  exact hsame category (ne_typography_of_mem_searchOrder hmem)

theorem exists_answers {threshold : Threshold} (hs : s.IsReached)
    (hc : s.registry.catalog = some c) (ht : options.threshold = some threshold) (value : Text) :
    ∃ answer : Category → Option TokenMatch, ∀ allowed,
      (∀ category,
        bestMatch value (some category.name) (options.within allowed) s =
          .ok (answer category) s) ∧
      bestMatch value none (options.within allowed) s =
        .ok ((searchOrder.filter (options.within allowed).allows).findSome? answer) s := by
  have hanswer : ∀ category, matchIn value options category s =
      .ok (answerIn value options s category) s := by
    intro category
    rcases exists_bestMatch hs hc ht category value with ⟨found, hrun, _⟩
    rw [bestMatch_name_run hc] at hrun
    rw [answerIn_of_run hrun, hrun]
  have hsearch : ∀ categories, firstMatch value options categories s =
      .ok (categories.findSome? (answerIn value options s)) s := by
    intro categories
    induction categories with
    | nil => rfl
    | cons category rest ih =>
        have hrun := hanswer category
        rw [List.findSome?_cons]
        cases hfound : answerIn value options s category with
        | some m =>
            rw [hfound] at hrun
            exact firstMatch_of_some hrun
        | none =>
            rw [hfound] at hrun
            rw [firstMatch_of_none hrun, ih]
  refine ⟨answerIn value options s, ?_⟩
  intro allowed
  constructor
  · intro category
    rw [bestMatch_name_run hc, matchIn_within, hanswer]
  · rw [bestMatch_within_run hc, hsearch]

/--
The question for a value asks the categories that may be searched one by one: first the
colors, then spacing, radii and shadows. It gives the first answer, whatever the answers are,
faults among them. So it depends on no more than which of these categories may be searched,
and if more of them may be, a match does not turn into none. With a threshold there are no
faults, and the match is the first one that any of the categories has.
-/
theorem bestMatch_searches (hc : s.registry.catalog = some c) (value : Text)
    (options : QueryOptions) :
    (∀ allowed,
      bestMatch value none (options.within allowed) s =
        Action.firstOf
          (([Category.color, .spacing, .borderRadius, .shadow].filter
              (options.within allowed).allows).map fun category =>
            bestMatch value (some category.name) (options.within allowed)) s) ∧
    (∀ allowed allowed',
      (∀ category ≠ .typography,
        (options.within allowed).allows category = (options.within allowed').allows category) →
      bestMatch value none (options.within allowed) s =
        bestMatch value none (options.within allowed') s) ∧
    (∀ allowed allowed' m s' s'',
      (∀ category ≠ .typography, (options.within allowed).allows category = true →
        (options.within allowed').allows category = true) →
      bestMatch value none (options.within allowed) s = .ok (some m) s' →
      bestMatch value none (options.within allowed') s ≠ .ok none s'') ∧
    ∀ threshold, s.IsReached → options.threshold = some threshold →
      ∃ answer : Category → Option TokenMatch, ∀ allowed,
        (∀ category,
          bestMatch value (some category.name) (options.within allowed) s =
            .ok (answer category) s) ∧
        bestMatch value none (options.within allowed) s =
          .ok (([Category.color, .spacing, .borderRadius, .shadow].filter
            (options.within allowed).allows).findSome? answer) s := by
  refine ⟨?_, ?_, ?_, ?_⟩
  · intro allowed
    rw [bestMatch_run hc, searched_none]
    exact firstMatch_eq_firstOf hc _
  · intro allowed allowed' hsame
    exact bestMatch_within_congr hc hsame
  · intro allowed allowed' m s' s'' hmore hrun
    exact bestMatch_ne_none hc hmore hrun s''
  · intro threshold hs ht
    exact exists_answers hs hc ht value

def evenSheet : Text :=
  ":root \x7b --border-radius-sm: 4px; --spacing-sm: 4px; --ink: #123456; \x7d".toList

theorem bestMatch_searches_evenSheet :
    ∃ s c m answer,
      s = Session.opened evenSheet ∧ s.registry.catalog = some c ∧
        m.token.category = .borderRadius ∧
        bestMatch "4px".toList none
            ⟨some .standard, some [.shadow, .typography, .borderRadius, .shadow], false⟩ s =
          .ok (some m) s ∧
        bestMatch "4px".toList none ⟨some .standard, some [.borderRadius, .shadow], false⟩ s =
          .ok (some m) s ∧
        bestMatch "4px".toList none ⟨some .standard, none, false⟩ s ≠ .ok none s ∧
        bestMatch "4px".toList none ⟨some .standard, none, false⟩ s =
          .ok ([Category.color, .spacing, .borderRadius, .shadow].findSome? answer) s := by
  have hc := Session.catalog_opened (show evenSheet ≠ [] by decide)
  obtain ⟨-, hsame, hmore, hanswers⟩ :=
    bestMatch_searches hc "4px".toList ⟨some .standard, none, false⟩
  rcases hanswers .standard (Session.isReached_opened _) rfl with ⟨answer, hanswer⟩
  have hsmall : bestMatch "4px".toList none
      ⟨some .standard, some [.borderRadius, .shadow], false⟩ (Session.opened evenSheet) =
        .ok _ _ :=
    (hanswer (some [.borderRadius, .shadow])).2
  have hcategory :
      (match bestMatch "4px".toList none ⟨some .standard, some [.borderRadius, .shadow], false⟩
          (Session.opened evenSheet) with
        | .ok found _ => found.map (·.token.category)
        | .error _ _ => none) = some .borderRadius := by
    decide +kernel
  rw [hsmall] at hcategory
  rcases Option.map_eq_some_iff.mp hcategory with ⟨m, hm, hradius⟩
  rw [hm] at hsmall
  have hlong := hsame (some [.shadow, .typography, .borderRadius, .shadow])
    (some [.borderRadius, .shadow]) (by
      intro category hne
      cases category with
      | typography => exact absurd rfl hne
      | _ => rfl)
  exact ⟨_, _, m, answer, rfl, hc, hradius, hlong.trans hsmall, hsmall,
    hmore _ none _ _ _ (fun _ _ _ => rfl) hsmall, (hanswer none).2⟩

end Registry
end DesignTokens
