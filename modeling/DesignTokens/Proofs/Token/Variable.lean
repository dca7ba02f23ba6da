import DesignTokens.Proofs.Token.Lookup
import DesignTokens.Proofs.Token.Name

/-!
# Variables of tokens

A token of typography is given the variable of its base name, which no stylesheet needs
to declare. The base is a part of the name of a declared variable that says nothing of
spacing, border radius or shadow. So only a color can have the variable as well, since
only colors are told by their values.
-/

namespace DesignTokens

namespace Variable

/-- What the name of a variable has to hold for its category, unless its value tells this. -/
def nameMarker? : Category → Option Text
  | .spacing => some "spacing".toList
  | .borderRadius => some "border-radius".toList
  | .shadow => some "shadow".toList
  | .color => none
  | .typography => none

theorem infix_of_category? {property value marker : Text} {category : Category}
    (h : category? property value = some category) (hmarker : nameMarker? category = some marker) :
    marker <:+: property := by
  rw [← Text.has_iff]
  unfold category? at h
  repeat' split at h
  all_goals cases h
  all_goals cases hmarker
  all_goals assumption

theorem not_infix_of_typography {property value marker : Text} {category : Category}
    (h : category? property value = some .typography)
    (hmarker : nameMarker? category = some marker) : ¬ marker <:+: property := by
  rw [← Text.has_iff]
  unfold category? at h
  repeat' split at h
  all_goals cases h
  cases category <;> cases hmarker <;> assumption

/-!
## Parts of base names
-/

theorem infix_of_withoutField? {marker name base : Text} (h : withoutField? name = some base)
    (hmarker : marker <:+: base) : marker <:+: name := by
  rcases List.exists_of_findSome?_eq_some h with ⟨field, _, hbefore⟩
  rw [Text.eq_append_of_before? hbefore]
  exact hmarker.trans (List.prefix_append _ _).isInfix

theorem infix_of_infix_concat {marker t : Text} {c : Char} (hc : c ∉ marker)
    (h : marker <:+: t ++ [c]) : marker <:+: t := by
  rcases List.infix_concat_iff.mp h with h | h
  · rcases List.suffix_concat_iff.mp h with rfl | ⟨u, rfl, _⟩
    · exact List.nil_infix
    · exact absurd (List.mem_append_right u (List.mem_singleton_self c)) hc
  · exact h

theorem infix_of_infix_baseName {marker name : Text} (hnewline : '\n' ∉ marker)
    (h : marker <:+: baseName name) : marker <:+: name := by
  unfold baseName at h
  split at h
  · rename_i base hbase
    exact infix_of_withoutField? hbase h
  · split at h
    · rename_i base hbase
      rcases Option.bind_eq_some_iff.mp hbase with ⟨rest, hrest, hbase⟩
      rw [Text.eq_append_of_before? hrest]
      have hinner := infix_of_withoutField? hbase (infix_of_infix_concat hnewline h)
      exact hinner.trans (List.prefix_append _ _).isInfix
    · exact h

theorem infix_of_infix_tokenName {marker word : Text}
    (h : marker <:+: tokenName ("--".toList ++ word)) : marker <:+: word := by
  rcases exists_lead word with ⟨lead, _, hword⟩
  rw [hword]
  exact h.trans (List.suffix_append _ _).isInfix

theorem infix_of_infix_hyphens {marker t : Text} (hmarker : marker.head? ≠ some '-')
    (hne : marker ≠ []) (h : marker <:+: "--".toList ++ t) : marker <:+: t := by
  have hcons : ∀ u : Text, marker <:+: '-' :: u → marker <:+: u := by
    intro u hu
    rcases List.infix_cons_iff.mp hu with hprefix | hrest
    · cases marker with
      | nil => exact absurd rfl hne
      | cons c marker =>
          exact absurd (congrArg some (List.cons_prefix_cons.mp hprefix).1) hmarker
    · exact hrest
  exact hcons t (hcons _ h)

/-- A marker in the variable of a base name is in the name of each variable of this base. -/
theorem infix_of_infix_fontVariable {word marker : Text} {category : Category}
    (hmarker : nameMarker? category = some marker)
    (h : marker <:+: "--".toList ++ baseName (tokenName ("--".toList ++ word))) :
    marker <:+: "--".toList ++ word := by
  have hletters : '\n' ∉ marker ∧ marker ≠ [] ∧ marker.head? ≠ some '-' := by
    cases category <;> cases hmarker <;> decide
  rcases hletters with ⟨hnewline, hne, hhead⟩
  have hname := infix_of_infix_baseName hnewline (infix_of_infix_hyphens hhead hne h)
  exact (infix_of_infix_tokenName hname).trans (List.suffix_append _ _).isInfix

end Variable

namespace Catalog

/-!
## Tokens of one variable
-/

section OfTable

variable {normalize : Bool} {table : Table Text} {t u : Token}

/-- A token of typography has the variable of the base name of one of its variables. -/
theorem exists_entry_of_typography (h : t ∈ (ofTable normalize table).tokens)
    (hfont : t.category = .typography) :
    ∃ entry ∈ entriesOf .typography table, t.variableName = "--".toList ++ fontName entry := by
  have hmem : t ∈ (ofTable normalize table).ofCategory .typography :=
    List.mem_filter.mpr ⟨h, decide_eq_true hfont⟩
  rw [ofCategory_typography] at hmem
  rcases List.mem_map.mp hmem with ⟨name, hname, rfl⟩
  rcases List.mem_map.mp (List.mem_eraseDups.mp hname) with ⟨entry, hentry, rfl⟩
  exact ⟨entry, hentry, rfl⟩

theorem eq_of_variableName_typography (ht : t ∈ (ofTable normalize table).tokens)
    (hu : u ∈ (ofTable normalize table).tokens) (htfont : t.category = .typography)
    (hufont : u.category = .typography) (hname : t.variableName = u.variableName) : t = u := by
  have htmem : t ∈ (ofTable normalize table).ofCategory .typography :=
    List.mem_filter.mpr ⟨ht, decide_eq_true htfont⟩
  have humem : u ∈ (ofTable normalize table).ofCategory .typography :=
    List.mem_filter.mpr ⟨hu, decide_eq_true hufont⟩
  rw [ofCategory_typography] at htmem humem
  rcases List.mem_map.mp htmem with ⟨name, _, rfl⟩
  rcases List.mem_map.mp humem with ⟨name', _, rfl⟩
  have heq : name = name' := List.append_cancel_left hname
  rw [heq]

theorem eq_of_variableName_declared (hnames : table.names.Nodup)
    (ht : t ∈ (ofTable normalize table).tokens) (hu : u ∈ (ofTable normalize table).tokens)
    (htfont : t.category ≠ .typography) (hufont : u.category ≠ .typography)
    (hname : t.variableName = u.variableName) : t = u := by
  rcases exists_entry_of_mem ht htfont with ⟨entry, hentry, htoken⟩
  rcases exists_entry_of_mem hu hufont with ⟨other, hother, hutoken⟩
  rw [variableName_of_tokenFor? htoken, variableName_of_tokenFor? hutoken] at hname
  have heq : entry = other := List.inj_on_of_nodup_map hnames hentry hother hname
  rw [heq, hutoken] at htoken
  exact (Option.some.inj htoken).symm

/-- Of the tokens with variables of their own only colors can have one of a base name. -/
theorem color_of_variableName (hwords : ∀ entry ∈ table, ∃ word, entry.1 = "--".toList ++ word)
    (ht : t ∈ (ofTable normalize table).tokens) (hu : u ∈ (ofTable normalize table).tokens)
    (htfont : t.category ≠ .typography) (hufont : u.category = .typography)
    (hname : t.variableName = u.variableName) : t.category = .color := by
  rcases exists_entry_of_mem ht htfont with ⟨entry, _, htoken⟩
  rcases exists_entry_of_typography hu hufont with ⟨other, hother, huname⟩
  rcases List.mem_filter.mp hother with ⟨hother, hfont⟩
  have hcategory := (category?_of_kind? (category_of_tokenFor? htoken)).2
  have hcategory' := (category?_of_kind? (of_decide_eq_true hfont)).2
  rw [variableName_of_tokenFor? htoken, huname] at hname
  rcases hwords other hother with ⟨word, hword⟩
  cases hmarker : Variable.nameMarker? t.category with
  | none =>
      cases hkind : t.category with
      | color => rfl
      | typography => exact absurd hkind htfont
      | _ =>
          rw [hkind] at hmarker
          cases hmarker
  | some marker =>
      have hinfix := Variable.infix_of_category? hcategory hmarker
      rw [hname, fontName, hword] at hinfix
      have hother := Variable.infix_of_infix_fontVariable hmarker hinfix
      rw [← hword] at hother
      exact absurd hother (Variable.not_infix_of_typography hcategory' hmarker)

end OfTable

/-!
## Looking up a variable
-/

theorem mem_all_iff {c : Catalog} {t : Token} : t ∈ c.all ↔ t ∈ c.tokens := by
  unfold all ofCategory
  simp only [List.mem_flatMap, List.mem_filter, decide_eq_true_eq]
  exact ⟨fun ⟨_, _, h, _⟩ => h, fun h => ⟨t.category, Category.mem_all _, h, rfl⟩⟩

theorem findVariable?_spec {c : Catalog} {name : Text} {t : Token}
    (h : c.findVariable? name = some t) : t ∈ c.tokens ∧ t.variableName = name := by
  unfold findVariable? at h
  have hname := List.find?_some h
  exact ⟨mem_all_iff.mp (List.mem_of_find?_eq_some h), of_decide_eq_true hname⟩

theorem exists_findVariable? {c : Catalog} {t : Token} (h : t ∈ c.tokens) :
    ∃ u, c.findVariable? t.variableName = some u := by
  rw [← Option.isSome_iff_exists, findVariable?, List.find?_isSome]
  exact ⟨t, mem_all_iff.mpr h, decide_eq_true rfl⟩

theorem color_of_findVariable? {c : Catalog} {name : Text} {t u : Token} (ht : t ∈ c.tokens)
    (hcolor : t.category = .color) (hname : t.variableName = name)
    (h : c.findVariable? name = some u) : u.category = .color := by
  have hall : c.all = c.ofCategory .color ++ (Category.all.tail.flatMap c.ofCategory) := rfl
  have hsome : ((c.ofCategory .color).find? fun v => v.variableName = name).isSome = true := by
    rw [List.find?_isSome]
    exact ⟨t, List.mem_filter.mpr ⟨ht, decide_eq_true hcolor⟩, decide_eq_true hname⟩
  rcases Option.isSome_iff_exists.mp hsome with ⟨v, hv⟩
  rw [findVariable?, hall, List.find?_append, hv, Option.some_or] at h
  cases h
  exact of_decide_eq_true (List.mem_filter.mp (List.mem_of_find?_eq_some hv)).2

/-- Whether a catalog finds every token by its variable, a color before a font. -/
structure FindsVariables (c : Catalog) : Prop where
  named : ∀ name t, c.findVariable? name = some t → t.variableName = name
  declared : ∀ t ∈ c.tokens, t.category ≠ .typography → c.findVariable? t.variableName = some t
  font : ∀ t ∈ c.tokens, t.category = .typography →
    (∀ u ∈ c.tokens, u.category = .color → u.variableName ≠ t.variableName) →
      c.findVariable? t.variableName = some t
  color : ∀ t ∈ c.tokens, t.category = .typography → ∀ u ∈ c.tokens, u.category = .color →
    u.variableName = t.variableName → c.findVariable? t.variableName = some u

theorem findsVariables_ofTable (normalize : Bool) {table : Table Text}
    (hnames : table.names.Nodup)
    (hwords : ∀ entry ∈ table, ∃ word, entry.1 = "--".toList ++ word) :
    (ofTable normalize table).FindsVariables := by
  have hdeclared : ∀ t ∈ (ofTable normalize table).tokens, t.category ≠ .typography →
      (ofTable normalize table).findVariable? t.variableName = some t := by
    intro t ht hfont
    rcases exists_findVariable? ht with ⟨u, hu⟩
    rcases findVariable?_spec hu with ⟨hmem, hname⟩
    have hufont : u.category ≠ .typography := by
      intro hufont
      have hcolor := color_of_variableName hwords ht hmem hfont hufont hname.symm
      rw [color_of_findVariable? ht hcolor rfl hu] at hufont
      cases hufont
    rw [hu, eq_of_variableName_declared hnames hmem ht hufont hfont hname]
  refine ⟨fun name t h => (findVariable?_spec h).2, hdeclared, ?_, ?_⟩
  · intro t ht hfont hnone
    rcases exists_findVariable? ht with ⟨u, hu⟩
    rcases findVariable?_spec hu with ⟨hmem, hname⟩
    have hufont : u.category = .typography := by
      by_contra hufont
      exact hnone u hmem (color_of_variableName hwords hmem ht hufont hfont hname) hname
    rw [hu, eq_of_variableName_typography hmem ht hufont hfont hname]
  · intro t _ _ u hu hcolor hname
    rw [← hname]
    exact hdeclared u hu (by rw [hcolor]; decide)

end Catalog
end DesignTokens
