import DesignTokens.Proofs.Token.Catalog

/-!
# Names of tokens

The name of a token is what its variable has behind one of five leads, or behind none.
The variables of typography share a token if their names come to the same base. In all
other categories every variable makes a token of its own, so that two tokens have one
name if their variables differ in their leads alone.
-/

namespace DesignTokens

namespace Variable

/-!
## Leads
-/

def IsLead (lead name : Text) : Prop :=
  lead ∈ categoryLeads ∨ lead = [] ∧ ∀ other ∈ categoryLeads, ¬ other <+: name

/-- Two variables that differ in their leads at most. -/
def ShareName (p q : Text) : Prop :=
  ∃ name lead lead', IsLead lead name ∧ IsLead lead' name ∧
    p = "--".toList ++ (lead ++ name) ∧ q = "--".toList ++ (lead' ++ name)

theorem after?_eq_none_iff {lead t : Text} : Text.after? lead t = none ↔ ¬ lead <+: t := by
  rw [Option.eq_none_iff_forall_ne_some]
  constructor
  · rintro h ⟨rest, hrest⟩
    exact h rest (Text.after?_eq_some_iff.mpr hrest.symm)
  · intro h rest hrest
    exact h ⟨rest, (Text.after?_eq_some_iff.mp hrest).symm⟩

theorem tokenName_eq (word : Text) :
    tokenName ("--".toList ++ word) =
      (categoryLeads.findSome? fun lead => Text.after? lead word).getD word := by
  have hword : Text.removeLead "--".toList ("--".toList ++ word) = word := by
    rw [Text.removeLead, Text.after?_eq_some_iff.mpr rfl, Option.getD_some]
  rw [tokenName, hword]

theorem tokenName_written {lead name : Text} (h : IsLead lead name) :
    tokenName ("--".toList ++ (lead ++ name)) = name := by
  rw [tokenName_eq]
  rcases h with h | ⟨rfl, h⟩
  · -- no lead begins another one
    simp only [categoryLeads, List.mem_cons, List.not_mem_nil, or_false] at h
    rcases h with rfl | rfl | rfl | rfl | rfl <;> rfl
  · have hnone : (categoryLeads.findSome? fun lead => Text.after? lead name) = none := by
      rw [List.findSome?_eq_none_iff]
      exact fun other hother => after?_eq_none_iff.mpr (h other hother)
    rw [List.nil_append, hnone, Option.getD_none]

theorem exists_lead (word : Text) :
    ∃ lead, IsLead lead (tokenName ("--".toList ++ word)) ∧
      word = lead ++ tokenName ("--".toList ++ word) := by
  rw [tokenName_eq]
  cases hfound : categoryLeads.findSome? fun lead => Text.after? lead word with
  | none =>
      rw [List.findSome?_eq_none_iff] at hfound
      refine ⟨[], .inr ⟨rfl, fun other hother => ?_⟩, rfl⟩
      exact after?_eq_none_iff.mp (hfound other hother)
  | some name =>
      rcases List.exists_of_findSome?_eq_some hfound with ⟨lead, hlead, hname⟩
      exact ⟨lead, .inl hlead, Text.after?_eq_some_iff.mp hname⟩

theorem ShareName.tokenName_eq {p q : Text} (h : ShareName p q) : tokenName p = tokenName q := by
  rcases h with ⟨name, lead, lead', hlead, hlead', rfl, rfl⟩
  rw [tokenName_written hlead, tokenName_written hlead']

theorem tokenName_eq_iff (word word' : Text) :
    tokenName ("--".toList ++ word) = tokenName ("--".toList ++ word') ↔
      ShareName ("--".toList ++ word) ("--".toList ++ word') := by
  refine ⟨fun h => ?_, ShareName.tokenName_eq⟩
  rcases exists_lead word with ⟨lead, hlead, hword⟩
  rcases exists_lead word' with ⟨lead', hlead', hword'⟩
  rw [← h] at hlead' hword'
  exact ⟨_, lead, lead', hlead, hlead', congrArg _ hword, congrArg _ hword'⟩

end Variable

namespace Catalog

/-!
## Tokens of one name
-/

def makes (normalize : Bool) (category : Category) (entry : Text × Text) : Bool :=
  (tokenFor? normalize entry).any fun t => t.category = category

theorem names_ofCategory (normalize : Bool) (table : Table Text) {category : Category}
    (hne : category ≠ .typography) :
    ((ofTable normalize table).ofCategory category).map (·.name) =
      (table.filter (makes normalize category)).map fun entry => Variable.tokenName entry.1 := by
  rw [ofCategory_ofTable normalize table hne, ← filter_filterMap_tokenFor?]
  induction table with
  | nil => rfl
  | cons entry table ih =>
      cases ht : tokenFor? normalize entry with
      | none =>
          have hmakes : makes normalize category entry = false := by simp [makes, ht]
          rw [List.filterMap_cons_none ht, ih, List.filter_cons_of_neg (by simp [hmakes])]
      | some t =>
          have hmakes : makes normalize category entry = decide (t.category = category) := by
            simp [makes, ht]
          rw [List.filterMap_cons_some ht, List.filter_cons, List.filter_cons, hmakes]
          split
          · rw [List.map_cons, List.map_cons, ih, name_of_tokenFor? ht]
          · exact ih

theorem nodup_names_typography (normalize : Bool) (table : Table Text) :
    (((ofTable normalize table).ofCategory .typography).map (·.name)).Nodup := by
  have hnames : ∀ (names : List Text) (font : Text → Font),
      (names.map fun name => fontToken name (font name)).map (·.name) = names := by
    intro names font
    rw [List.map_map]
    exact List.map_id names
  rw [ofCategory_typography, hnames]
  exact Table.nodup_eraseDups _

/-- Tokens of a category have different names if no two of its variables differ in leads alone. -/
theorem nodup_names_iff (normalize : Bool) {table : Table Text} {category : Category}
    (hne : category ≠ .typography) (hnames : table.names.Nodup)
    (hwords : ∀ entry ∈ table, ∃ word, entry.1 = "--".toList ++ word) :
    (((ofTable normalize table).ofCategory category).map (·.name)).Nodup ↔
      ∀ entry ∈ table, ∀ other ∈ table, makes normalize category entry = true →
        makes normalize category other = true → Variable.ShareName entry.1 other.1 →
          entry = other := by
  have hnodup : (table.filter (makes normalize category)).Nodup :=
    (List.Nodup.of_map _ hnames).filter _
  have hshare : ∀ entry ∈ table, ∀ other ∈ table,
      Variable.tokenName entry.1 = Variable.tokenName other.1 ↔
        Variable.ShareName entry.1 other.1 := by
    intro entry hentry other hother
    rcases hwords entry hentry with ⟨word, hword⟩
    rcases hwords other hother with ⟨word', hword'⟩
    rw [hword, hword']
    exact Variable.tokenName_eq_iff word word'
  rw [names_ofCategory normalize table hne, List.nodup_map_iff_inj_on hnodup]
  constructor
  · intro h entry hentry other hother hmakes hmakes' hname
    exact h entry (List.mem_filter.mpr ⟨hentry, hmakes⟩) other
      (List.mem_filter.mpr ⟨hother, hmakes'⟩) ((hshare entry hentry other hother).mpr hname)
  · intro h entry hentry other hother hname
    rw [List.mem_filter] at hentry hother
    exact h entry hentry.1 other hother.1 hentry.2 hother.2
      ((hshare entry hentry.1 other hother.1).mp hname)

end Catalog
end DesignTokens
