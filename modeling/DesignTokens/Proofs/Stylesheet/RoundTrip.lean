import DesignTokens.Proofs.Stylesheet.Scan
import DesignTokens.Proofs.Table

/-!
# Reading written stylesheets

A stylesheet is written as one block of declarations, with comments before it,
in it and behind it. Reading it gives back the declared variables: every name at
the place of its first declaration with the value of its last one. Values are
any closed texts, so that they may hold quotes, brackets, and semicolons and
braces inside of these.
-/

namespace DesignTokens
namespace Stylesheet

open Source (commentText IsCommentBody)

theorem properties_eq_lastValues (css : Text) :
    properties css = Table.lastValues ((declarations css).filter fun d => d.2 ≠ []) := by
  rw [← Table.fill_eq, Table.fill, List.foldl_filter]
  unfold properties
  congr 1
  funext table d
  by_cases h : d.2 = []
  · simp [h]
  · simp [h]

/-!
## Written stylesheets
-/

inductive Item where
  | declaration (name value : Text)
  | comment (body : Text)

namespace Item

def written : Item → Text
  | .declaration name value => " --".toList ++ name ++ ": ".toList ++ value ++ [';']
  | .comment body => commentText body

def entry? : Item → Option (Text × Text)
  | .declaration name value => some ("--".toList ++ name, value)
  | .comment _ => none

end Item

/--
A name and a value that can be declared: a name of letters, digits, underscores and
hyphens, and a closed value without blanks around it and without a comment mark.
-/
structure IsDeclarable (name value : Text) : Prop where
  name_ne : name ≠ []
  name_chars : ∀ c ∈ name, isNameChar c = true
  value_ne : value ≠ []
  trimmed : Text.strip value = value
  unmarked : ¬ ['/', '*'] <:+: value
  closed : IsClosed value

instance (name value : Text) : Decidable (IsDeclarable name value) :=
  decidable_of_iff
    (name ≠ [] ∧ name.all isNameChar = true ∧ value ≠ [] ∧ Text.strip value = value ∧
      ¬ ['/', '*'] <:+: value ∧ IsClosed value)
    ⟨fun ⟨h1, h2, h3, h4, h5, h6⟩ => ⟨h1, List.all_eq_true.mp h2, h3, h4, h5, h6⟩,
      fun h => ⟨h.1, List.all_eq_true.mpr h.2, h.3, h.4, h.5, h.6⟩⟩

def Item.IsWritable : Item → Prop
  | .declaration name value => IsDeclarable name value
  | .comment body => IsCommentBody body

instance : (item : Item) → Decidable item.IsWritable
  | .declaration name value => inferInstanceAs (Decidable (IsDeclarable name value))
  | .comment body => inferInstanceAs (Decidable (IsCommentBody body))

/-- A block of items, with comments before and behind it. -/
structure Sheet where
  before : List Text
  items : List Item
  after : List Text

namespace Sheet

def written (sheet : Sheet) : Text :=
  sheet.before.flatMap commentText ++ ":root \x7b".toList ++ sheet.items.flatMap Item.written ++
    " \x7d".toList ++ sheet.after.flatMap commentText

def entries (sheet : Sheet) : List (Text × Text) :=
  sheet.items.filterMap Item.entry?

structure IsWritable (sheet : Sheet) : Prop where
  before : ∀ body ∈ sheet.before, IsCommentBody body
  items : ∀ item ∈ sheet.items, item.IsWritable
  after : ∀ body ∈ sheet.after, IsCommentBody body

instance (sheet : Sheet) : Decidable sheet.IsWritable :=
  decidable_of_iff
    ((∀ body ∈ sheet.before, IsCommentBody body) ∧ (∀ item ∈ sheet.items, item.IsWritable) ∧
      ∀ body ∈ sheet.after, IsCommentBody body)
    ⟨fun ⟨h1, h2, h3⟩ => ⟨h1, h2, h3⟩, fun h => ⟨h.1, h.2, h.3⟩⟩

def redeclaring : Sheet where
  before := [" \x7b --x: 1; ".toList]
  items :=
    [.comment "\x7d;--y: 2".toList,
     .declaration "a".toList "url(\"\x7d\\\";\") [;\x7b,\x7d]".toList,
     .comment [],
     .declaration "_b-".toList "'--c: x;'".toList,
     .declaration "a".toList "2".toList]
  after := ["*".toList]

end Sheet

/-!
## Reading without comments
-/

theorem withoutComments_of_no_slash {t : Text} (rest : Text) (h : '/' ∉ t) :
    withoutComments (t ++ rest) = t ++ withoutComments rest := by
  apply withoutComments_append
  · intro hmark
    exact h (hmark.subset (by simp))
  · intro hlast
    exact absurd (List.mem_of_getLast? hlast) h

theorem withoutComments_comments {bodies : List Text} (rest : Text)
    (h : ∀ body ∈ bodies, IsCommentBody body) :
    withoutComments (bodies.flatMap commentText ++ rest) = withoutComments rest := by
  induction bodies with
  | nil => rfl
  | cons body bodies ih =>
      have hbody : IsCommentBody body := h body List.mem_cons_self
      have htail : ∀ b ∈ bodies, IsCommentBody b := fun b hb => h b (List.mem_cons_of_mem _ hb)
      rw [List.flatMap_cons, List.append_assoc, commentText, withoutComments_comment _ hbody,
        ih htail]

def declarationText (entry : Text × Text) : Text :=
  ' ' :: entry.1 ++ ": ".toList ++ entry.2 ++ [';']

theorem no_slash_of_name {name : Text} (h : ∀ c ∈ name, isNameChar c = true) : '/' ∉ name := by
  intro hmem
  have hslash := h '/' hmem
  revert hslash
  decide

theorem withoutComments_item {item : Item} (rest : Text) (h : item.IsWritable) :
    withoutComments (item.written ++ rest) =
      item.entry?.toList.flatMap declarationText ++ withoutComments rest := by
  cases item with
  | comment body =>
      simp only [Item.written, Item.entry?, commentText]
      rw [withoutComments_comment rest h]
      rfl
  | declaration name value =>
      have hdecl : IsDeclarable name value := h
      have hhead : '/' ∉ " --".toList ++ name ++ ": ".toList := by
        have hname := no_slash_of_name hdecl.name_chars
        simp [hname]
      have hvalue : withoutComments (value ++ ([';'] ++ rest)) =
          value ++ withoutComments ([';'] ++ rest) := by
        apply withoutComments_append hdecl.unmarked
        intro _
        simp
      have hsemi : withoutComments ([';'] ++ rest) = [';'] ++ withoutComments rest :=
        withoutComments_of_no_slash rest (by decide)
      have htext : (Item.declaration name value).written ++ rest =
          " --".toList ++ name ++ ": ".toList ++ (value ++ ([';'] ++ rest)) := by
        simp [Item.written]
      rw [htext, withoutComments_of_no_slash _ hhead, hvalue, hsemi]
      simp [Item.entry?, declarationText]

theorem withoutComments_items {items : List Item} (rest : Text)
    (h : ∀ item ∈ items, item.IsWritable) :
    withoutComments (items.flatMap Item.written ++ rest) =
      (items.filterMap Item.entry?).flatMap declarationText ++ withoutComments rest := by
  induction items with
  | nil => rfl
  | cons item items ih =>
      have hitem : item.IsWritable := h item List.mem_cons_self
      have htail : ∀ i ∈ items, i.IsWritable := fun i hi => h i (List.mem_cons_of_mem _ hi)
      rw [List.flatMap_cons, List.append_assoc, withoutComments_item _ hitem, ih htail]
      cases hentry : item.entry? with
      | none => simp [hentry]
      | some entry => simp [hentry]

theorem withoutComments_written {sheet : Sheet} (h : sheet.IsWritable) :
    withoutComments sheet.written =
      ":root \x7b".toList ++ (sheet.entries.flatMap declarationText ++ " \x7d".toList) := by
  have htext : sheet.written = sheet.before.flatMap commentText ++ (":root \x7b".toList ++
      (sheet.items.flatMap Item.written ++ (" \x7d".toList ++
        (sheet.after.flatMap commentText ++ [])))) := by
    simp [Sheet.written]
  rw [htext, withoutComments_comments _ h.before, withoutComments_of_no_slash _ (by decide),
    withoutComments_items _ h.items, withoutComments_of_no_slash _ (by decide),
    withoutComments_comments _ h.after, withoutComments]
  simp [Sheet.entries]

/-!
## Reading the declarations
-/

theorem isClosed_blank_cons {value : Text} (h : IsClosed value) : IsClosed (' ' :: value) := by
  have hends : ¬ ValueState.ends .top ' ' = true := by decide
  have hstep : ValueState.step .top ' ' = .top := by decide
  constructor
  · rw [splitValue, if_neg hends, hstep, h.1]
  · rw [List.foldl_cons, hstep, h.2]

/-- Declarations of a block are read one after the other. -/
theorem declarationsFrom_entries {last : Option Char} {items : List Item}
    (hlast : beginsStatement last = true) (h : ∀ item ∈ items, item.IsWritable) :
    declarationsFrom last
        ((items.filterMap Item.entry?).flatMap declarationText ++ " \x7d".toList) =
      items.filterMap Item.entry? := by
  induction items generalizing last with
  | nil =>
      rw [List.filterMap_nil, List.flatMap_nil, List.nil_append, ← List.append_nil " \x7d".toList,
        declarationsFrom_append _ _ (by decide), declarationsFrom]
  | cons item items ih =>
      have htail : ∀ i ∈ items, i.IsWritable := fun i hi => h i (List.mem_cons_of_mem _ hi)
      cases item with
      | comment body => exact ih hlast htail
      | declaration name value =>
          have hdecl : IsDeclarable name value := h _ List.mem_cons_self
          have hstrip : Text.strip (' ' :: value) = value := by
            have hpad : Text.strip ([' '] ++ value ++ []) = Text.strip value :=
              Text.strip_pad value Text.isBlank_space (by simp)
            rw [List.append_nil] at hpad
            exact hpad.trans hdecl.trimmed
          have hsemi : beginsStatement (some ';') = true := by decide
          have hrest := ih hsemi htail
          have htext : ∀ rest, declarationText ("--".toList ++ name, value) ++ rest =
              [' '] ++ ("--".toList ++ name ++ [] ++ ':' :: (' ' :: value ++ ';' :: rest)) := by
            intro rest
            simp [declarationText]
          simp only [List.filterMap_cons, Item.entry?, List.flatMap_cons, List.append_assoc]
          rw [htext, declarationsFrom_append _ _ (by decide)]
          have hbegins : beginsStatement (lastSolid last [' ']) = true := hlast
          rw [declarationsFrom_written hbegins hdecl.name_ne hdecl.name_chars (by simp)
            (isClosed_blank_cons hdecl.closed) (by simp [ValueState.ends]), hstrip]
          exact congrArg _ hrest

theorem declarations_written {sheet : Sheet} (h : sheet.IsWritable) :
    declarations sheet.written = sheet.entries := by
  unfold declarations
  rw [withoutComments_written h, declarationsFrom_append _ _ (by decide)]
  exact declarationsFrom_entries (by decide) h.items

theorem value_ne_of_mem_entries {sheet : Sheet} {entry : Text × Text} (h : sheet.IsWritable)
    (hentry : entry ∈ sheet.entries) : entry.2 ≠ [] := by
  rcases List.mem_filterMap.mp hentry with ⟨item, hitem, hsome⟩
  cases item with
  | comment body => simp [Item.entry?] at hsome
  | declaration name value =>
      have hdecl : IsDeclarable name value := h.items _ hitem
      simp only [Item.entry?, Option.some.injEq] at hsome
      rw [← hsome]
      exact hdecl.value_ne

/--
Reading a written stylesheet gives its variables in the order of their first
declarations with the values of their last ones, whatever comments stand between.
-/
theorem properties_written (sheet : Sheet) (h : sheet.IsWritable) :
    properties sheet.written = Table.lastValues sheet.entries := by
  have hfilter : sheet.entries.filter (fun d => d.2 ≠ []) = sheet.entries := by
    rw [List.filter_eq_self]
    intro entry hentry
    simpa using value_ne_of_mem_entries h hentry
  rw [properties_eq_lastValues, declarations_written h, hfilter]

theorem properties_written_redeclaring :
    Sheet.redeclaring.IsWritable ∧
      properties Sheet.redeclaring.written =
        [("--a".toList, "2".toList), ("--_b-".toList, "'--c: x;'".toList)] := by
  have hwritable : Sheet.redeclaring.IsWritable := by decide +kernel
  refine ⟨hwritable, ?_⟩
  rw [properties_written Sheet.redeclaring hwritable]
  decide +kernel

end Stylesheet
end DesignTokens
