import DesignTokens.Proofs.Registry.Query
import DesignTokens.Proofs.Stylesheet.RoundTrip
import DesignTokens.Proofs.Token.Typography

/-!
# Fonts of a registry

Of several declarations of one field of a font the one counts whose variable comes up
last in the stylesheet, with its last value. That is the last declaration of the field
unless a variable that came up before others is declared again behind them.

A value that was declared for a field is found in typography as long as the field
keeps the text of the value.
-/

namespace DesignTokens

namespace Catalog

/-!
## Fonts of a written stylesheet
-/

theorem entriesOf_eq_self {category : Category} {table : Table Text}
    (h : ∀ entry ∈ table, kind? entry = some category) : entriesOf category table = table := by
  unfold entriesOf
  rw [List.filter_eq_self]
  intro entry hentry
  simpa using h entry hentry

theorem kind?_of_mem_lastValues {entries : Table Text} {category : Category}
    (h : ∀ entry ∈ entries, kind? entry = some category) :
    ∀ entry ∈ Table.lastValues entries, kind? entry = some category :=
  fun entry hentry => h entry (Table.mem_of_mem_lastValues hentry)

theorem told_lastValues {entries : Table Text}
    (h : ∀ entry ∈ entries, kind? entry = some .typography) (name : Text) (field : FontField) :
    told (Table.lastValues entries) name field = Table.lastValues (told entries name field) := by
  unfold told tellings namesakes fontName
  rw [entriesOf_eq_self h, entriesOf_eq_self (kind?_of_mem_lastValues h)]
  rw [Table.filter_lastValues fun property =>
      decide (Variable.baseName (Variable.tokenName property) = name),
    Table.filter_lastValues fun property => decide (Variable.fontField? property = some field)]

theorem map_fontName_lastValues (entries : Table Text) :
    ((Table.lastValues entries).map fontName).eraseDups = (entries.map fontName).eraseDups := by
  have hnames : ∀ t : Table Text,
      t.map fontName = (t.map (·.1)).map fun n => Variable.baseName (Variable.tokenName n) := by
    intro t
    rw [List.map_map]
    rfl
  have hlast : (Table.lastValues entries).map (·.1) = (entries.map (·.1)).eraseDups :=
    Table.names_lastValues entries
  rw [hnames, hlast, Table.eraseDups_map_eraseDups, ← hnames]

/--
What a font holds in its fields, given the declarations of typography in the order in
which they were written.
-/
structure HoldsNewest (declarations : Table Text) (name : Text) (font : Font) : Prop where
  /-- the value of a field is that of the variable that comes up last -/
  value : ∀ field, font.value? field =
    (Table.newest? (told declarations name field)).map fun entry => field.kept entry.2
  /-- the last declaration counts if it is one of this variable, or has the value of it -/
  last : ∀ field last, (told declarations name field).getLast? = some last →
    (font.value? field = some (field.kept last.2) ↔
      ((told declarations name field).map (·.1)).eraseDups.getLast? = some last.1 ∨
        ∃ newest, Table.newest? (told declarations name field) = some newest ∧
          newest.1 ≠ last.1 ∧ field.kept newest.2 = field.kept last.2)

theorem map_newest?_eq_iff {told : Table Text} {last : Text × Text} {β : Type} (f : Text → β)
    (hlast : told.getLast? = some last) :
    ((Table.newest? told).map fun entry => f entry.2) = some (f last.2) ↔
      (told.map (·.1)).eraseDups.getLast? = some last.1 ∨
        ∃ newest, Table.newest? told = some newest ∧ newest.1 ≠ last.1 ∧ f newest.2 = f last.2 := by
  rw [← Table.newest?_eq_getLast?_iff hlast, Option.map_eq_some_iff]
  constructor
  · rintro ⟨newest, hnewest, hvalue⟩
    by_cases hname : newest.1 = last.1
    · refine .inl ((Table.newest?_eq_getLast?_iff hlast).mpr ?_)
      rw [← Table.name_newest?, hnewest, Option.map_some, hname]
    · exact .inr ⟨newest, hnewest, hname, hvalue⟩
  · rintro (hnewest | ⟨newest, hnewest, -, hvalue⟩)
    · exact ⟨last, hnewest, rfl⟩
    · exact ⟨newest, hnewest, hvalue⟩

theorem AreFontsOf.holdsNewest {declarations : Table Text} {tokens : List Token} {t : Token}
    (hkind : ∀ entry ∈ declarations, kind? entry = some .typography)
    (h : AreFontsOf (Table.lastValues declarations) tokens) (ht : t ∈ tokens) :
    ∃ font, t.value = .typography font ∧ HoldsNewest declarations t.name font := by
  rcases h.font t ht with ⟨font, hfont, -, hvalue⟩
  have hnewest : ∀ field, font.value? field =
      (Table.newest? (told declarations t.name field)).map fun entry => field.kept entry.2 := by
    intro field
    rw [hvalue, told_lastValues hkind]
    rfl
  refine ⟨font, hfont, hnewest, ?_⟩
  intro field last hlast
  rw [hnewest]
  exact map_newest?_eq_iff field.kept hlast

end Catalog

namespace Stylesheet.Sheet

def withSizes : Sheet where
  before := []
  items :=
    [.declaration "h-font-size".toList "1rem".toList,
     .declaration "font-h-font-size".toList "2rem".toList,
     .declaration "h-font-size".toList "3rem".toList]
  after := []

end Stylesheet.Sheet

namespace Registry

open Stylesheet (Sheet)

/--
A stylesheet of typography gives one token to every base name, in the order of the
names, and a field of it holds the last value of the variable that comes up last.
-/
theorem load_fonts {s s₁ : Session} {source : Source} {sheet : Sheet}
    (hsheet : sheet.IsWritable)
    (hkind : ∀ entry ∈ sheet.entries, Catalog.kind? entry = some .typography)
    (hfresh : s.registry.catalog = none) (hsource : sourceText source s = .ok sheet.written s₁)
    (later : List Step) :
    ∃ s₂ c, load source s = .ok () s₂ ∧ (s₂.afterAll later).registry.catalog = some c ∧
      (c.ofCategory .typography).map (·.name) = (sheet.entries.map Catalog.fontName).eraseDups ∧
      ∀ t ∈ c.ofCategory .typography,
        ∃ font, t.value = .typography font ∧ Catalog.HoldsNewest sheet.entries t.name font := by
  have hfonts := Catalog.areFontsOf_ofTable s.registry.config.normalize
    (Stylesheet.properties sheet.written)
  have htable := Stylesheet.properties_written sheet hsheet
  refine ⟨{ s₁ with registry := s.registry.loadedWith sheet.written },
    Catalog.ofTable s.registry.config.normalize (Stylesheet.properties sheet.written),
    load_of_sourceText hfresh hsource, ?_, ?_, ?_⟩
  · rw [Session.registry_afterAll rfl]
    rfl
  · rw [hfonts.names, htable, Catalog.entriesOf_eq_self (Catalog.kind?_of_mem_lastValues hkind),
      Catalog.map_fontName_lastValues]
  · intro t ht
    rw [htable] at hfonts ht
    exact hfonts.holdsNewest hkind ht

/-- The size that is declared last is not the one that the font has. -/
theorem load_fonts_withSizes :
    ∃ s₂ c t font,
      load (.text Sheet.withSizes.written) (.start ⟨none, none, true⟩ [] ⟨none, none⟩) = .ok () s₂ ∧
        s₂.registry.catalog = some c ∧ c.ofCategory .typography = [t] ∧
        t.value = .typography font ∧
        (Catalog.told Sheet.withSizes.entries t.name .fontSize).getLast? =
          some ("--h-font-size".toList, "3rem".toList) ∧
        font.value? .fontSize = some (.text "2rem".toList) := by
  have hsheet : Sheet.withSizes.IsWritable := by decide +kernel
  have hkind : ∀ entry ∈ Sheet.withSizes.entries, Catalog.kind? entry = some .typography := by
    decide +kernel
  have hsource : sourceText (.text Sheet.withSizes.written)
      (.start ⟨none, none, true⟩ [] ⟨none, none⟩) = .ok Sheet.withSizes.written _ := rfl
  rcases load_fonts hsheet hkind rfl hsource [] with ⟨s₂, c, hload, hcatalog, hnames, hfonts⟩
  have hname : (Sheet.withSizes.entries.map Catalog.fontName).eraseDups = ["h".toList] := by
    decide +kernel
  rw [hname] at hnames
  rcases List.map_eq_singleton_iff.mp hnames with ⟨t, htokens, ht⟩
  rcases hfonts t (by simp [htokens]) with ⟨font, hfont, hholds⟩
  rw [ht] at hholds
  have hnewest : Table.newest? (Catalog.told Sheet.withSizes.entries "h".toList .fontSize) =
      some ("--font-h-font-size".toList, "2rem".toList) := by
    decide +kernel
  refine ⟨s₂, c, t, font, hload, hcatalog, htokens, hfont, ?_, ?_⟩
  · rw [ht]
    decide +kernel
  · rw [hholds.value, hnewest]
    rfl

/-!
## Looking up what was declared
-/

/--
The question for a value that sets a field of a font has an answer. It is certain, and a
font with this text, if there is one; and there is one if the field keeps the text of
the value, or if some field has this text.
-/
theorem bestMatch_set {s : Session} {c : Catalog} {entry : Text × Text} {field : FontField}
    (hs : s.IsReached) (hc : s.registry.catalog = some c)
    (hset : Catalog.IsSet c.properties entry field) (options : QueryOptions) :
    ∃ found,
      bestMatch entry.2 (some Category.typography.name) options s = .ok found s ∧
        (∀ m, found = some m → m.confidence = 1 ∧ m.token ∈ c.ofCategory .typography ∧
          entry.2 ∈ m.token.texts) ∧
        (found.isSome = true ↔
          field.Retains entry.2 ∨
            ∃ other told, (other, told) ≠ (entry, field) ∧
              Catalog.IsSet c.properties other told ∧ told.text other.2 = entry.2) := by
  rcases exists_stylesheet hs hc with ⟨normalize, css, rfl⟩
  have hstrip : Text.strip entry.2 = entry.2 := Stylesheet.strip_of_mem_properties hset.mem
  refine ⟨_, bestMatch_of_matchIn hc (matchIn_text_run hc (by decide)), ?_, ?_⟩
  · intro m hm
    rcases Catalog.sameText?_spec hm with ⟨hmem, htext, -⟩
    rw [hstrip] at htext
    exact ⟨confidence_of_sameText? hm, hmem, htext⟩
  · rw [Catalog.isSome_sameText?_typography, hstrip, ← field.text_eq_iff]
    constructor
    · rintro ⟨other, told, hother, htext⟩
      by_cases hsame : (other, told) = (entry, field)
      · cases hsame
        exact .inl htext
      · exact .inr ⟨other, told, hsame, hother, htext⟩
    · rintro (htext | ⟨other, told, -, hother, htext⟩)
      · exact ⟨entry, field, hset, htext⟩
      · exact ⟨other, told, hother, htext⟩

def numberSheet : Text :=
  ":root \x7b --h-font-weight: 700; --h-line-height: 1.50; \x7d".toList

theorem bestMatch_set_number :
    ∃ s c found,
      s = Session.opened numberSheet ∧ s.registry.catalog = some c ∧
        Catalog.IsSet c.properties ("--h-font-weight".toList, "700".toList) .fontWeight ∧
        Catalog.IsSet c.properties ("--h-line-height".toList, "1.50".toList) .lineHeight ∧
        bestMatch "700".toList (some Category.typography.name) ⟨some .standard, none, false⟩ s =
          .ok (some found) s ∧
        bestMatch "1.50".toList (some Category.typography.name) ⟨some .standard, none, false⟩ s =
          .ok none s := by
  have hc := Session.catalog_opened (show numberSheet ≠ [] by decide)
  have htable : Stylesheet.properties numberSheet =
      [("--h-font-weight".toList, "700".toList), ("--h-line-height".toList, "1.50".toList)] := by
    decide +kernel
  have hweight : Catalog.IsSet (Stylesheet.properties numberSheet)
      ("--h-font-weight".toList, "700".toList) .fontWeight := by
    decide +kernel
  have hheight : Catalog.IsSet (Stylesheet.properties numberSheet)
      ("--h-line-height".toList, "1.50".toList) .lineHeight := by
    decide +kernel
  obtain ⟨found, hfoundrun, -, hfound⟩ :=
    bestMatch_set (Session.isReached_opened numberSheet) hc hweight ⟨some .standard, none, false⟩
  obtain ⟨missed, hmissedrun, -, hmissed⟩ :=
    bestMatch_set (Session.isReached_opened numberSheet) hc hheight ⟨some .standard, none, false⟩
  have hdigits : ∀ c ∈ "700".toList, Text.isDecimal c = true := List.all_eq_true.mp (by decide)
  have hretains : FontField.fontWeight.Retains "700".toList := by
    rw [FontField.retains_whole_iff (.inl rfl) hdigits (by decide) (by decide +kernel)]
    decide +kernel
  have hlost : ¬ FontField.lineHeight.Retains "1.50".toList := by
    rw [← FontField.text_eq_iff]
    decide +kernel
  have hothers : ∀ other ∈ Stylesheet.properties numberSheet, ∀ told ∈ FontField.all,
      Catalog.IsSet (Stylesheet.properties numberSheet) other told →
        told.text other.2 ≠ "1.50".toList := by
    rw [htable]
    decide +kernel
  rcases Option.isSome_iff_exists.mp (hfound.mpr (.inl hretains)) with ⟨m, rfl⟩
  have hnone : missed = none := by
    rw [← Option.not_isSome_iff_eq_none, hmissed, not_or]
    refine ⟨hlost, ?_⟩
    rintro ⟨other, told, -, hset, htext⟩
    exact hothers other hset.mem told told.mem_all hset htext
  rw [hnone] at hmissedrun
  exact ⟨_, _, m, rfl, hc, hweight, hheight, hfoundrun, hmissedrun⟩

end Registry
end DesignTokens
