import DesignTokens.Proofs.Number.Whole
import DesignTokens.Proofs.Token.Catalog
import DesignTokens.Token.Lookup

/-!
# Fonts of several variables

The variables of typography that come to one base name are gathered in one token. A
field of its font holds what the last variable tells that is about this field. No
variable of typography tells a letter spacing, because all names with a spacing in
them belong to another category.

A value is looked up among the texts of the fields. Weights and line heights that are
numbers do not keep the text in which they were declared.
-/

namespace DesignTokens

/-!
## Fields
-/

namespace FontField

theorem mem_all (field : FontField) : field ∈ all := by
  cases field <;> decide

/-- What a field keeps of a declared value. Weights and line heights may be numbers. -/
def kept (field : FontField) (value : Text) : Scalar :=
  match field with
  | .fontWeight => .ofText value
  | .lineHeight => .ofText value
  | _ => .text value

def text (field : FontField) (value : Text) : Text :=
  (field.kept value).toText

/--
Whether the text of a field is the one that was declared: a number has to be declared
as it is written.
-/
def Retains (field : FontField) (value : Text) : Prop :=
  field = .fontWeight ∨ field = .lineHeight →
    ∀ x, Numeral.float? value = some x → (Scalar.ofText value).toText = value

theorem text_eq_iff (field : FontField) (value : Text) :
    field.text value = value ↔ field.Retains value := by
  have hnumber : (Scalar.ofText value).toText = value ↔
      ∀ x, Numeral.float? value = some x → (Scalar.ofText value).toText = value := by
    refine ⟨fun h _ _ => h, fun h => ?_⟩
    cases hfloat : Numeral.float? value with
    | none => simp [Scalar.ofText, hfloat, Scalar.toText]
    | some x => exact h x hfloat
  cases field with
  | fontWeight => simpa [text, kept, Retains] using hnumber
  | lineHeight => simpa [text, kept, Retains] using hnumber
  | _ => simp [text, kept, Retains, Scalar.toText]

theorem retains_whole_iff {field : FontField} {value : Text}
    (hfield : field = .fontWeight ∨ field = .lineHeight)
    (hdigits : ∀ c ∈ value, Text.isDecimal c = true) (hne : value ≠ [])
    (hexact : Numeral.digitsValue (value.map Numeral.asciiDigit) ≤ 2 ^ 53) :
    field.Retains value ↔
      Text.ofNat (Numeral.digitsValue (value.map Numeral.asciiDigit)) = value := by
  rw [← text_eq_iff, ← Scalar.toText_ofText_whole hdigits hne hexact]
  rcases hfield with rfl | rfl <;> rfl

end FontField

namespace Font

def value? (font : Font) : FontField → Option Scalar
  | .fontFamily => font.family.map .text
  | .fontSize => font.size.map .text
  | .fontWeight => font.weight
  | .lineHeight => font.lineHeight
  | .letterSpacing => font.letterSpacing.map .text

theorem value?_set (font : Font) (field other : FontField) (value : Text) :
    (font.set field value).value? other =
      if field = other then some (field.kept value) else font.value? other := by
  cases field <;> cases other <;> rfl

theorem value?_unknown (field : FontField) : unknown.value? field = none := by
  cases field <;> rfl

theorem texts_eq (font : Font) :
    font.texts = FontField.all.filterMap fun field => (font.value? field).map Scalar.toText := by
  rcases font with ⟨family, size, weight, lineHeight, letterSpacing⟩
  cases family <;> cases size <;> cases letterSpacing <;> rfl

theorem mem_texts_iff {font : Font} {t : Text} :
    t ∈ font.texts ↔ ∃ field x, font.value? field = some x ∧ x.toText = t := by
  rw [texts_eq, List.mem_filterMap]
  simp only [Option.map_eq_some_iff, FontField.mem_all, true_and]

end Font

namespace Catalog

/-!
## The last variable of a field
-/

def tellings (field : FontField) (entries : Table Text) : Table Text :=
  entries.filter fun entry => Variable.fontField? entry.1 = some field

theorem value?_withField (font : Font) (entry : Text × Text) (field : FontField) :
    (withField font entry).value? field =
      if Variable.fontField? entry.1 = some field then some (field.kept entry.2)
      else font.value? field := by
  unfold withField
  cases Variable.fontField? entry.1 with
  | none => rfl
  | some told =>
      rw [Font.value?_set]
      by_cases h : told = field <;> simp [h]

theorem fontOf_append_singleton (entries : Table Text) (entry : Text × Text) :
    fontOf (entries ++ [entry]) = withField (fontOf entries) entry := by
  simp [fontOf]

/-- A font holds in each field what the last variable tells that is about the field. -/
theorem value?_fontOf (entries : Table Text) (field : FontField) :
    (fontOf entries).value? field =
      (tellings field entries).getLast?.map fun entry => field.kept entry.2 := by
  induction entries using List.reverseRecOn with
  | nil => exact Font.value?_unknown field
  | append_singleton entries entry ih =>
      rw [fontOf_append_singleton, value?_withField, ih]
      unfold tellings
      rw [List.filter_append]
      by_cases h : Variable.fontField? entry.1 = some field <;> simp [h]

/-- A variable with a letter spacing in its name is one of spacing, or a color. -/
theorem fontField?_ne_letterSpacing {entry : Text × Text} (h : kind? entry = some .typography) :
    Variable.fontField? entry.1 ≠ some .letterSpacing := by
  intro hfield
  have hmarker : Text.has "letter-spacing".toList entry.1 = true :=
    List.find?_some (p := fun field : FontField => Text.has field.marker entry.1) hfield
  have hspacing : Text.has "spacing".toList entry.1 = true := by
    have hpart : "spacing".toList <:+: "letter-spacing".toList := by decide
    exact Text.has_iff.mpr (hpart.trans (Text.has_iff.mp hmarker))
  have hcategory := (category?_of_kind? h).2
  have hliteral := not_isLiteral_of_kind? h (by decide)
  unfold Variable.category? at hcategory
  rw [if_neg (by simp [hliteral]), if_pos hspacing] at hcategory
  cases hcategory

/-!
## Tokens of typography
-/

/-- The variables of typography in a table that share a base name. -/
def namesakes (table : Table Text) (name : Text) : Table Text :=
  (entriesOf .typography table).filter fun entry => fontName entry = name

def told (table : Table Text) (name : Text) (field : FontField) : Table Text :=
  tellings field (namesakes table name)

/-- Whether tokens are the fonts that the variables of a table make together. -/
structure AreFontsOf (table : Table Text) (tokens : List Token) : Prop where
  /-- one token for each base name, in the order in which these names come up -/
  names : tokens.map (·.name) = ((entriesOf .typography table).map fontName).eraseDups
  nodup : (tokens.map (·.name)).Nodup
  variableName : ∀ t ∈ tokens, t.variableName = "--".toList ++ t.name
  /-- a field holds what the last variable of the name and the field tells, if there is one -/
  font : ∀ t ∈ tokens, ∃ font, t.value = .typography font ∧ font.letterSpacing = none ∧
    ∀ field, font.value? field =
      (told table t.name field).getLast?.map fun entry => field.kept entry.2

theorem letterSpacing_fontOf (table : Table Text) (name : Text) :
    (fontOf (namesakes table name)).letterSpacing = none := by
  have hnone : told table name .letterSpacing = [] := by
    unfold told tellings
    rw [List.filter_eq_nil_iff]
    intro entry hentry
    have hkind : kind? entry = some .typography := by
      simpa using (List.mem_filter.mp (List.mem_of_mem_filter hentry)).2
    simpa using fontField?_ne_letterSpacing hkind
  have hvalue := value?_fontOf (namesakes table name) .letterSpacing
  rw [← told, hnone] at hvalue
  exact Option.map_eq_none_iff.mp hvalue

theorem areFontsOf_ofTable (normalize : Bool) (table : Table Text) :
    AreFontsOf table ((ofTable normalize table).ofCategory .typography) := by
  have hnames : ((ofTable normalize table).ofCategory .typography).map (·.name) =
      ((entriesOf .typography table).map fontName).eraseDups := by
    rw [ofCategory_typography, List.map_map]
    exact List.map_id _
  refine ⟨hnames, ?_, ?_, ?_⟩
  · rw [hnames]
    exact Table.nodup_eraseDups _
  all_goals
    rw [ofCategory_typography]
    intro t ht
    rcases List.mem_map.mp ht with ⟨name, -, rfl⟩
  · rfl
  · exact ⟨fontOf (namesakes table name), rfl, letterSpacing_fontOf table name,
      value?_fontOf (namesakes table name)⟩

/--
Every table can be read to its end, and its tokens of typography are the fonts that its
variables make together: each field comes of the last variable that tells it.
-/
theorem readAll_areFontsOf (normalize : Bool) (table : Table Text) :
    ∃ readings, readAll normalize table = (readings, none) ∧
      AreFontsOf table
        ((Catalog.mk table (tokensOf (readings.map (·.contribution)))).ofCategory .typography) := by
  refine ⟨_, readAll_eq normalize table, ?_⟩
  rw [List.map_map]
  exact areFontsOf_ofTable normalize table

/-!
## Looking up what was declared
-/

/-- Whether a field of a font keeps the value of this variable, because no later one tells it. -/
def IsSet (table : Table Text) (entry : Text × Text) (field : FontField) : Prop :=
  (told table (fontName entry) field).getLast? = some entry

instance (table : Table Text) (entry : Text × Text) (field : FontField) :
    Decidable (IsSet table entry field) :=
  inferInstanceAs (Decidable (_ = _))

theorem IsSet.mem_namesakes {table : Table Text} {entry : Text × Text} {field : FontField}
    (h : IsSet table entry field) : entry ∈ namesakes table (fontName entry) :=
  List.mem_of_mem_filter (List.mem_of_getLast? h)

theorem IsSet.mem {table : Table Text} {entry : Text × Text} {field : FontField}
    (h : IsSet table entry field) : entry ∈ table :=
  List.mem_of_mem_filter (List.mem_of_mem_filter h.mem_namesakes)

/-- The texts of a token of typography are those of the variables that set its fields. -/
theorem mem_texts_iff {table : Table Text} {tokens : List Token} (h : AreFontsOf table tokens)
    {t : Token} (ht : t ∈ tokens) (value : Text) :
    value ∈ t.texts ↔ ∃ entry field, fontName entry = t.name ∧ IsSet table entry field ∧
      field.text entry.2 = value := by
  rcases h.font t ht with ⟨font, hfont, -, hvalue⟩
  have htexts : t.texts = font.texts := by
    unfold Token.texts
    rw [hfont]
  rw [htexts, Font.mem_texts_iff]
  constructor
  · rintro ⟨field, x, hx, rfl⟩
    rw [hvalue, Option.map_eq_some_iff] at hx
    rcases hx with ⟨entry, hlast, rfl⟩
    have hname : fontName entry = t.name := by
      have hmem := List.mem_of_mem_filter (List.mem_of_getLast? hlast)
      simpa using (List.mem_filter.mp hmem).2
    refine ⟨entry, field, hname, ?_, rfl⟩
    unfold IsSet
    rw [hname]
    exact hlast
  · rintro ⟨entry, field, hname, hset, rfl⟩
    unfold IsSet at hset
    rw [hname] at hset
    exact ⟨field, field.kept entry.2, by rw [hvalue, hset, Option.map_some], rfl⟩

theorem isSome_sameText?_typography (normalize : Bool) (table : Table Text) (value : Text) :
    ((ofTable normalize table).sameText? .typography value).isSome = true ↔
      ∃ entry field, IsSet table entry field ∧ field.text entry.2 = Text.strip value := by
  have hfonts := areFontsOf_ofTable normalize table
  unfold sameText?
  rw [Option.isSome_map, List.find?_isSome]
  constructor
  · rintro ⟨t, ht, hany⟩
    have hmem : Text.strip value ∈ t.texts := by simpa using hany
    rcases (mem_texts_iff hfonts ht _).mp hmem with ⟨entry, field, -, hset, htext⟩
    exact ⟨entry, field, hset, htext⟩
  · rintro ⟨entry, field, hset, htext⟩
    have hname : fontName entry ∈
        ((ofTable normalize table).ofCategory .typography).map (·.name) := by
      rw [hfonts.names, List.mem_eraseDups]
      exact List.mem_map_of_mem (List.mem_of_mem_filter hset.mem_namesakes)
    rcases List.mem_map.mp hname with ⟨t, ht, htname⟩
    refine ⟨t, ht, ?_⟩
    have hmem := (mem_texts_iff hfonts ht _).mpr ⟨entry, field, htname.symm, hset, htext⟩
    simpa using hmem

end Catalog
end DesignTokens
