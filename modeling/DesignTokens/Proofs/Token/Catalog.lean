import DesignTokens.Proofs.Color.Agreement
import DesignTokens.Proofs.Table
import DesignTokens.Token.Catalog
import Mathlib.Data.List.Basic

/-!
# What a catalog holds

Every variable is taken into a catalog on its own: it makes at most one token, or
it changes one font, and at most one remark is made about it. A catalog is the
collection of what its variables make, in their order.
-/

namespace DesignTokens
namespace Catalog

/-!
## One variable
-/

/-- The category for which a variable is read. A reference to another variable has none. -/
def kind? (entry : Text × Text) : Option Category :=
  if Variable.isReference entry.2 then none else Variable.category? entry.1 entry.2

def entriesOf (category : Category) (table : Table Text) : Table Text :=
  table.filter fun entry => kind? entry = some category

def tokenFor? (normalize : Bool) (entry : Text × Text) : Option Token :=
  match kind? entry with
  | some .color =>
      (Color.parse entry.2).toOption.map fun c =>
        tokenOf entry.1 .color (.color entry.2 (.ofColor normalize c))
  | some .spacing => some (tokenOf entry.1 .spacing (.spacing entry.2))
  | some .borderRadius => some (tokenOf entry.1 .borderRadius (.borderRadius entry.2))
  | some .shadow =>
      some (tokenOf entry.1 .shadow (.shadow entry.2 (ShadowLayer.ofText? entry.2).toOption))
  | some .typography => none
  | none => none

def fontName (entry : Text × Text) : Text :=
  Variable.baseName (Variable.tokenName entry.1)

def withField (font : Font) (entry : Text × Text) : Font :=
  match Variable.fontField? entry.1 with
  | some field => font.set field entry.2
  | none => font

/-- The font that variables make together. -/
def fontOf (entries : Table Text) : Font :=
  entries.foldl withField .unknown

def contributionOf (normalize : Bool) (entry : Text × Text) : Contribution :=
  if kind? entry = some .typography then
    .font (fontName entry) (Variable.fontField? entry.1) entry.2
  else
    match tokenFor? normalize entry with
    | some t => .token t
    | none => .nothing

def noticed? (entry : Text × Text) : Option Diagnostic :=
  if Variable.isReference entry.2 then
    some (remark .info "Variable reference does not resolve to a token".toList entry.1)
  else
    match Variable.category? entry.1 entry.2 with
    | some .color =>
        match Color.parse entry.2 with
        | .ok _ => none
        | .error fault =>
            some
              (remark .warning
                ("Failed to parse color token ".toList ++ entry.1 ++ ": ".toList ++
                  fault.message)
                entry.2)
    | some .shadow =>
        match ShadowLayer.ofText? entry.2 with
        | .ok _ => none
        | .error fault =>
            some
              (remark .info
                ("Shadow components unavailable for ".toList ++ entry.1 ++ ": ".toList ++
                  fault.message)
                entry.2)
    | _ => none

theorem category?_of_kind? {entry : Text × Text} {category : Category}
    (h : kind? entry = some category) :
    Variable.isReference entry.2 = false ∧
      Variable.category? entry.1 entry.2 = some category := by
  unfold kind? at h
  split at h
  · cases h
  · rename_i href
    exact ⟨by simpa using href, h⟩

theorem isLiteral_of_kind? {entry : Text × Text} (h : kind? entry = some .color) :
    Color.isLiteral entry.2 = true := by
  have hc := (category?_of_kind? h).2
  by_contra hl
  unfold Variable.category? at hc
  rw [if_neg hl] at hc
  repeat' split at hc
  all_goals cases hc

theorem not_isLiteral_of_kind? {entry : Text × Text} {category : Category}
    (h : kind? entry = some category) (hne : category ≠ .color) :
    Color.isLiteral entry.2 = false := by
  have hc := (category?_of_kind? h).2
  rw [Bool.eq_false_iff]
  intro hl
  unfold Variable.category? at hc
  rw [if_pos hl] at hc
  exact hne (Option.some.inj hc).symm

theorem read_eq (normalize : Bool) (entry : Text × Text) :
    read normalize entry.1 entry.2 =
      .ok ⟨contributionOf normalize entry, (noticed? entry).toList⟩ := by
  unfold read contributionOf noticed?
  by_cases href : Variable.isReference entry.2 = true
  · simp [href, kind?, tokenFor?]
  · have hkind : kind? entry = Variable.category? entry.1 entry.2 := by
      unfold kind?
      rw [if_neg href]
    rw [if_neg href, if_neg href, hkind]
    cases hc : Variable.category? entry.1 entry.2 with
    | none => simp [tokenFor?, hkind, hc]
    | some category =>
        cases category with
        | color =>
            have hcolor : kind? entry = some .color := hkind.trans hc
            have hliteral := isLiteral_of_kind? hcolor
            cases hp : Color.parse entry.2 with
            | ok c =>
                have hgenuine := Color.not_isPlaceholder_of_isLiteral hliteral hp
                simp [readColor, hp, tokenFor?, hcolor, Color.diagnostics, hgenuine,
                  Except.toOption]
            | error fault =>
                cases fault with
                | arithmetic fault =>
                    exact absurd hp (Color.ne_arithmetic_of_isLiteral hliteral fault)
                | _ => simp [readColor, hp, tokenFor?, hcolor, Except.toOption]
        | spacing => simp [tokenFor?, hkind, hc]
        | borderRadius => simp [tokenFor?, hkind, hc]
        | shadow =>
            cases hs : ShadowLayer.ofText? entry.2 <;>
              simp [readShadow, tokenFor?, hkind, hc, hs, Except.toOption]
        | typography => simp [fontName]

/-!
## All variables
-/

theorem readAll_eq (normalize : Bool) (table : Table Text) :
    readAll normalize table =
      (table.map fun entry => ⟨contributionOf normalize entry, (noticed? entry).toList⟩, none) := by
  induction table with
  | nil => rfl
  | cons entry table ih =>
      rcases entry with ⟨property, value⟩
      have hread := read_eq normalize (property, value)
      rw [readAll, hread, ih]
      rfl

def fontEdit (entry : Text × Text) : Table.Edit Font :=
  ⟨fontName entry, .unknown, fun font => withField font entry⟩

theorem addFont_contributionOf (normalize : Bool) (fonts : Table Font) (entry : Text × Text) :
    addFont fonts (contributionOf normalize entry) =
      if kind? entry = some .typography then
        fonts.change (fontName entry) .unknown fun font => withField font entry
      else fonts := by
  unfold contributionOf
  split
  · rename_i h
    unfold withField
    cases Variable.fontField? entry.1 <;> rfl
  · cases tokenFor? normalize entry <;> rfl

/-- The fonts of a table, by their names in the order in which these come up. -/
theorem fonts_eq (normalize : Bool) (table : Table Text) :
    (table.map (contributionOf normalize)).foldl addFont [] =
      Table.edited ((entriesOf .typography table).map fontEdit) := by
  rw [List.foldl_map]
  simp only [addFont_contributionOf]
  unfold Table.edited entriesOf
  rw [List.foldl_map, List.foldl_filter]
  simp [fontEdit]

theorem token?_contributionOf (normalize : Bool) (entry : Text × Text) :
    (contributionOf normalize entry).token? = tokenFor? normalize entry := by
  unfold contributionOf
  split
  · rename_i h
    simp [Contribution.token?, tokenFor?, h]
  · cases tokenFor? normalize entry <;> rfl

def ofTable (normalize : Bool) (table : Table Text) : Catalog :=
  ⟨table, tokensOf (table.map (contributionOf normalize))⟩

theorem build_eq (normalize : Bool) (css : Text) :
    build normalize css =
      ⟨.ok (ofTable normalize (Stylesheet.properties css)),
        (Stylesheet.properties css).filterMap noticed?⟩ := by
  simp only [build, readAll_eq, List.map_map, List.flatMap_map,
    List.filterMap_eq_flatMap_toList]
  rfl

/-!
## The tokens of a category
-/

/-- The values that a text makes by itself, by the category for which it is read. -/
inductive IsValueOf (normalize : Bool) (text : Text) : Category → TokenValue → Prop where
  | color {c : Color} (hparse : Color.parse text = .ok c) :
      IsValueOf normalize text .color (.color text (.ofColor normalize c))
  | spacing : IsValueOf normalize text .spacing (.spacing text)
  | borderRadius : IsValueOf normalize text .borderRadius (.borderRadius text)
  | shadow (layers : Option (List ShadowLayer)) :
      IsValueOf normalize text .shadow (.shadow text layers)

/-- A token that a variable makes is named by the variable and holds a value of its text. -/
theorem exists_tokenOf_of_tokenFor? {normalize : Bool} {entry : Text × Text} {t : Token}
    (h : tokenFor? normalize entry = some t) :
    ∃ category value, t = tokenOf entry.1 category value ∧ kind? entry = some category ∧
      IsValueOf normalize entry.2 category value := by
  unfold tokenFor? at h
  split at h
  · rename_i hkind
    cases hparse : Color.parse entry.2 with
    | error fault =>
        rw [hparse] at h
        cases h
    | ok c =>
        rw [hparse] at h
        cases h
        exact ⟨_, _, rfl, hkind, .color hparse⟩
  · rename_i hkind
    cases h
    exact ⟨_, _, rfl, hkind, .spacing⟩
  · rename_i hkind
    cases h
    exact ⟨_, _, rfl, hkind, .borderRadius⟩
  · rename_i hkind
    cases h
    exact ⟨_, _, rfl, hkind, .shadow _⟩
  · cases h
  · cases h

theorem category_of_tokenFor? {normalize : Bool} {entry : Text × Text} {t : Token}
    (h : tokenFor? normalize entry = some t) : kind? entry = some t.category := by
  rcases exists_tokenOf_of_tokenFor? h with ⟨category, value, rfl, hkind, hvalue⟩
  cases hvalue <;> exact hkind

theorem name_of_tokenFor? {normalize : Bool} {entry : Text × Text} {t : Token}
    (h : tokenFor? normalize entry = some t) : t.name = Variable.tokenName entry.1 := by
  rcases exists_tokenOf_of_tokenFor? h with ⟨category, value, rfl, -, -⟩
  rfl

theorem variableName_of_tokenFor? {normalize : Bool} {entry : Text × Text} {t : Token}
    (h : tokenFor? normalize entry = some t) : t.variableName = entry.1 := by
  rcases exists_tokenOf_of_tokenFor? h with ⟨category, value, rfl, -, -⟩
  rfl

theorem tokenFor?_typography {normalize : Bool} {entry : Text × Text}
    (h : kind? entry = some .typography) : tokenFor? normalize entry = none := by
  unfold tokenFor?
  rw [h]

theorem category_fontToken (name : Text) (font : Font) :
    (fontToken name font).category = .typography :=
  rfl

theorem tokens_ofTable (normalize : Bool) (table : Table Text) :
    (ofTable normalize table).tokens =
      table.filterMap (tokenFor? normalize) ++
        (Table.edited ((entriesOf .typography table).map fontEdit)).map fun entry =>
          fontToken entry.1 entry.2 := by
  have htoken : Contribution.token? ∘ contributionOf normalize = tokenFor? normalize := by
    funext entry
    exact token?_contributionOf normalize entry
  unfold ofTable tokensOf
  rw [fonts_eq, List.filterMap_map, htoken]

theorem filter_filterMap_tokenFor? (normalize : Bool) (table : Table Text)
    (category : Category) :
    (table.filterMap (tokenFor? normalize)).filter (fun t => t.category = category) =
      (entriesOf category table).filterMap (tokenFor? normalize) := by
  unfold entriesOf
  induction table with
  | nil => rfl
  | cons entry table ih =>
      cases ht : tokenFor? normalize entry with
      | none =>
          rw [List.filterMap_cons_none ht, ih, List.filter_cons]
          split
          · rw [List.filterMap_cons_none ht]
          · rfl
      | some t =>
          have hkind := category_of_tokenFor? ht
          rw [List.filterMap_cons_some ht, List.filter_cons, List.filter_cons, ih, hkind]
          by_cases h : t.category = category
          · simp [h, ht]
          · simp [h]

theorem ofCategory_ofTable (normalize : Bool) (table : Table Text) {category : Category}
    (hne : category ≠ .typography) :
    (ofTable normalize table).ofCategory category =
      (entriesOf category table).filterMap (tokenFor? normalize) := by
  have hfonts : ∀ fonts : Table Font,
      (fonts.map fun entry => fontToken entry.1 entry.2).filter
        (fun t => t.category = category) = [] := by
    intro fonts
    rw [List.filter_eq_nil_iff]
    intro t ht
    rcases List.mem_map.mp ht with ⟨entry, _, rfl⟩
    rw [category_fontToken]
    simpa using Ne.symm hne
  unfold ofCategory
  rw [tokens_ofTable, List.filter_append, filter_filterMap_tokenFor?, hfonts, List.append_nil]

theorem editedValue?_fontEdit {entries : Table Text} (h : entries ≠ []) :
    Table.editedValue? (entries.map fontEdit) = some (fontOf entries) := by
  cases entries with
  | nil => exact absurd rfl h
  | cons entry entries =>
      rw [List.map_cons, Table.editedValue?_cons, List.foldl_map]
      rfl

theorem ofCategory_typography (normalize : Bool) (table : Table Text) :
    (ofTable normalize table).ofCategory .typography =
      ((entriesOf .typography table).map fontName).eraseDups.map fun name =>
        fontToken name
          (fontOf ((entriesOf .typography table).filter fun entry => fontName entry = name)) := by
  have htokens : (entriesOf .typography table).filterMap (tokenFor? normalize) = [] := by
    rw [List.filterMap_eq_nil_iff]
    intro entry he
    exact tokenFor?_typography (by simpa using (List.mem_filter.mp he).2)
  have hfonts : ∀ fonts : Table Font,
      (fonts.map fun entry => fontToken entry.1 entry.2).filter
        (fun t => t.category = .typography) =
          fonts.map fun entry => fontToken entry.1 entry.2 := by
    intro fonts
    rw [List.filter_eq_self]
    intro t ht
    rcases List.mem_map.mp ht with ⟨entry, _, rfl⟩
    rfl
  have hfont : ∀ name ∈ ((entriesOf .typography table).map fontName).eraseDups,
      Table.editedValue?
          (((entriesOf .typography table).map fontEdit).filter fun e => e.name = name) =
        some (fontOf
          ((entriesOf .typography table).filter fun entry => fontName entry = name)) := by
    intro name hname
    rw [List.mem_eraseDups] at hname
    rcases List.mem_map.mp hname with ⟨entry, he, hentry⟩
    rw [List.filter_map]
    apply editedValue?_fontEdit
    exact List.ne_nil_of_mem (List.mem_filter.mpr ⟨he, decide_eq_true hentry⟩)
  have hnames : Table.Edit.name ∘ fontEdit = fontName := rfl
  unfold ofCategory
  rw [tokens_ofTable, List.filter_append, filter_filterMap_tokenFor?, hfonts, htokens,
    List.nil_append, Table.edited_eq, List.map_filterMap, List.map_map, hnames]
  refine Eq.trans (List.filterMap_congr ?_) (congrFun List.filterMap_eq_map _)
  intro name hname
  rw [hfont name hname]
  rfl

end Catalog
end DesignTokens
