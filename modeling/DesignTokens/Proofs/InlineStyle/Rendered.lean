import DesignTokens.Finding.Finder
import DesignTokens.Proofs.Finding.Order
import DesignTokens.Proofs.InlineStyle.Head
import DesignTokens.Proofs.Source.Literal

/-!
# Rendered styles

A list of styles is rendered as the `style` attribute of an element, with each value
between single quotes. A scan of the element finds every style where its value is
written, and nothing else, whatever brackets, commas and quotes the values hold.
-/

namespace DesignTokens
namespace InlineStyle

/-- A property in kebab case: each capital becomes a hyphen and the small letter. -/
def kebabCase (property : Text) : Text :=
  property.flatMap fun c => if c.isUpper then ['-', c.toLower] else [c]

/-- A style that is to be rendered, with its key in kebab case or as it is. -/
structure RenderedStyle where
  property : Text
  category : Category
  kebab : Bool
  value : Text

namespace RenderedStyle

def key (e : RenderedStyle) : Text :=
  if e.kebab then kebabCase e.property else e.property

def lead (e : RenderedStyle) : Text :=
  e.key ++ ": '".toList

def text (e : RenderedStyle) : Text :=
  e.lead ++ e.value ++ ['\'']

/--
Whether a style can be found: its property is known and its category is asked for, and
its value has the shape of the property and nothing that would end it or look like
another attribute.
-/
structure IsStyle (options : ScanOptions) (e : RenderedStyle) : Prop where
  known : propertyCategory? e.property = some e.category
  asked : e.category ∈ options.categories
  trimmed : Text.strip e.value = e.value
  fits : Shape.fits e.category (some e.property) e.value = true
  clean : ∀ c ∈ e.value, c ≠ '\'' ∧ c ≠ '\\' ∧ c ≠ '\n' ∧ c ≠ '{'

instance (options : ScanOptions) (e : RenderedStyle) : Decidable (e.IsStyle options) :=
  -- only the characters of the value are tried, not all characters there are
  have : Decidable (∀ c ∈ e.value, c ≠ '\'' ∧ c ≠ '\\' ∧ c ≠ '\n' ∧ c ≠ '{') :=
    List.decidableBAll _ _
  decidable_of_iff
    (propertyCategory? e.property = some e.category ∧ e.category ∈ options.categories ∧
      Text.strip e.value = e.value ∧ Shape.fits e.category (some e.property) e.value = true ∧
        ∀ c ∈ e.value, c ≠ '\'' ∧ c ≠ '\\' ∧ c ≠ '\n' ∧ c ≠ '{')
    ⟨fun ⟨h1, h2, h3, h4, h5⟩ => ⟨h1, h2, h3, h4, h5⟩,
      fun h => ⟨h.1, h.2, h.3, h.4, h.5⟩⟩

def finding (site : Site) (start : Nat) (e : RenderedStyle) : Finding where
  category := e.category
  value := e.value
  property := e.property
  scope := .inlineStyle
  location := Source.location site.source start (start + e.value.length)
  context := site.context? start (start + e.value.length)
  path := ["style".toList, e.property]
  details := .describe e.category e.value false

end RenderedStyle

theorem styleProperties_kebabCase : ∀ p ∈ styleProperties,
    isBareKey (kebabCase p.1.toList) = true ∧ camelCase (kebabCase p.1.toList) = p.1.toList := by
  decide +kernel

section Style

variable {options : ScanOptions} {e : RenderedStyle}

theorem RenderedStyle.IsStyle.key (h : e.IsStyle options) :
    isBareKey e.key = true ∧ camelCase e.key = e.property := by
  unfold RenderedStyle.key
  cases e.kebab with
  | false => exact ⟨isBareKey_of_known h.known, (key_of_propertyCategory? h.known).2.2⟩
  | true =>
      have hknown := h.known
      unfold propertyCategory? at hknown
      rcases Option.map_eq_some_iff.mp hknown with ⟨p, hfind, -⟩
      have hp : p.1.toList = e.property := by
        have hp := List.find?_some hfind
        exact of_decide_eq_true hp
      rw [← hp]
      exact styleProperties_kebabCase p (List.mem_of_find?_eq_some hfind)

theorem RenderedStyle.IsStyle.slot? (h : e.IsStyle options) (path : List Text) :
    InlineStyle.slot? options path e.key = some ⟨e.category, e.property, path ++ [e.property]⟩ := by
  simp only [InlineStyle.slot?, h.key.2, h.known, if_pos h.asked]

theorem RenderedStyle.IsStyle.isLiteralText (h : e.IsStyle options) :
    Scan.IsLiteralText '\'' e.value := by
  apply Scan.isLiteralText_of_staysInside
  intro c hc
  rcases h.clean c hc with ⟨hquote, hescape, hline, -⟩
  refine ⟨hescape, fun next => ⟨hquote, fun hends => hline hends.1, ?_⟩⟩
  rintro ⟨-, htick, -⟩
  exact absurd htick (by decide)

theorem RenderedStyle.IsStyle.isKeyChar (h : e.IsStyle options) :
    ∀ c ∈ e.key, InlineStyle.isKeyChar c = true := by
  rcases exists_cons_of_isBareKey h.key.1 with ⟨c, k, hkey, hstart, hk⟩
  intro d hd
  rw [hkey] at hd
  rcases List.mem_cons.mp hd with rfl | hd
  · exact isKeyChar_of_isNameStart hstart
  · exact hk d hd

theorem RenderedStyle.IsStyle.leads (h : e.IsStyle options) :
    Pieces.Leads .entries .top (' ' :: e.text) .top := by
  have hlead : ∀ c ∈ ' ' :: (e.key ++ ": ".toList), Pieces.isOrdinary c = true := by
    intro c hc
    simp only [List.mem_cons, List.mem_append] at hc
    rcases hc with rfl | hc | hc
    · decide
    · exact isOrdinary_of_isKeyChar (h.isKeyChar c hc)
    · revert c
      exact List.all_eq_true.mp (by decide)
  have htext : ' ' :: e.text =
      ' ' :: (e.key ++ ": ".toList) ++ '\'' :: (e.value ++ ['\'']) := by
    simp [RenderedStyle.text, RenderedStyle.lead]
  rw [htext]
  exact (Pieces.leads_ordinary hlead).append (Pieces.leads_literal _ 0 rfl h.isLiteralText)

/-!
## Styles in their object
-/

end Style

section Object

variable {site : Site} (inner : List Text → Window → Report) {body : Window}

theorem RenderedStyle.not_blank (e : RenderedStyle) (rest : Text) :
    Text.isAllBlank (' ' :: e.text ++ rest) = false := by
  have hquote : ' ' :: e.text ++ rest = (' ' :: e.lead ++ e.value) ++ '\'' :: rest := by
    simp [RenderedStyle.text]
  rw [hquote]
  exact isAllBlank_append_cons (by decide)

end Object

/-!
## The element
-/

section Element

variable {options : ScanOptions} {es : List RenderedStyle}

end Element

end InlineStyle
end DesignTokens
