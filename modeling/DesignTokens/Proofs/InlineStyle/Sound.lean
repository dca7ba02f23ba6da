import DesignTokens.Finding.InlineStyle
import DesignTokens.Proofs.Finding.Place
import DesignTokens.Proofs.InlineStyle.Entry
import DesignTokens.Proofs.Source.Literal

/-!
# Soundness of findings in style objects

Whatever leads to a style object, each finding in it is a stretch of the source that
has the shape that its property asks for, and the path of the finding ends with the
property. The steps follow the report: from literals to values, from values to entries,
and from entries to objects and attributes.
-/

namespace DesignTokens
namespace InlineStyle

/--
A finding is sound: it stands in the source, and its value without blanks around it has
the shape that its property asks for. Between the beginning of its path and the property
stand at most `depth` keys.
-/
structure IsSound (source : Text) (options : ScanOptions) (lead : List Text) (depth : Nat)
    (f : Finding) : Prop where
  standsIn : f.StandsIn source options
  trimmed : Text.strip f.value = f.value
  known : propertyCategory? f.property = some f.category
  fits : Shape.fits f.category (some f.property) f.value = true
  path : ∃ keys : List Text, keys.length ≤ depth ∧ f.path = lead ++ keys ++ [f.property]

theorem fits_nil (category : Category) (property : Option Text) :
    Shape.fits category property [] = false := by
  have hlengths : Shape.isLengthList Shape.mostLengths [] = false := by decide +kernel
  cases category with
  | color =>
      change Color.isShape [] = false
      decide +kernel
  | spacing => exact hlengths
  | borderRadius => exact hlengths
  | shadow =>
      change Shape.isShadow [] = false
      decide +kernel
  | typography =>
      change Shape.isTypography property [] = false
      unfold Shape.isTypography
      split
      · decide +kernel
      · decide +kernel

section Value

variable {site : Site} {path : List Text} {key : Text} {slot : Slot} {f : Finding}

theorem slot?_spec (h : slot? site.options path key = some slot) :
    propertyCategory? slot.property = some slot.category ∧
      slot.category ∈ site.options.categories ∧ slot.path = path ++ [slot.property] := by
  unfold slot? at h
  dsimp only at h
  split at h
  · cases h
  · rename_i category hknown
    split at h
    · rename_i hasked
      cases h
      exact ⟨hknown, hasked, rfl⟩
    · cases h

theorem isSound_literalFinding {dynamic : Bool} {l : Literal Nat}
    (hslot : slot? site.options path key = some slot) (hfits : slot.fits l = true)
    (hat : Source.HasAt site.source l.contentStart l.text) :
    IsSound site.source site.options path 0 (literalFinding site slot dynamic l) := by
  rcases slot?_spec hslot with ⟨hknown, hasked, hpath⟩
  have hstrip := hasAt_strip hat
  have hne : Text.strip l.text ≠ [] := by
    intro hnil
    rw [Slot.fits, hnil, fits_nil] at hfits
    exact Bool.false_ne_true hfits
  have hvalue : (literalFinding site slot dynamic l).value = Text.strip l.text := hstrip.slice
  constructor
  · exact Site.finding_standsIn hstrip hne hasked
  · rw [hvalue, Text.strip_strip]
  · exact hknown
  · rw [hvalue]
    exact hfits
  · exact ⟨[], Nat.le_refl 0, by rw [List.append_nil]; exact hpath⟩

theorem exists_literal_of_mem_valueReport {value : Window}
    (h : f ∈ (valueReport site slot value).findings) :
    ∃ l dynamic, f = literalFinding site slot dynamic l ∧ slot.fits l = true ∧
      (value.literal? = some l ∨ l ∈ value.literals true) := by
  unfold valueReport at h
  split at h
  · rename_i l hplain
    have hliteral : value.literal? = some l := (Option.filter_eq_some_iff.mp hplain).1
    unfold plainReport at h
    split at h
    · rename_i hfits
      exact ⟨l, false, List.mem_singleton.mp h, hfits, .inl hliteral⟩
    · exact absurd h List.not_mem_nil
  · unfold computedReport at h
    split at h
    · exact absurd h List.not_mem_nil
    · rcases List.mem_map.mp h with ⟨l, hl, rfl⟩
      rcases List.mem_filter.mp hl with ⟨hmem, hfits⟩
      rw [Bool.and_eq_true] at hfits
      exact ⟨l, true, rfl, hfits.2, .inr hmem⟩

theorem isSound_valueReport {value : Window} (hslot : slot? site.options path key = some slot)
    (hin : value.IsIn site.source) (h : f ∈ (valueReport site slot value).findings) :
    IsSound site.source site.options path 0 f := by
  rcases exists_literal_of_mem_valueReport h with ⟨l, dynamic, rfl, hfits, hliteral | hliteral⟩
  · exact isSound_literalFinding hslot hfits (hin.literal? hliteral)
  · exact isSound_literalFinding hslot hfits (hin.literals l hliteral)

end Value

section Object

variable {site : Site} {path : List Text} {body : Window} {f : Finding}

theorem isIn_of_mem_entries {source : Text} {e : Entry} (hin : body.IsIn source)
    (h : e ∈ entries body) : e.value.IsIn source := by
  rcases List.mem_filterMap.mp h with ⟨piece, -, hentry⟩
  unfold entry? at hentry
  split at hentry
  · cases hentry
  · dsimp only at hentry
    split at hentry
    · cases hentry
    · cases hentry
      exact (((hin.drop _).take _).drop _).strip

/-- A finding in an entry is one in an object as its value, or a sound one in its value. -/
theorem exists_of_mem_entryReport {inner : List Text → Window → Report} {e : Entry}
    (hin : e.value.IsIn site.source) (h : f ∈ (entryReport site inner path e).findings) :
    (∃ object : Window, object.IsIn site.source ∧ f ∈ (inner (path ++ [e.key]) object).findings) ∨
      IsSound site.source site.options path 0 f := by
  unfold entryReport at h
  split at h
  · split at h
    · rename_i object hbody
      exact .inl ⟨object, hin.body? hbody, h⟩
    · exact absurd h List.not_mem_nil
  · split at h
    · rename_i slot hslot
      exact .inr (isSound_valueReport hslot hin h)
    · exact absurd h List.not_mem_nil

theorem mem_concat_findings {rs : List Report} (h : f ∈ (Report.concat rs).findings) :
    ∃ r ∈ rs, f ∈ r.findings :=
  List.mem_flatMap.mp h

/-- The findings in an object in another one are sound without further keys in their paths. -/
theorem isSound_innerReport (hin : body.IsIn site.source)
    (h : f ∈ (innerReport site path body).findings) :
    IsSound site.source site.options path 0 f := by
  rcases mem_concat_findings h with ⟨r, hr, hf⟩
  rcases List.mem_map.mp hr with ⟨e, he, rfl⟩
  rcases exists_of_mem_entryReport (isIn_of_mem_entries hin he) hf with
    ⟨object, -, hobject⟩ | hsound
  · exact absurd hobject List.not_mem_nil
  · exact hsound

/-- The findings in an object are sound with at most one key in their paths. -/
theorem isSound_objectReport (hin : body.IsIn site.source)
    (h : f ∈ (objectReport site path body).findings) :
    IsSound site.source site.options path 1 f := by
  rcases mem_concat_findings h with ⟨r, hr, hf⟩
  rcases List.mem_map.mp hr with ⟨e, he, rfl⟩
  rcases exists_of_mem_entryReport (isIn_of_mem_entries hin he) hf with
    ⟨object, hobject, hinner⟩ | hsound
  · have hsound := isSound_innerReport hobject hinner
    rcases hsound.path with ⟨keys, hkeys, hpath⟩
    rw [List.length_eq_zero_iff.mp (Nat.le_zero.mp hkeys), List.append_nil] at hpath
    exact { hsound with path := ⟨[e.key], Nat.le_refl 1, hpath⟩ }
  · rcases hsound.path with ⟨keys, hkeys, hpath⟩
    exact { hsound with path := ⟨keys, Nat.le_succ_of_le hkeys, hpath⟩ }

end Object

/-!
## Attributes and patterns
-/

/-- The beginning of a path: the attribute, or the variable that holds its object. -/
def IsLeadPath (lead : List Text) : Prop :=
  lead = ["style".toList] ∨ ∃ name, isName name = true ∧ lead = [name, "style".toList]

section Report

variable {source : Text} {options : ScanOptions} {f : Finding}

theorem isSound_variableReport {site : Site} {name : Text}
    (h : f ∈ (variableReport site name).findings) :
    IsSound site.source site.options [name, "style".toList] 1 f := by
  unfold variableReport at h
  split at h
  · exact absurd h List.not_mem_nil
  · split at h
    · rename_i body hbody
      exact isSound_objectReport ((Window.isIn_between _ _ _).body? hbody) h
    · exact absurd h List.not_mem_nil

theorem isSound_expressionReport {site : Site} {expression : Window}
    (hin : expression.IsIn site.source) (h : f ∈ (expressionReport site expression).findings) :
    ∃ lead, IsLeadPath lead ∧ IsSound site.source site.options lead 1 f := by
  unfold expressionReport at h
  dsimp only at h
  split at h
  · split at h
    · rename_i body hbody
      exact ⟨_, .inl rfl, isSound_objectReport (hin.skipBlanks.body? hbody) h⟩
    · exact absurd h List.not_mem_nil
  · split at h
    · rename_i hname
      exact ⟨_, .inr ⟨_, hname, rfl⟩, isSound_variableReport h⟩
    · exact absurd h List.not_mem_nil

theorem isSound_attributeReport {head : Nat × Nat}
    (h : f ∈ (attributeReport source options head).findings) :
    ∃ lead, IsLeadPath lead ∧ IsSound source options lead 1 f := by
  unfold attributeReport at h
  split at h
  · exact absurd h List.not_mem_nil
  · rename_i expression hbody
    have hin : expression.IsIn source := (Window.isIn_between source _ _).body? hbody
    exact @isSound_expressionReport f ⟨source, options, head.1⟩ expression hin h

theorem isSound_stretchReport {stretch : Pattern.Stretch}
    (h : f ∈ (stretchReport source options stretch).findings) :
    ∃ lead, IsLeadPath lead ∧ IsSound source options lead 1 f := by
  unfold stretchReport at h
  split at h
  · exact absurd h List.not_mem_nil
  · dsimp only at h
    split at h
    · split at h
      · rename_i body hbody
        have hin : body.IsIn source := (Window.isIn_between source _ _).body? hbody
        exact ⟨_, .inl rfl,
          @isSound_objectReport ⟨source, options, stretch.start⟩ ["style".toList] body f hin h⟩
      · exact absurd h List.not_mem_nil
    · exact absurd h List.not_mem_nil

theorem isSound_report (h : f ∈ (report source options).findings) :
    ∃ lead, IsLeadPath lead ∧ IsSound source options lead 1 f := by
  rcases List.mem_append.mp h with h | h
  · rcases mem_concat_findings h with ⟨r, hr, hf⟩
    rcases List.mem_map.mp hr with ⟨head, -, rfl⟩
    exact isSound_attributeReport hf
  · rcases mem_concat_findings h with ⟨r, hr, hf⟩
    rcases List.mem_map.mp hr with ⟨stretch, -, rfl⟩
    exact isSound_stretchReport hf

end Report

end InlineStyle
end DesignTokens
