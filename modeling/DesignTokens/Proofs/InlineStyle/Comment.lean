import DesignTokens.Finding.Finder
import DesignTokens.Proofs.Finding.Order
import DesignTokens.Proofs.InlineStyle.Head

/-!
# Comments in style attributes

Comments before the entries of a style object are skipped where the object is cut
into entries and where the entries are read, but not where its braces are
matched. So comments change nothing exactly if the braces are found where they are
written, for which it is enough that brackets are balanced and literals closed in
each comment.
-/

namespace DesignTokens

def Report.records (report : Report) : List Record :=
  report.findings.map Finding.record

namespace InlineStyle

/--
Whether an element has a single `style` attribute, all entries of which are styles. No
text in a comment or a literal looks like another attribute.
-/
structure WrittenElement.IsStyled (options : ScanOptions) (el : WrittenElement) : Prop where
  tag : '=' ∉ el.tag
  entries : ∀ e ∈ el.entries, e.IsStyle options
  single : (Source.occurrences attributeHead el.source).length = 1

instance (options : ScanOptions) (el : WrittenElement) : Decidable (el.IsStyled options) :=
  decidable_of_iff
    ('=' ∉ el.tag ∧ (∀ e ∈ el.entries, e.IsStyle options) ∧
      (Source.occurrences attributeHead el.source).length = 1)
    ⟨fun ⟨h1, h2, h3⟩ => ⟨h1, h2, h3⟩, fun h => ⟨h.1, h.2, h.3⟩⟩

instance (el : WrittenElement) : Decidable el.KeepsBraces :=
  decidable_of_iff
    ((tailAt el.source el.brace).closing? = some (el.close + 1) ∧
      (Window.between el.source (el.brace + 1) (el.close + 1)).closing? = some el.close)
    ⟨fun ⟨h1, h2⟩ => ⟨h1, h2⟩, fun h => ⟨h.1, h.2⟩⟩

section Scan

variable {options : ScanOptions} {el : WrittenElement}

theorem WrittenElement.IsStyled.occurrences_eq (h : el.IsStyled options) :
    Source.occurrences attributeHead el.source = [el.head] ∧ ∀ e ∈ el.entries, e.IsQuiet := by
  rcases occurrences_source h.tag h.entries with ⟨rest, hrest, hquiet⟩
  have hnil : rest = [] := by
    have hsingle := h.single
    rw [hrest, List.length_cons, Nat.succ.injEq] at hsingle
    exact List.eq_nil_of_length_eq_zero hsingle
  exact ⟨by rw [hrest, hnil], hquiet.mp hnil⟩

theorem scan_findings (h : el.IsStyled options) (hallowed : options.allows .inlineStyle = true)
    (hpatterns : options.customPatterns = []) :
    (Finder.inlineStyle.scan el.source options).findings =
      Finding.ordered (attributeReport el.source options el.head).findings := by
  have hreport : (report el.source options).findings =
      (attributeReport el.source options el.head).findings := by
    simp [report, h.occurrences_eq.1, hpatterns, Report.append, Report.concat]
  simp only [Finder.scan, Finder.scope, hallowed, if_true, Finder.report, hreport]

/-- A scan finds all entries and nothing else exactly if the braces are kept. -/
theorem records_scan_iff (h : el.IsStyled options) (hallowed : options.allows .inlineStyle = true)
    (hpatterns : options.customPatterns = []) :
    (Finder.inlineStyle.scan el.source options).records = el.entries.map WrittenEntry.record ↔
      el.KeepsBraces := by
  rw [Report.records, scan_findings h hallowed hpatterns]
  constructor
  · intro hrecords
    by_contra hkeeps
    have hlt := WrittenElement.countP_attributeReport_lt h.entries hkeeps
    have hle := Finding.countP_ordered_le (fun f => !f.record.dynamic)
      (attributeReport el.source options el.head).findings
    have hcount : (Finding.ordered (attributeReport el.source options el.head).findings).countP
        (fun f => !f.record.dynamic) = el.entries.length := by
      have hall : (el.entries.map WrittenEntry.record).countP (fun r => !r.dynamic) =
          el.entries.length := by
        rw [List.countP_map, List.countP_eq_length]
        intro e _
        rfl
      rw [← hrecords, List.countP_map] at hall
      exact hall
    omega
  · intro hkeeps
    rcases WrittenElement.attributeReport_of_keepsBraces h.entries hkeeps with ⟨start, stop, hfs⟩
    rw [Finding.ordered_eq_self hfs.inOrder, hfs.records]

theorem WrittenElement.entries_withoutComments (el : WrittenElement) :
    el.withoutComments.entries = el.entries.map WrittenEntry.bare := rfl

theorem WrittenElement.IsStyled.withoutComments (h : el.IsStyled options) :
    el.withoutComments.IsStyled options := by
  have hentries : ∀ e ∈ el.withoutComments.entries, e.IsStyle options := by
    intro e he
    rw [entries_withoutComments] at he
    rcases List.mem_map.mp he with ⟨e, hmem, rfl⟩
    have hstyle := h.entries e hmem
    exact { hstyle with comment := by simp [WrittenEntry.bare] }
  have hquiet : ∀ e ∈ el.withoutComments.entries, e.IsQuiet := by
    intro e he
    rw [entries_withoutComments] at he
    rcases List.mem_map.mp he with ⟨e, hmem, rfl⟩
    exact ⟨by simp [WrittenEntry.bare], (h.occurrences_eq.2 e hmem).text⟩
  have htag : '=' ∉ el.withoutComments.tag := h.tag
  rcases occurrences_source htag hentries with ⟨rest, hrest, hiff⟩
  refine ⟨htag, hentries, ?_⟩
  rw [hrest, hiff.mpr hquiet]
  rfl

/--
Without its comments each entry of a style attribute is found, and the comments leave
the findings as they are exactly if the braces of the attribute are matched with them
as they are written.
-/
theorem records_scan_withoutComments (el : WrittenElement) (options : ScanOptions)
    (h : el.IsStyled options) (hallowed : options.allows .inlineStyle = true)
    (hpatterns : options.customPatterns = []) :
    (Finder.inlineStyle.scan el.withoutComments.source options).records =
        el.entries.map WrittenEntry.record ∧
      ((Finder.inlineStyle.scan el.source options).records =
          (Finder.inlineStyle.scan el.withoutComments.source options).records ↔
        el.KeepsBraces) := by
  have hbare : (Finder.inlineStyle.scan el.withoutComments.source options).records =
      el.entries.map WrittenEntry.record := by
    have hkeeps : el.withoutComments.KeepsBraces := by
      apply WrittenElement.keepsBraces_of_isBalanced h.withoutComments.entries
      intro e he body hbody
      rw [WrittenElement.entries_withoutComments] at he
      rcases List.mem_map.mp he with ⟨e, -, rfl⟩
      simp [WrittenEntry.bare] at hbody
    rw [(records_scan_iff h.withoutComments hallowed hpatterns).mpr hkeeps,
      WrittenElement.entries_withoutComments, List.map_map]
    rfl
  refine ⟨hbare, ?_⟩
  rw [hbare]
  exact records_scan_iff h hallowed hpatterns

end Scan

def WrittenElement.braceInComment : WrittenElement where
  tag := "div".toList
  first := ⟨some " \x7d ".toList, "color".toList, .color, '\'', "#fff".toList⟩
  others := [⟨none, "padding".toList, .spacing, '"', " 4px 8px".toList⟩]

theorem records_scan_braceInComment :
    WrittenElement.braceInComment.IsStyled .standard ∧
      (Finder.inlineStyle.scan WrittenElement.braceInComment.source .standard).records ≠
        (Finder.inlineStyle.scan WrittenElement.braceInComment.withoutComments.source
          .standard).records := by
  have hstyled : WrittenElement.braceInComment.IsStyled .standard := by decide +kernel
  have hkeeps : ¬ WrittenElement.braceInComment.KeepsBraces := by decide +kernel
  refine ⟨hstyled, fun hrecords => hkeeps ?_⟩
  exact (records_scan_withoutComments WrittenElement.braceInComment .standard hstyled rfl
    rfl).2.mp hrecords

end InlineStyle
end DesignTokens
