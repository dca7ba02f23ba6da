import DesignTokens.Finding.Finder
import DesignTokens.Proofs.Finding.Order

/-!
# Further patterns

Further custom patterns describe further places to look at. They are looked at behind all
others, so that a finding is never lost to one of a pattern at the same place, and the
other findings stay in their order. For classes this takes a literal in some attribute: a
source without one is searched in all of its literals, but only until a pattern describes
a part of it.
-/

namespace DesignTokens

def ScanOptions.withPatterns (options : ScanOptions) (patterns : List CustomPattern) :
    ScanOptions :=
  { options with customPatterns := options.customPatterns ++ patterns }

/--
Whether one report extends another one by what a third one holds: nothing is lost, and
nothing else is found.
-/
structure Report.ExtendsBy (s r added : Report) : Prop where
  findings : r.findings.Sublist s.findings
  diagnostics : r.diagnostics <+: s.diagnostics
  others : ∀ f ∈ s.findings, f ∈ r.findings ∨ f ∈ added.findings

theorem Report.concat_append (rs ss : List Report) :
    Report.concat (rs ++ ss) = (Report.concat rs).append (.concat ss) := by
  unfold Report.concat Report.append
  rw [List.flatMap_append, List.flatMap_append]

theorem Report.append_assoc (r s t : Report) : (r.append s).append t = r.append (s.append t) := by
  unfold Report.append
  rw [List.append_assoc, List.append_assoc]

variable {source : Text} {options : ScanOptions} {patterns : List CustomPattern}

/-!
## What patterns add
-/

namespace InlineStyle

def patternReport (source : Text) (options : ScanOptions) (patterns : List CustomPattern) : Report :=
  .concat
    ((patterns.flatMap fun p => p.pattern.stretches source).map (stretchReport source options))

theorem report_eq (source : Text) (options : ScanOptions) :
    report source options =
      (Report.concat ((Source.occurrences attributeHead source).map
        (attributeReport source options))).append
          (patternReport source options options.customPatterns) :=
  rfl

theorem patternReport_append (ps qs : List CustomPattern) :
    patternReport source options (ps ++ qs) =
      (patternReport source options ps).append (patternReport source options qs) := by
  unfold patternReport
  rw [List.flatMap_append, List.map_append, Report.concat_append]

/-- What is found at a place does not depend on the patterns that tell of other places. -/
theorem attributeReport_withPatterns :
    attributeReport source (options.withPatterns patterns) = attributeReport source options :=
  rfl

theorem patternReport_withPatterns :
    patternReport source (options.withPatterns patterns) = patternReport source options :=
  rfl

theorem report_withPatterns :
    report source (options.withPatterns patterns) =
      (report source options).append (patternReport source options patterns) := by
  rw [report_eq, report_eq, attributeReport_withPatterns, patternReport_withPatterns,
    Report.append_assoc, ← patternReport_append]
  rfl

end InlineStyle

namespace UtilityClass

def HasLiteral (source : Text) : Prop :=
  ∃ head ∈ Source.occurrences attributeHead source,
    attributeLiterals (.between source head.2 source.length) ≠ []

def patternCandidates (source : Text) (patterns : List CustomPattern) : List Candidate :=
  patterns.flatMap fun p => (p.pattern.stretches source).filterMap (stretchCandidate? source p.pattern)

def patternReport (source : Text) (options : ScanOptions) (patterns : List CustomPattern) : Report :=
  ⟨(patternCandidates source patterns).flatMap (candidateFindings source options), []⟩

theorem chosenCandidates_withPatterns :
    chosenCandidates source (options.withPatterns patterns) =
      chosenCandidates source options ++ patternCandidates source patterns := by
  unfold chosenCandidates patternCandidates ScanOptions.withPatterns
  rw [List.flatMap_append, List.append_assoc]

theorem HasLiteral.chosenCandidates_ne_nil (h : HasLiteral source) :
    chosenCandidates source options ≠ [] := by
  rcases h with ⟨head, hhead, hliteral⟩
  rcases List.exists_mem_of_ne_nil _ hliteral with ⟨l, hl⟩
  have hmem : Candidate.ofLiteral source head.1 l ∈ attributeCandidates source head :=
    List.mem_map_of_mem hl
  apply List.ne_nil_of_mem
  exact List.mem_append_left _ (List.mem_flatMap.mpr ⟨head, hhead, hmem⟩)

theorem candidates_of_ne_nil (h : chosenCandidates source options ≠ []) :
    candidates source options = chosenCandidates source options := by
  unfold candidates
  split
  · rename_i hnil
    exact absurd hnil h
  · rfl

theorem report_withPatterns (h : HasLiteral source) :
    report source (options.withPatterns patterns) =
      (report source options).append (patternReport source options patterns) := by
  have hfindings : candidateFindings source (options.withPatterns patterns) =
      candidateFindings source options := rfl
  unfold report patternReport Report.append
  rw [hfindings, candidates_of_ne_nil h.chosenCandidates_ne_nil,
    candidates_of_ne_nil h.chosenCandidates_ne_nil, chosenCandidates_withPatterns,
    List.flatMap_append, List.append_nil]

end UtilityClass

/-!
## Scans with further patterns
-/

namespace Finder

theorem scan_extendsBy {finder : Finder} {added : Report}
    (h : finder.report source (options.withPatterns patterns) =
      (finder.report source options).append added) :
    (finder.scan source (options.withPatterns patterns)).ExtendsBy (finder.scan source options)
      added := by
  have hallows : (options.withPatterns patterns).allows = options.allows := rfl
  unfold scan
  rw [hallows, h]
  split
  · exact ⟨Finding.sublist_ordered_append _ _, List.prefix_append _ _,
      fun f hf => Finding.mem_of_mem_ordered_append hf⟩
  · exact ⟨List.Sublist.refl [], List.prefix_refl [], fun f hf => .inl hf⟩

/--
Further patterns add to what is found in styles. They add to what is found in classes as
well, if some attribute of the source holds a literal.
-/
theorem scan_withPatterns (source : Text) (options : ScanOptions) (patterns : List CustomPattern) :
    (inlineStyle.scan source (options.withPatterns patterns)).ExtendsBy
        (inlineStyle.scan source options)
        (InlineStyle.patternReport source options patterns) ∧
      (UtilityClass.HasLiteral source →
        (utilityClass.scan source (options.withPatterns patterns)).ExtendsBy
          (utilityClass.scan source options)
          (UtilityClass.patternReport source options patterns)) :=
  ⟨scan_extendsBy InlineStyle.report_withPatterns,
    fun h => scan_extendsBy (UtilityClass.report_withPatterns h)⟩

def titlePatterns : List CustomPattern :=
  (Pattern.ofText? "title='([^']*)'".toList).toList.map fun p => ⟨"title='([^']*)'".toList, p⟩

def titledSource : Text :=
  "title='m-[8px] p-[4px]' className='p-[4px]'".toList

theorem scan_withPatterns_titledSource :
    UtilityClass.HasLiteral titledSource ∧
      (utilityClass.scan titledSource .standard).findings.map (·.location.start) = [38] ∧
      (utilityClass.scan titledSource (ScanOptions.standard.withPatterns titlePatterns)).findings.map
        (·.location.start) = [10, 18, 38] ∧
      (utilityClass.scan titledSource (ScanOptions.standard.withPatterns titlePatterns)).ExtendsBy
        (utilityClass.scan titledSource .standard)
        (UtilityClass.patternReport titledSource .standard titlePatterns) := by
  have hliteral : UtilityClass.HasLiteral titledSource :=
    ⟨(24, 34), by decide +kernel, by decide +kernel⟩
  exact ⟨hliteral, by decide +kernel, by decide +kernel,
    (scan_withPatterns titledSource .standard titlePatterns).2 hliteral⟩

/-- Without an attribute, a pattern that describes anything keeps the literals from being searched. -/
example :
    (utilityClass.scan "title='p-[4px]'".toList .standard).findings.map (·.value) =
        ["4px".toList] ∧
      (utilityClass.scan "title='p-[4px]'".toList
        (ScanOptions.standard.withPatterns [⟨['i'], .one (.single 'i')⟩])).findings.map (·.value) =
          [] := by
  decide +kernel

end Finder
end DesignTokens
