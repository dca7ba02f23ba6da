import DesignTokens.Finding.Finder
import DesignTokens.Proofs.Finding.Order
import DesignTokens.Proofs.Source.Look
import DesignTokens.Proofs.UtilityClass.Sound

/-!
# Classes of chosen categories

Without custom patterns classes are looked for behind quotes only. A quote belongs to no
prefix, so that the prefix of a class is the whole run of such characters before its
bracket, wherever the class is found. Hence a place has one category, and a restriction
to categories takes those findings away that belong to others.
-/

namespace DesignTokens

def ScanOptions.unrestricted (options : ScanOptions) : ScanOptions :=
  { options with types := none, types_ne := fun h => by cases h }

namespace UtilityClass

open Source (HasAt)

/-!
## Whole prefixes
-/

section Run

variable {source : Text}

theorem Written.StandsIn.hasAt_lead {w : Written} (h : w.StandsIn source) :
    HasAt source (w.bracket - w.lead.length) w.lead := by
  have hat := h.hasAt
  rw [Written.text, List.append_assoc] at hat
  exact hat.left

theorem length_lead_le {w w' : Written} (hw' : w'.StandsIn source)
    (hstart : StartsRun source (w.bracket - w.lead.length)) (h : w.bracket = w'.bracket) :
    w'.lead.length ≤ w.lead.length := by
  by_contra hlt
  -- the character before the shorter prefix belongs to the longer one
  have hle := hw'.le
  have hindex : w'.lead.length - w.lead.length - 1 < w'.lead.length := by omega
  have hchar := List.getElem?_eq_getElem hindex
  have hlead := hw'.lead _ (List.mem_of_getElem? hchar)
  have hbefore := hw'.hasAt_lead.getElem?_add hchar
  have hoffset : w.bracket - w.lead.length =
      w'.bracket - w'.lead.length + (w'.lead.length - w.lead.length - 1) + 1 := by omega
  rw [hoffset] at hstart
  rw [hstart _ hbefore] at hlead
  cases hlead

/-- Two classes with one bracket have the same prefix. -/
theorem lead_eq {w w' : Written} (hw : w.StandsIn source) (hw' : w'.StandsIn source)
    (hstart : StartsRun source (w.bracket - w.lead.length))
    (hstart' : StartsRun source (w'.bracket - w'.lead.length)) (h : w.bracket = w'.bracket) :
    w.lead = w'.lead := by
  have hlength : w.lead.length = w'.lead.length :=
    Nat.le_antisymm (length_lead_le hw hstart' h.symm) (length_lead_le hw' hstart h)
  rw [← hw.hasAt_lead.slice, ← hw'.hasAt_lead.slice, hlength, h]

end Run

/-!
## Places of classes
-/

section Place

variable {source : Text} {options : ScanOptions} {site : Site} {f g : Finding}

def Written.category? (w : Written) : Option Category :=
  (UtilityPrefix.ofText? (w.lead.dropWhile (· = '-'))).map fun p => (p.target w.value).category

theorem of_finding? {w : Written} (h : finding? site w = some f) :
    w.category? = some f.category ∧ f.location.start = w.valueStart ∧
      f.location.stop = w.valueStop := by
  unfold finding? at h
  unfold Written.category?
  split at h
  · cases h
  · rename_i p hknown
    dsimp only at h
    split at h
    · cases h
      rw [hknown]
      exact ⟨rfl, rfl, rfl⟩
    · cases h

theorem exists_quote_of_mem_literals {w : Window} {nested : Bool} (hin : w.IsIn source)
    {l : Literal Nat} (h : l ∈ w.literals nested) :
    ∃ quote, source[l.start]? = some quote ∧ Scan.isQuote quote = true := by
  unfold Window.literals at h
  split at h
  · rename_i ls hread
    rcases Scan.read_of_mem_literals hin hread l h with ⟨missing, c, u, hat, hliteral⟩
    exact ⟨c, hat.getElem?, (Scan.exists_of_literal hliteral).1⟩
  · exact absurd h List.not_mem_nil

theorem exists_quote_of_literal? {w : Window} (hin : w.IsIn source) {l : Literal Nat}
    (h : w.literal? = some l) :
    ∃ quote, source[l.start]? = some quote ∧ Scan.isQuote quote = true := by
  rcases Scan.exists_of_literal? h with ⟨hquote, hstart, -, rest, htext⟩
  rw [Window.IsIn, htext, ← hstart] at hin
  exact ⟨l.quote, hin.getElem?, hquote⟩

theorem isLeadChar_of_isQuote {c : Char} (h : Scan.isQuote c = true) : isLeadChar c = false := by
  simp only [Scan.isQuote, Bool.or_eq_true, decide_eq_true_eq] at h
  rcases h with (rfl | rfl) | rfl <;> decide +kernel

/-- Without custom patterns the windows that may hold classes begin behind quotes. -/
theorem startsRun_of_mem_candidates (hpatterns : options.customPatterns = []) {c : Candidate}
    (h : c ∈ candidates source options) : StartsRun source c.window.start := by
  have hquote : ∀ {anchor : Nat} {l : Literal Nat},
      (∃ quote, source[l.start]? = some quote ∧ Scan.isQuote quote = true) →
        StartsRun source (Candidate.ofLiteral source anchor l).window.start := by
    rintro anchor l ⟨quote, hquote, hisQuote⟩
    exact startsRun_succ hquote (isLeadChar_of_isQuote hisQuote)
  unfold candidates at h
  split at h
  · rcases List.mem_map.mp h with ⟨l, hl, rfl⟩
    exact hquote (exists_quote_of_mem_literals (w := .whole source) (List.prefix_refl source) hl)
  · rw [chosenCandidates, hpatterns, List.flatMap_nil, List.append_nil] at h
    rcases List.mem_flatMap.mp h with ⟨head, -, h⟩
    rcases List.mem_map.mp h with ⟨l, hl, rfl⟩
    refine hquote ?_
    have hin := Window.isIn_between source head.2 source.length
    unfold attributeLiterals at hl
    split at hl
    · split at hl
      · rename_i body hbody
        exact exists_quote_of_mem_literals (hin.body? hbody) hl
      · exact absurd hl List.not_mem_nil
    · exact exists_quote_of_literal? hin (Option.mem_toList.mp hl)

theorem exists_of_mem_report (hpatterns : options.customPatterns = [])
    (h : f ∈ (report source options).findings) :
    ∃ w : Written, w.StandsIn source ∧ StartsRun source (w.bracket - w.lead.length) ∧
      w.category? = some f.category ∧ f.location.start = w.valueStart ∧
        f.location.stop = w.valueStop := by
  rcases List.mem_flatMap.mp h with ⟨c, hc, hf⟩
  rcases List.mem_filterMap.mp hf with ⟨w, hw, hfinding⟩
  rcases standsIn_of_mem_writtenFrom (isRun_nil (isIn_of_mem_candidates hc)) w hw with
    ⟨hstands, hstarts⟩
  refine ⟨w, hstands, hstarts.elim (fun heq => ?_) id, of_finding? hfinding⟩
  rw [heq]
  exact startsRun_of_mem_candidates hpatterns hc

theorem category_eq (hpatterns : options.customPatterns = [])
    (hf : f ∈ (report source options).findings) (hg : g ∈ (report source options).findings)
    (hstart : f.location.start = g.location.start) (hstop : f.location.stop = g.location.stop) :
    f.category = g.category := by
  rcases exists_of_mem_report hpatterns hf with ⟨w, hw, hrun, hcategory, hleft, hright⟩
  rcases exists_of_mem_report hpatterns hg with ⟨w', hw', hrun', hcategory', hleft', hright'⟩
  have hbracket : w.bracket = w'.bracket := by
    rw [hleft, hleft', Written.valueStart, Written.valueStart] at hstart
    omega
  have hlead := lead_eq hw hw' hrun hrun' hbracket
  have hlength : w.value.length = w'.value.length := by
    rw [hright, hright', Written.valueStop, Written.valueStop, Written.valueStart,
      Written.valueStart, hbracket] at hstop
    omega
  have hvalue : w.value = w'.value := by
    rw [← hw.hasAt_bracket.tail.left.slice, ← hw'.hasAt_bracket.tail.left.slice, hbracket, hlength]
  rw [Written.category?, hlead, hvalue] at hcategory
  exact Option.some.inj (hcategory.symm.trans hcategory')

end Place

/-!
## Chosen categories
-/

section Types

variable {source : Text} {options : ScanOptions} {types : List Category}

theorem finding?_types (htypes : options.types = some types) (anchor : Nat) (w : Written) :
    finding? ⟨source, options, anchor⟩ w =
      (finding? ⟨source, options.unrestricted, anchor⟩ w).filter (·.category ∈ types) := by
  have hcategories : options.categories = types := by
    rw [ScanOptions.categories, htypes]
    rfl
  unfold finding?
  cases UtilityPrefix.ofText? (w.lead.dropWhile (· = '-')) with
  | none => rfl
  | some p =>
      have hall : (p.target w.value).category ∈ options.unrestricted.categories :=
        Category.mem_all _
      dsimp only
      rw [hcategories, decide_eq_true hall, Bool.and_true]
      cases Text.isAllBlank w.value with
      | true => rfl
      | false =>
          rw [Bool.not_false, Bool.true_and, if_pos rfl, Option.filter_some]
          rfl

theorem candidates_unrestricted (source : Text) (options : ScanOptions) :
    candidates source options.unrestricted = candidates source options := rfl

theorem report_types (htypes : options.types = some types) :
    (report source options).findings =
      (report source options.unrestricted).findings.filter (·.category ∈ types) := by
  rw [report, report, candidates_unrestricted]
  dsimp only
  rw [List.filter_flatMap]
  refine List.flatMap_congr fun c _ => ?_
  rw [candidateFindings, candidateFindings, List.filter_filterMap]
  simp only [finding?_types htypes]

end Types

/--
Without custom patterns, a restriction to categories takes those findings away that belong
to other ones, and nothing else changes.
-/
theorem scan_types {source : Text} {options : ScanOptions} {types : List Category}
    (hpatterns : options.customPatterns = []) (htypes : options.types = some types) :
    (Finder.utilityClass.scan source options).findings =
        (Finder.utilityClass.scan source options.unrestricted).findings.filter
          (·.category ∈ types) ∧
      (Finder.utilityClass.scan source options).diagnostics =
        (Finder.utilityClass.scan source options.unrestricted).diagnostics := by
  have hallows : options.unrestricted.allows = options.allows := rfl
  rw [Finder.scan, Finder.scan, hallows]
  split
  · refine ⟨?_, rfl⟩
    change Finding.ordered (report source options).findings = _
    rw [report_types htypes, Finding.ordered_filter]
    · rfl
    · intro f hf g hg hfg hgf
      rw [Bool.eq_false_iff, ne_eq, Finding.precedes_iff] at hfg hgf
      have hnone : options.unrestricted.customPatterns = [] := hpatterns
      rw [category_eq hnone hf hg (by omega) (by omega)]
  · exact ⟨rfl, rfl⟩

def colorsOnly : ScanOptions :=
  { ScanOptions.standard with types := some [.color], types_ne := fun h => by cases h }

theorem scan_types_colorsOnly :
    (Finder.utilityClass.scan "className='p-[4px] bg-[#fff]'".toList colorsOnly).findings.map
        (·.value) = ["#fff".toList] ∧
      (Finder.utilityClass.scan "className='p-[4px] bg-[#fff]'".toList colorsOnly).findings =
        (Finder.utilityClass.scan "className='p-[4px] bg-[#fff]'".toList
          colorsOnly.unrestricted).findings.filter (·.category ∈ [.color]) :=
  ⟨by decide +kernel, (scan_types (rfl : colorsOnly.customPatterns = []) rfl).1⟩

end UtilityClass
end DesignTokens
