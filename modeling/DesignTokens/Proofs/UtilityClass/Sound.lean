import DesignTokens.Proofs.Finding.Place
import DesignTokens.Proofs.UtilityClass.Written

/-!
# Soundness of findings of classes

Wherever classes are looked for, each finding is what stands between two brackets of
the source, behind a known prefix.
-/

namespace DesignTokens
namespace UtilityClass

/--
A finding is sound: it stands in the source, between brackets and not blank, and its
path ends with the class as it stands there, from the run of prefix characters before
the bracket on. The run is a known prefix behind hyphens.
-/
structure IsSound (source : Text) (options : ScanOptions) (f : Finding) : Prop where
  standsIn : f.StandsIn source options
  opened : Source.charAt? source (f.location.start - 1) = some '['
  closed : Source.charAt? source f.location.stop = some ']'
  filled : Text.isAllBlank f.value = false
  path : ∃ lead start : Text, (∀ c ∈ lead, isLeadChar c = true) ∧
    (UtilityPrefix.ofText? (lead.dropWhile (· = '-'))).isSome = true ∧
      f.path = ["className".toList, lead ++ '[' :: f.value ++ [']']] ∧
        start ++ (lead ++ '[' :: f.value ++ [']']) <+: source ∧
          f.location.start = (start ++ lead ++ ['[']).length

section Sound

variable {source : Text} {options : ScanOptions} {site : Site} {w : Written} {f : Finding}

theorem Written.StandsIn.hasAt_bracket (h : w.StandsIn source) :
    Source.HasAt source w.bracket ('[' :: (w.value ++ [']'])) := by
  have hat := h.hasAt
  have htext : w.text = w.lead ++ '[' :: (w.value ++ [']']) := by simp [Written.text]
  rw [htext] at hat
  have hright := hat.right
  rw [Nat.sub_add_cancel h.le] at hright
  exact hright

theorem Written.StandsIn.exists_start (h : w.StandsIn source) :
    ∃ start : Text, start ++ w.text <+: source ∧
      w.valueStart = (start ++ w.lead ++ ['[']).length := by
  have hlt : w.bracket < source.length := by
    have hle := h.hasAt_bracket.le_length (List.cons_ne_nil _ _)
    rw [List.length_cons] at hle
    omega
  refine ⟨source.take (w.bracket - w.lead.length), ?_, ?_⟩
  · have hprefix := (List.prefix_append_right_inj (source.take (w.bracket - w.lead.length))).mpr
      h.hasAt
    rw [List.take_append_drop] at hprefix
    exact hprefix
  · have hle := h.le
    rw [Written.valueStart, List.length_append, List.length_append, List.length_take,
      List.length_singleton, Nat.min_eq_left (by omega)]
    omega

theorem isSound_finding? (hw : w.StandsIn site.source) (h : finding? site w = some f) :
    IsSound site.source site.options f := by
  unfold finding? at h
  split at h
  · cases h
  · rename_i p hknown
    dsimp only at h
    split at h
    · rename_i hfound
      rw [Bool.and_eq_true, Bool.not_eq_true', decide_eq_true_eq] at hfound
      rcases hfound with ⟨hfilled, hasked⟩
      cases h
      have hvalue : Source.HasAt site.source w.valueStart w.value := hw.hasAt_bracket.tail.left
      have hslice : Text.slice site.source w.valueStart w.valueStop = w.value := hvalue.slice
      have hne : w.value ≠ [] := by
        intro hnil
        rw [hnil] at hfilled
        cases hfilled
      constructor
      · exact Site.finding_standsIn hvalue hne hasked
      · change Source.charAt? site.source ((w.bracket + 1 : Nat) - 1 : Int) = some '['
        rw [Int.natCast_succ, Int.add_sub_cancel, Source.charAt?_natCast]
        exact hw.hasAt_bracket.getElem?
      · change Source.charAt? site.source (w.valueStop : Int) = some ']'
        rw [Source.charAt?_natCast]
        exact hw.hasAt_bracket.tail.right.getElem?
      · change Text.isAllBlank (Text.slice site.source w.valueStart w.valueStop) = false
        rw [hslice]
        exact hfilled
      · rcases hw.exists_start with ⟨start, hstart, hlength⟩
        refine ⟨w.lead, start, hw.lead, by rw [hknown]; rfl, ?_, ?_, ?_⟩
        · simp only [Site.finding, hslice, Written.text]
        · simp only [Site.finding, hslice]
          exact hstart
        · simp only [Site.finding, Source.location, hlength]
    · cases h

/-- All findings in a window of the source are sound. -/
theorem isSound_candidateFindings {c : Candidate} (hin : c.window.IsIn source)
    (h : f ∈ candidateFindings source options c) : IsSound source options f := by
  rcases List.mem_filterMap.mp h with ⟨w, hw, hfinding⟩
  have hstands : w.StandsIn source := (standsIn_of_mem_writtenFrom (isRun_nil hin) w hw).1
  exact @isSound_finding? ⟨source, options, c.anchor⟩ w f hstands hfinding

theorem isIn_of_mem_chosenCandidates {c : Candidate} (h : c ∈ chosenCandidates source options) :
    c.window.IsIn source := by
  rcases List.mem_append.mp h with h | h
  · rcases List.mem_flatMap.mp h with ⟨span, -, h⟩
    rcases List.mem_map.mp h with ⟨l, -, rfl⟩
    exact Window.isIn_between source _ _
  · rcases List.mem_flatMap.mp h with ⟨p, -, h⟩
    rcases List.mem_filterMap.mp h with ⟨stretch, -, h⟩
    rcases Option.map_eq_some_iff.mp h with ⟨span, -, rfl⟩
    exact Window.isIn_between source _ _

theorem isIn_of_mem_candidates {c : Candidate} (h : c ∈ candidates source options) :
    c.window.IsIn source := by
  unfold candidates at h
  split at h
  · rcases List.mem_map.mp h with ⟨l, -, rfl⟩
    exact Window.isIn_between source _ _
  · exact isIn_of_mem_chosenCandidates h

theorem isSound_report (h : f ∈ (report source options).findings) :
    IsSound source options f := by
  rcases List.mem_flatMap.mp h with ⟨c, hc, hf⟩
  exact isSound_candidateFindings (isIn_of_mem_candidates hc) hf

end Sound

end UtilityClass
end DesignTokens
