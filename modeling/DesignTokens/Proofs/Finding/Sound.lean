import DesignTokens.Finding.Finder
import DesignTokens.Proofs.Finding.Order
import DesignTokens.Proofs.InlineStyle.Sound
import DesignTokens.Proofs.UtilityClass.Sound

/-!
# Soundness of scans

The findings of a scan come one before the other, and each of them is sound, whatever
the source and the options are.
-/

namespace DesignTokens
namespace Finder

/-- What is promised of a finding in a source by the finder that has found it. -/
def IsSound (finder : Finder) (source : Text) (options : ScanOptions) (f : Finding) : Prop :=
  match finder with
  | .utilityClass => UtilityClass.IsSound source options f
  | .inlineStyle =>
      ∃ lead, InlineStyle.IsLeadPath lead ∧ InlineStyle.IsSound source options lead 1 f

theorem isSound_report {finder : Finder} {source : Text} {options : ScanOptions} {f : Finding}
    (h : f ∈ (finder.report source options).findings) : finder.IsSound source options f := by
  cases finder with
  | utilityClass => exact UtilityClass.isSound_report h
  | inlineStyle => exact InlineStyle.isSound_report h

theorem IsSound.standsIn {finder : Finder} {source : Text} {options : ScanOptions} {f : Finding}
    (h : finder.IsSound source options f) : f.StandsIn source options := by
  cases finder with
  | utilityClass => exact UtilityClass.IsSound.standsIn h
  | inlineStyle =>
      rcases h with ⟨lead, -, hsound⟩
      exact hsound.standsIn

/--
The findings of a scan are in the order of their places, no two of them at one place.
Each of them is a stretch of the source in a category that is asked for, and is sound.
-/
theorem scan_isSound (finder : Finder) (source : Text) (options : ScanOptions) :
    ((finder.scan source options).findings.Pairwise fun f g => f.precedes g = true) ∧
      ∀ f ∈ (finder.scan source options).findings,
        f.StandsIn source options ∧ finder.IsSound source options f := by
  unfold scan
  split
  · rcases Finding.pairwise_ordered (finder.report source options).findings with ⟨hpairwise, hmem⟩
    refine ⟨hpairwise, ?_⟩
    intro f hf
    have hsound := isSound_report (hmem f hf)
    exact ⟨hsound.standsIn, hsound⟩
  · refine ⟨.nil, ?_⟩
    intro f hf
    exact absurd hf List.not_mem_nil

def operandStyle : Text :=
  '<' :: "div style=\x7b\x7b padding: dense ? '4px' : '8px' \x7d\x7d />".toList

theorem scan_isSound_operandStyle :
    (inlineStyle.scan operandStyle .standard).findings.map (·.value) =
        ["4px".toList, "8px".toList] ∧
      ∀ f ∈ (inlineStyle.scan operandStyle .standard).findings,
        f.StandsIn operandStyle .standard :=
  ⟨by decide +kernel, fun f hf => ((scan_isSound inlineStyle operandStyle .standard).2 f hf).1⟩

end Finder
end DesignTokens
