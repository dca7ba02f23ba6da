import DesignTokens.Proofs.Finding.Sound
import DesignTokens.Proofs.Registry.Query
import DesignTokens.Replacement

/-!
# Soundness of replacements

Every finding of a source is looked up in its own category. The lookups always succeed
and change nothing, so that the replacements are in the order of the findings. A token
that is suggested has the value of the finding, or, for a color, is near enough to it.
-/

namespace DesignTokens
namespace Replacement

/-- What is promised of a replacement: a reference to the variable of a sound token, if any. -/
def IsSound (c : Catalog) (threshold : Threshold) (exact : Bool) (r : Replacement) : Prop :=
  ∀ m, r.resolution = some m →
    r.reference? = some ("var(".toList ++ m.token.variableName ++ [')']) ∧
      r.confidence = m.confidence ∧
      m.IsSound c threshold exact r.finding.category r.finding.value

variable {s : Session} {c : Catalog} {options : QueryOptions} {threshold : Threshold}

theorem exists_ofFinding (hs : s.IsReached) (hc : s.registry.catalog = some c)
    (ht : options.threshold = some threshold) (f : Finding) :
    ∃ r, ofFinding options f s = .ok r s ∧ r.finding = f ∧
      r.IsSound c threshold options.exact := by
  rcases Registry.exists_bestMatch hs hc ht f.category f.value with ⟨found, hfound, hsound⟩
  refine ⟨⟨f, found⟩, ?_, rfl, ?_⟩
  · unfold ofFinding
    rw [Action.bind_run hfound]
    rfl
  · intro m hm
    change found = some m at hm
    subst hm
    exact ⟨rfl, rfl, hsound m rfl⟩

theorem exists_mapM_ofFinding (hs : s.IsReached) (hc : s.registry.catalog = some c)
    (ht : options.threshold = some threshold) (fs : List Finding) :
    ∃ rs, fs.mapM (ofFinding options) s = .ok rs s ∧ rs.map (·.finding) = fs ∧
      ∀ r ∈ rs, r.IsSound c threshold options.exact := by
  induction fs with
  | nil =>
      refine ⟨[], ?_, rfl, ?_⟩
      · rw [List.mapM_nil]
        rfl
      · intro r hr
        cases hr
  | cons f fs ih =>
      rcases exists_ofFinding hs hc ht f with ⟨r, hr, hfinding, hsound⟩
      rcases ih with ⟨rs, hrs, hfindings, hall⟩
      refine ⟨r :: rs, ?_, ?_, ?_⟩
      · rw [List.mapM_cons, Action.bind_run hr, Action.bind_run hrs]
        rfl
      · rw [List.map_cons, hfinding, hfindings]
      · rw [List.forall_mem_cons]
        exact ⟨hsound, hall⟩

theorem ofSource_run {finders : List Finder} {scanOptions : ScanOptions} {source : Text}
    {rs : List Replacement} (keep : Bool)
    (h : (findings finders source scanOptions).mapM (ofFinding options) s = .ok rs s) :
    ofSource finders scanOptions options keep source s =
      .ok (rs.filter fun r => keep || r.isResolved) s := by
  unfold ofSource
  rw [Action.bind_run h]
  rfl

theorem pairwise_findings (finders : List Finder) (source : Text) (scanOptions : ScanOptions) :
    (findings finders source scanOptions).Pairwise fun f g => f.precedes g = true :=
  (Finding.pairwise_ordered _).1

/--
A source has one replacement for each finding, in the order of their places, and every
token that is suggested is sound. Without the findings that have no token the others
are the same.
-/
theorem ofSource_isSound (finders : List Finder) (scanOptions : ScanOptions) (source : Text)
    (hs : s.IsReached) (hc : s.registry.catalog = some c)
    (ht : options.threshold = some threshold) :
    ∃ rs, ofSource finders scanOptions options true source s = .ok rs s ∧
      ofSource finders scanOptions options false source s = .ok (rs.filter isResolved) s ∧
      rs.map (·.finding) = findings finders source scanOptions ∧
      (rs.Pairwise fun r r' => r.finding.precedes r'.finding = true) ∧
      ∀ r ∈ rs, r.IsSound c threshold options.exact := by
  rcases exists_mapM_ofFinding hs hc ht (findings finders source scanOptions) with
    ⟨rs, hrun, hfindings, hall⟩
  have hordered := pairwise_findings finders source scanOptions
  rw [← hfindings, List.pairwise_map] at hordered
  have hkept : rs.filter (fun r => true || r.isResolved) = rs :=
    List.filter_eq_self.mpr fun _ _ => rfl
  refine ⟨rs, ?_, ofSource_run false hrun, hfindings, hordered, hall⟩
  rw [ofSource_run true hrun, hkept]

def plainSheet : Text :=
  ":root \x7b --color-red: #ff0000; --spacing-sm: 4px; \x7d".toList

def plainStyle : Text :=
  '<' :: "div style=\x7b\x7b color: '#F00', padding: ' 4px ', gap: '9px' \x7d\x7d />".toList

theorem ofSource_isSound_plainStyle :
    ∃ s c rs,
      s = Session.opened plainSheet ∧ s.registry.catalog = some c ∧
        ofSource Finder.all .standard ⟨some .standard, none, true⟩ true plainStyle s = .ok rs s ∧
        rs.map reference? =
          [some "var(--color-red)".toList, some "var(--spacing-sm)".toList, none] ∧
        ∀ r ∈ rs, r.IsSound c .standard true := by
  have hc := Session.catalog_opened (show plainSheet ≠ [] by decide)
  have ht : (⟨some .standard, none, true⟩ : QueryOptions).threshold = some .standard := rfl
  rcases ofSource_isSound Finder.all .standard plainStyle (Session.isReached_opened plainSheet)
    hc ht with ⟨rs, hrun, _, _, _, hall⟩
  have hreferences :
      (match ofSource Finder.all .standard ⟨some .standard, none, true⟩ true plainStyle
          (Session.opened plainSheet) with
        | .ok rs _ => rs.map reference?
        | .error _ _ => []) =
      [some "var(--color-red)".toList, some "var(--spacing-sm)".toList, none] := by
    decide +kernel
  rw [hrun] at hreferences
  exact ⟨_, _, rs, rfl, hc, hrun, hreferences, hall⟩

end Replacement
end DesignTokens
