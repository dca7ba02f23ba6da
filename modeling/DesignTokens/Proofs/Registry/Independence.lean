import DesignTokens.Proofs.Registry.Lifecycle
import DesignTokens.Proofs.Registry.Search

/-!
# Independence of the settings

The settings are read where nothing else is said, and nowhere else. What does not read
them has the same outcome in every environment, also in one whose settings are invalid,
and whatever settings were kept before. What does read them fails in an environment with
invalid settings, and goes on where valid ones were kept.
-/

namespace DesignTokens

def Session.under (s : Session) (environment : Environment) (kept : Option Settings) : Session :=
  { s with environment := environment, settings := kept }

/-- What is there behind an action: its answer or fault, the registry and the files. -/
def outcomeOf {α : Type} :
    EStateM.Result RegistryFault Session α → Except RegistryFault α × Registry × Files
  | .ok x s => (.ok x, s.registry, s.files)
  | .error fault s => (.error fault, s.registry, s.files)

def resultUnder {α : Type} (environment : Environment) (kept : Option Settings) :
    EStateM.Result RegistryFault Session α → EStateM.Result RegistryFault Session α
  | .ok x s => .ok x (s.under environment kept)
  | .error fault s => .error fault (s.under environment kept)

namespace Action

variable {α β : Type}

/-- Whether an action has one outcome in all environments, whatever settings are kept. -/
def IgnoresSettings (a : Action α) (s : Session) : Prop :=
  ∀ environment kept environment' kept',
    outcomeOf (a (s.under environment kept)) = outcomeOf (a (s.under environment' kept'))

/-- Whether an action neither reads nor changes the environment and the settings that are kept. -/
def LeavesSettings (a : Action α) (s : Session) : Prop :=
  ∀ environment kept, a (s.under environment kept) = resultUnder environment kept (a s)

theorem outcomeOf_resultUnder (environment : Environment) (kept : Option Settings)
    (r : EStateM.Result RegistryFault Session α) :
    outcomeOf (resultUnder environment kept r) = outcomeOf r := by
  cases r <;> rfl

namespace LeavesSettings

variable {a : Action α} {f : α → Action β} {s : Session}

theorem ignoresSettings (h : LeavesSettings a s) : IgnoresSettings a s := by
  intro environment kept environment' kept'
  rw [h, h, outcomeOf_resultUnder, outcomeOf_resultUnder]

theorem pure (x : α) (s : Session) : LeavesSettings (Pure.pure x) s :=
  fun _ _ => rfl

theorem throw (fault : RegistryFault) (s : Session) :
    LeavesSettings (MonadExcept.throw fault : Action α) s :=
  fun _ _ => rfl

/-- Actions one after the other leave the settings if each of them does where it begins. -/
theorem bind (ha : LeavesSettings a s)
    (hf : ∀ x s', a s = .ok x s' → LeavesSettings (f x) s') : LeavesSettings (a >>= f) s := by
  intro environment kept
  have hrun := ha environment kept
  cases hs : a s with
  | ok x s' =>
      rw [hs] at hrun
      rw [bind_run hs, bind_run hrun]
      exact hf x s' hs environment kept
  | error fault s' =>
      rw [hs] at hrun
      rw [bind_error f hs, bind_error f hrun]
      rfl

theorem get_bind {f : Session → Action β}
    (hsame : ∀ environment kept, f (s.under environment kept) = f s)
    (hf : LeavesSettings (f s) s) : LeavesSettings (MonadState.get >>= f) s := by
  intro environment kept
  rw [get_bind_run, get_bind_run, hsame]
  exact hf environment kept

theorem map (f : α → β) (ha : LeavesSettings a s) : LeavesSettings (f <$> a) s := by
  intro environment kept
  rw [map_run, map_run, ha]
  cases a s <;> rfl

end LeavesSettings
end Action

namespace Registry

open DesignTokens.Action

variable {s : Session} {value : Text} {options : QueryOptions} {category : Option Text}

/-!
## Questions
-/

theorem leavesSettings_loaded (s : Session) : LeavesSettings loaded s := by
  refine LeavesSettings.get_bind (fun _ _ => rfl) ?_
  split
  · exact LeavesSettings.pure _ s
  · exact LeavesSettings.throw _ s

theorem leavesSettings_question (question : Question) (s : Session) :
    LeavesSettings (Event.act (.question question)) s :=
  (leavesSettings_loaded s).map question.answer

theorem leavesSettings_closestColor (value : Text) (ht : options.threshold ≠ none)
    (s : Session) : LeavesSettings (closestColor value options) s := by
  refine (leavesSettings_loaded s).bind ?_
  intro c s₁ _
  rcases Option.ne_none_iff_exists'.mp ht with ⟨threshold, ht⟩
  refine LeavesSettings.bind ?_ ?_
  · intro environment kept
    rw [threshold_run ht, threshold_run ht]
    rfl
  · intro t s₂ _
    split
    · exact LeavesSettings.pure _ s₂
    · exact LeavesSettings.throw _ s₂

/--
Whether the question for a value leaves the colors out: it names another category, or it
names none and the colors are not among those that it allows.
-/
def LeavesColorsOut (category : Option Text) (options : QueryOptions) : Prop :=
  match category with
  | some name => name ≠ Category.color.name
  | none => options.allows .color = false

theorem ofName?_eq_color_iff {name : Text} :
    Category.ofName? name = some .color ↔ name = Category.color.name := by
  constructor
  · intro h
    have hname := List.find?_some (p := fun c : Category => decide (c.name = name)) h
    exact (of_decide_eq_true hname).symm
  · rintro rfl
    rfl

theorem leavesColorsOut_iff :
    LeavesColorsOut category options ↔ .color ∉ searched category options := by
  cases category with
  | none =>
      rw [searched_none, List.mem_filter]
      unfold LeavesColorsOut
      simp [searchOrder]
  | some name =>
      have hnamed : .color ∈ searched (some name) options ↔ name = Category.color.name := by
        rw [← ofName?_eq_color_iff]
        exact Option.mem_toList
      exact (not_congr hnamed).symm

instance (category : Option Text) (options : QueryOptions) :
    Decidable (LeavesColorsOut category options) :=
  decidable_of_iff (.color ∉ searched category options) leavesColorsOut_iff.symm

theorem leavesSettings_matchIn {category : Category}
    (h : options.threshold ≠ none ∨ Color.isLiteral value = false ∨ category ≠ .color)
    (s : Session) : LeavesSettings (matchIn value options category) s := by
  unfold matchIn
  split
  · rename_i hcolor
    split
    · rename_i hliteral
      refine leavesSettings_closestColor value (h.resolve_right ?_) s
      rintro (hnot | hother)
      · exact Bool.false_ne_true (hnot.symm.trans hliteral)
      · exact hother hcolor
    · exact LeavesSettings.pure none s
  · exact (leavesSettings_loaded s).bind fun _ s₁ _ => LeavesSettings.pure _ s₁

theorem leavesSettings_firstMatch {categories : List Category}
    (h : options.threshold ≠ none ∨ Color.isLiteral value = false ∨ .color ∉ categories)
    (s : Session) : LeavesSettings (firstMatch value options categories) s := by
  induction categories generalizing s with
  | nil => exact LeavesSettings.pure none s
  | cons category rest ih =>
      rw [List.mem_cons, not_or] at h
      refine (leavesSettings_matchIn (h.imp_right (.imp_right ?_)) s).bind ?_
      · exact fun hout => Ne.symm hout.1
      · intro found s₁ _
        split
        · exact LeavesSettings.pure _ s₁
        · exact ih (h.imp_right (.imp_right And.right)) s₁

theorem leavesSettings_bestMatch
    (h : options.threshold ≠ none ∨ Color.isLiteral value = false ∨ LeavesColorsOut category options)
    (s : Session) : LeavesSettings (bestMatch value category options) s := by
  rw [leavesColorsOut_iff] at h
  exact (leavesSettings_loaded s).bind fun _ s₁ _ => leavesSettings_firstMatch h s₁

/-!
## Loading
-/

theorem leavesSettings_fileText (p : Path) (s : Session) : LeavesSettings (fileText p) s := by
  unfold fileText
  split
  · exact LeavesSettings.throw _ s
  · refine LeavesSettings.get_bind (fun _ _ => rfl) ?_
    split
    · exact LeavesSettings.throw _ s
    · split
      · exact LeavesSettings.pure _ s
      · exact LeavesSettings.throw _ s

theorem not_hasSource {config : RegistryConfig} (hpath : config.path = none)
    (hcontent : ∀ c css, config.content = some (c :: css) → False) :
    ¬ config.hasSource = true := by
  unfold RegistryConfig.hasSource
  rw [hpath]
  cases h : config.content with
  | none => exact Bool.false_ne_true
  | some css =>
      cases css with
      | nil => exact Bool.false_ne_true
      | cons c css => exact absurd h (hcontent c css)

theorem leavesSettings_sourceText {source : Source}
    (h : source ≠ .configured ∨ s.registry.config.hasSource = true) :
    LeavesSettings (sourceText source) s := by
  cases source with
  | text css =>
      cases css with
      | nil => exact LeavesSettings.throw _ s
      | cons c css => exact LeavesSettings.pure _ s
  | file p => exact leavesSettings_fileText p s
  | configured =>
      have hsource := h.resolve_left fun hne => hne rfl
      refine LeavesSettings.get_bind (fun _ _ => rfl) ?_
      dsimp only
      split
      · exact leavesSettings_fileText _ s
      · exact LeavesSettings.pure _ s
      · rename_i hpath hcontent
        exact absurd hsource (not_hasSource hpath hcontent)

theorem leavesSettings_build (css : Text) (s : Session) : LeavesSettings (build css) s := by
  intro environment kept
  rw [build_run, build_run]
  rfl

theorem leavesSettings_load {source : Source}
    (h : s.registry.catalog ≠ none ∨ source ≠ .configured ∨
      s.registry.config.hasSource = true) : LeavesSettings (load source) s := by
  refine LeavesSettings.get_bind (fun _ _ => rfl) ?_
  cases hc : s.registry.catalog with
  | some c => exact LeavesSettings.pure () s
  | none =>
      have hsource := leavesSettings_sourceText (h.resolve_left fun hne => hne hc)
      exact hsource.bind fun css s₁ _ => leavesSettings_build css s₁

/-!
## What reads the settings
-/

def invalidEnvironment : Environment :=
  ⟨none, some []⟩

def invalidThreshold : List FormFault :=
  [⟨.badNumber, .field "color_threshold".toList⟩]

theorem settings_invalid (s : Session) :
    settings (s.under invalidEnvironment none) =
      .error (.settings invalidThreshold) (s.under invalidEnvironment none) := by
  rw [settings_run]
  rfl

theorem settings_kept (s : Session) (environment : Environment) (kept : Settings) :
    settings (s.under environment (some kept)) = .ok kept (s.under environment (some kept)) := by
  rw [settings_run]
  rfl

theorem not_ignoresSettings {α : Type} {a : Action α} {s' : Session} (kept : Settings)
    (hinvalid : a (s.under invalidEnvironment none) = .error (.settings invalidThreshold) s')
    (hkept : ∀ s₁,
      a (s.under invalidEnvironment (some kept)) ≠ .error (.settings invalidThreshold) s₁) :
    ¬ IgnoresSettings a s := by
  intro h
  have hsame := h invalidEnvironment none invalidEnvironment (some kept)
  rw [hinvalid] at hsame
  cases hrun : a (s.under invalidEnvironment (some kept)) with
  | ok x s₁ =>
      rw [hrun] at hsame
      cases congrArg Prod.fst hsame
  | error fault s₁ =>
      rw [hrun] at hsame
      injection congrArg Prod.fst hsame with hfault
      exact hkept s₁ (hfault ▸ hrun)

section Fallback

variable {c : Catalog}

theorem threshold_invalid (ht : options.threshold = none) (s : Session) :
    threshold options (s.under invalidEnvironment none) =
      .error (.settings invalidThreshold) (s.under invalidEnvironment none) := by
  unfold threshold
  rw [ht]
  exact bind_error _ (settings_invalid s)

theorem threshold_kept (ht : options.threshold = none) (s : Session) (environment : Environment)
    (kept : Settings) :
    threshold options (s.under environment (some kept)) =
      .ok kept.colorThreshold (s.under environment (some kept)) := by
  unfold threshold
  rw [ht]
  exact bind_run (settings_kept s environment kept)

theorem closestColor_invalid (hc : s.registry.catalog = some c) (ht : options.threshold = none) :
    closestColor value options (s.under invalidEnvironment none) =
      .error (.settings invalidThreshold) (s.under invalidEnvironment none) := by
  have hloaded : loaded (s.under invalidEnvironment none) = .ok c _ := loaded_run hc
  unfold closestColor
  rw [bind_run hloaded]
  exact bind_error _ (threshold_invalid ht s)

theorem closestColor_kept (hc : s.registry.catalog = some c) (ht : options.threshold = none)
    (environment : Environment) (kept : Settings) (faults : List FormFault) (s' : Session) :
    closestColor value options (s.under environment (some kept)) ≠
      .error (.settings faults) s' := by
  have hloaded : loaded (s.under environment (some kept)) = .ok c _ := loaded_run hc
  unfold closestColor
  rw [bind_run hloaded, bind_run (threshold_kept ht s environment kept)]
  intro hrun
  cases hanswer : c.closestColor? value kept.colorThreshold.value options.exact with
  | ok found =>
      rw [hanswer] at hrun
      cases hrun
  | error fault =>
      rw [hanswer] at hrun
      cases hrun

/-- The colors come first in a search, and nothing but them can read the settings. -/
theorem exists_searched (h : .color ∈ searched category options) :
    ∃ rest, searched category options = .color :: rest ∧ .color ∉ rest := by
  cases category with
  | none =>
      rw [searched_none] at h ⊢
      refine ⟨[Category.spacing, .borderRadius, .shadow].filter options.allows, ?_, ?_⟩
      · exact List.filter_cons_of_pos (List.mem_filter.mp h).2
      · intro hmem
        exact absurd (List.mem_of_mem_filter hmem) (by decide)
  | some name =>
      have hname : Category.ofName? name = some .color := Option.mem_toList.mp h
      exact ⟨[], congrArg Option.toList hname, List.not_mem_nil⟩

theorem bestMatch_invalid (hc : s.registry.catalog = some c) (ht : options.threshold = none)
    (hliteral : Color.isLiteral value = true) (hcolor : .color ∈ searched category options) :
    bestMatch value category options (s.under invalidEnvironment none) =
      .error (.settings invalidThreshold) (s.under invalidEnvironment none) := by
  have hc' : (s.under invalidEnvironment none).registry.catalog = some c := hc
  rcases exists_searched hcolor with ⟨rest, hsearched, -⟩
  rw [bestMatch_run hc', hsearched, firstMatch]
  refine bind_error _ ?_
  rw [matchIn_color_of_isLiteral hliteral]
  exact closestColor_invalid hc ht

theorem bestMatch_kept (hc : s.registry.catalog = some c) (ht : options.threshold = none)
    (hliteral : Color.isLiteral value = true) (hcolor : .color ∈ searched category options)
    (environment : Environment) (kept : Settings) (faults : List FormFault) (s' : Session) :
    bestMatch value category options (s.under environment (some kept)) ≠
      .error (.settings faults) s' := by
  have hc' : (s.under environment (some kept)).registry.catalog = some c := hc
  rcases exists_searched hcolor with ⟨rest, hsearched, hrest⟩
  have hfirst : ∀ s₁, matchIn value options .color (s.under environment (some kept)) ≠
      .error (.settings faults) s₁ := by
    intro s₁
    rw [matchIn_color_of_isLiteral hliteral]
    exact closestColor_kept hc ht environment kept faults s₁
  rw [bestMatch_run hc', hsearched]
  intro hrun
  cases hmatch : matchIn value options .color (s.under environment (some kept)) with
  | ok found s₁ =>
      cases found with
      | some m =>
          rw [firstMatch_of_some hmatch] at hrun
          cases hrun
      | none =>
          rw [firstMatch_of_none hmatch, firstMatch_texts (catalog_matchIn hc' hmatch) hrest]
            at hrun
          cases hrun
  | error fault s₁ =>
      rw [firstMatch, bind_error _ hmatch] at hrun
      cases hrun
      exact hfirst _ hmatch

end Fallback

theorem sourceText_configured (h : ¬ s.registry.config.hasSource = true) :
    sourceText .configured s = settledText s := by
  rcases s with ⟨⟨⟨path, content, normalize⟩, diagnostics, catalog⟩, files, environment, kept⟩
  cases path with
  | some p => exact absurd rfl h
  | none =>
      cases content with
      | none => rfl
      | some css =>
          cases css with
          | nil => rfl
          | cons c css => exact absurd rfl h

theorem load_invalid (hfresh : s.registry.catalog = none)
    (h : ¬ s.registry.config.hasSource = true) :
    load .configured (s.under invalidEnvironment none) =
      .error (.settings invalidThreshold) (s.under invalidEnvironment none) := by
  have hfresh' : (s.under invalidEnvironment none).registry.catalog = none := hfresh
  have h' : ¬ (s.under invalidEnvironment none).registry.config.hasSource = true := h
  refine load_of_fault hfresh' ?_
  rw [sourceText_configured h']
  exact bind_error _ (settings_invalid s)

theorem load_kept (hfresh : s.registry.catalog = none)
    (h : ¬ s.registry.config.hasSource = true) (environment : Environment) (kept : Settings)
    (hpath : kept.cssPath = none) :
    load .configured (s.under environment (some kept)) =
      .error .noSource (s.under environment (some kept)) := by
  have hfresh' : (s.under environment (some kept)).registry.catalog = none := hfresh
  have h' : ¬ (s.under environment (some kept)).registry.config.hasSource = true := h
  refine load_of_fault hfresh' ?_
  rw [sourceText_configured h']
  unfold settledText
  rw [bind_run (settings_kept s environment kept), hpath]
  rfl

/-!
## Where the settings do not matter
-/

/--
Look-ups of tokens do not depend on the settings. Loading depends on them only if the
registry is not loaded, no source is given and none is configured. The question for the
closest color depends on them only without a threshold, and the question for a value only
if it also is a color literal that is looked up among the colors.
-/
theorem ignoresSettings_iff (s : Session) :
    (∀ question, IgnoresSettings (Event.act (.question question)) s) ∧
      (∀ source, IgnoresSettings (load source) s ↔
        s.registry.catalog ≠ none ∨ source ≠ .configured ∨ s.registry.config.hasSource = true) ∧
      (s.registry.catalog ≠ none →
        (∀ value options, IgnoresSettings (closestColor value options) s ↔
          options.threshold ≠ none) ∧
        ∀ value category options, IgnoresSettings (bestMatch value category options) s ↔
          options.threshold ≠ none ∨ Color.isLiteral value = false ∨
            LeavesColorsOut category options) := by
  refine ⟨fun question => (leavesSettings_question question s).ignoresSettings, ?_, ?_⟩
  · intro source
    refine ⟨?_, fun h => (leavesSettings_load h).ignoresSettings⟩
    contrapose!
    rintro ⟨hfresh, rfl, hsource⟩
    refine not_ignoresSettings ⟨none, .standard⟩ (load_invalid hfresh hsource) ?_
    intro s₁
    rw [load_kept hfresh hsource _ _ rfl]
    nofun
  · intro hloaded
    rcases Option.ne_none_iff_exists'.mp hloaded with ⟨c, hc⟩
    constructor
    · intro value options
      refine ⟨?_, fun h => (leavesSettings_closestColor value h s).ignoresSettings⟩
      contrapose!
      intro ht
      exact not_ignoresSettings _ (closestColor_invalid hc ht)
        (closestColor_kept hc ht _ ⟨none, .standard⟩ _)
    · intro value category options
      refine ⟨?_, fun h => (leavesSettings_bestMatch h s).ignoresSettings⟩
      contrapose!
      rintro ⟨ht, hliteral, hcolor⟩
      rw [ne_eq, Bool.not_eq_false] at hliteral
      rw [leavesColorsOut_iff, not_not] at hcolor
      exact not_ignoresSettings _ (bestMatch_invalid hc ht hliteral hcolor)
        (bestMatch_kept hc ht hliteral hcolor _ ⟨none, .standard⟩ _)

theorem ignoresSettings_iff_redSheet :
    ∃ s, s = Session.opened redSheet ∧ s.registry.catalog ≠ none ∧
      IgnoresSettings (bestMatch "4px".toList none .standard) s ∧
      IgnoresSettings (bestMatch "#F00".toList none ⟨none, some [.spacing], false⟩) s ∧
      IgnoresSettings (closestColor "#F00".toList ⟨some .standard, none, false⟩) s ∧
      ¬ IgnoresSettings (bestMatch "#F00".toList none .standard) s := by
  have hloaded : (Session.opened redSheet).registry.catalog ≠ none := by
    rw [Session.catalog_opened (show redSheet ≠ [] by decide)]
    exact Option.some_ne_none _
  rcases (ignoresSettings_iff (Session.opened redSheet)).2.2 hloaded with ⟨hclosest, hbest⟩
  refine ⟨_, rfl, hloaded, ?_, ?_, ?_, ?_⟩
  · exact (hbest _ _ _).mpr (.inr (.inl (by decide +kernel)))
  · exact (hbest _ _ _).mpr (.inr (.inr (by decide)))
  · exact (hclosest _ _).mpr (Option.some_ne_none _)
  · rw [hbest]
    rintro (ht | hliteral | hcolor)
    · exact ht rfl
    · exact absurd hliteral (by decide +kernel)
    · exact absurd hcolor (by decide)

end Registry
end DesignTokens
