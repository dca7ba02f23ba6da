import DesignTokens.Proofs.Token.Catalog
import DesignTokens.Registry.Basic

/-!
# Runs of a session

A session is a run of steps: the registry is loaded and questioned, and the files
and the environment change. Only loading changes the registry, and only a registry
without a catalog. So the catalog and the remarks of a registry always come from
one stylesheet.
-/

namespace DesignTokens

def sessionOf {α : Type} : EStateM.Result RegistryFault Session α → Session
  | .ok _ s => s
  | .error _ s => s

def Action.next {α : Type} (a : Action α) (s : Session) : Session :=
  sessionOf (a s)

/-- Whether an action leaves the registry as it was, also where it fails. -/
def Action.KeepsRegistry {α : Type} (a : Action α) : Prop :=
  ∀ s, (Action.next a s).registry = s.registry

/-- Whether an action changes nothing but the settings that are kept, also where it fails. -/
def Action.ReadsOnly {α : Type} (a : Action α) : Prop :=
  ∀ s, ∃ kept, Action.next a s = { s with settings := kept }

theorem Action.get_bind_run {α : Type} (f : Session → Action α) (s : Session) :
    (MonadState.get >>= f) s = f s s :=
  rfl

theorem Action.bind_error {α β : Type} {a : Action α} {s s' : Session} {fault : RegistryFault}
    (f : α → Action β) (h : a s = .error fault s') : (a >>= f) s = .error fault s' := by
  change EStateM.bind a f s = .error fault s'
  unfold EStateM.bind
  rw [h]

theorem Action.KeepsRegistry.bind {α β : Type} {a : Action α} {f : α → Action β}
    (ha : KeepsRegistry a) (hf : ∀ x, KeepsRegistry (f x)) : KeepsRegistry (a >>= f) := by
  intro s
  have hs := ha s
  unfold Action.next at *
  change (sessionOf (EStateM.bind a f s)).registry = s.registry
  unfold EStateM.bind
  cases hr : a s with
  | ok x s' =>
      rw [hr] at hs
      exact (hf x s').trans hs
  | error fault s' =>
      rw [hr] at hs
      exact hs

namespace Action.ReadsOnly

variable {α β : Type}

theorem pure (x : α) : ReadsOnly (Pure.pure x : Action α) :=
  fun s => ⟨s.settings, rfl⟩

theorem throw (fault : RegistryFault) : ReadsOnly (MonadExcept.throw fault : Action α) :=
  fun s => ⟨s.settings, rfl⟩

theorem get : ReadsOnly (MonadState.get : Action Session) :=
  fun s => ⟨s.settings, rfl⟩

theorem bind {a : Action α} {f : α → Action β} (ha : ReadsOnly a) (hf : ∀ x, ReadsOnly (f x)) :
    ReadsOnly (a >>= f) := by
  intro s
  rcases ha s with ⟨kept, hs⟩
  unfold Action.next at hs ⊢
  change ∃ kept, sessionOf (EStateM.bind a f s) = { s with settings := kept }
  unfold EStateM.bind
  cases hr : a s with
  | ok x s' =>
      rw [hr] at hs
      rcases hf x s' with ⟨kept', hs'⟩
      refine ⟨kept', hs'.trans ?_⟩
      change s' = { s with settings := kept } at hs
      rw [hs]
  | error fault s' =>
      rw [hr] at hs
      exact ⟨kept, hs⟩

theorem keepsRegistry {a : Action α} (ha : ReadsOnly a) : KeepsRegistry a := by
  intro s
  rcases ha s with ⟨kept, hs⟩
  rw [hs]

end Action.ReadsOnly

namespace Registry

open DesignTokens.Action

/-!
## What keeps the registry
-/

theorem settings_run (s : Session) :
    settings s =
      match s.settings with
      | some kept => .ok kept s
      | none =>
          match Settings.ofEnvironment s.environment with
          | .error faults => .error (.settings faults) s
          | .ok read => .ok read { s with settings := some read } := by
  rcases s with ⟨registry, files, environment, kept⟩
  cases kept with
  | some kept => rfl
  | none =>
      rw [settings, get_bind_run]
      cases Settings.ofEnvironment environment <;> rfl

theorem readsOnly_settings : ReadsOnly settings := by
  intro s
  unfold Action.next
  rw [settings_run]
  split
  · exact ⟨s.settings, rfl⟩
  · split
    · exact ⟨s.settings, rfl⟩
    · exact ⟨_, rfl⟩

theorem readsOnly_loaded : ReadsOnly loaded := by
  unfold loaded
  apply ReadsOnly.bind ReadsOnly.get
  intro s
  split
  · exact ReadsOnly.pure _
  · exact ReadsOnly.throw _

theorem readsOnly_threshold (options : QueryOptions) : ReadsOnly (threshold options) := by
  unfold threshold
  split
  · exact ReadsOnly.pure _
  · exact ReadsOnly.bind readsOnly_settings fun _ => ReadsOnly.pure _

theorem readsOnly_closestColor (value : Text) (options : QueryOptions) :
    ReadsOnly (closestColor value options) := by
  apply ReadsOnly.bind readsOnly_loaded
  intro catalog
  apply ReadsOnly.bind (readsOnly_threshold options)
  intro t
  split
  · exact ReadsOnly.pure _
  · exact ReadsOnly.throw _

theorem readsOnly_matchIn (value : Text) (options : QueryOptions) (category : Category) :
    ReadsOnly (matchIn value options category) := by
  unfold matchIn
  split
  · split
    · exact readsOnly_closestColor value options
    · exact ReadsOnly.pure _
  · exact ReadsOnly.bind readsOnly_loaded fun _ => ReadsOnly.pure _

theorem readsOnly_firstMatch (value : Text) (options : QueryOptions)
    (categories : List Category) : ReadsOnly (firstMatch value options categories) := by
  induction categories with
  | nil => exact ReadsOnly.pure _
  | cons category rest ih =>
      apply ReadsOnly.bind (readsOnly_matchIn value options category)
      intro found
      split
      · exact ReadsOnly.pure _
      · exact ih

theorem readsOnly_bestMatch (value : Text) (category : Option Text) (options : QueryOptions) :
    ReadsOnly (bestMatch value category options) :=
  ReadsOnly.bind readsOnly_loaded fun _ => readsOnly_firstMatch value options _

theorem readsOnly_fileText (p : Path) : ReadsOnly (fileText p) := by
  unfold fileText
  split
  · exact fun s => ⟨s.settings, rfl⟩
  · apply ReadsOnly.bind ReadsOnly.get
    intro s
    split
    · exact ReadsOnly.throw _
    · split
      · exact ReadsOnly.pure _
      · exact ReadsOnly.throw _

theorem readsOnly_settledText : ReadsOnly settledText := by
  apply ReadsOnly.bind readsOnly_settings
  intro settings
  split
  · exact readsOnly_fileText _
  · exact ReadsOnly.throw _

theorem readsOnly_sourceText (source : Source) : ReadsOnly (sourceText source) := by
  cases source with
  | configured =>
      apply ReadsOnly.bind ReadsOnly.get
      intro s
      dsimp only
      split
      · exact readsOnly_fileText _
      · exact ReadsOnly.pure _
      · exact readsOnly_settledText
  | text css =>
      cases css with
      | nil => exact ReadsOnly.throw _
      | cons c css => exact ReadsOnly.pure _
  | file p => exact readsOnly_fileText p

theorem keepsRegistry_exportTo (p : Path) : KeepsRegistry (exportTo p) := by
  apply KeepsRegistry.bind readsOnly_loaded.keepsRegistry
  intro catalog
  split
  · exact fun _ => rfl
  · intro s
    simp only [Action.next, get_bind_run]
    cases s.files.write p (String.ofList (Token.exported catalog.all)).toUTF8 <;> rfl

theorem keepsRegistry_changeEnvironment (environment : Environment) (forget : Bool) :
    KeepsRegistry (changeEnvironment environment forget) :=
  fun _ => rfl

/-!
## Loading
-/

def loadedWith (r : Registry) (css : Text) : Registry where
  config := r.config
  diagnostics :=
    r.diagnostics ++ (Stylesheet.properties css).filterMap Catalog.noticed?
  catalog := some (Catalog.ofTable r.config.normalize (Stylesheet.properties css))

theorem build_run (css : Text) (s : Session) :
    build css s = .ok () { s with registry := s.registry.loadedWith css } := by
  rw [build, get_bind_run, Catalog.build_eq]
  rfl

/-- Whether a registry is as it was in the beginning, or as one stylesheet has made it. -/
def IsBuilt (r : Registry) : Prop :=
  r = .configured r.config ∨ ∃ css, r = loadedWith (.configured r.config) css

theorem load_run (source : Source) (s : Session) :
    load source s =
      match s.registry.catalog with
      | some _ => .ok () s
      | none => (sourceText source >>= build) s := by
  rw [load, get_bind_run]
  cases s.registry.catalog <;> rfl

theorem load_of_sourceText {s s₁ : Session} {source : Source} {css : Text}
    (hfresh : s.registry.catalog = none) (hsource : sourceText source s = .ok css s₁) :
    load source s = .ok () { s₁ with registry := s.registry.loadedWith css } := by
  have hkeeps := (readsOnly_sourceText source).keepsRegistry s
  unfold Action.next at hkeeps
  rw [hsource] at hkeeps
  rw [load_run, hfresh]
  change EStateM.bind (sourceText source) build s = _
  unfold EStateM.bind
  rw [hsource]
  change build css s₁ = _
  rw [build_run, ← hkeeps]
  rfl

theorem load_of_loaded {s : Session} {c : Catalog} (source : Source)
    (hc : s.registry.catalog = some c) : load source s = .ok () s := by
  rw [load_run, hc]

theorem load_of_fault {s s₁ : Session} {source : Source} {fault : RegistryFault}
    (hfresh : s.registry.catalog = none) (hsource : sourceText source s = .error fault s₁) :
    load source s = .error fault s₁ := by
  rw [load_run, hfresh]
  exact bind_error build hsource

theorem isBuilt_load {s : Session} (source : Source) (h : s.registry.IsBuilt) :
    (Action.next (load source) s).registry.IsBuilt := by
  unfold Action.next
  cases hc : s.registry.catalog with
  | some catalog =>
      rw [load_of_loaded source hc]
      exact h
  | none =>
      have hfirst : s.registry = .configured s.registry.config := by
        rcases h with h | ⟨css, h⟩
        · exact h
        · rw [h] at hc
          cases hc
      cases hs : sourceText source s with
      | ok css s₁ =>
          rw [load_of_sourceText hc hs]
          refine .inr ⟨css, ?_⟩
          change s.registry.loadedWith css = (configured s.registry.config).loadedWith css
          rw [← hfirst]
      | error fault s₁ =>
          have hkeeps := (readsOnly_sourceText source).keepsRegistry s
          unfold Action.next at hkeeps
          rw [hs] at hkeeps
          rw [load_of_fault hc hs]
          exact hkeeps ▸ h

end Registry

/-!
## Runs

By induction over the steps: the registry of a session is the one of the beginning, or one
stylesheet has made it.
-/

inductive Step where
  | load (source : Registry.Source)
  | closestColor (value : Text) (options : QueryOptions)
  | bestMatch (value : Text) (category : Option Text) (options : QueryOptions)
  | exportTo (p : Path)
  | changeEnvironment (environment : Environment) (forget : Bool)
  | changeFiles (files : Files)

namespace Session

def after (s : Session) : Step → Session
  | .load source => Action.next (Registry.load source) s
  | .closestColor value options => Action.next (Registry.closestColor value options) s
  | .bestMatch value category options =>
      Action.next (Registry.bestMatch value category options) s
  | .exportTo p => Action.next (Registry.exportTo p) s
  | .changeEnvironment environment forget =>
      Action.next (Registry.changeEnvironment environment forget) s
  | .changeFiles files => { s with files := files }

def afterAll (s : Session) (steps : List Step) : Session :=
  steps.foldl after s

/-- No step but loading changes the registry. -/
theorem after_cases (s : Session) (step : Step) :
    (∃ source, step = .load source) ∨ (s.after step).registry = s.registry := by
  cases step with
  | load source => exact .inl ⟨source, rfl⟩
  | closestColor value options =>
      exact .inr ((Registry.readsOnly_closestColor value options).keepsRegistry s)
  | bestMatch value category options =>
      exact .inr ((Registry.readsOnly_bestMatch value category options).keepsRegistry s)
  | exportTo p => exact .inr (Registry.keepsRegistry_exportTo p s)
  | changeEnvironment environment forget =>
      exact .inr (Registry.keepsRegistry_changeEnvironment environment forget s)
  | changeFiles files => exact .inr rfl

theorem isBuilt_after {s : Session} (step : Step) (h : s.registry.IsBuilt) :
    (s.after step).registry.IsBuilt := by
  rcases after_cases s step with ⟨source, rfl⟩ | hkeeps
  · exact Registry.isBuilt_load source h
  · rw [hkeeps]
    exact h

theorem isBuilt_afterAll {s : Session} (steps : List Step) (h : s.registry.IsBuilt) :
    (s.afterAll steps).registry.IsBuilt := by
  induction steps generalizing s with
  | nil => exact h
  | cons step steps ih => exact ih (isBuilt_after step h)

theorem isBuilt_start (config : RegistryConfig) (files : Files) (environment : Environment) :
    (start config files environment).registry.IsBuilt :=
  .inl rfl

/-- Once it is loaded, a registry does not change any more. -/
theorem registry_after {s : Session} {c : Catalog} (hc : s.registry.catalog = some c)
    (step : Step) : (s.after step).registry = s.registry := by
  rcases after_cases s step with ⟨source, rfl⟩ | hkeeps
  · change (sessionOf (Registry.load source s)).registry = s.registry
    rw [Registry.load_of_loaded source hc]
    rfl
  · exact hkeeps

theorem registry_afterAll {s : Session} {c : Catalog} (hc : s.registry.catalog = some c)
    (steps : List Step) : (s.afterAll steps).registry = s.registry := by
  induction steps generalizing s with
  | nil => rfl
  | cons step steps ih =>
      have hstep := registry_after hc step
      exact (ih (hstep ▸ hc)).trans hstep

/-- A session that is reached by steps from the beginning. -/
def IsReached (s : Session) : Prop :=
  ∃ (config : RegistryConfig) (files : Files) (environment : Environment) (steps : List Step),
    s = (start config files environment).afterAll steps

theorem IsReached.isBuilt {s : Session} (h : s.IsReached) : s.registry.IsBuilt := by
  rcases h with ⟨config, files, environment, steps, rfl⟩
  exact isBuilt_afterAll steps (isBuilt_start config files environment)

end Session
end DesignTokens
