import DesignTokens.Proofs.Registry.Session

/-!
# The life of a registry

In a session everything may happen in any order: the registry is loaded and asked, its
tokens are exported, files and variables of the environment change. Up to the first
loading that succeeds the registry is as it was configured and answers nothing. From
then on it is what one stylesheet has made of it.
-/

namespace DesignTokens

namespace Action

variable {α β : Type}

theorem map_run (f : α → β) (a : Action α) (s : Session) :
    (f <$> a) s =
      match a s with
      | .ok x s' => .ok (f x) s'
      | .error fault s' => .error fault s' := by
  change EStateM.map f a s = _
  unfold EStateM.map
  cases a s <;> rfl

theorem next_map (f : α → β) (a : Action α) (s : Session) : (f <$> a).next s = a.next s := by
  unfold next
  rw [map_run]
  cases a s <;> rfl

end Action

namespace Registry

/-!
## What is done in a session
-/

inductive Question where
  | properties
  | tokens
  | tokensOf (category : Text)
  | counts
  | tokenNamed (name : Text)
  | tokenOfVariable (name : Text)

inductive Answer where
  | nothing
  | truth (b : Bool)
  | text (t : Text)
  | remarks (diagnostics : List Diagnostic)
  | settings (settings : Settings)
  | properties (properties : Table Text)
  | tokens (tokens : List Token)
  | counts (counts : List (Category × Nat))
  | token (token : Option Token)
  | found (found : Option TokenMatch)

def Question.answer (c : Catalog) : Question → Answer
  | .properties => .properties c.properties
  | .tokens => .tokens c.all
  | .tokensOf category => .tokens (c.ofCategoryNamed category)
  | .counts => .counts (Category.all.map fun category => (category, (c.ofCategory category).length))
  | .tokenNamed name => .token (c.find? name)
  | .tokenOfVariable name => .token (c.findVariable? name)

/-- What happens in a session: a step, or something else that the registry is asked for. -/
inductive Event where
  | step (step : Step)
  | question (question : Question)
  | isLoaded
  | diagnosed
  | settings

namespace Event

def act : Event → Action Answer
  | .step (.load source) => (fun _ => .nothing) <$> load source
  | .step (.closestColor value options) => .found <$> closestColor value options
  | .step (.bestMatch value category options) => .found <$> bestMatch value category options
  | .step (.exportTo p) => .text <$> exportTo p
  | .step (.changeEnvironment environment forget) =>
      (fun _ => .nothing) <$> changeEnvironment environment forget
  | .step (.changeFiles files) => (fun _ => .nothing) <$> modify fun s => { s with files := files }
  | .question q => q.answer <$> loaded
  | .isLoaded => .truth <$> Registry.isLoaded
  | .diagnosed => .remarks <$> Registry.diagnosed
  | .settings => .settings <$> Registry.settings

def asks : Event → Bool
  | .step (.closestColor _ _) => true
  | .step (.bestMatch _ _ _) => true
  | .step (.exportTo _) => true
  | .question _ => true
  | _ => false

def loadsAt (s : Session) : Event → Bool
  | .step (.load source) =>
      match load source s with
      | .ok _ _ => true
      | .error _ _ => false
  | _ => false

/-- The files behind an event that writes none. -/
def givenFiles (files : Files) : Event → Files
  | .step (.changeFiles given) => given
  | _ => files

theorem next_step (step : Step) (s : Session) : (act (.step step)).next s = s.after step := by
  cases step <;> exact Action.next_map _ _ s

theorem act_of_asks {s s' : Session} {event : Event} {fault : RegistryFault}
    (hasks : event.asks = true) (hloaded : loaded s = .error fault s') :
    event.act s = .error fault s' := by
  have hmap {α : Type} (f : α → Answer) (g : Catalog → Action α) :
      (f <$> (loaded >>= g)) s = .error fault s' := by
    rw [Action.map_run, Action.bind_error g hloaded]
  cases event with
  | step step =>
      cases step with
      | closestColor value options => exact hmap _ _
      | bestMatch value category options => exact hmap _ _
      | exportTo p => exact hmap _ _
      | load source => cases hasks
      | changeEnvironment environment forget => cases hasks
      | changeFiles files => cases hasks
  | question q =>
      change (q.answer <$> loaded) s = _
      rw [Action.map_run, hloaded]
  | isLoaded => cases hasks
  | diagnosed => cases hasks
  | settings => cases hasks

end Event
end Registry

namespace Session

open Registry

def afterEvent (s : Session) (event : Event) : Session :=
  event.act.next s

def afterEvents (s : Session) (events : List Event) : Session :=
  events.foldl afterEvent s

def loadsIn (s : Session) : List Event → Bool
  | [] => false
  | event :: events => event.loadsAt s || loadsIn (s.afterEvent event) events

theorem afterEvent_load (s : Session) (source : Source) :
    s.afterEvent (.step (.load source)) = sessionOf (load source s) :=
  Event.next_step (.load source) s

end Session

namespace Registry

/-!
## Before and after loading
-/

/--
A session whose registry is as it was configured. It answers nothing. Loading fails just
where the stylesheet cannot be read, and then changes at most the settings that are kept;
otherwise it makes of the registry what the stylesheet makes of a new one.
-/
structure Waits (config : RegistryConfig) (s : Session) : Prop where
  registry : s.registry = .configured config
  refuses : ∀ event : Event, event.asks = true → event.act s = .error .notLoaded s
  fails :
    ∀ {source fault s'}, load source s = .error fault s' →
      sourceText source s = .error fault s' ∧ ∃ kept, s' = { s with settings := kept }
  takes :
    ∀ {source s'}, load source s = .ok () s' →
      ∃ css kept, sourceText source s = .ok css { s with settings := kept } ∧
        s' = { s with registry := (configured config).loadedWith css, settings := kept }

/--
A session whose registry one stylesheet has made. Nothing changes the registry any more,
and loading succeeds without a look at files, environment or settings.
-/
structure Settled (config : RegistryConfig) (s : Session) : Prop where
  registry : ∃ css, s.registry = (configured config).loadedWith css
  keeps : ∀ events, (s.afterEvents events).registry = s.registry
  loads :
    ∀ (events : List Event) (source : Source),
      load source (s.afterEvents events) = .ok () (s.afterEvents events)

variable {config : RegistryConfig} {s : Session} {css : Text}

theorem loaded_of_fresh (hfresh : s.registry.catalog = none) :
    loaded s = .error .notLoaded s := by
  rw [loaded, Action.get_bind_run, hfresh]
  rfl

/--
Loading fails with the fault of reading the stylesheet, or else the registry takes the
stylesheet up. What is read may settle the settings.
-/
theorem load_cases (hfresh : s.registry.catalog = none) (source : Source) :
    (∃ fault kept,
      sourceText source s = .error fault { s with settings := kept } ∧
        load source s = .error fault { s with settings := kept }) ∨
      ∃ css kept,
        sourceText source s = .ok css { s with settings := kept } ∧
          load source s =
            .ok () { s with registry := s.registry.loadedWith css, settings := kept } := by
  rcases readsOnly_sourceText source s with ⟨kept, hkept⟩
  unfold Action.next at hkept
  cases hsource : sourceText source s with
  | ok css s₁ =>
      rw [hsource] at hkept
      change s₁ = _ at hkept
      subst hkept
      exact .inr ⟨css, kept, rfl, load_of_sourceText hfresh hsource⟩
  | error fault s₁ =>
      rw [hsource] at hkept
      change s₁ = _ at hkept
      subst hkept
      exact .inl ⟨fault, kept, rfl, load_of_fault hfresh hsource⟩

theorem waits_of_registry (h : s.registry = .configured config) : Waits config s := by
  have hfresh : s.registry.catalog = none := by
    rw [h]
    rfl
  constructor
  · exact h
  · intro event hasks
    exact event.act_of_asks hasks (loaded_of_fresh hfresh)
  · intro source fault s' hload
    rcases load_cases hfresh source with ⟨fault', kept, hsource, hrun⟩ | ⟨css, kept, -, hrun⟩
    · rw [hrun] at hload
      cases hload
      exact ⟨hsource, kept, rfl⟩
    · rw [hrun] at hload
      cases hload
  · intro source s' hload
    rcases load_cases hfresh source with ⟨fault, kept, -, hrun⟩ | ⟨css, kept, hsource, hrun⟩
    · rw [hrun] at hload
      cases hload
    · rw [hrun, h] at hload
      cases hload
      exact ⟨css, kept, hsource, rfl⟩

/-!
## One event
-/

theorem loadsAt_iff {event : Event} :
    event.loadsAt s = true ↔
      ∃ source s', event = .step (.load source) ∧ load source s = .ok () s' := by
  constructor
  · intro h
    unfold Event.loadsAt at h
    split at h
    · split at h
      · exact ⟨_, _, rfl, ‹_›⟩
      · cases h
    · cases h
  · rintro ⟨source, s', rfl, hload⟩
    change (match load source s with | .ok _ _ => true | .error _ _ => false) = true
    rw [hload]

theorem keepsRegistry_of_asks {event : Event} (h : event.asks = true) :
    Action.KeepsRegistry event.act := by
  intro s
  cases event with
  | step step =>
      rw [Event.next_step]
      rcases Session.after_cases s step with ⟨source, rfl⟩ | hkeeps
      · cases h
      · exact hkeeps
  | question q =>
      unfold Event.act
      rw [Action.next_map]
      exact readsOnly_loaded.keepsRegistry s
  | isLoaded => cases h
  | diagnosed => cases h
  | settings => cases h

theorem afterEvent_of_not_asks {event : Event} (h : event.asks = false) (s : Session) :
    (∃ source, event = .step (.load source)) ∨
      (s.afterEvent event).registry = s.registry ∧
        (s.afterEvent event).files = event.givenFiles s.files := by
  cases event with
  | step step =>
      cases step with
      | load source => exact .inl ⟨source, rfl⟩
      | changeEnvironment environment forget => exact .inr ⟨rfl, rfl⟩
      | changeFiles files => exact .inr ⟨rfl, rfl⟩
      | closestColor value options => cases h
      | bestMatch value category options => cases h
      | exportTo p => cases h
  | question q => cases h
  | isLoaded => exact .inr ⟨rfl, rfl⟩
  | diagnosed => exact .inr ⟨rfl, rfl⟩
  | settings =>
      rcases readsOnly_settings s with ⟨kept, hkept⟩
      unfold Session.afterEvent Event.act
      rw [Action.next_map, hkept]
      exact .inr ⟨rfl, rfl⟩

theorem givenFiles_of_asks {event : Event} (h : event.asks = true) (files : Files) :
    event.givenFiles files = files := by
  unfold Event.givenFiles
  split
  · cases h
  · rfl

theorem afterEvent_of_waits {event : Event} (hs : Waits config s)
    (hnot : event.loadsAt s = false) :
    (s.afterEvent event).registry = .configured config ∧
      (s.afterEvent event).files = event.givenFiles s.files := by
  cases hasks : event.asks with
  | true =>
      unfold Session.afterEvent Action.next
      rw [hs.refuses event hasks, givenFiles_of_asks hasks]
      exact ⟨hs.registry, rfl⟩
  | false =>
      rcases afterEvent_of_not_asks hasks s with ⟨source, rfl⟩ | ⟨hregistry, hfiles⟩
      · rw [Session.afterEvent_load]
        cases hload : load source s with
        | ok u s' =>
            have hloads := loadsAt_iff.mpr ⟨source, s', rfl, hload⟩
            exact absurd hloads (Bool.eq_false_iff.mp hnot)
        | error fault s' =>
            rcases (hs.fails hload).2 with ⟨kept, rfl⟩
            exact ⟨hs.registry, rfl⟩
      · exact ⟨hregistry.trans hs.registry, hfiles⟩

theorem afterEvent_of_loadsAt {event : Event} (hs : Waits config s)
    (hloads : event.loadsAt s = true) :
    ∃ css, (s.afterEvent event).registry = (configured config).loadedWith css := by
  rcases loadsAt_iff.mp hloads with ⟨source, s', rfl, hload⟩
  rcases hs.takes hload with ⟨css, kept, -, rfl⟩
  refine ⟨css, ?_⟩
  rw [Session.afterEvent_load, hload]
  rfl

theorem registry_afterEvent {c : Catalog} (hc : s.registry.catalog = some c) (event : Event) :
    (s.afterEvent event).registry = s.registry := by
  cases hasks : event.asks with
  | true => exact keepsRegistry_of_asks hasks s
  | false =>
      rcases afterEvent_of_not_asks hasks s with ⟨source, rfl⟩ | ⟨hregistry, -⟩
      · rw [Session.afterEvent_load, load_of_loaded source hc]
        rfl
      · exact hregistry

/-!
## Runs of events

By induction over the events: a session waits up to the first event that loads, and behind it
the session is settled.
-/

theorem registry_afterEvents {c : Catalog} (hc : s.registry.catalog = some c)
    (events : List Event) : (s.afterEvents events).registry = s.registry := by
  induction events generalizing s with
  | nil => rfl
  | cons event events ih =>
      have hstep := registry_afterEvent hc event
      exact (ih (hstep ▸ hc)).trans hstep

theorem settled_of_registry (h : s.registry = (configured config).loadedWith css) :
    Settled config s := by
  have hc : ((configured config).loadedWith css).catalog =
      some (Catalog.ofTable config.normalize (Stylesheet.properties css)) := rfl
  rw [← h] at hc
  constructor
  · exact ⟨css, h⟩
  · exact registry_afterEvents hc
  · intro events source
    exact load_of_loaded source ((registry_afterEvents hc events).symm ▸ hc)

/-- A run that begins with a waiting session waits until loading succeeds, and is settled then. -/
theorem afterEvents_of_waits (events : List Event) (hs : Waits config s) :
    (s.loadsIn events = false →
      Waits config (s.afterEvents events) ∧
        (s.afterEvents events).files = events.foldl Event.givenFiles s.files) ∧
      (s.loadsIn events = true → Settled config (s.afterEvents events)) := by
  induction events generalizing s with
  | nil =>
      constructor
      · intro _
        exact ⟨hs, rfl⟩
      · intro h
        cases h
  | cons event events ih =>
      unfold Session.loadsIn
      cases hloads : event.loadsAt s with
      | true =>
          -- the events behind the loading keep the registry as it is
          rcases afterEvent_of_loadsAt hs hloads with ⟨css, hcss⟩
          have hsettled := settled_of_registry hcss
          constructor
          · intro h
            cases h
          · intro _
            exact settled_of_registry ((hsettled.keeps events).trans hcss)
      | false =>
          rcases afterEvent_of_waits hs hloads with ⟨hregistry, hfiles⟩
          rcases ih (waits_of_registry hregistry) with ⟨hwaits, hsettled⟩
          constructor
          · intro hnot
            rcases hwaits hnot with ⟨hw, hf⟩
            refine ⟨hw, hf.trans ?_⟩
            rw [hfiles]
            rfl
          · exact hsettled

/--
As long as loading has not succeeded, a registry waits, and no file has been written. Once
it has succeeded, the registry is settled for good.
-/
theorem lifecycle (config : RegistryConfig) (files : Files) (environment : Environment)
    (events : List Event) :
    ((Session.start config files environment).loadsIn events = false →
      Waits config ((Session.start config files environment).afterEvents events) ∧
        ((Session.start config files environment).afterEvents events).files =
          events.foldl Event.givenFiles files) ∧
      ((Session.start config files environment).loadsIn events = true →
        Settled config ((Session.start config files environment).afterEvents events)) :=
  afterEvents_of_waits events (waits_of_registry rfl)

def earlyEvents : List Event :=
  [.step (.load (.text [])), .question .tokens, .step (.exportTo ⟨[], ["out".toList]⟩)]

def lateEvents : List Event :=
  [.step (.load (.text ":root\x7b--spacing-sm:4px\x7d".toList)),
    .step (.load (.file ⟨[], ["missing".toList]⟩))]

theorem lifecycle_earlyEvents :
    (Waits ⟨none, none, true⟩
        ((Session.start ⟨none, none, true⟩ [] ⟨none, none⟩).afterEvents earlyEvents) ∧
      ((Session.start ⟨none, none, true⟩ [] ⟨none, none⟩).afterEvents earlyEvents).files = []) ∧
      Settled ⟨none, none, true⟩
        ((Session.start ⟨none, none, true⟩ [] ⟨none, none⟩).afterEvents
          (earlyEvents ++ lateEvents)) :=
  ⟨(lifecycle ⟨none, none, true⟩ [] ⟨none, none⟩ earlyEvents).1 (by decide +kernel),
    (lifecycle ⟨none, none, true⟩ [] ⟨none, none⟩ (earlyEvents ++ lateEvents)).2
      (by decide +kernel)⟩

end Registry
end DesignTokens
