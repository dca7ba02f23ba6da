import DesignTokens.Registry.Config
import DesignTokens.Registry.Files
import DesignTokens.Registry.Settings
import DesignTokens.Token.Document
import DesignTokens.Token.Lookup

/-!
# The registry

A registry is configured first and loaded once. Only a loaded registry answers
questions, and it does not change any more. Loading that fails leaves it as it
was, apart from what was noticed while tokens were built.

The registry works in a session: with the files of a directory, an environment,
and settings, which are read from the environment when they are asked for and
kept once they have been read.
-/

namespace DesignTokens

/-- A registry: its catalog is there once it is loaded. -/
structure Registry where
  config : RegistryConfig
  diagnostics : List Diagnostic
  catalog : Option Catalog

structure Session where
  registry : Registry
  files : Files
  environment : Environment
  settings : Option Settings

inductive RegistryFault where
  | notLoaded
  | emptyText
  | noSource
  | unreadable (p : Path) (fault : FileFault)
  | unwritable (p : Path) (fault : FileFault)
  /-- a path holds the null character -/
  | nullInPath
  /-- the bytes of a stylesheet encode no text -/
  | undecodable
  | settings (faults : List FormFault)
  | arithmetic (fault : ArithmeticFault)
deriving DecidableEq, Repr

/--
What is told about a fault. Faults of settings and of encodings are told by their
kinds alone.
-/
def RegistryFault.message : RegistryFault → Text
  | .notLoaded => "TokenRegistry not initialized. Call initialize() first.".toList
  | .emptyText => "No CSS source provided. CSS content is empty.".toList
  | .noSource => "No CSS source provided. Specify css_path or css_content.".toList
  | .unreadable p fault =>
      "Failed to read CSS file ".toList ++ p.toText ++ ": ".toList ++ fault.message p
  | .unwritable p fault => "Failed to export tokens to JSON: ".toList ++ fault.message p
  | .nullInPath => "embedded null byte".toList
  | .undecodable => []
  | .settings _ => []
  | .arithmetic fault => fault.message.toList

/-- What is done in a session. A fault does not undo what was done before it. -/
abbrev Action (α : Type) := EStateM RegistryFault Session α

def Registry.configured (config : RegistryConfig) : Registry :=
  ⟨config, [], none⟩

def Session.start (config : RegistryConfig) (files : Files) (environment : Environment) :
    Session :=
  ⟨.configured config, files, environment, none⟩

namespace Registry

/-!
## Settings
-/

def settings : Action Settings := do
  let s ← get
  match s.settings with
  | some settings => return settings
  | none =>
      match Settings.ofEnvironment s.environment with
      | .error faults => throw (.settings faults)
      | .ok settings =>
          set { s with settings := some settings }
          return settings

/--
Changes the environment. Settings that were read before stay, unless they are to be
forgotten.
-/
def changeEnvironment (environment : Environment) (forget : Bool) : Action Unit :=
  modify fun s =>
    { s with
      environment := environment
      settings := if forget then none else s.settings }

/-!
## Loading
-/

inductive Source where
  /-- what the configuration says, or else what the settings say -/
  | configured
  | text (css : Text)
  | file (p : Path)

def fileText (p : Path) : Action Text := do
  if p.hasNull then throw .nullInPath
  match (← get).files.read p with
  | .error fault => throw (.unreadable p fault)
  | .ok bytes =>
      match Files.text? bytes with
      | some t => return t
      | none => throw .undecodable

def settledText : Action Text := do
  match (← settings).cssPath with
  | some p => fileText p
  | none => throw .noSource

def sourceText : Source → Action Text
  | .text [] => throw .emptyText
  | .text css => return css
  | .file p => fileText p
  | .configured => do
      let config := (← get).registry.config
      match config.path, config.content with
      | some p, _ => fileText p
      | none, some (c :: css) => return c :: css
      | none, _ => settledText

def build (css : Text) : Action Unit := do
  let s ← get
  let built := Catalog.build s.registry.config.normalize css
  let registry :=
    { s.registry with diagnostics := s.registry.diagnostics ++ built.diagnostics }
  match built.catalog with
  | .ok catalog => set { s with registry := { registry with catalog := some catalog } }
  | .error fault =>
      set { s with registry := registry }
      throw (.arithmetic fault)

/-- Loads the registry, unless it is loaded already. -/
def load (source : Source) : Action Unit := do
  match (← get).registry.catalog with
  | some _ => return ()
  | none =>
      let css ← sourceText source
      build css

/-!
## Questions
-/

def isLoaded : Action Bool :=
  return (← get).registry.catalog.isSome

def diagnosed : Action (List Diagnostic) :=
  return (← get).registry.diagnostics

def loaded : Action Catalog := do
  match (← get).registry.catalog with
  | some catalog => return catalog
  | none => throw .notLoaded

def threshold (options : QueryOptions) : Action Threshold := do
  match options.threshold with
  | some t => return t
  | none => return (← settings).colorThreshold

def closestColor (value : Text) (options : QueryOptions) : Action (Option TokenMatch) := do
  let catalog ← loaded
  let t ← threshold options
  match catalog.closestColor? value t.value options.exact with
  | .ok found => return found
  | .error fault => throw (.arithmetic fault)

/-- The token of a category for a value. Only a color literal is looked up among the colors. -/
def matchIn (value : Text) (options : QueryOptions) (category : Category) :
    Action (Option TokenMatch) := do
  if category = .color then
    if Color.isLiteral value then closestColor value options else return none
  else return (← loaded).sameText? category value

def firstMatch (value : Text) (options : QueryOptions) :
    List Category → Action (Option TokenMatch)
  | [] => return none
  | category :: rest => do
      match ← matchIn value options category with
      | some m => return some m
      | none => firstMatch value options rest

def searchOrder : List Category :=
  [.color, .spacing, .borderRadius, .shadow]

def searched (category : Option Text) (options : QueryOptions) : List Category :=
  match category with
  | some name => (Category.ofName? name).toList
  | none =>
      match options.categories with
      | some allowed => searchOrder.filter (· ∈ allowed)
      | none => searchOrder

def bestMatch (value : Text) (category : Option Text) (options : QueryOptions) :
    Action (Option TokenMatch) := do
  let _ ← loaded
  firstMatch value options (searched category options)

/-!
## Export
-/

/-- Writes all tokens to a file, and returns the text that was written. -/
def exportTo (p : Path) : Action Text := do
  let catalog ← loaded
  if p.hasNull then throw .nullInPath
  let text := Token.exported catalog.all
  let s ← get
  match s.files.write p (String.ofList text).toUTF8 with
  | .error fault => throw (.unwritable p fault)
  | .ok files =>
      set { s with files := files }
      return text

end Registry
end DesignTokens
