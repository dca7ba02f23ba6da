import DesignTokens.Options.Query
import DesignTokens.Registry.Path

/-!
# Settings

Settings come from the variables of an environment and hold where nothing else
is said. A file with settings is part of the environment here: a variable that
is not set has the value that the file gives it.
-/

namespace DesignTokens

/--
The variables of an environment, as far as they are set, merged with those of a file
with settings. Where both have a variable, the environment goes first.
-/
structure Environment where
  cssPath : Option Text
  colorThreshold : Option Text
deriving DecidableEq, Repr

structure Settings where
  cssPath : Option Path
  colorThreshold : Threshold

def Threshold.standard : Threshold where
  value := 0.85
  nonneg := by decide +kernel
  le_one := by decide +kernel

def Settings.ofEnvironment (e : Environment) : Checked Settings :=
  let threshold : Checked Threshold :=
    match e.colorThreshold with
    | none => .ok .standard
    | some t => Form.readAt "color_threshold".toList Threshold.reader (.text t)
  threshold.map fun t => ⟨e.cssPath.map Path.ofText, t⟩

end DesignTokens
