import DesignTokens.Finding.Finder
import DesignTokens.Registry.Basic

/-!
# Replacements

The style values of a component source together with the tokens that can
replace them. The source itself is not changed.
-/

namespace DesignTokens

structure Replacement where
  finding : Finding
  resolution : Option TokenMatch

namespace Replacement

def isResolved (r : Replacement) : Bool :=
  r.resolution.isSome

def confidence (r : Replacement) : Float :=
  match r.resolution with
  | some m => m.confidence
  | none => 0

def reference? (r : Replacement) : Option Text :=
  r.resolution.map fun m => "var(".toList ++ m.token.variableName ++ [')']

def findings (finders : List Finder) (source : Text) (options : ScanOptions) : List Finding :=
  Finding.ordered (finders.flatMap fun f => (f.scan source options).findings)

def ofFinding (options : QueryOptions) (f : Finding) : Action Replacement :=
  return ⟨f, ← Registry.bestMatch f.value (some f.category.name) options⟩

/-- The replacements in a source, and with `keep` also the findings for which there is no token. -/
def ofSource (finders : List Finder) (scanOptions : ScanOptions) (options : QueryOptions)
    (keep : Bool) (source : Text) : Action (List Replacement) := do
  let rs ← (findings finders source scanOptions).mapM (ofFinding options)
  return rs.filter fun r => keep || r.isResolved

end Replacement
end DesignTokens
