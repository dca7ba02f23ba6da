import DesignTokens.Options.Form
import DesignTokens.Registry.Path

/-!
# Configuration of a registry

Where the stylesheet comes from, and whether tokens keep all forms of colors.
-/

namespace DesignTokens

structure RegistryConfig where
  path : Option Path
  content : Option Text
  normalize : Bool
deriving DecidableEq, Repr

namespace RegistryConfig

def hasSource (c : RegistryConfig) : Bool :=
  c.path.isSome || c.content.any fun t => t ≠ []

def path? : ValueReader Path
  | .text t => .ok (.ofText t)
  | _ => .error .notPath

def fieldNames : List Text :=
  ["css_path".toList, "css_content".toList, "normalize_colors".toList]

def ofForm? (form : Json) : Checked RegistryConfig :=
  let path := Form.withDefault "css_path".toList none (ValueReader.nullable path?) form
  let content :=
    Form.withDefault "css_content".toList none (ValueReader.nullable ValueReader.text) form
  let normalize := Form.withDefault "normalize_colors".toList true ValueReader.truthValue form
  Form.closed fieldNames form
    ((path.both (content.both normalize)).map fun c => ⟨c.1, c.2.1, c.2.2⟩)

end RegistryConfig
end DesignTokens
