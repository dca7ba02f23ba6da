import DesignTokens.Options.Form
import DesignTokens.Pattern.Reader
import DesignTokens.Text.Quoted

/-!
# Options of scans

What a scan of a component source looks for, and how much of the surroundings
it reports.
-/

namespace DesignTokens

/-- A pattern together with the text that writes it. -/
structure CustomPattern where
  text : Text
  pattern : Pattern
deriving DecidableEq, Repr

/-- The options of a scan. A restriction to categories names at least one. -/
structure ScanOptions where
  types : Option (List Category)
  includeContext : Bool
  contextSize : Nat
  scopeLimit : Option (List Scope)
  customPatterns : List CustomPattern
  types_ne : types ≠ some []

namespace ScanOptions

/-- All categories and scopes, with a hundred characters of context and no patterns. -/
def standard : ScanOptions where
  types := none
  includeContext := true
  contextSize := 100
  scopeLimit := none
  customPatterns := []
  types_ne := by simp

def categories (o : ScanOptions) : List Category :=
  o.types.getD Category.all

def allows (o : ScanOptions) (s : Scope) : Bool :=
  match o.scopeLimit with
  | none => true
  | some scopes => s ∈ scopes

inductive SingleKind where
  | truthValue
  | integer
  | float
deriving DecidableEq, Repr

def SingleKind.name : SingleKind → Text
  | .truthValue => "bool".toList
  | .integer => "int".toList
  | .float => "float".toList

inductive Fault where
  /-- a text among the patterns writes no pattern -/
  | pattern
  /-- a single value stands for the list of patterns -/
  | single (kind : SingleKind)
  /-- fields have faults -/
  | form (faults : List FormFault)
deriving DecidableEq, Repr

def size : ValueReader Nat := fun j => do
  let n ← ValueReader.integer j
  if n < 0 then throw .tooSmall else return n.toNat

def customPattern : ValueReader CustomPattern
  | .text t =>
      match Pattern.ofText? t with
      | some p => .ok ⟨t, p⟩
      | none => .error .notPattern
  | _ => .error .notPattern

/-- What is told about a fault. Faults of patterns and of fields are told by their kinds alone. -/
def Fault.message : Fault → Text
  | .single kind => Text.quoted kind.name ++ " object is not iterable".toList
  | .pattern => []
  | .form _ => []

/-- The items that a list of patterns stands for: a text stands for its characters. -/
def patternItems : Json → Except SingleKind (List Json)
  | .null => .ok []
  | .array js => .ok js
  | .text t => .ok (t.map fun c => .text [c])
  | .object fs => .ok (fs.map fun f => .text f.1)
  | .bool _ => .error .truthValue
  | .number literal => .error (if Json.isFractional literal then .float else .integer)

def isBrokenPattern : Json → Bool
  | .text t => (Pattern.ofText? t).isNone
  | _ => false

def patternField (form : Json) : Except SingleKind (List Json) :=
  match form.field? "custom_patterns".toList with
  | none => .ok []
  | some j => patternItems j

def fieldNames : List Text :=
  ["types".toList, "include_context".toList, "context_size".toList, "scope_limit".toList,
   "custom_patterns".toList]

def fieldsOfForm (items : List Json) (form : Json) :
    Checked (Option (List Category) × Bool × Nat × Option (List Scope) × List CustomPattern) :=
  let types := Form.optionalList "types".toList (ValueReader.oneOf Category.ofName?) form
  let includeContext :=
    Form.withDefault "include_context".toList true ValueReader.truthValue form
  let contextSize := Form.withDefault "context_size".toList 100 size form
  let scopeLimit := Form.optionalList "scope_limit".toList (ValueReader.oneOf Scope.ofName?) form
  let patterns := Form.readItems "custom_patterns".toList customPattern 0 items
  Form.closed fieldNames form
    (types.both (includeContext.both (contextSize.both (scopeLimit.both patterns))))

/--
The options that a form gives. A broken pattern is reported before anything
else, an empty list of categories only if nothing else is wrong.
-/
def ofForm? (form : Json) : Except Fault ScanOptions :=
  match patternField form with
  | .error kind => .error (.single kind)
  | .ok items =>
      if items.any isBrokenPattern then .error .pattern
      else
        match fieldsOfForm items form with
        | .error faults => .error (.form faults)
        | .ok (types, includeContext, contextSize, scopeLimit, patterns) =>
            if h : types = some [] then .error (.form [⟨.noCategory, .form⟩])
            else
              .ok
                { types := types
                  includeContext := includeContext
                  contextSize := contextSize
                  scopeLimit := scopeLimit
                  customPatterns := patterns
                  types_ne := h }

end ScanOptions
end DesignTokens
