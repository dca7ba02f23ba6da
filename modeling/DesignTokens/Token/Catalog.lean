import DesignTokens.Color.Parse
import DesignTokens.Stylesheet.Declarations
import DesignTokens.Token.Basic

/-!
# Catalogs of tokens

A catalog is built from the variables of a stylesheet in their order. What cannot
be made into a token is noted. The variables of one base name of typography are
gathered in one token; a variable that tells no field still makes the token
known.
-/

namespace DesignTokens

/-- The variables of a stylesheet and the tokens that they make. -/
structure Catalog where
  properties : Table Text
  tokens : List Token

namespace Catalog

def ofCategory (c : Catalog) (category : Category) : List Token :=
  c.tokens.filter fun t => t.category = category

def ofCategoryNamed (c : Catalog) (name : Text) : List Token :=
  (Category.ofName? name).toList.flatMap c.ofCategory

def all (c : Catalog) : List Token :=
  Category.all.flatMap c.ofCategory

def find? (c : Catalog) (name : Text) : Option Token :=
  c.all.find? fun t => t.answersTo name

def findVariable? (c : Catalog) (name : Text) : Option Token :=
  c.all.find? fun t => t.variableName = name

/-!
## What a variable makes
-/

inductive Contribution where
  | nothing
  | token (t : Token)
  /-- a value for a token of typography, and the field that it sets -/
  | font (name : Text) (field : Option FontField) (value : Text)

structure Reading where
  contribution : Contribution
  diagnostics : List Diagnostic

def remark (severity : Severity) (message value : Text) : Diagnostic where
  source := "registry".toList
  message := message
  value := some value
  severity := severity

def tokenOf (property : Text) (category : Category) (value : TokenValue) : Token :=
  let name := Variable.tokenName property
  ⟨name, property, Variable.alias? property name category, value⟩

/-- Reads a variable of a color. A text that is not a color is noted and makes no token. -/
def readColor (normalize : Bool) (property value : Text) : Except ArithmeticFault Reading :=
  match Color.parse value with
  | .ok c =>
      .ok
        ⟨.token (tokenOf property .color (.color value (.ofColor normalize c))),
          Color.diagnostics value c⟩
  | .error (.arithmetic fault) => .error fault
  | .error fault =>
      .ok
        ⟨.nothing,
          [remark .warning
            ("Failed to parse color token ".toList ++ property ++ ": ".toList ++ fault.message)
            value]⟩

/-- Reads a variable of a shadow. Layers that cannot be read are noted. -/
def readShadow (property value : Text) : Reading :=
  match ShadowLayer.ofText? value with
  | .ok layers => ⟨.token (tokenOf property .shadow (.shadow value (some layers))), []⟩
  | .error fault =>
      ⟨.token (tokenOf property .shadow (.shadow value none)),
        [remark .info
          ("Shadow components unavailable for ".toList ++ property ++ ": ".toList ++
            fault.message)
          value]⟩

/-- Reads a variable. A reference to another variable makes no token. -/
def read (normalize : Bool) (property value : Text) : Except ArithmeticFault Reading :=
  if Variable.isReference value then
    .ok
      ⟨.nothing,
        [remark .info "Variable reference does not resolve to a token".toList property]⟩
  else
    match Variable.category? property value with
    | none => .ok ⟨.nothing, []⟩
    | some .color => readColor normalize property value
    | some .spacing => .ok ⟨.token (tokenOf property .spacing (.spacing value)), []⟩
    | some .borderRadius =>
        .ok ⟨.token (tokenOf property .borderRadius (.borderRadius value)), []⟩
    | some .shadow => .ok (readShadow property value)
    | some .typography =>
        let name := Variable.baseName (Variable.tokenName property)
        .ok ⟨.font name (Variable.fontField? property) value, []⟩

/-- Reads variables up to the first one with an arithmetic fault. -/
def readAll (normalize : Bool) : Table Text → List Reading × Option ArithmeticFault
  | [] => ([], none)
  | (property, value) :: rest =>
      match read normalize property value with
      | .error fault => ([], some fault)
      | .ok reading =>
          let r := readAll normalize rest
          (reading :: r.1, r.2)

/-!
## Tokens from contributions
-/

def Contribution.token? : Contribution → Option Token
  | .token t => some t
  | _ => none

def addFont (fonts : Table Font) : Contribution → Table Font
  | .font name (some field) value =>
      fonts.change name .unknown fun font => font.set field value
  | .font name none _ => fonts.change name .unknown id
  | _ => fonts

def fontToken (name : Text) (font : Font) : Token :=
  ⟨name, "--".toList ++ name, none, .typography font⟩

def tokensOf (cs : List Contribution) : List Token :=
  cs.filterMap Contribution.token? ++
    (cs.foldl addFont []).map fun entry => fontToken entry.1 entry.2

structure Built where
  catalog : Except ArithmeticFault Catalog
  diagnostics : List Diagnostic

/-- The catalog of a stylesheet, and what was noticed up to its end or up to a fault. -/
def build (normalize : Bool) (css : Text) : Built :=
  let properties := Stylesheet.properties css
  let (readings, fault?) := readAll normalize properties
  { catalog :=
      match fault? with
      | some fault => .error fault
      | none => .ok ⟨properties, tokensOf (readings.map (·.contribution))⟩
    diagnostics := readings.flatMap (·.diagnostics) }

end Catalog
end DesignTokens
