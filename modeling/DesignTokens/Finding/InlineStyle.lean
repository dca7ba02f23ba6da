import DesignTokens.Finding.Basic
import DesignTokens.Source.Comment
import DesignTokens.Source.Literal
import DesignTokens.Source.Occurrence

/-!
# Inline styles

Style objects are looked for in `style` attributes and behind custom patterns. An
attribute holds an object, or the name of a variable whose declaration holds one.
The entries of an object are a key, a colon and a value; objects as values are
searched as well, but not the objects in them.

A value that is one literal without expressions has to fit its category. In any
other value the literals that fit are parts of what the source computes.
-/

namespace DesignTokens
namespace InlineStyle

/-!
## Names and entries
-/

def isNameStart (c : Char) : Bool :=
  c.isAlpha || c = '_' || c = '$'

def isNameChar (c : Char) : Bool :=
  Text.isWord c || c = '$'

def isName : Text → Bool
  | [] => false
  | c :: t => isNameStart c && t.all isNameChar

/--
The key with which a text begins, and what follows the key: a name with hyphens, or
a text between quotes.
-/
def keySplit : Text → Text × Text
  | [] => ([], [])
  | c :: t =>
      if c = '"' ∨ c = '\'' then (t.takeWhile (· ≠ c), (t.dropWhile (· ≠ c)).tail)
      else if isNameStart c then
        (c :: t.takeWhile fun d => isNameChar d || d = '-',
          t.dropWhile fun d => isNameChar d || d = '-')
      else ([], c :: t)

def key? (entry : Text) : Option (Text × Text) :=
  match keySplit (Text.stripLeft entry) with
  | ([], _) => none
  | (key, rest) => (Text.after? [':'] (Text.stripLeft rest)).map fun value => (key, value)

structure Entry where
  key : Text
  value : Window
deriving DecidableEq, Repr

/-- The entry in a piece of an object. Pieces without a key or without a value are no entries. -/
def entry? (piece : Window) : Option Entry :=
  match key? (Source.skipComments piece.text) with
  | none => none
  | some (key, rest) =>
      let value := (piece.drop (piece.text.length - rest.length)).strip
      if value.text = [] then none else some ⟨key, value⟩

def entries (body : Window) : List Entry :=
  (Pieces.ofText .entries body.text).filterMap fun piece =>
    entry? ((body.drop piece.1).take piece.2.length)

/-!
## Values
-/

/-- The place that a value of an object styles. -/
structure Slot where
  category : Category
  property : Text
  path : List Text
deriving DecidableEq, Repr

def Slot.fits (slot : Slot) (l : Literal Nat) : Bool :=
  Shape.fits slot.category (some slot.property) (Text.strip l.text)

def literalFinding (site : Site) (slot : Slot) (dynamic : Bool) (l : Literal Nat) : Finding :=
  let value := Text.strip l.text
  let start := l.contentStart + (l.text.length - (Text.stripLeft l.text).length)
  site.finding .inlineStyle start (start + value.length) slot.category slot.property slot.path
    (.describe slot.category value dynamic)

def remark (severity : Severity) (message value : Text) : Report :=
  .remark
    { source := "inline-style".toList
      message := message
      value := some value
      severity := severity }

/--
The literal that a value is, apart from comments behind it. A literal with
expressions does not count.
-/
def plainLiteral? (value : Window) : Option (Literal Nat) :=
  value.literal?.filter fun l =>
    !l.isDynamic && Source.isComments (value.text.drop (l.stop - value.start))

def plainReport (site : Site) (slot : Slot) (l : Literal Nat) : Report :=
  if slot.fits l then ⟨[literalFinding site slot false l], []⟩
  else
    remark .info
      ("Value for ".toList ++ slot.property ++ " is not a ".toList ++ slot.category.name ++
        " literal".toList)
      (Text.strip l.text)

/-- The literals without expressions in a value that fit their slot. -/
def operands (slot : Slot) (value : Window) : List (Literal Nat) :=
  (value.literals true).filter fun l => !l.isDynamic && slot.fits l

def computedReport (site : Site) (slot : Slot) (value : Window) : Report :=
  match operands slot value with
  | [] =>
      remark .info
        ("Computed value for ".toList ++ slot.property ++ " was not evaluated".toList) value.text
  | ls => ⟨ls.map (literalFinding site slot true), []⟩

def valueReport (site : Site) (slot : Slot) (value : Window) : Report :=
  match plainLiteral? value with
  | some l => plainReport site slot l
  | none => computedReport site slot value

/-!
## Objects
-/

def slot? (options : ScanOptions) (path : List Text) (key : Text) : Option Slot :=
  let property := camelCase key
  match propertyCategory? property with
  | none => none
  | some category =>
      if category ∈ options.categories then some ⟨category, property, path ++ [property]⟩ else none

/-- The report on an entry, where `inner` reports on an object as its value. -/
def entryReport (site : Site) (inner : List Text → Window → Report) (path : List Text)
    (e : Entry) : Report :=
  if e.value.text.head? = some '{' then
    match e.value.body? with
    | some body => inner (path ++ [e.key]) body
    | none => .empty
  else
    match slot? site.options path e.key with
    | some slot => valueReport site slot e.value
    | none => .empty

/-- The report on the body of an object in another one. Objects in it are passed over. -/
def innerReport (site : Site) (path : List Text) (body : Window) : Report :=
  .concat ((entries body).map (entryReport site (fun _ _ => .empty) path))

def objectReport (site : Site) (path : List Text) (body : Window) : Report :=
  .concat ((entries body).map (entryReport site (innerReport site) path))

/-!
## Attributes and patterns
-/

open Reader

def attributeHead : Reader :=
  Reader.sequence [exactly "style".toList, blanks, exactly ['='], blanks, exactly ['{']]

/--
The declaration of a variable up to the brace of its object. A type may stand
between a colon and the equals sign.
-/
def declarationHead (name : Text) : Reader :=
  Reader.sequence
    [anyOf [exactly "const".toList, exactly "let".toList, exactly "var".toList],
     some1 Text.isBlank, exactly name, blanks,
     optional (Reader.sequence [exactly [':'], some1 (· ≠ '=')]),
     exactly ['='], blanks, exactly ['{']]

def tailAt (source : Text) (offset : Nat) : Window :=
  .between source offset source.length

/-- The report on the object that the first declaration of a variable holds. -/
def variableReport (site : Site) (name : Text) : Report :=
  match Source.occurrences (declarationHead name) site.source with
  | [] => remark .info "Style variable has no object literal declaration".toList name
  | span :: _ =>
      match (tailAt site.source (span.2 - 1)).body? with
      | some body => objectReport site [name, "style".toList] body
      | none => .empty

def expressionReport (site : Site) (expression : Window) : Report :=
  let object := expression.skipBlanks
  if object.text.head? = some '{' then
    match object.body? with
    | some body => objectReport site ["style".toList] body
    | none => .empty
  else if isName (Text.strip expression.text) then
    variableReport site (Text.strip expression.text)
  else .empty

def attributeReport (source : Text) (options : ScanOptions) (head : Nat × Nat) : Report :=
  match (tailAt source (head.2 - 1)).body? with
  | none =>
      remark .warning "Unbalanced braces after style attribute".toList
        (Text.slice source head.1 (head.1 + 40))
  | some expression => expressionReport ⟨source, options, head.1⟩ expression

/--
The report on the object behind a stretch that a pattern describes. The brace
belongs to the stretch.
-/
def stretchReport (source : Text) (options : ScanOptions) (stretch : Pattern.Stretch) : Report :=
  if stretch.stop = 0 then .empty
  else
    let object := tailAt source (stretch.stop - 1)
    if object.text.head? = some '{' then
      match object.body? with
      | some body => objectReport ⟨source, options, stretch.start⟩ ["style".toList] body
      | none => .empty
    else .empty

def report (source : Text) (options : ScanOptions) : Report :=
  let attributes := Source.occurrences attributeHead source
  let stretches := options.customPatterns.flatMap fun p => p.pattern.stretches source
  (Report.concat (attributes.map (attributeReport source options))).append
    (.concat (stretches.map (stretchReport source options)))

end InlineStyle
end DesignTokens
