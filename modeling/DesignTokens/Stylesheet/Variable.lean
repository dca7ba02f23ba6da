import DesignTokens.Category
import DesignTokens.Color.Family

/-!
# Names of variables

The name of a variable tells the category of its token, the name of the token,
and the utility class that stands for it. Only colors are told by their values.
A variable of typography sets one field of a token that it shares with the other
variables of the same base name.
-/

namespace DesignTokens

inductive FontField where
  | fontFamily
  | fontSize
  | fontWeight
  | lineHeight
  | letterSpacing
deriving DecidableEq, Repr

namespace FontField

def all : List FontField :=
  [.fontFamily, .fontSize, .fontWeight, .lineHeight, .letterSpacing]

def marker : FontField → Text
  | .fontFamily => "font-family".toList
  | .fontSize => "font-size".toList
  | .fontWeight => "font-weight".toList
  | .lineHeight => "line-height".toList
  | .letterSpacing => "letter-spacing".toList

end FontField

namespace Variable

def isReference (value : Text) : Bool :=
  Text.startsWith "var(".toList (Text.strip value)

def typographyMarkers : List Text :=
  FontField.all.map FontField.marker ++ ["text-".toList]

def isTypography (property : Text) : Bool :=
  typographyMarkers.any fun marker => Text.has marker property

/-- The category of the token that a variable with this value makes. -/
def category? (property value : Text) : Option Category :=
  if Color.isLiteral value then some .color
  else if Text.has "spacing".toList property then some .spacing
  else if Text.has "border-radius".toList property then some .borderRadius
  else if Text.has "shadow".toList property then some .shadow
  else if isTypography property then some .typography
  else none

def categoryLeads : List Text :=
  ["color-".toList, "font-".toList, "spacing-".toList, "border-radius-".toList,
   "shadow-".toList]

def tokenName (property : Text) : Text :=
  let name := Text.removeLead "--".toList property
  (categoryLeads.findSome? fun lead => Text.after? lead name).getD name

def withoutField? (name : Text) : Option Text :=
  FontField.all.findSome? fun field => Text.before? ('-' :: field.marker) name

/--
The name that all variables of one token of typography share. The field may stand
before a newline at the end.
-/
def baseName (name : Text) : Text :=
  match withoutField? name with
  | some base => base
  | none =>
      match (Text.before? ['\n'] name).bind withoutField? with
      | some base => base ++ ['\n']
      | none => name

def fontField? (property : Text) : Option FontField :=
  FontField.all.find? fun field => Text.has field.marker property

/--
The beginning of variables that a category gives utility classes, and the beginning
of those classes.
-/
def aliasLeads? : Category → Option (Text × Text)
  | .color => some ("--color-".toList, "text-".toList)
  | .spacing => some ("--spacing-".toList, "p-".toList)
  | .borderRadius => some ("--border-radius-".toList, "rounded-".toList)
  | .shadow => some ("--shadow-".toList, "shadow-".toList)
  | .typography => none

def alias? (property name : Text) (category : Category) : Option Text :=
  match aliasLeads? category with
  | none => none
  | some (lead, classLead) =>
      if Text.startsWith lead property then some (classLead ++ name) else none

end Variable
end DesignTokens
