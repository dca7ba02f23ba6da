import DesignTokens.Category
import DesignTokens.Text.LetterCase

/-!
# Style properties and utility prefixes

Two tables say what is styled. The first one gives the category of a property of
a style object, the second one the property and the category that the prefix of
a utility class addresses. The prefix `text-` addresses two properties, and the
value decides between them.
-/

namespace DesignTokens

def styleProperties : List (String × Category) :=
  [
   ("color", .color), ("backgroundColor", .color), ("borderColor", .color), ("fill", .color),
   ("stroke", .color), ("outlineColor", .color), ("background", .color), ("margin", .spacing),
   ("marginTop", .spacing), ("marginRight", .spacing), ("marginBottom", .spacing),
   ("marginLeft", .spacing), ("padding", .spacing), ("paddingTop", .spacing),
   ("paddingRight", .spacing), ("paddingBottom", .spacing), ("paddingLeft", .spacing),
   ("gap", .spacing), ("columnGap", .spacing), ("rowGap", .spacing),
   ("borderRadius", .borderRadius), ("borderTopLeftRadius", .borderRadius),
   ("borderTopRightRadius", .borderRadius), ("borderBottomLeftRadius", .borderRadius),
   ("borderBottomRightRadius", .borderRadius), ("boxShadow", .shadow), ("textShadow", .shadow),
   ("filter", .shadow), ("fontSize", .typography), ("fontWeight", .typography),
   ("lineHeight", .typography), ("letterSpacing", .typography), ("fontFamily", .typography)]

def propertyCategory? (property : Text) : Option Category :=
  (styleProperties.find? fun p => p.1.toList = property).map (·.2)

def capitalized : Text → Text
  | [] => []
  | c :: t => Text.capital c ++ t

/-- A property in camel case: the parts between hyphens, all but the first one capitalized. -/
def camelCase (property : Text) : Text :=
  match Text.segments (· = '-') property with
  | [] => []
  | first :: rest => first ++ rest.flatMap capitalized

structure StyleTarget where
  property : String
  category : Category
deriving DecidableEq, Repr

structure UtilityPrefix where
  text : String
  first : StyleTarget
  others : List StyleTarget
deriving DecidableEq, Repr

namespace UtilityPrefix

def all : List UtilityPrefix :=
  [
   ⟨"bg-", ⟨"backgroundColor", .color⟩, []⟩,
   ⟨"text-", ⟨"color", .color⟩, [⟨"fontSize", .typography⟩]⟩,
   ⟨"border-", ⟨"borderColor", .color⟩, []⟩,
   ⟨"border-t-", ⟨"borderTopColor", .color⟩, []⟩,
   ⟨"border-b-", ⟨"borderBottomColor", .color⟩, []⟩,
   ⟨"border-l-", ⟨"borderLeftColor", .color⟩, []⟩,
   ⟨"border-r-", ⟨"borderRightColor", .color⟩, []⟩,
   ⟨"outline-", ⟨"outlineColor", .color⟩, []⟩,
   ⟨"fill-", ⟨"fill", .color⟩, []⟩,
   ⟨"stroke-", ⟨"stroke", .color⟩, []⟩,
   ⟨"from-", ⟨"gradientColorFrom", .color⟩, []⟩,
   ⟨"to-", ⟨"gradientColorTo", .color⟩, []⟩,
   ⟨"via-", ⟨"gradientColorVia", .color⟩, []⟩,
   ⟨"rounded-", ⟨"borderRadius", .borderRadius⟩, []⟩,
   ⟨"rounded-t-", ⟨"borderTopRadius", .borderRadius⟩, []⟩,
   ⟨"rounded-b-", ⟨"borderBottomRadius", .borderRadius⟩, []⟩,
   ⟨"rounded-l-", ⟨"borderLeftRadius", .borderRadius⟩, []⟩,
   ⟨"rounded-r-", ⟨"borderRightRadius", .borderRadius⟩, []⟩,
   ⟨"rounded-tl-", ⟨"borderTopLeftRadius", .borderRadius⟩, []⟩,
   ⟨"rounded-tr-", ⟨"borderTopRightRadius", .borderRadius⟩, []⟩,
   ⟨"rounded-bl-", ⟨"borderBottomLeftRadius", .borderRadius⟩, []⟩,
   ⟨"rounded-br-", ⟨"borderBottomRightRadius", .borderRadius⟩, []⟩,
   ⟨"shadow-", ⟨"boxShadow", .shadow⟩, []⟩,
   ⟨"m-", ⟨"margin", .spacing⟩, []⟩,
   ⟨"mt-", ⟨"marginTop", .spacing⟩, []⟩,
   ⟨"mr-", ⟨"marginRight", .spacing⟩, []⟩,
   ⟨"mb-", ⟨"marginBottom", .spacing⟩, []⟩,
   ⟨"ml-", ⟨"marginLeft", .spacing⟩, []⟩,
   ⟨"mx-", ⟨"marginHorizontal", .spacing⟩, []⟩,
   ⟨"my-", ⟨"marginVertical", .spacing⟩, []⟩,
   ⟨"p-", ⟨"padding", .spacing⟩, []⟩,
   ⟨"pt-", ⟨"paddingTop", .spacing⟩, []⟩,
   ⟨"pr-", ⟨"paddingRight", .spacing⟩, []⟩,
   ⟨"pb-", ⟨"paddingBottom", .spacing⟩, []⟩,
   ⟨"pl-", ⟨"paddingLeft", .spacing⟩, []⟩,
   ⟨"px-", ⟨"paddingHorizontal", .spacing⟩, []⟩,
   ⟨"py-", ⟨"paddingVertical", .spacing⟩, []⟩,
   ⟨"gap-", ⟨"gap", .spacing⟩, []⟩,
   ⟨"gap-x-", ⟨"columnGap", .spacing⟩, []⟩,
   ⟨"gap-y-", ⟨"rowGap", .spacing⟩, []⟩,
   ⟨"space-x-", ⟨"spaceX", .spacing⟩, []⟩,
   ⟨"space-y-", ⟨"spaceY", .spacing⟩, []⟩,
   ⟨"font-", ⟨"fontWeight", .typography⟩, []⟩,
   ⟨"leading-", ⟨"lineHeight", .typography⟩, []⟩,
   ⟨"tracking-", ⟨"letterSpacing", .typography⟩, []⟩]

def ofText? (t : Text) : Option UtilityPrefix :=
  all.find? fun p => p.text.toList = t

def targets (p : UtilityPrefix) : List StyleTarget :=
  p.first :: p.others

end UtilityPrefix
end DesignTokens
