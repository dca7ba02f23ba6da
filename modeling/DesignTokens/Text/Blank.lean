import DesignTokens.Text.Basic

/-!
# Blank characters

White space is the Unicode property of that name; blank characters are white
space and the four separator controls U+001C to U+001F. Words are what blank
characters separate.
-/

namespace DesignTokens
namespace Text

def isWhiteSpace (c : Char) : Bool :=
  let n := c.toNat
  (0x09 ≤ n && n ≤ 0x0D) || n = 0x20 || n = 0x85 || n = 0xA0 || n = 0x1680 ||
    (0x2000 ≤ n && n ≤ 0x200A) || n = 0x2028 || n = 0x2029 || n = 0x202F || n = 0x205F ||
    n = 0x3000

/-- White space and the separators of files, groups, records and units. -/
def isBlank (c : Char) : Bool :=
  isWhiteSpace c || (0x1C ≤ c.toNat && c.toNat ≤ 0x1F)

def stripLeft (t : Text) : Text :=
  t.dropWhile isBlank

def stripRight (t : Text) : Text :=
  (t.reverse.dropWhile isBlank).reverse

def strip (t : Text) : Text :=
  stripRight (stripLeft t)

/-- A text without the white space at both of its ends; the separator controls stay. -/
def stripWhiteSpace (t : Text) : Text :=
  ((t.dropWhile isWhiteSpace).reverse.dropWhile isWhiteSpace).reverse

def isAllBlank (t : Text) : Bool :=
  t.all isBlank

def words (t : Text) : List Text :=
  fields isBlank t

end Text
end DesignTokens
