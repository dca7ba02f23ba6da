import DesignTokens.Text.Hex
import DesignTokens.Text.Printable

/-!
# Quoted text

Messages show a text between quotes so that its ends and its invisible
characters can be seen. The quotes are single, or double where the text holds a
single quote and no double quote. A backslash marks the quote, the backslash,
line feed, carriage return and tab, and it introduces the hexadecimal code of a
character that is not printable.
-/

namespace DesignTokens
namespace Text

def quoteFor (t : Text) : Char :=
  if '\'' ∈ t ∧ '"' ∉ t then '"' else '\''

def escaped (quote c : Char) : Text :=
  if c = quote || c = '\\' then ['\\', c]
  else if c = '\n' then ['\\', 'n']
  else if c = '\r' then ['\\', 'r']
  else if c = '\t' then ['\\', 't']
  else if isPrintable c then [c]
  else if c.toNat < 0x100 then '\\' :: 'x' :: hexPadded 2 c.toNat
  else if c.toNat < 0x10000 then '\\' :: 'u' :: hexPadded 4 c.toNat
  else '\\' :: 'U' :: hexPadded 8 c.toNat

def quoted (t : Text) : Text :=
  let quote := quoteFor t
  quote :: t.flatMap (escaped quote) ++ [quote]

end Text
end DesignTokens
