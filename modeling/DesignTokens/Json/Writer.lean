import DesignTokens.Json.Basic
import DesignTokens.Text.Hex

/-!
# Written documents

A document is written in ASCII. Every item and every field stands on a line of
its own, two spaces further in than what it belongs to; empty arrays and objects
are written without a line break. Characters beyond ASCII are written as 16-bit
units, those beyond U+FFFF as a pair of surrogates.
-/

namespace DesignTokens
namespace Json

def unitEscape (n : Nat) : Text :=
  '\\' :: 'u' :: Text.hexPadded 4 n

def escaped (c : Char) : Text :=
  if c = '"' ∨ c = '\\' then ['\\', c]
  else if c = '\n' then ['\\', 'n']
  else if c = '\r' then ['\\', 'r']
  else if c = '\t' then ['\\', 't']
  else if c.toNat = 0x0C then ['\\', 'f']
  else if c.toNat = 0x08 then ['\\', 'b']
  else if 0x20 ≤ c.toNat ∧ c.toNat < 0x7F then [c]
  else if c.toNat < 0x10000 then unitEscape c.toNat
  else
    let n := c.toNat - 0x10000
    unitEscape (0xD800 + n / 0x400) ++ unitEscape (0xDC00 + n % 0x400)

def quoted (t : Text) : Text :=
  '"' :: t.flatMap escaped ++ ['"']

def newline (depth : Nat) : Text :=
  '\n' :: List.replicate (2 * depth) ' '

mutual

/-- A document, where the lines inside it are at depth `depth + 1`. -/
def written (depth : Nat) : Json → Text
  | .null => ['n', 'u', 'l', 'l']
  | .bool true => ['t', 'r', 'u', 'e']
  | .bool false => ['f', 'a', 'l', 's', 'e']
  | .number literal => literal
  | .text t => quoted t
  | .array [] => ['[', ']']
  | .array (j :: js) =>
      '[' :: newline (depth + 1) ++ written (depth + 1) j ++ writtenItems (depth + 1) js ++
        newline depth ++ [']']
  | .object [] => ['{', '}']
  | .object ((name, j) :: fs) =>
      '{' :: newline (depth + 1) ++ quoted name ++ [':', ' '] ++ written (depth + 1) j ++
        writtenFields (depth + 1) fs ++ newline depth ++ ['}']

def writtenItems (depth : Nat) : List Json → Text
  | [] => []
  | j :: js => ',' :: newline depth ++ written depth j ++ writtenItems depth js

def writtenFields (depth : Nat) : List (Text × Json) → Text
  | [] => []
  | (name, j) :: fs =>
      ',' :: newline depth ++ quoted name ++ [':', ' '] ++ written depth j ++
        writtenFields depth fs

end

end Json
end DesignTokens
