import DesignTokens.Registry.Path
import DesignTokens.Table
import DesignTokens.Text.Quoted

/-!
# Files

The directory in which a registry works holds files and no directories; the
directories above it hold nothing else at first. Names and paths have a longest
length. Texts are read as UTF-8, where a carriage return, alone or before a line
feed, ends a line like a line feed.
-/

namespace DesignTokens

inductive FileFault where
  | missing
  | notDirectory
  | isDirectory
  | nameTooLong
deriving DecidableEq, Repr

namespace FileFault

def number : FileFault → Nat
  | .missing => 2
  | .notDirectory => 20
  | .isDirectory => 21
  | .nameTooLong => 36

def description : FileFault → Text
  | .missing => "No such file or directory".toList
  | .notDirectory => "Not a directory".toList
  | .isDirectory => "Is a directory".toList
  | .nameTooLong => "File name too long".toList

def message (fault : FileFault) (p : Path) : Text :=
  "[Errno ".toList ++ Text.ofNat fault.number ++ "] ".toList ++ fault.description ++
    ": ".toList ++ Text.quoted p.toText

end FileFault

/-- The files, under the paths that lead to them from the working directory, with their bytes. -/
abbrev Files := Table ByteArray

namespace Files

def longestName : Nat :=
  255

def longestPath : Nat :=
  4095

/--
The path under which the file is kept to which names lead from the directory `lead`,
whether or not there is one. On the way there are only directories above.
-/
def nameFrom (files : Files) (lead : Text) : List Text → Except FileFault Text
  | [] => .error .isDirectory
  | name :: names =>
      if name = ['.', '.'] then nameFrom files (lead ++ ['.', '.', '/']) names
      else if longestName < Text.byteLength name then .error .nameTooLong
      else if names = [] then .ok (lead ++ name)
      else .error (if (Table.get? (lead ++ name) files).isSome then .notDirectory else .missing)

/-- The path under which the file is kept to which a path leads, whether or not there is one. -/
def nameOf (files : Files) (p : Path) : Except FileFault Text :=
  if longestPath < Text.byteLength p.toText then .error .nameTooLong
  else nameFrom files p.root p.names

def read (files : Files) (p : Path) : Except FileFault ByteArray := do
  let name ← files.nameOf p
  match Table.get? name files with
  | some bytes => return bytes
  | none => throw .missing

def write (files : Files) (p : Path) (bytes : ByteArray) : Except FileFault Files :=
  (files.nameOf p).map fun name => Table.put name bytes files

def withLineFeeds : Text → Text
  | [] => []
  | '\r' :: '\n' :: t => '\n' :: withLineFeeds t
  | '\r' :: t => '\n' :: withLineFeeds t
  | c :: t => c :: withLineFeeds t

def text? (bytes : ByteArray) : Option Text :=
  bytes.utf8Decode?.map fun cs => withLineFeeds cs.toList

end Files
end DesignTokens
