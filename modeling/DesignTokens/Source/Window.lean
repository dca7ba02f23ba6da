import DesignTokens.Text.Blank

/-!
# Windows

A window is a stretch of a source text. Scanners see a window only: its
characters, the offset at which it starts, and the character before it.
-/

namespace DesignTokens

structure Window where
  start : Nat
  before : Option Char
  text : Text
deriving DecidableEq, Repr

namespace Window

def charBefore? (source : Text) : (offset : Nat) → Option Char
  | 0 => none
  | offset + 1 => source[offset]?

def whole (source : Text) : Window :=
  ⟨0, none, source⟩

def between (source : Text) (start stop : Nat) : Window :=
  ⟨start, charBefore? source start, Text.slice source start stop⟩

def stop (w : Window) : Nat :=
  w.start + w.text.length

def drop (w : Window) : Nat → Window
  | 0 => w
  | n + 1 => ⟨w.start + (n + 1), w.text[n]?, w.text.drop (n + 1)⟩

def take (w : Window) (n : Nat) : Window :=
  ⟨w.start, w.before, w.text.take n⟩

def inside (w : Window) (start stop : Nat) : Window :=
  (w.drop (start - w.start)).take (stop - start)

def skipBlanks (w : Window) : Window :=
  w.drop (w.text.takeWhile Text.isBlank).length

def strip (w : Window) : Window :=
  let w := w.skipBlanks
  w.take (Text.stripRight w.text).length

end Window
end DesignTokens
