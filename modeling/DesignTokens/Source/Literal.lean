import DesignTokens.Source.Scan
import DesignTokens.Source.Window

/-!
# Literals and brackets in windows

A window lies inside of its source, so that the limit of a scan is the end of its
text. What begins in a window has to end in it.
-/

namespace DesignTokens
namespace Window

/--
The literal that begins with a window, if the window begins with a quote and the
literal ends in it.
-/
def literal? (w : Window) : Option (Literal Nat) :=
  Scan.found (Scan.literal 0 w.start w.text)

def closing? (w : Window) : Option Nat :=
  Scan.found (Scan.bracket 0 w.start w.text)

def body? (w : Window) : Option Window :=
  w.closing?.map fun close => w.inside (w.start + 1) close

def literals (w : Window) (nested : Bool) : List (Literal Nat) :=
  match Scan.literals 0 nested w.before w.start w.text with
  | .ok ls => ls
  | .error _ => []

end Window
end DesignTokens
