import DesignTokens.Finding.InlineStyle
import DesignTokens.Finding.UtilityClass

/-!
# Finders

There is a finder for each of the scopes that are scanned.
-/

namespace DesignTokens

/-- What looks for style values in one scope. -/
inductive Finder where
  | utilityClass
  | inlineStyle
deriving DecidableEq, Repr

namespace Finder

def all : List Finder :=
  [.utilityClass, .inlineStyle]

def name : Finder → Text
  | .utilityClass => "UtilityClassMatcher".toList
  | .inlineStyle => "InlineStyleMatcher".toList

def scope : Finder → Scope
  | .utilityClass => .utilityClass
  | .inlineStyle => .inlineStyle

def report : Finder → Text → ScanOptions → Report
  | .utilityClass => UtilityClass.report
  | .inlineStyle => InlineStyle.report

/--
The ordered findings of a finder and what it has noticed. A scope that is not
allowed is not searched.
-/
def scan (finder : Finder) (source : Text) (options : ScanOptions) : Report :=
  if options.allows finder.scope then
    let report := finder.report source options
    ⟨Finding.ordered report.findings, report.diagnostics⟩
  else .empty

/-- The options of a scan by several finders. Without a finder nobody reads them. -/
def options? (finders : List Finder) (form : Option Json) :
    Except ScanOptions.Fault ScanOptions :=
  match finders, form with
  | _ :: _, some form => ScanOptions.ofForm? form
  | _, _ => .ok .standard

end Finder
end DesignTokens
