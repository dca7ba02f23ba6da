import DesignTokens.Diagnostic
import DesignTokens.Options.Scan
import DesignTokens.Source.Position
import DesignTokens.Style.Details

/-!
# Findings

A finding is a style value in a source text, with its place, its surroundings
and the path of names that leads to it. Findings are ordered by their places; of
several findings at the same place the first one counts.
-/

namespace DesignTokens

structure Finding where
  category : Category
  value : Text
  property : Text
  scope : Scope
  location : Source.Location
  context : Option Source.Context
  path : List Text
  details : Details

namespace Finding

def precedes (f g : Finding) : Bool :=
  f.location.start < g.location.start ||
    (f.location.start = g.location.start && f.location.stop < g.location.stop)

/-- A finding put at its place among ordered ones, unless one of them has that place already. -/
def insert (f : Finding) : List Finding → List Finding
  | [] => [f]
  | g :: gs =>
      if f.precedes g then f :: g :: gs
      else if g.precedes f then g :: insert f gs
      else g :: gs

/-- Findings in the order of their places, of each place the first one. -/
def ordered (fs : List Finding) : List Finding :=
  fs.foldl (fun gs f => insert f gs) []

end Finding

/-- Where a scan is: the source, the options, and the offset that tells the element. -/
structure Site where
  source : Text
  options : ScanOptions
  anchor : Nat

namespace Site

def context? (site : Site) (start stop : Nat) : Option Source.Context :=
  if site.options.includeContext then
    some
      { line := Source.fullLine site.source start
        element := Source.elementName? site.source site.anchor
        snippet := Source.snippet site.source start stop site.options.contextSize }
  else none

def finding (site : Site) (scope : Scope) (start stop : Nat) (category : Category)
    (property : Text) (path : List Text) (details : Details) : Finding where
  category := category
  value := Text.slice site.source start stop
  property := property
  scope := scope
  location := Source.location site.source start stop
  context := site.context? start stop
  path := path
  details := details

end Site

structure Report where
  findings : List Finding
  diagnostics : List Diagnostic

namespace Report

def empty : Report :=
  ⟨[], []⟩

def append (r s : Report) : Report :=
  ⟨r.findings ++ s.findings, r.diagnostics ++ s.diagnostics⟩

def concat (rs : List Report) : Report :=
  ⟨rs.flatMap (·.findings), rs.flatMap (·.diagnostics)⟩

def remark (d : Diagnostic) : Report :=
  ⟨[], [d]⟩

end Report
end DesignTokens
