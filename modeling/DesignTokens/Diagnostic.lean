import DesignTokens.Text.Quoted

/-!
# Diagnostics

What is noticed while tokens are built or a source is scanned, and does not stop
the work.
-/

namespace DesignTokens

inductive Severity where
  | info
  | warning
deriving DecidableEq, Repr

namespace Severity

def name : Severity → Text
  | .info => "info".toList
  | .warning => "warning".toList

def ofName? (t : Text) : Option Severity :=
  [Severity.info, .warning].find? fun s => s.name = t

end Severity

structure Diagnostic where
  source : Text
  message : Text
  value : Option Text
  severity : Severity
deriving DecidableEq, Repr

namespace Diagnostic

def summary (d : Diagnostic) : Text :=
  let value :=
    match d.value with
    | some v => " (".toList ++ Text.quoted v ++ [')']
    | none => []
  '[' :: d.severity.name ++ "] ".toList ++ d.source ++ ": ".toList ++ d.message ++ value

end Diagnostic
end DesignTokens
