import DocWeave.DocError

/-!
# Diagnostics

Messages about modules, in the order in which they are reported.
-/

namespace DocWeave

inductive Severity where
  | error | warning | info
  deriving DecidableEq, Repr

def Severity.print : Severity → String
  | error => "error"
  | warning => "warning"
  | info => "info"

structure Diagnostic where
  module : QualifiedName
  severity : Severity
  code? : Option String := none
  message : String
  deriving DecidableEq, Repr

namespace Diagnostic

/-- The diagnostic of a failure attributed to `module`. -/
def ofError (module : QualifiedName) (e : DocError) : Diagnostic :=
  { module, severity := .error, code? := some e.code, message := e.message }

/-- One line: severity, code in brackets if there is one, module and message. -/
def print (d : Diagnostic) : String :=
  let code := match d.code? with
    | some code => "[" ++ code ++ "]"
    | none => ""
  d.severity.print ++ code ++ " " ++ d.module ++ ": " ++ d.message

end Diagnostic

/-- What was reported, the earliest first. -/
abbrev Diagnostics := List Diagnostic

namespace Diagnostics

def report (ds : Diagnostics) (d : Diagnostic) : Diagnostics :=
  ds ++ [d]

def forModule (ds : Diagnostics) (module : QualifiedName) : Diagnostics :=
  ds.filter (·.module == module)

def hasErrors (ds : Diagnostics) : Bool :=
  ds.any (·.severity == .error)

end Diagnostics
end DocWeave
