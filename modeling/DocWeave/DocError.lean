import DocWeave.Reference

/-!
# Why rendering fails

Each cause names the module whose documentation holds the fault, apart from a reference without a
member, which belongs to none. Fatal causes end a pass; the others fail one module.
-/

namespace DocWeave

inductive DocError where
  /-- A link whose text is no reference. -/
  | malformedReference (module : QualifiedName) (signature : String) (cause : ReferenceError)
  /-- A link to nothing that is declared. -/
  | unresolvedLink (module : QualifiedName) (signature : String)
  /-- An inclusion of a module that is not declared. -/
  | missingModule (module target : QualifiedName)
  /-- A module that is included, perhaps through others, in itself; `chain` lists the modules
  being rendered and then the repeated one. -/
  | circularInclude (module : QualifiedName) (chain : List QualifiedName)
  /-- An import without a qualifier or an identifier that stands in the way of a name. -/
  | malformedImport (module path : QualifiedName)
  /-- A member looked for without its name. -/
  | missingMemberName (target : String)
  deriving DecidableEq, Repr

namespace DocError

def message : DocError → String
  | malformedReference _ signature cause =>
    "Malformed reference '" ++ signature ++ "': " ++ cause.message
  | unresolvedLink _ signature => "Could not resolve " ++ signature
  | missingModule module target =>
    "Could not find module " ++ target ++ " included from " ++ module
  | circularInclude module chain =>
    "Circular include of " ++ module ++ ": " ++ " -> ".intercalate chain
  | malformedImport module path => "Malformed import '" ++ path ++ "' in " ++ module
  | missingMemberName target => "Reference '" ++ target ++ "' has no member name"

/-- The code that diagnostics show. -/
def code : DocError → String
  | malformedReference .. => "E0001"
  | unresolvedLink .. => "E0002"
  | missingModule .. => "E0003"
  | circularInclude .. => "E0004"
  | malformedImport .. => "E0005"
  | missingMemberName .. => "E0006"

/-- The module that the failure is attributed to. -/
def module? : DocError → Option QualifiedName
  | malformedReference module .. | unresolvedLink module _ | missingModule module _
  | circularInclude module _ | malformedImport module _ => some module
  | missingMemberName _ => none

/-- Whether the failure ends the pass. -/
def isFatal : DocError → Bool
  | malformedImport .. | missingMemberName _ => true
  | _ => false

end DocError
end DocWeave
