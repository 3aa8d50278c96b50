import DocWeave.Diagnostic
import DocWeave.Render

/-!
# Passes

A pass renders a list of modules. Texts are delivered to a sink; a failure goes to the diagnostics
and to the failures, under the module that it is attributed to. Once there are failures, no later
pass renders anything.

All that a sink learns is which texts are delivered and in which order, so `accepted` keeps the
deliveries as they were made, repeated ones too. What it makes of them is up to the sink: `results`
is the store that keeps the last text of each module.
-/

namespace DocWeave

/-- What a pass did, by the modules it was asked for. -/
structure PassReport where
  rendered : List QualifiedName := []
  failed : List QualifiedName := []
  skipped : Bool := false
  deriving DecidableEq, Repr

def PassReport.attempted (report : PassReport) : Nat :=
  report.rendered.length + report.failed.length

/-- What passes leave behind. The deliveries are in the order in which they were made. -/
structure PassState where
  failures : NamedTexts := .empty
  diagnostics : Diagnostics := []
  accepted : List (QualifiedName × String) := []

namespace PassState

instance : Inhabited PassState := ⟨{}⟩

/-- Delivers the text of a module. -/
def accept (s : PassState) (module : QualifiedName) (text : String) : PassState :=
  { s with accepted := s.accepted ++ [(module, text)] }

/-- The texts that were delivered; that of a module is stored in place of an earlier one. -/
def results (s : PassState) : NamedTexts :=
  s.accepted.foldl Registry.insert .empty

/-- Reports a failure and records its message for the module it is attributed to, which is
`module` unless the failure names another. -/
def recordFailure (s : PassState) (module : QualifiedName) (e : DocError) : PassState :=
  let attributed := e.module?.getD module
  { s with
    failures := s.failures.insert (attributed, e.message)
    diagnostics := s.diagnostics.report (.ofError attributed e) }

end PassState

namespace Renderer

/-- Renders the modules in order; a fatal failure ends the pass. -/
def passThrough (r : Renderer) :
    List QualifiedName → PassReport → PassState → Except DocError PassReport × PassState
  | [], report, s => (.ok report, s)
  | module :: rest, report, s =>
    match r.renderModule module with
    | .ok text =>
      r.passThrough rest { report with rendered := report.rendered ++ [module] }
        (s.accept module text)
    | .error e =>
      if e.isFatal then (.error e, s)
      else
        r.passThrough rest { report with failed := report.failed ++ [module] }
          (s.recordFailure module e)

/-- Runs a pass over the modules, unless an earlier one recorded failures. -/
def runPass (r : Renderer) (modules : List QualifiedName) (s : PassState) :
    Except DocError PassReport × PassState :=
  if s.failures.isEmpty then r.passThrough modules {} s else (.ok { skipped := true }, s)

end Renderer
end DocWeave
