import DocWeave.Link
import DocWeave.Reference.Parser
import DocWeave.Resolution
import DocWeave.Workspace

/-!
# What a document does when it is rendered

Links and inclusions are resolved by the module that holds them, so what each node does is known
before anything is rendered: it emits text, it splices another module in, or it fails. Groups do
what their nodes do, in order; nothing inside the label of a link is resolved.
-/

namespace DocWeave

/-- One step of rendering a document. -/
inductive Effect where
  | emit (text : String)
  | splice (module : QualifiedName)
  | fail (cause : DocError)
  deriving DecidableEq, Repr

/-- Renders the modules of a workspace. Its configuration says where unqualified names are looked
up last. -/
structure Renderer where
  workspace : Workspace
  links : LinkFormatter
  config : Config := {}

namespace Renderer

/-- What names written in a module can refer to. -/
def scopeOf (r : Renderer) (module : QualifiedName) : Scope :=
  { index := r.workspace.index, module, defaultNamespace := r.config.defaultNamespace }

/-- The label that is shown: the given one without blanks at its ends, or the simple name. -/
def labelText (symbol : Symbol) (label : DocTree) : String :=
  let shown := Text.trim (DocTree.plainText label)
  if shown.isEmpty then symbol.simpleName else shown

/-- A link to a module splices the module in; other links are composed from their destination and
their label. -/
def symbolEffect (r : Renderer) (symbol : Symbol) (label : DocTree) : Effect :=
  let link destination := .emit (r.links.compose destination (labelText symbol label))
  match symbol with
  | .module name => .splice name
  | .type name => link (r.links.typeLink name)
  | .method owner member => link (r.links.methodLink owner member)
  | .field owner member => link (r.links.fieldLink owner member)

def linkEffect (r : Renderer) (module : QualifiedName) (signature : String) (label : DocTree) :
    Effect :=
  match Reference.parse signature with
  | .error cause => .fail (.malformedReference module signature cause)
  | .ok reference =>
    match (r.scopeOf module).resolve? reference with
    | .error e => .fail e
    | .ok none => .fail (.unresolvedLink module signature)
    | .ok (some symbol) => r.symbolEffect symbol label

/-- An inclusion names a module inside the including one. -/
def inclusionEffect (r : Renderer) (module : QualifiedName) (target : String) : Effect :=
  let qualified := QualifiedName.join module (Text.trim target)
  match r.workspace.index.lookupModule? qualified with
  | some included => .splice included
  | none => .fail (.missingModule module qualified)

mutual

/-- What a node in the documentation of `module` does. -/
def nodeEffects (r : Renderer) (module : QualifiedName) : DocNode → List Effect
  | .text body => [.emit body]
  | .link signature label => [r.linkEffect module signature label]
  | .container children => r.treeEffects module children
  | .inclusion target => [r.inclusionEffect module target]

/-- What the nodes do, in order. -/
def treeEffects (r : Renderer) (module : QualifiedName) : List DocNode → List Effect
  | [] => []
  | node :: rest => r.nodeEffects module node ++ r.treeEffects module rest

end

/-- What the documentation of a module does; a module without documentation does nothing. -/
def moduleEffects (r : Renderer) (module : QualifiedName) : List Effect :=
  match r.workspace.docTree? module with
  | some nodes => r.treeEffects module nodes
  | none => []

end Renderer
end DocWeave
