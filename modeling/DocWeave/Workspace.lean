import DocWeave.Comment.Parser
import DocWeave.SymbolIndex

/-!
# Workspaces

A workspace holds the declarations, the documentation of modules and the modules to generate.
Documentation and marks may come before the declaration. The last documentation set for a module
counts; marks keep the order in which they were first made.
-/

namespace DocWeave

/-- Documentation as it was given. -/
inductive ModuleDoc where
  | comment (raw : String)
  | tree (nodes : DocTree)
  deriving Repr

/-- The tree of some documentation; a comment is read under the configuration. -/
def ModuleDoc.nodes (config : Config) : ModuleDoc → DocTree
  | comment raw => Comment.parse config raw
  | tree nodes => nodes

structure Workspace where
  config : Config := {}
  index : SymbolIndex := {}
  docs : Registry (QualifiedName × ModuleDoc) Prod.fst := .empty
  marked : NameSet := .empty

namespace Workspace

instance : Inhabited Workspace := ⟨{}⟩

def addType (w : Workspace) (decl : TypeDecl) : Workspace :=
  { w with index := w.index.addType decl }

def addModule (w : Workspace) (decl : ModuleDecl) : Workspace :=
  { w with index := w.index.addModule decl }

def setDoc (w : Workspace) (module : QualifiedName) (doc : ModuleDoc) : Workspace :=
  { w with docs := w.docs.insert (module, doc) }

/-- Marks a module for generation. -/
def markGenerated (w : Workspace) (module : QualifiedName) : Workspace :=
  { w with marked := w.marked.insert module }

def isGenerated (w : Workspace) (module : QualifiedName) : Bool :=
  w.marked.contains module

/-- The documentation of a module, declared or not. -/
def docTree? (w : Workspace) (module : QualifiedName) : Option DocTree :=
  (w.docs.find? module).map fun (_, doc) => doc.nodes w.config

/-- The declared modules among the marked ones, in the order of marking. -/
def discover (w : Workspace) : List QualifiedName :=
  w.marked.entries.filter w.index.hasModule

end Workspace
end DocWeave
