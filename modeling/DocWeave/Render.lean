import DocWeave.Render.Effect
import DocWeave.Render.IncludeStack

/-!
# Rendering

Rendering a module enters it on the include stack, performs its effects one after the other and
leaves it again. Each included module is declared and not yet on the stack, so the number of
declared modules that are not on the stack bounds how deep the includes go.
-/

namespace DocWeave

/-- An action on the include stack and the text written so far. -/
abbrev RenderAction := StackAction String

namespace RenderAction

/-- Performs one effect; `splice` renders another module. -/
def perform (splice : QualifiedName → RenderAction) : Effect → RenderAction
  | .emit text => fun (stack, out) => (.ok (), stack, out ++ text)
  | .splice module => splice module
  | .fail cause => fun s => (.error cause, s)

/-- Performs effects in order up to the first that fails. -/
def performAll (splice : QualifiedName → RenderAction) : List Effect → RenderAction
  | [] => fun s => (.ok (), s)
  | effect :: rest => (perform splice effect).andThen (performAll splice rest)

end RenderAction

namespace Renderer

/-- Renders a module with at most `levels` further modules entered inside each other; when none is
left, a module can only be entered. -/
def renderWithin (r : Renderer) : Nat → QualifiedName → RenderAction
  | 0, module => StackAction.within module fun s => (.ok (), s)
  | levels + 1, module =>
    StackAction.within module
      (RenderAction.performAll (r.renderWithin levels) (r.moduleEffects module))

/-- How many modules can be entered inside each other: the module asked for and the declared ones
that are not on the stack. -/
def includeLevels (r : Renderer) (stack : IncludeStack) : Nat :=
  (r.workspace.index.modules.keys.filter (!stack.contains ·)).length + 1

/-- Renders a module onto the end of a text, inside the modules on the stack. -/
def render (r : Renderer) (module : QualifiedName) : RenderAction := fun (stack, out) =>
  r.renderWithin (r.includeLevels stack) module (stack, out)

/-- The text of a module. -/
def renderModule (r : Renderer) (module : QualifiedName) : Except DocError String :=
  match r.render module ({}, "") with
  | (.ok (), _, text) => .ok text
  | (.error cause, _) => .error cause

end Renderer
end DocWeave
