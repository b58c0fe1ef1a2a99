import Stencil.Host

/-! Loaders find templates that an engine does not hold. -/

namespace Stencil

/-- What a loader finds under a name. -/
inductive Loaded where
  /-- A source, to be compiled under the name asked for. -/
  | source (text : String)
  /-- A template, rendered under its own name. -/
  | template (t : Template)
  /-- The template of another name, to be looked for in its turn. -/
  | redirect (name : String)

/-- A loader answers a name with the future of what it finds. The answer may depend on the names it was asked before,
    given in their order. -/
structure Loader where
  load : (asked : List String) → (name : String) → Future Loaded

end Stencil
