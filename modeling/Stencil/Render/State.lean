import Stencil.Engine.Load
import Stencil.Render.Chunk

/-! The state of a render: its output, the work it has put off, the loads it has started, and what is to be told to
    those who listen. -/

namespace Stencil

/-- What is told to those who listen. -/
inductive Event where
  | data (text : String)
  | finished
  | failed (error : Error)
deriving Repr, DecidableEq

/-- How far a render has come. -/
inductive Progress where
  /-- Work is still outstanding. -/
  | pending
  /-- All output is there. -/
  | complete
  | failed
deriving Repr, DecidableEq

/-- What work put off waits for. -/
inductive Wait where
  /-- The text of a future, for the steps that follow it. -/
  | text (future : Future String) (resume : String → Program)
  /-- The load of a name, to render the template in a scope. -/
  | load (name : String) (context : Context)

/-- Work put off, with the chunk kept for it. -/
structure Task where
  chunk : ChunkId
  wait : Wait

/-- What became of work put off, and which slots were filled. -/
inductive Entry where
  | deferred (wait : Wait)
  /-- The wait is over. -/
  | taken (wait : Wait)
  | finished (wait : Wait)
  | failed (wait : Wait)
  /-- A slot was filled inside so many others. -/
  | filled (fillings : Nat)

/-- The state of a render. -/
structure Render where
  /-- The settings when the render began. -/
  config : Config
  chunks : Chunks := .new
  /-- The chunks that running code writes to, the innermost first. -/
  writers : List ChunkId := []
  tasks : List Task := []
  /-- What became of the work put off and which slots were filled, the latest first. Rendering never looks at it. -/
  journal : List Entry := []
  /-- The loads started, by name. -/
  loads : Dict Load := []
  events : List Event := []
  progress : Progress := .pending

/-- An engine and the world around it. -/
structure World where
  engine : Engine := {}
  host : Host := {}

/-- A render with its engine and the world around them. -/
structure Stage extends World where
  render : Render

/-- Why a run stops where it stands. -/
inductive Halt where
  /-- The run was not given enough steps. -/
  | outOfSteps
  /-- A chunk was used that does not exist or has ended. No code can recover from that. -/
  | violation (error : Error)
deriving Repr, DecidableEq

end Stencil
