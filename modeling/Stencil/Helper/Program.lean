import Stencil.Config
import Stencil.Context
import Stencil.Host

/-! What a helper does, step by step. A helper is given its scope, its bodies and its parameters and answers with a
    program: it writes, renders bodies, puts work off until a future is done, uses the engine, and in the end replies.
    Every step that may fail hands its outcome on, so a helper may recover from an error or pass it on. -/

namespace Stencil

/-- What a helper hands back. -/
inductive Reply where
  /-- A value, rendered like a reference. -/
  | value (v : Value)
  /-- The helper wrote all there is. -/
  | written

/-- What a helper may do to the engine and the host. -/
inductive Action where
  | setConfig (config : Config)
  /-- Compiles a source and keeps it under its name. -/
  | addTemplate (name source : String)
  | getTemplate (name : String)
  | renameTemplate (name newName : String)
  | removeTemplate (name : String)
  | clearTemplates
  | openGate (gate : String) (outcome : Except Error String)

/-- The steps of a helper. -/
inductive Program where
  | finish (reply : Reply)
  | fail (error : Error)
  | write (text : String) (next : Except Error Unit → Program)
  /-- Renders a body here. -/
  | render (body : Body) (context : Context) (next : Except Error Unit → Program)
  /-- Renders a body on the side, to its text. -/
  | renderToString (body : Body) (context : Context) (next : Except Error String → Program)
  /-- Keeps this place for the steps that follow the text of a future; what comes next goes behind it. The reply of the
      steps kept back is not used. -/
  | defer (future : Future String) (resume : String → Program) (next : Except Error Unit → Program)
  /-- Uses the engine; the answer is the template concerned, if there is one. -/
  | act (action : Action) (next : Except Error (Option Template) → Program)

/-- The parameters of a tag. -/
abbrev Params := Dict Value

/-- A callable: what is done in a scope, with bodies and parameters. -/
abbrev Helper := Context → Bodies Body → Params → Program

namespace Program

/-- Nothing more to do. -/
def done : Program :=
  .finish .written

/-- Goes on unless the step before failed. -/
def orFail {α : Type} (next : α → Program) : Except Error α → Program
  | .ok a => next a
  | .error e => .fail e

/-- Writes a text and ends. -/
def writeText (text : String) : Program :=
  .write text (orFail fun _ => done)

/-- Renders a body, if there is one, and ends. -/
def renderBody : Option Body → Context → Program
  | some body, context => .render body context (orFail fun _ => done)
  | none, _ => done

end Program
end Stencil
