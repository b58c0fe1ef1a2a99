import Stencil.Render.Body

/-! Driving a render: its job runs once, then work put off is taken up as its futures are done. After each piece of work
    the output that is ready is handed out; the first error ends the render. -/

namespace Stencil

namespace Render

/-- Hands out the text that is ready, and the end once there is no more to come. -/
def flush (r : Render) : Render :=
  if r.progress ≠ .pending then r
  else
    let (text, chunks) := r.chunks.flush
    let events := if text.isEmpty then r.events else r.events ++ [.data text]
    if chunks.isFlushed then { r with chunks, events := events ++ [.finished], progress := .complete }
    else { r with chunks, events }

/-- Ends with an error: nothing that is left of the render counts any more. -/
def abandon (r : Render) (error : Error) : Render :=
  { r with
    progress := .failed
    chunks := .discard
    tasks := []
    loads := []
    events := r.events ++ [.failed error] }

end Render

namespace Stage

/-- Ends a render with an error, unless it has ended. -/
def fail (s : Stage) (error : Error) : Stage :=
  if s.render.progress ≠ .pending then s
  else { s with engine := s.engine.record .error error.message, render := s.render.abandon error }

/-- Takes in the outcome of a piece of work. -/
def close (s : Stage) : Except Error Unit → Stage
  | .ok () => { s with render := s.render.flush }
  | .error error => s.fail error

end Stage

namespace Render

open RenderM

/-- Takes in the outcome of a piece of work. -/
def close (outcome : Except Error Unit) : RenderM Unit :=
  modify (·.close outcome)

/-- Runs the job of a render. -/
def start (job : RenderM Unit) : RenderM Unit := do
  close (← attempt (within Chunks.root job))

variable (render : Renderer)

/-- The work that a wait leads to, once it is over. -/
def poll : Wait → RenderM (Option (RenderM Unit))
  | .text future resume => pollText future fun text => do
    let _ ← (resume text).run render
  | .load name context => pollTemplate name fun t => template render t context

/-- Takes up the work that was put off at a place of the list, and says whether there was any to do. -/
def visit (index : Nat) (task : Task) : RenderM Bool := do
  match ← poll render task.wait with
  | none => pure false
  | some work =>
    modifyRender fun r => { r with tasks := r.tasks.eraseIdx index }
    takeUp task.chunk task.wait work
    pure true

/-- Goes through the work put off, again and again until a whole round finds nothing to do, in no more than a number of
    steps. -/
def settle : (steps : Nat) → (index : Nat) → (progressed : Bool) → RenderM Unit
  | 0, _, _ => halt .outOfSteps
  | steps + 1, index, progressed => do
    let r := (← get).render
    if r.progress ≠ .pending then pure ()
    else
      match r.tasks[index]? with
      | none => if progressed then settle steps 0 false else pure ()
      | some task =>
        match ← attempt (visit render index task) with
        | .ok false => settle steps (index + 1) progressed
        | .ok true =>
          close (.ok ())
          settle steps index true
        | .error error =>
          close (.error error)
          settle steps index true

/-- Takes up all work that can be done without waiting. -/
def drive (steps : Nat) : RenderM Unit :=
  settle (exec steps) steps 0 false

end Render
end Stencil
