import Stencil.Render.Code

/-! What running code does to its output. It writes to the innermost of the chunks in use, keeps its place for work put
    off and goes on in a chunk behind it, and may render on the side. -/

namespace Stencil.RenderM

variable {α : Type}

/-- The chunk that running code writes to. -/
def writer : RenderM ChunkId := do
  match (← get).render.writers with
  | id :: _ => pure id
  | [] => halt (.violation (.protocol "no chunk is being written"))

/-- Writes a text. -/
def write (text : String) : RenderM Unit := do
  if text.isEmpty then pure ()
  else
    let chunks ← rightful ((← get).render.chunks.write (← writer) text)
    modifyRender fun r => { r with chunks }

/-- Keeps the chunk that is being written and goes on in a new one behind it. -/
def reserve : RenderM ChunkId := do
  let reserved ← writer
  let (behind, chunks) ← rightful ((← get).render.chunks.insertAfter reserved)
  modifyRender fun r => { r with chunks, writers := behind :: r.writers.tail }
  pure reserved

/-- Goes to another chunk, to come back later. -/
def enter (chunk : ChunkId) : RenderM Unit :=
  modifyRender fun r => { r with writers := chunk :: r.writers }

/-- Comes back from a chunk. -/
def leave : RenderM Unit :=
  modifyRender fun r => { r with writers := r.writers.tail }

/-- Ends the chunk that is being written and comes back from it. -/
def finish : RenderM Unit := do
  let chunks ← rightful ((← get).render.chunks.finish (← writer))
  modifyRender fun r => { r with chunks, writers := r.writers.tail }

/-- Runs code that writes to a chunk of its own, and ends the chunk that the code leaves off in. Code that fails ends no
    chunk. -/
def within (chunk : ChunkId) (x : RenderM Unit) : RenderM Unit := do
  enter chunk
  match ← attempt x with
  | .ok () => finish
  | .error e =>
    leave
    throw e

/-- Puts work off. -/
def park (chunk : ChunkId) (wait : Wait) : RenderM Unit :=
  modifyRender fun r => { r with tasks := r.tasks ++ [⟨chunk, wait⟩] }

/-- Notes what happens. -/
def note (entry : Entry) : RenderM Unit :=
  modifyRender fun r => { r with journal := entry :: r.journal }

/-- Does work that was put off, in the chunk kept for it. -/
def takeUp (chunk : ChunkId) (wait : Wait) (work : RenderM Unit) : RenderM Unit := do
  note (.taken wait)
  match ← attempt (within chunk work) with
  | .ok () => note (.finished wait)
  | .error e =>
    note (.failed wait)
    throw e

/-- Keeps this place for work and goes on behind it. The work is done at once if it need not wait. -/
def putOff (wait : Wait) (poll : RenderM (Option (RenderM Unit))) : RenderM Unit := do
  let reserved ← reserve
  note (.deferred wait)
  match ← poll with
  | none => park reserved wait
  | some work => takeUp reserved wait work

/-- The error of a side render that puts work off. -/
def notSynchronous (template : Option String) : Error :=
  .helper none template "parameter body did not render synchronously"

/-- The text that a step writes to a render of its own, under the settings of the moment. The render around it stays as
    it is. -/
def toText (template : Option String) (x : RenderM Unit) : RenderM String := do
  let outer := (← get).render
  let config := (← get).engine.config
  modify fun s =>
    { s with engine := s.engine.read (.aside config.cache config.maxPartialDepth), render := { config } }
  let outcome ← attempt do
    within Chunks.root x
    let side := (← get).render
    if side.tasks.isEmpty then pure side.chunks.flush.1 else throw (notSynchronous template)
  modifyRender fun _ => outer
  ofExcept outcome

/-- The helper of a name. -/
def helper? (name : String) : RenderM (Option Helper) := do
  pure (Dict.get? name (← get).engine.helpers)

/-- What a callable does. -/
def callable (id : FunctionId) : RenderM Helper := do
  pure ((← get).engine.functions id)

/-- How deeply partials may nest. -/
def depthLimit : RenderM Nat := do
  pure (← get).render.config.maxPartialDepth

/-- The template kept under a name as this render sees it. -/
def kept? (name : String) : RenderM (Option Template) := do
  let s ← get
  pure (s.engine.lookup name s.render.config.cache)

/-- Starts the load of a name, unless this render has started it before. -/
def startLoad (name : String) (template : Option String) : RenderM Unit := do
  if Dict.contains name (← get).render.loads then pure ()
  else
    match (← get).engine.loader with
    | none =>
      record .error ("Template Not Found: " ++ name)
      throw (.templateNotFound name template)
    | some loader =>
      record .debug ("Loading template `" ++ name ++ "`")
      let answer ← withEngine (·.ask loader name)
      modifyRender fun r =>
        { r with loads := Dict.insert name (.begin r.config.maxPartialDepth name answer) r.loads }

/-- Takes the load of a name as far as the host allows, and gives its result once it is settled. -/
def pollLoad (name : String) : RenderM (Option (Except Error Template)) := do
  let s ← get
  match Dict.get? name s.render.loads with
  | none => pure none
  | some load =>
    let load ← withEngine (load.poll s.host s.render.config.cache s.render.config.maxPartialDepth)
    modifyRender fun r => { r with loads := Dict.insert name load r.loads }
    pure load.result?

/-- The work that follows the text of a future, once there is an outcome. -/
def pollText (future : Future String) (work : String → RenderM Unit) : RenderM (Option (RenderM Unit)) := do
  match future (← get).host with
  | none => pure none
  | some (.error error) => pure (some (throw error))
  | some (.ok text) => pure (some (work text))

/-- The work that follows the load of a name, once there is a result. -/
def pollTemplate (name : String) (work : Template → RenderM Unit) : RenderM (Option (RenderM Unit)) := do
  match ← pollLoad name with
  | none => pure none
  | some (.error error) => pure (some (throw error))
  | some (.ok t) => pure (some (work t))

/-- Uses the engine or the host on behalf of a helper. -/
def perform : Action → RenderM (Option Template)
  | .setConfig config => do
    modifyEngine (·.setConfig config)
    pure none
  | .addTemplate name source => do
    some <$> ofExcept (← withEngine (·.addTemplate name source))
  | .getTemplate name => do
    pure ((← get).engine.getTemplate name)
  | .renameTemplate name newName => do
    modifyEngine (·.renameTemplate name newName)
    pure ((← get).engine.getTemplate name)
  | .removeTemplate name => do
    let t := (← get).engine.getTemplate name
    modifyEngine (·.removeTemplate name)
    pure t
  | .clearTemplates => do
    modifyEngine (·.clearTemplates)
    pure none
  | .openGate gate outcome => do
    modify fun s => { s with host := s.host.openGate gate outcome }
    pure none

end Stencil.RenderM
