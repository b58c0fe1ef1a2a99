import Stencil.Render.Drive

/-! The output of a render as it becomes ready. Nothing runs until the stream is driven, so whoever listens from the
    start hears all of it: pieces of text, then the end or an error. A collector joins the pieces. -/

namespace Stencil

/-- What a listener hears. -/
inductive ListenerKind where
  /-- Pieces of text. -/
  | data
  /-- The end. -/
  | finished
  /-- The error. -/
  | failed
  /-- All events, after the listeners of single kinds. -/
  | sink
  /-- All events but the error, after the listeners of single kinds. -/
  | quietSink
deriving Repr, DecidableEq

/-- A listener under a label of the caller's choice. -/
structure Listener where
  label : Nat
  kind : ListenerKind
deriving Repr, DecidableEq

/-- An event as one listener hears it. -/
structure Delivery where
  listener : Listener
  event : Event
deriving Repr, DecidableEq

namespace ListenerKind

/-- Whether events of all kinds come to a listener. -/
def isSink : ListenerKind → Bool
  | .sink | .quietSink => true
  | .data | .finished | .failed => false

/-- Whether a listener hears an event. -/
def hears : ListenerKind → Event → Bool
  | .data, .data _ | .finished, .finished | .failed, .failed _ => true
  | .sink, _ => true
  | .quietSink, .data _ | .quietSink, .finished => true
  | _, _ => false

end ListenerKind

/-- An event as all listeners hear it: those of single kinds first, then those of all events, each in the order of their
    coming. -/
def deliveries (listeners : List Listener) (event : Event) : List Delivery :=
  let (sinks, others) := listeners.partition (·.kind.isSink)
  ((others ++ sinks).filter (·.kind.hears event)).map (⟨·, event⟩)

/-- What a stream renders. -/
inductive Job where
  | named (name : String) (context : Context)
  | template (t : Template) (context : Context)
  /-- Nothing: the stream fails. -/
  | fail (error : Error)

namespace Job

/-- Renders the subject of a stream. -/
def run (render : Renderer) : Job → RenderM Unit
  | .named name context => Render.named render name context
  | .template t context => Render.template render t context
  | .fail error => throw error

end Job

/-- The output of a render. -/
structure OutputStream where
  render : Render
  /-- What is to be rendered, until the stream is driven for the first time. -/
  job : Option Job
  listeners : List Listener := []
  /-- What the listeners have heard, in order. -/
  delivered : List Delivery := []
  /-- The stream has given its end or its error as an item. -/
  exhausted : Bool := false

/-- An item of a stream. -/
inductive Item where
  /-- Work is still outstanding. -/
  | pending
  | text (s : String)
  | failed (error : Error)
  | finished
deriving Repr, DecidableEq

namespace Progress

/-- How far a render has come, for reading by people. -/
def label : Progress → String
  | .pending => "Pending"
  | .complete => "Complete"
  | .failed => "Failed"

end Progress

namespace OutputStream

/-- A stream of a job, under the settings of the moment. -/
def new (e : Engine) (job : Job) : OutputStream :=
  { render := { config := e.config }, job := some job }

/-- Adds a listener. -/
def attach (o : OutputStream) (listener : Listener) : OutputStream :=
  { o with listeners := o.listeners ++ [listener] }

/-- How far the render has come. -/
def progress (o : OutputStream) : Progress :=
  o.render.progress

/-- All that can be done without waiting: the job, unless it has run, then the work that was put off. -/
def work (steps : Nat) (o : OutputStream) : RenderM Unit := do
  match o.job with
  | none => pure ()
  | some job => Render.start (job.run (Render.exec steps))
  Render.drive steps

/-- Does all that can be done without waiting. -/
def advance (steps : Nat) (w : World) (o : OutputStream) : Except Halt (World × OutputStream) := do
  let (_, s) ← (o.work steps).run { w with render := o.render }
  pure (s.toWorld, { o with render := s.render, job := none })

/-- Tells the listeners one event. -/
def tell (o : OutputStream) (event : Event) : OutputStream :=
  { o with delivered := o.delivered ++ deliveries o.listeners event }

/-- Takes the next event, which the listeners hear. -/
def nextEvent (o : OutputStream) : Option (Event × OutputStream) :=
  match o.render.events with
  | [] => none
  | event :: rest => some (event, { o with render := { o.render with events := rest } }.tell event)

/-- Tells the listeners all events that wait. -/
def tellAll (o : OutputStream) : OutputStream :=
  o.render.events.foldl tell { o with render := { o.render with events := [] } }

/-- Runs all that can run without waiting and tells the listeners. -/
def runUntilStalled (steps : Nat) (w : World) (o : OutputStream) : Except Halt (Progress × World × OutputStream) := do
  let (w, o) ← o.advance steps w
  pure (o.progress, w, o.tellAll)

/-- Takes the next item. The end and the error are given once; after them, and where the listeners have heard all events
    already, there is nothing more. -/
def pollNext (steps : Nat) (w : World) (o : OutputStream) : Except Halt (Item × World × OutputStream) :=
  if o.exhausted then .ok (.finished, w, o)
  else do
    let (w, o) ← o.advance steps w
    match o.nextEvent with
    | some (.data text, o) => pure (.text text, w, o)
    | some (.failed error, o) => pure (.failed error, w, { o with exhausted := true })
    | some (.finished, o) => pure (.finished, w, { o with exhausted := true })
    | none =>
      if o.progress = .pending then pure (.pending, w, o)
      else pure (.finished, w, { o with exhausted := true })

/-- The stream for reading by people. -/
def debugText (o : OutputStream) : String :=
  "OutputStream \x7b state: " ++ o.progress.label ++ ", started: " ++ Config.boolText o.job.isNone ++ ", .. \x7d"

end OutputStream

/-- A stream whose pieces are joined. -/
structure Collector where
  stream : OutputStream
  output : String := ""

namespace Collector

/-- Takes items from the stream, no more than a number of them, and gives the whole output or the error once it is
    there. -/
def takeItems (steps : Nat) :
    (count : Nat) → World → Collector → Except Halt (Option (Except Error String) × World × Collector)
  | 0, _, _ => .error .outOfSteps
  | count + 1, w, c => do
    let (item, w, stream) ← c.stream.pollNext steps w
    match item with
    | .text s => takeItems steps count w { stream, output := c.output ++ s }
    | .failed error => pure (some (.error error), w, { c with stream })
    | .finished => pure (some (.ok c.output), w, { stream, output := "" })
    | .pending => pure (none, w, { c with stream })

/-- Goes on without waiting, and gives the whole output or the error once it is there. -/
def poll (steps : Nat) (w : World) (c : Collector) :
    Except Halt (Option (Except Error String) × World × Collector) :=
  takeItems steps steps w c

end Collector

/-- What to render: a name or a template in hand. -/
inductive Subject where
  | name (name : String)
  | template (t : Template)

namespace Engine

/-- The output of a template in a scope. -/
def stream (e : Engine) (subject : Subject) (context : Context) : OutputStream :=
  .new e (match subject with
    | .name name => .named name context
    | .template t => .template t context)

/-- The output of a source, which is compiled but not kept. A source that does not compile makes the stream fail. -/
def streamSource (e : Engine) (source : String) (context : Context) : OutputStream :=
  match e.compile source none with
  | .ok t => e.stream (.template t) context
  | .error error => .new e (.fail error)

end Engine
end Stencil
