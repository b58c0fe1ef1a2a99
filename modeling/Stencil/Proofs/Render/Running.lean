import Stencil.Proofs.Render.Coupling
import Stencil.Proofs.Render.Ownership
import Stencil.Proofs.Render.Passage
import Stencil.Stream

/-! Running code keeps what the chunks' owners rely on, whatever helpers do with the errors they get. -/

namespace Stencil
namespace RenderM

open Render

variable {α β : Type} {x : RenderM α} {f : α → RenderM β} {s : Stage} {id : ChunkId}
  {rest : List ChunkId}

/-- From a stage where it is the writer the code stays within its rights, stops only for want of steps, keeps what
    others rely on, and gives results with a property. -/
def Keeps (V : α → Prop) (x : RenderM α) : Prop := ∀ s : Stage, s.render.Sound → s.render.writers ≠ [] →
  x.Safe (·.render.Owned) (· = .outOfSteps) s fun o t => Kept s.render t.render ∧ ∀ a, o = .ok a → V a

/-- The code leaves the render alone, its loads apart, and its outcomes have a property. -/
def Quiet (V : Except Error α → Prop) (x : RenderM α) : Prop := ∀ s : Stage,
  x.Safe (fun t => t.render = { s.render with loads := t.render.loads }) (fun _ => False) s fun o _ => V o

/-! ### Code that leaves the render alone -/

namespace Quiet

variable {V : Except Error α → Prop} {W : Except Error β → Prop}

theorem pure {a : α} (h : V (.ok a)) : Quiet V (pure a) := fun _ => ⟨rfl, h⟩

theorem throw {e : Error} (h : V (.error e)) : Quiet V (throw e) := fun _ => ⟨rfl, h⟩

theorem ofExcept {outcome : Except Error α} (h : V outcome) : Quiet V (ofExcept outcome) := by
  cases outcome with
  | ok a => exact pure h
  | error e => exact throw h

theorem bind {x : RenderM β} {f : β → RenderM α} (hx : Quiet W x) (hf : ∀ a, W (.ok a) → Quiet V (f a))
    (he : ∀ e, W (.error e) → V (.error e)) : Quiet V (x >>= f) := by
  intro s
  refine Safe.bind ((hx s).mono fun o t same outcome => ?_)
  cases o with
  | ok a =>
    refine (hf a outcome t).weaken (fun u same' => ?_) fun _ no => no
    rw [same', same]
  | error e => exact he e outcome

theorem get_bind {f : Stage → RenderM α} (h : ∀ s, Quiet V (f s)) : Quiet V (get >>= f) := fun s => h s s

theorem modifyEngine_bind {g : Engine → Engine} {f : Unit → RenderM α} (h : Quiet V (f ())) :
    Quiet V (modifyEngine g >>= f) := fun s => ⟨rfl, h { s with engine := g s.engine }⟩

theorem withEngine_bind {g : Engine → β × Engine} {f : β → RenderM α} (h : ∀ b, Quiet V (f b)) :
    Quiet V (withEngine g >>= f) := fun s => ⟨rfl, h (g s.engine).1 { s with engine := (g s.engine).2 }⟩

theorem modifyLoads_bind {g : Render → Dict Load} {f : Unit → RenderM α} (h : Quiet V (f ())) :
    Quiet V ((modifyRender fun r => { r with loads := g r }) >>= f) := fun s =>
  ⟨rfl, (h { s with render := { s.render with loads := g s.render } }).weaken (fun _ same => same) fun _ no => no⟩

theorem helper? (name : String) : Quiet (fun _ => True) (helper? name) := get_bind fun _ => pure trivial

theorem callable (id : FunctionId) : Quiet (fun _ => True) (callable id) := get_bind fun _ => pure trivial

theorem depthLimit : Quiet (fun _ => True) depthLimit := get_bind fun _ => pure trivial

theorem kept? (name : String) : Quiet (fun _ => True) (kept? name) := get_bind fun _ => pure trivial

theorem record (level : LogLevel) (message : String) : Quiet (fun _ => True) (record level message) :=
  fun _ => ⟨rfl, rfl, trivial⟩

theorem called (call : Call) : Quiet (fun _ => True) (called call) := fun _ => ⟨rfl, rfl, trivial⟩

theorem withEngine (g : Engine → α × Engine) : Quiet (fun _ => True) (withEngine g) := fun _ => ⟨rfl, rfl, trivial⟩

theorem startLoad (name : String) (template : Option String) : Quiet (fun _ => True) (startLoad name template) := by
  refine get_bind fun s => ?_
  split
  · exact pure trivial
  · refine get_bind fun s => ?_
    split
    · exact bind (record _ _) (fun _ _ => throw trivial) fun _ _ => trivial
    · exact bind (record _ _) (fun _ _ => withEngine_bind fun _ _ => ⟨rfl, rfl, trivial⟩) fun _ _ => trivial

theorem pollLoad (name : String) : Quiet (∃ result, · = .ok result) (pollLoad name) := by
  refine get_bind fun s => ?_
  split
  · exact pure ⟨_, rfl⟩
  · exact withEngine_bind fun _ => modifyLoads_bind (pure ⟨_, rfl⟩)

theorem perform (action : Action) : Quiet (fun _ => True) (perform action) := by
  cases action with
  | setConfig config => exact modifyEngine_bind (pure trivial)
  | addTemplate name source =>
    exact withEngine_bind fun outcome =>
      bind (W := fun _ => True) (ofExcept trivial) (fun _ _ => pure trivial) fun _ _ => trivial
  | getTemplate name => exact get_bind fun _ => pure trivial
  | renameTemplate name newName => exact modifyEngine_bind (get_bind fun _ => pure trivial)
  | removeTemplate name => exact get_bind fun _ => modifyEngine_bind (pure trivial)
  | clearTemplates => exact modifyEngine_bind (pure trivial)
  | openGate gate outcome => exact fun s => ⟨rfl, rfl, trivial⟩

theorem pollText {P : RenderM Unit → Prop} {future : Future String} {work : String → RenderM Unit}
    (hw : ∀ text, P (work text)) (he : ∀ e, P (MonadExcept.throw e)) :
    Quiet (∃ found, · = .ok found ∧ ∀ x, found = some x → P x) (pollText future work) := by
  refine get_bind fun s => ?_
  split
  · exact pure ⟨none, rfl, fun _ no => by cases no⟩
  · next e _ => exact pure ⟨_, rfl, fun _ same => by cases same; exact he e⟩
  · next text _ => exact pure ⟨_, rfl, fun _ same => by cases same; exact hw text⟩

theorem pollTemplate {P : RenderM Unit → Prop} {name : String} {work : Template → RenderM Unit}
    (hw : ∀ t, P (work t)) (he : ∀ e, P (MonadExcept.throw e)) :
    Quiet (∃ found, · = .ok found ∧ ∀ x, found = some x → P x) (pollTemplate name work) := by
  refine bind (pollLoad name) (fun result _ => ?_) fun _ no => ?_
  · split
    · exact pure ⟨none, rfl, fun _ no => by cases no⟩
    · next e _ => exact pure ⟨_, rfl, fun _ same => by cases same; exact he e⟩
    · next t _ => exact pure ⟨_, rfl, fun _ same => by cases same; exact hw t⟩
  · obtain ⟨_, no⟩ := no
    cases no

end Quiet

theorem Quiet.keeps {V : α → Prop} (h : Quiet (fun o => ∀ a, o = .ok a → V a) x) : Keeps V x := by
  intro s sound writing
  have kept (t : Stage) (same : t.render = { s.render with loads := t.render.loads }) : Kept s.render t.render := by
    rw [same]
    exact ⟨⟨sound.owned, sound.linked⟩, writing, rfl, rfl, .of_eq rfl rfl rfl rfl rfl⟩
  refine ((h s).mono fun o t same results => ⟨kept t same, results⟩).weaken (fun t same => ?_) fun _ no => no.elim
  exact (kept t same).sound.owned

theorem Quiet.keeps_any (h : Quiet (fun _ => True) x) : Keeps (fun _ => True) x :=
  Quiet.keeps fun s => (h s).mono fun _ _ _ _ _ _ => trivial

/-! ### Code that writes -/

theorem safe_writer {I : Stage → Prop} {H : Halt → Prop} {Q : Except Error ChunkId → Stage → Prop}
    (writing : s.render.writers = id :: rest) (here : I s) (h : Q (.ok id) s) : writer.Safe I H s Q := by
  refine Safe.bind (Safe.get here ?_)
  dsimp only
  rw [writing]
  exact Safe.pure here h

namespace Keeps

variable {V : α → Prop} {W : β → Prop}

theorem pure {a : α} (h : V a) : Keeps V (pure a) := Quiet.keeps (Quiet.pure fun _ same => by cases same; exact h)

theorem throw (e : Error) : Keeps V (throw e) := Quiet.keeps (Quiet.throw fun _ no => by cases no)

theorem bind {x : RenderM β} {f : β → RenderM α} (hx : Keeps W x) (hf : ∀ a, W a → Keeps V (f a)) :
    Keeps V (x >>= f) := by
  intro s sound writing
  refine Safe.bind ((hx s sound writing).mono fun o t owned end' => ?_)
  obtain ⟨kept, results⟩ := end'
  cases o with
  | ok a => exact (hf a (results a rfl) t kept.sound kept.writing).mono fun _ _ _ end' => ⟨kept.trans end'.1, end'.2⟩
  | error e => exact ⟨kept, fun _ no => by cases no⟩

theorem mono {W : α → Prop} (hx : Keeps V x) (imp : ∀ a, V a → W a) : Keeps W x := fun s sound writing =>
  (hx s sound writing).mono fun _ _ _ end' => ⟨end'.1, fun a same => imp a (end'.2 a same)⟩

theorem attempt (hx : Keeps V x) : Keeps (fun _ => True) (attempt x) := fun s sound writing =>
  Safe.attempt ((hx s sound writing).mono fun _ _ _ end' => ⟨end'.1, fun _ _ => trivial⟩)

theorem mapError (hx : Keeps V x) (g : Error → Error) : Keeps V (mapError g x) := fun s sound writing =>
  Safe.mapError ((hx s sound writing).mono fun o t _ end' => ⟨end'.1, fun a same => end'.2 a (by
    cases o with
    | ok b => exact same
    | error e => cases same)⟩)

theorem write (text : String) : Keeps (fun _ => True) (write text) := by
  intro s sound writing
  obtain ⟨id, rest, writing'⟩ := List.exists_cons_of_ne_nil writing
  unfold RenderM.write
  split
  · exact pure trivial s sound writing
  · obtain ⟨cs, done⟩ := (sound.isOpen_writer writing').exists_write text
    refine Safe.bind (Safe.get sound.owned (Safe.bind (safe_writer writing' sound.owned ?_)))
    dsimp only
    rw [done]
    have sound' := sound.write done
    exact Safe.bind (Safe.pure sound.owned (Safe.modifyRender sound.owned sound'.owned
      ⟨⟨sound', writing, rfl, spares_write done, .of_eq rfl rfl rfl rfl rfl⟩, fun _ _ => trivial⟩))

end Keeps

/-- Work put off has been done in a chunk that was spare: the chunk has ended, or the failed work has left it behind. -/
structure Worked (wait : Wait) (r r' : Render) : Prop where
  sound : r'.Sound
  writers : r'.writers = r.writers
  spares : r'.spares = r.spares - 1
  config : r'.config = r.config
  events : r'.events = r.events
  progress : r'.progress = r.progress
  limbo (p : Wait → Bool) : r'.limbo p = r.limbo p - weight p wait
  running (p : Wait → Bool) : r'.running p = r.running p

/-- Code has run in a chunk of its own. -/
structure Confined (outcome : Except Error Unit) (r r' : Render) : Prop where
  sound : r'.Sound
  writers : r'.writers = r.writers
  alike : Alike r r'
  spares : r'.spares = r.spares - match outcome with
    | .ok _ => 1
    | .error _ => 0

theorem safe_finish {I : Stage → Prop} {H : Halt → Prop} {Q : Except Error Unit → Stage → Prop} {cs : Chunks}
    (writing : s.render.writers = id :: rest) (done : s.render.chunks.finish id = .ok cs) (here : I s)
    (after : I { s with render := { s.render with chunks := cs, writers := s.render.writers.tail } })
    (h : Q (.ok ()) { s with render := { s.render with chunks := cs, writers := s.render.writers.tail } }) :
    finish.Safe I H s Q := by
  refine Safe.bind (Safe.get here (Safe.bind (safe_writer writing here ?_)))
  dsimp only
  rw [done]
  exact Safe.bind (Safe.pure here (Safe.modifyRender here after h))

/-- Code that keeps ownership may run in any spare chunk. -/
theorem safe_within {x : RenderM Unit} (hx : Keeps (fun _ => True) x) (sound : s.render.Sound) (spare : s.render.Spare id) :
    (within id x).Safe (·.render.Owned) (· = .outOfSteps) s fun o t => Confined o s.render t.render := by
  have entered := sound.enter spare
  refine Safe.bind (Safe.modifyRender sound.owned entered.owned (Safe.bind (Safe.attempt ?_)))
  refine (hx _ entered (List.cons_ne_nil _ _)).mono fun o t owned end' => ?_
  have kept := end'.1
  obtain ⟨last, others, writing⟩ := List.exists_cons_of_ne_nil kept.writing
  have behind : t.render.writers.tail = s.render.writers := kept.behind
  have entering : Alike s.render { s.render with writers := id :: s.render.writers } := .of_eq rfl rfl rfl rfl rfl
  have alike : Alike s.render t.render := entering.trans kept.alike
  have spares := kept.spares
  rw [spares_enter] at spares
  cases o with
  | ok done =>
    obtain ⟨cs, ended⟩ := (kept.sound.isOpen_writer writing).exists_finish
    have sound' := kept.sound.finish writing ended
    have spares' := spares_finish writing ended
    exact safe_finish writing ended owned sound'.owned ⟨sound', behind,
      alike.trans (.of_eq rfl rfl rfl rfl rfl), spares'.trans spares⟩
  | error e =>
    obtain ⟨sound', -⟩ := kept.sound.leave writing
    have spares' := spares_leave writing
    exact Safe.bind (Safe.modifyRender owned sound'.owned (Safe.throw sound'.owned ⟨sound', behind,
      alike.trans (.of_eq rfl rfl rfl rfl rfl), by dsimp only; omega⟩))

theorem safe_takeUp {x : RenderM Unit} {wait : Wait} (hx : Keeps (fun _ => True) x) (sound : s.render.Sound)
    (spare : s.render.Spare id) :
    (takeUp id wait x).Safe (·.render.Owned) (· = .outOfSteps) s fun _ t => Worked wait s.render t.render := by
  let noted : Stage := { s with render := { s.render with journal := .taken wait :: s.render.journal } }
  have sound' : noted.render.Sound := ⟨sound.owned, sound.linked⟩
  refine Safe.bind (Safe.modifyRender sound.owned sound.owned (Safe.bind (Safe.attempt ?_)))
  refine (safe_within (s := noted) hx sound' spare).mono fun o t owned c => ?_
  have spares : t.render.spares = s.render.spares - _ := c.spares
  have limbo (p : Wait → Bool) : t.render.limbo p = s.render.limbo p - weight p wait :=
    (c.alike.limbo p).trans limbo_taken
  have running (p : Wait → Bool) : t.render.running p = s.render.running p + weight p wait :=
    (c.alike.running p).trans running_taken
  cases o with
  | ok done =>
    refine Safe.modifyRender owned owned ⟨⟨owned, c.sound.linked⟩, c.writers, spares, c.alike.config, c.alike.events,
      c.alike.progress, limbo, fun p => ?_⟩
    rw [running_finished, running p]
    omega
  | error e =>
    refine Safe.bind (Safe.modifyRender owned owned (Safe.throw owned ⟨⟨owned, c.sound.linked⟩, c.writers, ?_,
      c.alike.config, c.alike.events, c.alike.progress, limbo, fun p => ?_⟩))
    · rw [spares_failed, spares]
      dsimp only
      omega
    · rw [running_failed, running p]
      omega

namespace Keeps

/-- What a side render does to its chunks, the render around it does not see. -/
theorem toText {x : RenderM Unit} (hx : Keeps (fun _ => True) x) (template : Option String) :
    Keeps (fun _ => True) (toText template x) := by
  intro s sound writing
  have here := sound.owned
  obtain ⟨sound', spare⟩ := sound_new s.engine.config
  refine Safe.bind (Safe.get here (Safe.bind (Safe.get here (Safe.bind (Safe.modify here sound'.owned ?_)))))
  have back (t : Stage) (outcome : Except Error String) (owned : t.render.Owned) :
      (do modifyRender fun _ => s.render; ofExcept outcome : RenderM String).Safe (·.render.Owned) (· = .outOfSteps) t
        fun o u => Kept s.render u.render ∧ ∀ a, o = .ok a → True := by
    refine Safe.bind (Safe.modifyRender owned here ?_)
    cases outcome with
    | ok text => exact Safe.pure here ⟨.refl sound writing, fun _ _ => trivial⟩
    | error e => exact Safe.throw here ⟨.refl sound writing, fun _ _ => trivial⟩
  refine Safe.bind (Safe.attempt (Safe.bind ((safe_within hx sound' spare).mono fun o t owned _ => ?_)))
  cases o with
  | ok _ =>
    refine Safe.bind (Safe.get owned ?_)
    dsimp only
    split
    · exact Safe.pure owned (back t _ owned)
    · exact Safe.throw owned (back t _ owned)
  | error e => exact back t _ owned

/-- Work is put off where the code stands, and the code goes on behind it. -/
theorem putOff {wait : Wait} {poll : RenderM (Option (RenderM Unit))}
    (hp : Quiet (∃ found, · = .ok found ∧ ∀ x, found = some x → Keeps (fun _ => True) x) poll) :
    Keeps (fun _ => True) (putOff wait poll) := by
  intro s sound writing
  obtain ⟨id, rest, writing'⟩ := List.exists_cons_of_ne_nil writing
  obtain ⟨new, cs, done⟩ := (sound.isOpen_writer writing').exists_insertAfter
  obtain ⟨reserved, spare⟩ := sound.reserve writing' done
  let u : Stage := { s with render := { s.render with
    chunks := cs, writers := new :: s.render.writers.tail, journal := .deferred wait :: s.render.journal } }
  have owned : u.render.Owned := reserved.owned
  have reserve' : reserve.Safe (·.render.Owned) (· = .outOfSteps) s fun o t => o = .ok id ∧
      t = { s with render := { s.render with chunks := cs, writers := new :: s.render.writers.tail } } := by
    refine Safe.bind (safe_writer writing' sound.owned (Safe.bind (Safe.get sound.owned ?_)))
    dsimp only
    rw [done]
    exact Safe.bind (Safe.pure sound.owned (Safe.bind (Safe.modifyRender sound.owned owned (Safe.pure owned ⟨rfl, rfl⟩))))
  refine Safe.bind (reserve'.mono fun o t _ same => ?_)
  obtain ⟨rfl, rfl⟩ := same
  have polled := ((hp u).mono fun o t same outcome => And.intro same outcome).weaken
    (J := (·.render.Owned)) (K := (· = .outOfSteps)) (fun t same => by rw [same]; exact owned) fun _ no => no.elim
  refine Safe.bind (Safe.modifyRender owned owned (Safe.bind (polled.mono fun o t owned' end' => ?_)))
  obtain ⟨same, found, rfl, work⟩ := end'
  have soundT : t.render.Sound := ⟨owned', by rw [same]; exact reserved.linked⟩
  have spareT : t.render.Spare id := by
    rw [same]
    exact spare
  have writers : t.render.writers = new :: s.render.writers.tail := by
    rw [same]
  have spares : t.render.spares = s.render.spares + 1 := by
    rw [same]
    exact spares_reserve sound writing' done
  have limbo (p : Wait → Bool) : t.render.limbo p = s.render.limbo p + weight p wait := by
    rw [same]
    exact limbo_deferred
  have running (p : Wait → Bool) : t.render.running p = s.render.running p := by
    rw [same]
    rfl
  have config : t.render.config = s.render.config := by
    rw [same]
  have events : t.render.events = s.render.events := by
    rw [same]
  have progress : t.render.progress = s.render.progress := by
    rw [same]
  cases found with
  | none =>
    have parked : Sound { t.render with tasks := t.render.tasks ++ [⟨id, wait⟩] } := soundT.park spareT
    refine Safe.modifyRender owned' parked.owned ⟨⟨parked, ?_, ?_, ?_, config, events, progress, fun p => ?_, running⟩,
      fun _ _ => trivial⟩
    · exact writers ▸ List.cons_ne_nil _ _
    · exact (congrArg List.tail writers :)
    · rw [spares_park, spares]
      omega
    · rw [limbo_park, limbo p]
      dsimp only
      omega
  | some x =>
    refine (safe_takeUp (work x rfl) soundT spareT).mono fun o v _ worked => ?_
    refine ⟨⟨worked.sound, ?_, ?_, ?_, worked.config.trans config, worked.events.trans events,
      worked.progress.trans progress, fun p => ?_, fun p => (worked.running p).trans (running p)⟩, fun _ _ => trivial⟩
    · exact (worked.writers.trans writers) ▸ List.cons_ne_nil _ _
    · exact (congrArg List.tail (worked.writers.trans writers) :)
    · rw [worked.spares, spares]
      omega
    · rw [worked.limbo p, limbo p]
      omega

theorem filled (fillings : Nat) : Keeps (fun _ => True) (note (.filled fillings)) := fun _ sound writing =>
  Safe.modifyRender sound.owned sound.owned ⟨⟨⟨sound.owned, sound.linked⟩, writing, rfl, rfl,
    ⟨rfl, rfl, rfl, fun _ => rfl, fun _ => rfl⟩⟩, fun _ _ => trivial⟩

end Keeps

/-! ### Rendering -/

def keeping : Coupling .any where
  rel V x _ := Keeps V x
  helper _ := True
  limit _ := True
  fills _ := True
  pure := .pure
  throw _ := .throw
  bind := .bind
  mapError g hx := hx.mapError g
  write := .write
  filter _ _ := (Quiet.withEngine _).keeps_any
  record level message := (Quiet.record level message).keeps_any
  called call := (Quiet.called call).keeps_any
  toText template hx := hx.toText template
  helper? name := Quiet.keeps fun s => (Quiet.helper? name s).mono fun _ _ _ _ _ _ _ _ => trivial
  callable _ := (Quiet.callable _).keeps_any
  filled := .filled
  depthLimit := Quiet.depthLimit.keeps_any

def keepingWhole : keeping.Whole where
  polls x _ := Quiet (∃ found, · = .ok found ∧ ∀ work, found = some work → Keeps (fun _ => True) work) x
  mono := .mono
  attempt := .attempt
  helper _ := trivial
  kept? name := (Quiet.kept? name).keeps_any
  startLoad name template := (Quiet.startLoad name template).keeps_any
  perform action := (Quiet.perform action).keeps_any
  pollText _ _ _ hw := Quiet.pollText hw Keeps.throw
  pollTemplate _ _ _ hw := Quiet.pollTemplate hw Keeps.throw
  putOff _ := Keeps.putOff

/-- A relation of one side relates a renderer to itself. -/
theorem keeps_self {render : Renderer} (hr : ∀ body context, Keeps (fun _ => True) (render body context))
    (body : Body) (context : Context) : keeping.rel (fun _ => True) (render body context) (render body context) :=
  hr body context

theorem keeps_exec (nesting : Nat) (body : Body) (context : Context) :
    Keeps (fun _ => True) (exec nesting body context) := by
  induction nesting generalizing body context with
  | zero => exact fun s sound _ => ⟨sound.owned, rfl⟩
  | succ nesting ih => exact keepingWhole.steps (keeps_self ih) body context

theorem keeps_job (nesting : Nat) (job : Job) : Keeps (fun _ => True) (job.run (exec nesting)) :=
  keepingWhole.job (keeps_self (keeps_exec nesting)) job

end RenderM
end Stencil
