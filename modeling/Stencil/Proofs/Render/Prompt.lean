import Stencil.Proofs.Engine.Loads
import Stencil.Proofs.Render.Driving
import Stencil.Proofs.Render.Upholding

/-! Renders that never wait: where every future that helpers put work off for and every answer of the loader is there when
    it is looked at, no work is ever parked. -/

namespace Stencil

variable {hosts : Host → Prop}

/-- Every future that the steps put work off for is done in the hosts given. -/
def Program.Prompt (hosts : Host → Prop) : Program → Prop
  | .finish _ | .fail _ => True
  | .write _ next | .render _ _ next => ∀ outcome, (next outcome).Prompt hosts
  | .renderToString _ _ next => ∀ outcome, (next outcome).Prompt hosts
  | .defer future resume next => (∀ host, hosts host → future host ≠ none) ∧ (∀ text, (resume text).Prompt hosts) ∧
    ∀ outcome, (next outcome).Prompt hosts
  | .act _ next => ∀ answer, (next answer).Prompt hosts

def Helper.Prompt (hosts : Host → Prop) (helper : Helper) : Prop :=
  ∀ context bodies params, (helper context bodies params).Prompt hosts

/-- Nothing that an engine waits for takes time in the hosts given. -/
structure Engine.Prompt (hosts : Host → Prop) (e : Engine) : Prop where
  helpers {name : String} {helper : Helper} : Dict.get? name e.helpers = some helper → helper.Prompt hosts
  functions (id : FunctionId) : (e.functions id).Prompt hosts
  loader {loader : Loader} : e.loader = some loader →
    ∀ asked name host, hosts host → loader.load asked name host ≠ none

def Load.Prompt (hosts : Host → Prop) : Load → Prop
  | .waiting _ answer _ => ∀ host, hosts host → answer host ≠ none
  | .settled _ => True

/-- Nothing is parked, and nothing that the stage may wait for takes time. -/
structure Stage.Prompt (hosts : Host → Prop) (s : Stage) : Prop where
  host : hosts s.host
  engine : s.engine.Prompt hosts
  tasks : s.render.tasks = []
  loads {name : String} {load : Load} : Dict.get? name s.render.loads = some load → load.Prompt hosts

theorem Engine.Prompt.same {e e' : Engine} (h : e.Prompt hosts) (same : Engine.Same e e') : e'.Prompt hosts where
  helpers found := h.helpers (same.helpers ▸ found)
  functions id := same.functions ▸ h.functions id
  loader some := h.loader (same.loader ▸ some)

theorem Load.settled_advance {e : Engine} {host : Host} {cache : Bool} {limit rounds : Nat} {name : String}
    {answer : Future Loaded} (here : hosts host) (prompt : e.Prompt hosts) (there : answer host ≠ none) :
    ∃ result, (advance host cache limit rounds name answer e).1 = .settled result := by
  have settled : ∀ name (answer : Future Loaded) (e : Engine) rounds, e.Prompt hosts → answer host ≠ none →
      ∃ result, (advance host cache limit rounds name answer e).1 = .settled result := by
    intro name answer e rounds
    refine advance_induct (P := fun _ answer e result => e.Prompt hosts → answer host ≠ none →
      ∃ settled, result.1 = .settled settled) (fun _ _ _ _ none _ there => absurd none there)
      (fun _ _ _ _ _ _ => ⟨_, rfl⟩) (fun _ _ _ _ _ _ _ => ⟨_, rfl⟩) (fun _ _ _ _ _ _ _ => ⟨_, rfl⟩)
      (fun _ _ _ _ _ _ _ _ _ => ⟨_, rfl⟩) ?_
    intro name answer e other loader result _ _ some ih prompt _
    have same := e.same_record .debug ("Redirecting `" ++ name ++ "` to `" ++ other ++ "`")
    exact ih (prompt.same (same.trans (Engine.same_ask ..))) (prompt.loader some _ _ _ here)
  exact settled name answer e rounds prompt there

namespace RenderM

open Render

variable {α β : Type} {s : Stage}

/-- From a stage that is prompt the code comes through such stages only, and its results have a property. -/
abbrev Stays (hosts : Host → Prop) (V : α → Prop) (x : RenderM α) : Prop :=
  Upholds (fun _ => True) (·.Prompt hosts) (fun _ => True) V x

theorem steady_prompt (hosts : Host → Prop) : Steady (·.Prompt hosts) (fun _ => True) where
  violation _ := trivial
  output _ _ here := ⟨here.host, here.engine, here.tasks, here.loads⟩
  side _ _ there := ⟨there.host, there.engine.same (Engine.same_read ..), rfl, fun found => by cases found⟩
  back here there := ⟨there.host, there.engine, here.tasks, here.loads⟩

namespace Stays

variable {V : α → Prop} {x : RenderM α}

theorem safe (hx : Stays hosts V x) (here : s.Prompt hosts) :
    x.Safe (·.Prompt hosts) (fun _ => True) s fun o _ => ∀ a, o = .ok a → V a := hx s here fun _ _ => trivial

theorem modifyEngine {g : Engine → Engine} (same : ∀ e, Engine.Same e (g e)) :
    Stays hosts (fun _ => True) (modifyEngine g) :=
  .modify fun _ here => ⟨here.host, here.engine.same (same _), here.tasks, here.loads⟩

theorem withEngine {g : Engine → α × Engine} (same : ∀ e, Engine.Same e (g e).2) :
    Stays hosts (fun _ => True) (withEngine g) :=
  Upholds.withEngine fun s here => ⟨here.host, here.engine.same (same s.engine), here.tasks, here.loads⟩

theorem record (level : LogLevel) (message : String) : Stays hosts (fun _ => True) (record level message) :=
  modifyEngine fun e => e.same_record level message

theorem note (entry : Entry) : Stays hosts (fun _ => True) (note entry) :=
  .modify fun _ here => ⟨here.host, here.engine, here.tasks, here.loads⟩

theorem takeUp {x : RenderM Unit} (id : ChunkId) (wait : Wait) (hx : Stays hosts (fun _ => True) x) :
    Stays hosts (fun _ => True) (takeUp id wait x) :=
  Upholds.takeUp (steady_prompt hosts) (fun _ here => ⟨here.host, here.engine, here.tasks, here.loads⟩) id wait hx

theorem safe_putOff {wait : Wait} {poll : RenderM (Option (RenderM Unit))} (here : s.Prompt hosts)
    (hp : ∀ t : Stage, t.Prompt hosts → t.render.loads = s.render.loads → poll.Safe (·.Prompt hosts) (fun _ => True) t
      fun o _ => ∀ found, o = .ok found → ∃ x, found = some x ∧ Stays hosts (fun _ => True) x) :
    (putOff wait poll).Safe (·.Prompt hosts) (fun _ => True) s fun _ _ => True := by
  refine Safe.bind ((Upholds.safe_reserve (steady_prompt hosts) here).mono fun o t there loads => ?_)
  cases o with
  | error e => trivial
  | ok reserved =>
    have there' : Stage.Prompt hosts { t with render := { t.render with
        journal := .deferred wait :: t.render.journal } } := ⟨there.host, there.engine, there.tasks, there.loads⟩
    refine Safe.bind (Safe.modifyRender there there' (Safe.bind ((hp _ there' loads).mono fun o u here' found => ?_)))
    cases o with
    | error e => trivial
    | ok work =>
      obtain ⟨x, rfl, stays⟩ := found work rfl
      exact ((takeUp reserved wait stays).safe here').mono fun _ _ _ _ => trivial

theorem safe_pollText {future : Future String} {work : String → RenderM Unit} (here : s.Prompt hosts)
    (done : ∀ host, hosts host → future host ≠ none) (hw : ∀ text, Stays hosts (fun _ => True) (work text)) :
    (pollText future work).Safe (·.Prompt hosts) (fun _ => True) s
      fun o _ => ∀ found, o = .ok found → ∃ x, found = some x ∧ Stays hosts (fun _ => True) x := by
  refine Safe.bind (Safe.get here ?_)
  dsimp only
  split
  · next none => exact absurd none (done _ here.host)
  · next e _ => exact Safe.pure here fun _ same => by cases same; exact ⟨_, rfl, .throw e⟩
  · next text _ => exact Safe.pure here fun _ same => by cases same; exact ⟨_, rfl, hw text⟩

theorem safe_pollTemplate {name : String} {work : Template → RenderM Unit} (here : s.Prompt hosts)
    (started : Dict.get? name s.render.loads ≠ none) (hw : ∀ t, Stays hosts (fun _ => True) (work t)) :
    (pollTemplate name work).Safe (·.Prompt hosts) (fun _ => True) s
      fun o _ => ∀ found, o = .ok found → ∃ x, found = some x ∧ Stays hosts (fun _ => True) x := by
  obtain ⟨load, isSome⟩ := Option.ne_none_iff_exists'.mp started
  have polled : (pollLoad name).Safe (·.Prompt hosts) (fun _ => True) s fun o _ => ∃ result, o = .ok (some result) := by
    refine Safe.bind (Safe.get here ?_)
    dsimp only
    rw [isSome]
    have same : Engine.Same s.engine
        (load.poll s.host s.render.config.cache s.render.config.maxPartialDepth s.engine).2 := load.same_poll
    obtain ⟨result, settled⟩ : ∃ result,
        (load.poll s.host s.render.config.cache s.render.config.maxPartialDepth s.engine).1 = .settled result := by
      cases load with
      | waiting n answer rounds => exact Load.settled_advance here.host here.engine (here.loads isSome _ here.host)
      | settled result => exact ⟨result, rfl⟩
    have there : Stage.Prompt hosts { s with engine :=
        (load.poll s.host s.render.config.cache s.render.config.maxPartialDepth s.engine).2 } :=
      ⟨here.host, here.engine.same same, here.tasks, here.loads⟩
    have prompt : Load.Prompt hosts
        (load.poll s.host s.render.config.cache s.render.config.maxPartialDepth s.engine).1 := by
      rw [settled]
      trivial
    refine ⟨here, there, ⟨here.host, here.engine.same same, here.tasks, ?_⟩, result, ?_⟩
    · exact loads_insert (P := fun _ => Load.Prompt hosts) prompt here.loads
    · exact congrArg (fun load : Load => (Except.ok load.result? : Except Error (Option (Except Error Template)))) settled
  refine Safe.bind (polled.mono fun o t there outcome => ?_)
  obtain ⟨result, rfl⟩ := outcome
  cases result with
  | error e => exact Safe.pure there fun _ same => by cases same; exact ⟨_, rfl, .throw e⟩
  | ok t => exact Safe.pure there fun _ same => by cases same; exact ⟨_, rfl, hw t⟩

theorem safe_startLoad (here : s.Prompt hosts) (name : String) (template : Option String) :
    (startLoad name template).Safe (·.Prompt hosts) (fun _ => True) s
      fun o t => o = .ok () → Dict.get? name t.render.loads ≠ none := by
  refine Safe.bind (Safe.get here ?_)
  dsimp only
  split
  · next started => exact Safe.pure here fun _ none => by simp [Dict.contains, none] at started
  · refine Safe.bind (Safe.get here ?_)
    dsimp only
    split
    · refine Safe.bind (((record .error _).safe here).mono fun o t there _ => ?_)
      cases o with
      | ok _ => exact Safe.throw there fun no => by cases no
      | error e => exact fun no => by cases no
    · next loader some =>
      let logged := s.engine.record .debug ("Loading template `" ++ name ++ "`")
      have prompt : logged.Prompt hosts := here.engine.same (s.engine.same_record ..)
      have there : Stage.Prompt hosts { s with engine := logged } := ⟨here.host, prompt, here.tasks, here.loads⟩
      have there' : Stage.Prompt hosts { s with engine := (logged.ask loader name).2 } :=
        ⟨here.host, prompt.same (Engine.same_ask _ loader name), here.tasks, here.loads⟩
      refine ⟨here, there, there', ⟨here.host, there'.engine, here.tasks, ?_⟩, fun _ => ?_⟩
      · have waits : Load.Prompt hosts (.begin s.render.config.maxPartialDepth name (logged.ask loader name).1) :=
          fun host inside => here.engine.loader some _ _ host inside
        intro other load found
        exact loads_insert (P := fun _ => Load.Prompt hosts) waits here.loads found
      · dsimp only
        rw [Dict.get?_insert_self]
        exact Option.some_ne_none _

end Stays

/-! ### Rendering -/

def staying (hosts : Host → Prop) : Coupling .any where
  rel V x _ := Stays hosts V x
  helper helper := helper.Prompt hosts
  limit _ := True
  fills _ := True
  pure := .pure
  throw _ := .throw
  bind := .bind
  mapError g hx := hx.mapError g
  write := .write (steady_prompt hosts)
  filter _ _ := Stays.withEngine fun e => e.same_applyFilters _ _
  record := Stays.record
  called _ := Stays.modifyEngine fun _ => ⟨rfl, rfl, rfl⟩
  toText := .toText (steady_prompt hosts)
  helper? _ := .get_bind fun _ here => .pure fun _ found => here.engine.helpers found
  callable {id} _ := .get_bind fun _ here => .pure (here.engine.functions id)
  filled _ := Stays.note _
  depthLimit := .get_bind fun _ _ => .pure trivial

theorem stays_perform (closed : ∀ host gate outcome, hosts host → hosts (host.openGate gate outcome)) (action : Action) :
    Stays hosts (fun _ => True) (perform action) := by
  refine .perform fun s here => ⟨?_, here.engine.same (action.same_onEngine _), here.tasks, here.loads⟩
  cases action with
  | openGate gate outcome => exact closed _ _ _ here.host
  | setConfig | addTemplate | getTemplate | renameTemplate | removeTemplate | clearTemplates => exact here.host

variable {render : Renderer} (closed : ∀ host gate outcome, hosts host → hosts (host.openGate gate outcome))

include closed

theorem stays_program (hr : ∀ body context, Stays hosts (fun _ => True) (render body context)) {program : Program}
    (prompt : program.Prompt hosts) : Stays hosts (fun _ => True) (program.run render) := by
  induction program with
  | finish reply => exact .pure trivial
  | fail error => exact .throw error
  | write text next ih => exact (Upholds.write (steady_prompt hosts) text).attempt.bind fun o _ => ih o (prompt o)
  | render body context next ih => exact (hr body context).attempt.bind fun o _ => ih o (prompt o)
  | renderToString body context next ih =>
    exact (Upholds.toText (steady_prompt hosts) _ (hr body context)).attempt.bind fun o _ => ih o (prompt o)
  | defer future resume next ihResume ih =>
    have work (text : String) : Stays hosts (fun _ => True) (do let _ ← (resume text).run render) :=
      (ihResume text (prompt.2.1 text)).bind fun _ _ => Upholds.pure (V := fun _ => True) trivial
    have put : Stays hosts (fun _ => True) (putOff (.text future resume) (pollText future fun text => do
        let _ ← (resume text).run render)) := fun s here _ =>
      (Stays.safe_putOff here fun t there _ => Stays.safe_pollText there prompt.1 work).mono fun _ _ _ _ _ _ => trivial
    exact put.attempt.bind fun o _ => ih o (prompt.2.2 o)
  | act action next ih => exact (stays_perform closed action).attempt.bind fun o _ => ih o (prompt o)

omit closed in
theorem stays_template (hr : ∀ body context, Stays hosts (fun _ => True) (render body context)) (t : Template)
    (context : Context) : Stays hosts (fun _ => True) (template render t context) :=
  @Coupling.template .any (staying hosts) render render context t fun _ _ _ => hr _ _

omit closed in
theorem stays_named (hr : ∀ body context, Stays hosts (fun _ => True) (render body context)) (name : String)
    (context : Context) : Stays hosts (fun _ => True) (named render name context) := by
  have any {x : RenderM Unit} {s : Stage} (h : x.Safe (·.Prompt hosts) (fun _ => True) s fun _ _ => True) :
      x.Safe (·.Prompt hosts) (fun _ => True) s fun o _ => ∀ a, o = .ok a → True := h.mono fun _ _ _ _ _ _ => trivial
  have kept : Stays hosts (fun _ => True) (kept? name) := .get_bind fun _ _ => .pure trivial
  refine kept.bind fun found _ s here _ => ?_
  cases found with
  | some t => exact (stays_template hr t context).safe here
  | none =>
    refine any (Safe.bind ((Stays.safe_startLoad here name _).mono fun o t there started => ?_))
    cases o with
    | error e => trivial
    | ok _ =>
      refine Stays.safe_putOff there fun u here' loads => ?_
      exact Stays.safe_pollTemplate here' (loads ▸ started rfl) fun t => stays_template hr t context

theorem stays_exec (nesting : Nat) (body : Body) (context : Context) :
    Stays hosts (fun _ => True) (exec nesting body context) := by
  induction nesting generalizing body context with
  | zero => exact .halt trivial
  | succ nesting ih =>
    have renders : (staying hosts).Renders (exec nesting) (exec nesting) fun _ => True :=
      { body := fun _ _ => ih _ _
        program := fun prompt _ _ _ => (stays_program closed ih (prompt _ _ _)).mono
          fun reply _ => by cases reply <;> trivial
        named := fun name _ _ => stays_named ih name _ }
    exact Coupling.forM (C := staying hosts) fun step _ => renders.step step.inside_all trivial fun _ _ _ _ _ _ => ih _ _

theorem stays_job (nesting : Nat) (job : Job) : Stays hosts (fun _ => True) (job.run (exec nesting)) := by
  cases job with
  | named name context => exact stays_named (stays_exec closed nesting) name context
  | template t context => exact stays_template (stays_exec closed nesting) t context
  | fail error => exact .throw error

end RenderM

open RenderM Render

theorem stays_close (outcome : Except Error Unit) : Stays hosts (fun _ => True) (close outcome) := by
  refine .modify fun s here => ?_
  rcases close_cases s outcome with same | ⟨chunks, events, progress, same⟩ | ⟨error, same⟩
  · exact same.symm ▸ here
  · rw [same]
    exact ⟨here.host, here.engine, here.tasks, here.loads⟩
  · rw [same]
    exact ⟨here.host, here.engine.same (Engine.same_record ..), rfl, fun found => by cases found⟩

theorem stays_settle (render : Renderer) (steps index : Nat) (progressed : Bool) :
    Stays hosts (fun _ => True) (settle render steps index progressed) := by
  induction steps generalizing index progressed with
  | zero => exact .halt trivial
  | succ steps ih =>
    refine .get_bind fun s here => ?_
    dsimp only
    split
    · exact .pure trivial
    · rw [here.tasks, List.getElem?_nil]
      dsimp only
      split
      · exact ih 0 false
      · exact .pure trivial

/-- With an engine that waits for nothing no work is ever parked. -/
theorem prompt_work {o : OutputStream} {w : World} {steps : Nat}
    (closed : ∀ host gate outcome, hosts host → hosts (host.openGate gate outcome))
    (here : Stage.Prompt hosts { w with render := o.render }) {s : Stage}
    (pass : (o.work steps).Passes { w with render := o.render } s) : s.render.tasks = [] := by
  have stays : Stays hosts (fun _ => True) (o.work steps) := by
    unfold OutputStream.work
    cases o.job with
    | none => exact stays_settle (exec steps) steps 0 false
    | some job =>
      have started : Stays hosts (fun _ => True) (start (job.run (exec steps))) :=
        (Upholds.within (steady_prompt hosts) _ (stays_job closed steps job)).attempt.bind fun _ _ => stays_close _
      exact started.bind fun _ _ => stays_settle (exec steps) steps 0 false
  exact ((stays.safe here).passes pass).tasks

end Stencil
