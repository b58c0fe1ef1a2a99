import Stencil.Proofs.Engine.Loads
import Stencil.Proofs.Render.Entries
import Stencil.Proofs.Render.Upholding

/-! Renders whose failures are honest. What a callable, a filter or a future of theirs fails with names nobody, and a
    callable that is handed an error may pass it on as it is. So all that a report tells of where it comes from was filled
    in on its way out. That engines, parked work and loads are honest is kept by all code. -/

namespace Stencil

/-! ### Errors that name nobody -/

/-- The error is the report of a callable or a filter. -/
def Error.Reports : Error → Prop
  | .helper _ _ _ => True
  | _ => False

/-- The error names no callable, no filter and no template that it comes from. -/
def Error.Unsigned : Error → Prop
  | .helper source origin _ => source = none ∧ origin = none
  | _ => True

/-- The error was handed over before, or is handed over by this outcome. -/
def Error.HandedOver {α : Type} (before : Error → Prop) (outcome : Except Error α) (error : Error) : Prop :=
  before error ∨ outcome = .error error

variable {hosts : Host → Prop} {error : Error}

theorem Error.Unsigned.eq_ofMessage (h : error.Unsigned) (reports : error.Reports) :
    ∃ message, error = .ofMessage message := by
  cases error with
  | helper source origin message =>
    obtain ⟨rfl, rfl⟩ := h
    exact ⟨message, rfl⟩
  | parse | templateNotFound | loader | recursionLimit | protocol => exact reports.elim

/-- In the hosts given, the work fails with errors of some kind only. -/
def Future.FailsWith {α : Type} (hosts : Host → Prop) (errors : Error → Prop) (future : Future α) : Prop :=
  ∀ host error, hosts host → future host = some (.error error) → errors error

/-- The action leads from hosts to hosts of the same kind. -/
def Action.Keeps (hosts : Host → Prop) (action : Action) : Prop := ∀ host, hosts host → hosts (action.onHost host)

/-- The steps fail with errors that name nobody, or with an error that was handed over to them. -/
def Program.Honest (hosts : Host → Prop) : Program → (received : Error → Prop) → Prop
  | .finish _, _ => True
  | .fail error, received => error.Unsigned ∨ received error
  | .write _ next, received => ∀ outcome, (next outcome).Honest hosts (Error.HandedOver received outcome)
  | .render _ _ next, received => ∀ outcome, (next outcome).Honest hosts (Error.HandedOver received outcome)
  | .renderToString _ _ next, received => ∀ outcome, (next outcome).Honest hosts (Error.HandedOver received outcome)
  | .defer future resume next, received => future.FailsWith hosts Error.Unsigned ∧
    (∀ text, (resume text).Honest hosts fun _ => False) ∧
    ∀ outcome, (next outcome).Honest hosts (Error.HandedOver received outcome)
  | .act action next, received => action.Keeps hosts ∧
    ∀ outcome, (next outcome).Honest hosts (Error.HandedOver received outcome)

def Helper.Honest (hosts : Host → Prop) (helper : Helper) : Prop :=
  ∀ context bodies params, (helper context bodies params).Honest hosts fun _ => False

/-- All that an engine calls is honest in the hosts given. A loader is no callable: what it fails with is not a report. -/
structure Engine.Honest (hosts : Host → Prop) (e : Engine) : Prop where
  helpers {name : String} {helper : Helper} : Dict.get? name e.helpers = some helper → helper.Honest hosts
  functions (id : FunctionId) : (e.functions id).Honest hosts
  filters {name : String} {filter : Filter} {value : Value} {error : Error} :
    Dict.get? name e.filters = some filter → filter value = .error error → error.Unsigned
  loader {loader : Loader} : e.loader = some loader →
    ∀ asked name, (loader.load asked name).FailsWith hosts (¬ ·.Reports)

def Wait.Honest (hosts : Host → Prop) : Wait → Prop
  | .text future resume => future.FailsWith hosts Error.Unsigned ∧ ∀ text, (resume text).Honest hosts fun _ => False
  | .load _ _ => True

def Load.Honest (hosts : Host → Prop) : Load → Prop
  | .waiting _ answer _ => answer.FailsWith hosts (¬ ·.Reports)
  | .settled result => ∀ error, result = .error error → ¬ error.Reports

theorem Program.Honest.orFail {α : Type} {next : α → Program} {received : Error → Prop}
    (h : ∀ a received, (next a).Honest hosts received) (outcome : Except Error α) :
    (Program.orFail next outcome).Honest hosts (Error.HandedOver received outcome) := by
  cases outcome with
  | ok a => exact h a _
  | error e => exact Or.inr (Or.inr rfl)

/-! ### Engines and loads in use -/

variable {e e' : Engine} {host : Host} {cache : Bool} {limit : Nat}

theorem Engine.filters_addTemplate (e : Engine) (name source : String) :
    (e.addTemplate name source).2.filters = e.filters := by
  unfold addTemplate keep
  dsimp only
  split
  · split
    · split <;> rfl
    · rfl
  · rfl

theorem Engine.not_reports_addTemplate {name source : String} (failed : (e.addTemplate name source).1 = .error error) :
    ¬ error.Reports := by
  unfold addTemplate compile at failed
  cases compiled : Template.compile source (some name) e.config.whitespace with
  | ok t =>
    simp only [compiled] at failed
    cases failed
  | error fault =>
    simp only [compiled] at failed
    cases failed
    exact id

theorem Load.filters_poll (load : Load) (e : Engine) : (load.poll host cache limit e).2.filters = e.filters := by
  cases load with
  | settled result => rfl
  | waiting name answer rounds =>
    refine advance_induct (P := fun _ _ e result => result.2.filters = e.filters) (fun _ _ _ _ _ => rfl)
      (fun _ _ _ _ => rfl) (fun _ _ e _ _ => e.filters_addTemplate ..) (fun _ _ _ _ _ => rfl) (fun _ _ _ _ _ _ _ => rfl) ?_
    intro name answer e other loader result _ _ _ ih
    rw [ih, Engine.record_eq]
    rfl

namespace Engine.Honest

theorem of_same (h : e.Honest hosts) (same : e.Same e') (filters : e'.filters = e.filters) : e'.Honest hosts where
  helpers found := h.helpers (same.helpers ▸ found)
  functions id := same.functions ▸ h.functions id
  filters found := h.filters (filters ▸ found)
  loader found := h.loader (same.loader ▸ found)

theorem record (h : e.Honest hosts) (level : LogLevel) (message : String) : (e.record level message).Honest hosts :=
  h.of_same (e.same_record level message) (by rw [Engine.record_eq])

theorem onEngine (h : e.Honest hosts) (action : Action) : (action.onEngine e).Honest hosts := by
  refine h.of_same (action.same_onEngine e) ?_
  cases action with
  | addTemplate name source => exact e.filters_addTemplate name source
  | renameTemplate name newName =>
    obtain ⟨templates, renamed⟩ := e.renameTemplate_eq name newName
    exact (congrArg Engine.filters renamed).trans rfl
  | setConfig | getTemplate | removeTemplate | clearTemplates | openGate => rfl

theorem poll (h : e.Honest hosts) (load : Load) : (load.poll host cache limit e).2.Honest hosts :=
  h.of_same load.same_poll (load.filters_poll e)

theorem advance (h : e.Honest hosts) (here : hosts host) {answer : Future Loaded}
    (answers : answer.FailsWith hosts (¬ ·.Reports)) (rounds : Nat) (name : String) :
    (Load.advance host cache limit rounds name answer e).1.Honest hosts := by
  have failed {error : Error} (other : ¬ error.Reports) : Load.Honest hosts (.settled (.error error)) :=
    fun _ same => by
      cases same
      exact other
  induction rounds generalizing name answer e with
  | zero =>
    unfold Load.advance
    cases found : answer host with
    | none => exact answers
    | some outcome =>
      cases outcome with
      | error error => exact failed (answers host error here found)
      | ok loaded => exact failed id
  | succ rounds ih =>
    unfold Load.advance
    cases found : answer host with
    | none => exact answers
    | some outcome =>
      cases outcome with
      | error error => exact failed (answers host error here found)
      | ok loaded =>
        cases loaded with
        | source text => exact fun _ failed => not_reports_addTemplate failed
        | template t => exact fun _ no => by cases no
        | redirect other =>
          dsimp only
          cases e.lookup other cache with
          | some t => exact fun _ no => by cases no
          | none =>
            cases some : e.loader with
            | none => exact failed id
            | some loader => exact ih ((h.record _ _).of_same (same_ask ..) rfl) (h.loader some _ other) other

theorem poll_load (h : e.Honest hosts) (here : hosts host) {load : Load} (honest : load.Honest hosts) :
    (load.poll host cache limit e).1.Honest hosts := by
  cases load with
  | waiting name answer rounds => exact h.advance here honest rounds name
  | settled result => exact honest

end Engine.Honest

/-! ### Stages -/

/-- The engine, the host, the work put off and the loads are honest, and the errors told so far are good ones. -/
structure Stage.Honest (hosts : Host → Prop) (good : Error → Prop) (s : Stage) : Prop where
  engine : s.engine.Honest hosts
  host : hosts s.host
  tasks : ∀ task ∈ s.render.tasks, task.wait.Honest hosts
  loads : ∀ entry ∈ s.render.loads, entry.2.Honest hosts
  events : ∀ error, .failed error ∈ s.render.events → good error

namespace RenderM

open Render

/-- The code keeps stages honest, and ends with results and errors of some kind only. -/
abbrev Honestly {α : Type} (A : Stage → Prop) (hosts : Host → Prop) (good : Error → Prop) (V : α → Prop)
    (Q : Error → Prop) (x : RenderM α) : Prop := Admits A (Stage.Honest hosts good) (fun _ => True) V Q x

variable {α : Type} {A : Stage → Prop} {good Q : Error → Prop} {V : α → Prop}

theorem steady_honest : Steady (Stage.Honest hosts good) fun _ => True where
  violation _ := trivial
  output _ _ h := ⟨h.engine, h.host, h.tasks, h.loads, h.events⟩
  side _ _ h := ⟨h.engine.of_same (Engine.same_read ..) rfl, h.host, by simp, by simp, by simp⟩
  back h h' := ⟨h'.engine, h'.host, h.tasks, h.loads, h.events⟩

namespace Honestly

theorem note (entry : Entry) : Honestly A hosts good (fun _ => True) Q (note entry) :=
  .modify fun _ h => ⟨h.engine, h.host, h.tasks, h.loads, h.events⟩

theorem modifyEngine {g : Engine → Engine} (honest : ∀ e, e.Honest hosts → (g e).Honest hosts) :
    Honestly A hosts good (fun _ => True) Q (modifyEngine g) :=
  .modify fun _ h => ⟨honest _ h.engine, h.host, h.tasks, h.loads, h.events⟩

theorem withEngine {g : Engine → α × Engine} (honest : ∀ e, e.Honest hosts → (g e).2.Honest hosts)
    (results : ∀ s, s.Honest hosts good → A s → V (g s.engine).1) : Honestly A hosts good V Q (withEngine g) :=
  Admits.withEngine (fun _ h => ⟨honest _ h.engine, h.host, h.tasks, h.loads, h.events⟩) results

theorem record (level : LogLevel) (message : String) : Honestly A hosts good (fun _ => True) Q (record level message) :=
  modifyEngine fun _ h => h.record level message

theorem called (call : Call) : Honestly A hosts good (fun _ => True) Q (called call) :=
  modifyEngine fun _ h => h.of_same ⟨rfl, rfl, rfl⟩ rfl

theorem putLoad {name : String} {load : Render → Load} (honest : ∀ r, (load r).Honest hosts) :
    Honestly A hosts good (fun _ => True) Q
      (modifyRender fun r => { r with loads := Dict.insert name (load r) r.loads }) := by
  refine .modify fun s h => ⟨h.engine, h.host, h.tasks, fun entry mem => ?_, h.events⟩
  rcases Dict.mem_insert mem with rfl | mem
  · exact honest s.render
  · exact h.loads entry mem

theorem startLoad (name : String) {template : Option String} (missing : Q (.templateNotFound name template)) :
    Honestly A hosts good (fun _ => True) Q (startLoad name template) := by
  refine .get_bind fun s _ _ => ?_
  split
  · exact .pure trivial
  · refine .get_bind fun s h _ => ?_
    split
    · exact (record _ _).bind fun _ _ => .throw missing
    · next loader some =>
      have asks : Honestly A hosts good (fun answer => answer.FailsWith hosts (¬ ·.Reports)) Q
          (RenderM.withEngine (·.ask loader name)) :=
        withEngine (fun _ h => h.of_same (Engine.same_ask ..) rfl) fun _ _ _ => h.engine.loader some _ name
      exact (record _ _).bind fun _ _ => asks.bind fun answer honest => putLoad fun _ => honest

/-- The result of a load is no report. -/
theorem pollLoad (name : String) : Honestly A hosts good
    (fun result => ∀ error, result = some (.error error) → ¬ error.Reports) Q (pollLoad name) := by
  refine .get_bind fun s h _ => ?_
  split
  · exact .pure fun _ no => by cases no
  · next load found =>
    have honest := h.loads _ (Dict.mem_of_get? found)
    have polls : Honestly A hosts good (fun load => load.Honest hosts) Q (RenderM.withEngine
        (load.poll s.host s.render.config.cache s.render.config.maxPartialDepth)) :=
      withEngine (fun _ h => h.poll load) fun _ h' _ => h'.engine.poll_load h.host honest
    refine polls.bind fun load honest => (putLoad fun _ => honest).bind fun _ _ => .pure fun error same => ?_
    cases load with
    | waiting => cases same
    | settled result => exact honest error (Option.some.inj same)

theorem pollText {future : Future String} {work : String → RenderM Unit}
    (failed : ∀ host error, hosts host → future host = some (.error error) → Q error)
    (works : ∀ text, Honestly A hosts good (fun _ => True) Q (work text)) :
    Honestly A hosts good (fun found => ∀ x, found = some x → Honestly A hosts good (fun _ => True) Q x) Q
      (pollText future work) := by
  refine .get_bind fun s h _ => ?_
  split
  · exact .pure fun _ no => by cases no
  · next error found =>
    exact .pure fun _ same => by
      cases same
      exact .throw (failed _ error h.host found)
  · next text found =>
    exact .pure fun _ same => by
      cases same
      exact works text

theorem pollTemplate {name : String} {work : Template → RenderM Unit} (others : ∀ error, ¬ error.Reports → Q error)
    (works : ∀ t, (Subject.name name).Leads A t → Honestly A hosts good (fun _ => True) Q (work t)) :
    Honestly A hosts good (fun found => ∀ x, found = some x → Honestly A hosts good (fun _ => True) Q x) Q
      (pollTemplate name work) := by
  refine (pollLoad name).ran.bind fun result known => ?_
  split
  · exact .pure fun _ no => by cases no
  · next error =>
    exact .pure fun _ same => by
      cases same
      exact .throw (others error (known.1 error rfl))
  · next t =>
    obtain ⟨-, _, _, -, there, ran⟩ := known
    exact .pure fun _ same => by
      cases same
      exact works t (.of_found there (found_of_pollLoad ran))

theorem putOff {wait : Wait} {poll : RenderM (Option (RenderM Unit))} (honest : wait.Honest hosts)
    (polls : Honestly A hosts good (fun found => ∀ x, found = some x → Honestly A hosts good (fun _ => True) Q x) Q
      poll) : Honestly A hosts good (fun _ => True) Q (putOff wait poll) := by
  refine Admits.putOff steady_honest (fun _ h => ⟨h.engine, h.host, h.tasks, h.loads, h.events⟩) (fun id h => ?_) polls
  refine ⟨h.engine, h.host, fun task mem => ?_, h.loads, h.events⟩
  rcases List.mem_append.mp mem with mem | mem
  · exact h.tasks task mem
  · cases List.mem_singleton.mp mem
    exact honest

theorem takeUp (id : ChunkId) (wait : Wait) {x : RenderM Unit} (works : Honestly A hosts good (fun _ => True) Q x) :
    Honestly A hosts good (fun _ => True) Q (takeUp id wait x) :=
  Admits.takeUp steady_honest (fun _ h => ⟨h.engine, h.host, h.tasks, h.loads, h.events⟩) id wait works

theorem perform {action : Action} (keeps : action.Keeps hosts) (others : ∀ error, ¬ error.Reports → Q error) :
    Honestly A hosts good (fun _ => True) Q (perform action) :=
  Admits.perform (fun _ h => ⟨h.engine.onEngine action, keeps _ h.host, h.tasks, h.loads, h.events⟩)
    fun added => others _ (Engine.not_reports_addTemplate added)

end Honestly
end RenderM
end Stencil
