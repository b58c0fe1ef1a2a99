import Stencil.Proofs.Engine.Pointers
import Stencil.Proofs.Render.Driving
import Stencil.Proofs.Render.Honesty
import Stencil.Proofs.Render.Places
import Stencil.Proofs.Render.Purity
import Stencil.Proofs.Render.Upholding

/-! What an engine holds under a name while renders go on. Only a load of the name that is under way can put another template
    there, and none is begun as long as one is held. -/

namespace Stencil

open RenderM Render

/-- The action leaves alone what is held under the name, and lets templates be kept. -/
def Action.Spares (n : String) : Action → Prop
  | .setConfig config => config.cache = true
  | .addTemplate name _ | .renameTemplate name _ | .removeTemplate name => name ≠ n
  | .clearTemplates => False
  | .getTemplate _ | .openGate _ _ => True

/-- All actions of the program leave alone what is held under the name, and lead from the hosts given to such hosts. -/
abbrev Program.Spares (hosts : Host → Prop) (n : String) (p : Program) : Prop :=
  p.Inside (fun _ _ => True) fun action => action.Spares n ∧ action.Keeps hosts

/-- Whatever the helper is called with, it leaves alone what is held under the name. -/
def Helper.Spares (hosts : Host → Prop) (n : String) (helper : Helper) : Prop :=
  ∀ context bodies params, (helper context bodies params).Spares hosts n

/-- The template is compiled under the name from a source that one of the answers gives at one of the hosts. -/
def Belated (hosts : Host → Prop) (n : String) (late : Future Loaded → Prop) (t : Template) : Prop :=
  ∃ answer host text whitespace, late answer ∧ hosts host ∧ answer host = some (.ok (.source text)) ∧
    Template.compile text (some n) whitespace = .ok t

variable {hosts : Host → Prop} {n : String} {t : Template} {late : Future Loaded → Prop} {k : Nat}

/-! ### Engines -/

namespace Engine

variable {e : Engine} {name source : String}

theorem template_of_compile {name : Option String} (compiled : e.compile source name = .ok t) :
    Template.compile source name e.config.whitespace = .ok t := by
  unfold compile at compiled
  split at compiled
  · cases compiled
    assumption
  · cases compiled

/-- What is compiled is held under its name, and all else is held as before. -/
theorem getTemplate_addTemplate (cache : e.config.cache = true) (compiled : e.compile source (some name) = .ok t)
    (other : String) :
    (e.addTemplate name source).2.getTemplate other = if name = other then some t else e.getTemplate other := by
  unfold addTemplate
  rw [compiled]
  dsimp only
  unfold keep
  rw [name_of_compile compiled]
  dsimp only
  split
  · split
    · next same =>
      subst same
      exact Dict.get?_insert_self ..
    · next ne => exact Dict.get?_insert_of_ne (Ne.symm ne) ..
  · next uncached => exact absurd cache uncached

end Engine

/-- The engine keeps templates and holds this one under the name, or one that comes of an answer; and what it calls leaves
    it there. -/
structure Engine.Holds (hosts : Host → Prop) (n : String) (t : Template) (late : Future Loaded → Prop) (e : Engine) :
    Prop where
  cache : e.config.cache = true
  calls : e.CallsOnly (Helper.Spares hosts n)
  held : ∃ u, e.getTemplate n = some u ∧ (u = t ∨ Belated hosts n late u)

/-- No action calls the loader. -/
theorem Engine.asked_onEngine (e : Engine) (action : Action) : (action.onEngine e).asked = e.asked := by
  cases action with
  | addTemplate name source => exact (e.silent_addTemplate name source).asked
  | renameTemplate name newName => exact (e.silent_renameTemplate name newName).asked
  | setConfig | getTemplate | removeTemplate | clearTemplates | openGate => rfl

namespace Engine.Holds

variable {e : Engine}

theorem noted (h : e.Holds hosts n t late) (log : List LogRecord) (asked : List String) (calls : List Call)
    (readings : List Reading) : Engine.Holds hosts n t late { e with log, asked, calls, readings } :=
  ⟨h.cache, ⟨h.calls.helpers, h.calls.functions⟩, h.held⟩

theorem record (h : e.Holds hosts n t late) (level : LogLevel) (message : String) :
    (e.record level message).Holds hosts n t late := by
  rw [record_eq]
  exact h.noted _ _ _ _

theorem exists_lookup (h : e.Holds hosts n t late) : ∃ u, e.lookup n true = some u :=
  h.held.imp fun _ held => held.1

/-- A source added under another name changes nothing here; one added under this name is to come of an answer. -/
theorem addTemplate (h : e.Holds hosts n t late) {name source : String}
    (own : ∀ u whitespace, name = n → Template.compile source (some n) whitespace = .ok u → Belated hosts n late u) :
    (e.addTemplate name source).2.Holds hosts n t late := by
  refine ⟨(congrArg Config.cache (e.config_addTemplate name source)).trans h.cache,
    h.calls.of_same (e.same_addTemplate name source), ?_⟩
  cases compiled : e.compile source (some name) with
  | error error =>
    unfold Engine.addTemplate
    rw [compiled]
    exact h.held
  | ok u =>
    rw [getTemplate_addTemplate h.cache compiled]
    split
    · next same =>
      subst same
      exact ⟨u, rfl, .inr (own u _ rfl (template_of_compile compiled))⟩
    · exact h.held

theorem onEngine (h : e.Holds hosts n t late) {action : Action} (spares : action.Spares n) :
    (action.onEngine e).Holds hosts n t late := by
  obtain ⟨u, held, whence⟩ := h.held
  cases action with
  | setConfig config => exact ⟨spares, ⟨h.calls.helpers, h.calls.functions⟩, u, held, whence⟩
  | addTemplate name source => exact h.addTemplate fun _ _ same => (spares same).elim
  | renameTemplate name newName =>
    refine ⟨?_, h.calls.of_same (e.same_renameTemplate name newName), u, ?_, whence⟩
    · obtain ⟨templates, renamed⟩ := e.renameTemplate_eq name newName
      exact (congrArg (·.config.cache) renamed).trans h.cache
    · show (e.renameTemplate name newName).getTemplate n = some u
      unfold renameTemplate
      split
      · exact (Dict.get?_insert_of_ne (Ne.symm spares) ..).trans held
      · exact held
  | removeTemplate name =>
    exact ⟨h.cache, ⟨h.calls.helpers, h.calls.functions⟩, u, (Dict.get?_erase_of_ne (Ne.symm spares) ..).trans held, whence⟩
  | clearTemplates => exact spares.elim
  | getTemplate | openGate => exact h

end Engine.Holds

/-! ### Loads -/

/-- Where the load waits for the name, it waits for one of the answers. -/
def Load.OnlyLate (n : String) (late : Future Loaded → Prop) : Load → Prop
  | .waiting name answer _ => name = n → late answer
  | .settled _ => True

/-- A load goes on without a new call of the loader with the name: what is held under a name ends each redirect to it. -/
theorem Load.holds_advance {host : Host} {limit rounds : Nat} {name : String} {answer : Future Loaded} {e : Engine}
    (here : hosts host) (own : name = n → late answer) (holds : e.Holds hosts n t late) :
    (advance host true limit rounds name answer e).1.OnlyLate n late ∧
      (advance host true limit rounds name answer e).2.Holds hosts n t late ∧
      (advance host true limit rounds name answer e).2.asked.count n = e.asked.count n := by
  refine advance_induct (P := fun name answer e result => (name = n → late answer) → e.Holds hosts n t late →
      result.1.OnlyLate n late ∧ result.2.Holds hosts n t late ∧ result.2.asked.count n = e.asked.count n)
    ?waiting ?error ?source ?template ?kept ?ask own holds
  case waiting => exact fun _ _ _ _ _ own holds => ⟨own, holds, rfl⟩
  case error => exact fun _ _ _ _ _ holds => ⟨trivial, holds, rfl⟩
  case source =>
    rintro name answer e text found own holds
    exact ⟨trivial, holds.addTemplate fun u whitespace same compiled =>
      ⟨answer, host, text, whitespace, own same, here, found, compiled⟩,
      congrArg (List.count n) (e.silent_addTemplate name text).asked⟩
  case template => exact fun _ _ _ _ _ _ holds => ⟨trivial, holds, rfl⟩
  case kept => exact fun _ _ _ _ _ _ _ _ holds => ⟨trivial, holds, rfl⟩
  case ask =>
    rintro name answer e other loader result _ absent _ ih _ holds
    have ne : other ≠ n := by
      rintro rfl
      obtain ⟨u, held⟩ := holds.exists_lookup
      cases absent.symm.trans held
    obtain ⟨only, after, asked⟩ := ih (fun same => (ne same).elim) ((holds.record ..).noted _ _ _ _)
    refine ⟨only, after, asked.trans ((Engine.count_ask _ ne).trans ?_)⟩
    rw [(e.silent_record ..).asked]

theorem Load.holds_poll {load : Load} (only : load.OnlyLate n late) {host : Host} (here : hosts host) (limit : Nat)
    {e : Engine} (holds : e.Holds hosts n t late) :
    (load.poll host true limit e).1.OnlyLate n late ∧ (load.poll host true limit e).2.Holds hosts n t late ∧
      (load.poll host true limit e).2.asked.count n = e.asked.count n := by
  cases load with
  | settled result => exact ⟨trivial, holds, rfl⟩
  | waiting name answer rounds => exact holds_advance here only holds

/-! ### Stages -/

/-- The render sees what is kept; its loads of the name wait for one of the answers; and what it has put off leaves alone
    what is held under the name. -/
structure Render.Awaits (hosts : Host → Prop) (n : String) (late : Future Loaded → Prop) (r : Render) : Prop where
  cache : r.config.cache = true
  loads {name : String} {load : Load} : Dict.get? name r.loads = some load → load.OnlyLate n late
  tasks : ∀ task ∈ r.tasks, task.wait.In (fun _ _ => True) (Program.Spares hosts n)

/-- The engine holds the template, or one that comes of an answer, and has called its loader so often with the name. -/
structure Stage.Holds (hosts : Host → Prop) (n : String) (t : Template) (late : Future Loaded → Prop) (k : Nat) (s : Stage) :
    Prop where
  host : hosts s.host
  engine : s.engine.Holds hosts n t late
  asked : s.engine.asked.count n = k
  render : s.render.Awaits hosts n late

/-- What comes through stages only whose engine holds the template, or one that comes of an answer, without a call of the
    loader with the name. -/
abbrev Holding {α : Type} (hosts : Host → Prop) (n : String) (t : Template) (late : Future Loaded → Prop) (k : Nat)
    (V : α → Prop) (x : RenderM α) : Prop :=
  Upholds (fun _ => True) (Stage.Holds hosts n t late k) (fun _ => True) V x

namespace Stage.Holds

variable {s : Stage}

theorem output (h : s.Holds hosts n t late k) (chunks : Chunks) (writers : List ChunkId) (journal : List Entry)
    (events : List Event) (progress : Progress) :
    Stage.Holds hosts n t late k { s with render := { s.render with chunks, writers, journal, events, progress } } :=
  ⟨h.host, h.engine, h.asked, h.render.cache, h.render.loads, h.render.tasks⟩

theorem used (h : s.Holds hosts n t late k) {e : Engine} (holds : e.Holds hosts n t late)
    (asked : e.asked.count n = s.engine.asked.count n) : Stage.Holds hosts n t late k { s with engine := e } :=
  ⟨h.host, holds, asked.trans h.asked, h.render⟩

theorem load (h : s.Holds hosts n t late k) {name : String} {load : Load} (only : load.OnlyLate n late) :
    Stage.Holds hosts n t late k { s with render := { s.render with loads := Dict.insert name load s.render.loads } } :=
  ⟨h.host, h.engine, h.asked, h.render.cache, loads_insert (P := fun _ => Load.OnlyLate n late) only h.render.loads,
    h.render.tasks⟩

theorem steady : Steady (Stage.Holds hosts n t late k) fun _ => True where
  violation _ := trivial
  output _ _ h := h.output _ _ _ _ _
  side _ h h' := ⟨h'.host, h'.engine.noted _ _ _ _, h'.asked, h.engine.cache, nofun, by simp⟩
  back h h' := ⟨h'.host, h'.engine, h'.asked, h.render⟩

end Stage.Holds

namespace Holding

variable {α β : Type} {V : α → Prop}

theorem note (entry : Entry) : Holding hosts n t late k (fun _ => True) (note entry) :=
  .modify fun _ h => h.output _ _ _ _ _

theorem record (level : LogLevel) (message : String) : Holding hosts n t late k (fun _ => True) (record level message) :=
  .modify fun s h => h.used (h.engine.record level message) (congrArg _ (s.engine.silent_record level message).asked)

theorem takeUp (id : ChunkId) (wait : Wait) {x : RenderM Unit} (h : Holding hosts n t late k (fun _ => True) x) :
    Holding hosts n t late k (fun _ => True) (takeUp id wait x) :=
  Upholds.takeUp Stage.Holds.steady (fun _ h => h.output _ _ _ _ _) id wait h

/-- A poll, and the work that it finds. -/
abbrev Polls (hosts : Host → Prop) (n : String) (t : Template) (late : Future Loaded → Prop) (k : Nat)
    (x : RenderM (Option (RenderM Unit))) : Prop :=
  Holding hosts n t late k (fun found => ∀ work, found = some work → Holding hosts n t late k (fun _ => True) work) x

theorem putOff {wait : Wait} (spares : wait.In (fun _ _ => True) (Program.Spares hosts n))
    {x : RenderM (Option (RenderM Unit))} (h : Polls hosts n t late k x) : Holding hosts n t late k (fun _ => True) (putOff wait x) := by
  refine upholds_iff.mpr (Admits.putOff Stage.Holds.steady (fun _ h => h.output _ _ _ _ _) (fun id h => ?_)
    ((upholds_iff.mp h).mono fun found works work same => upholds_iff.mp (works work same)))
  refine ⟨h.host, h.engine, h.asked, h.render.cache, h.render.loads, fun task mem => ?_⟩
  rcases List.mem_append.mp mem with mem | mem
  · exact h.render.tasks task mem
  · cases List.mem_singleton.mp mem
    exact spares

theorem pollText (future : Future String) {work : String → RenderM Unit}
    (h : ∀ text, Holding hosts n t late k (fun _ => True) (work text)) : Polls hosts n t late k (pollText future work) := by
  refine .get_bind fun s _ => ?_
  split
  · exact .pure fun _ no => by cases no
  · exact .pure fun _ same => by cases same; exact .throw _
  · exact .pure fun _ same => by cases same; exact h _

theorem pollTemplate (name : String) {work : Template → RenderM Unit}
    (h : ∀ u, Holding hosts n t late k (fun _ => True) (work u)) : Polls hosts n t late k (pollTemplate name work) := by
  have polls : Holding hosts n t late k (fun _ => True) (pollLoad name) := .pollLoad fun {s load} h found => by
    obtain ⟨after, engine, asked⟩ :=
      Load.holds_poll (h.render.loads found) h.host s.render.config.maxPartialDepth h.engine
    rw [← h.render.cache] at after engine asked
    exact ⟨h.used engine asked, fun h => h.load after⟩
  refine polls.bind fun result _ => ?_
  split
  · exact .pure fun _ no => by cases no
  · exact .pure fun _ same => by cases same; exact .throw _
  · exact .pure fun _ same => by cases same; exact h _

theorem startLoad {name : String} (ne : name ≠ n) (template : Option String) :
    Holding hosts n t late k (fun _ => True) (startLoad name template) :=
  Upholds.startLoad
    (fun level message h => h.used (h.engine.record level message) (congrArg _ (Engine.silent_record ..).asked))
    fun h _ => ⟨h.used (h.engine.noted ..) (Engine.count_ask _ ne), fun _ h => h.load fun same => (ne same).elim⟩

/-- A name under which nothing is kept is another one. -/
theorem kept? (name : String) : Holding hosts n t late k (fun found => found = none → name ≠ n) (kept? name) := by
  refine .get_bind fun s h => .pure fun none same => ?_
  obtain ⟨u, held⟩ := h.engine.exists_lookup
  rw [h.render.cache, same, held] at none
  cases none

theorem perform {action : Action} (spares : action.Spares n) (keeps : action.Keeps hosts) :
    Holding hosts n t late k (fun _ => True) (perform action) :=
  Upholds.perform fun s h => ⟨keeps _ h.host, h.engine.onEngine spares,
    (congrArg _ (s.engine.asked_onEngine action)).trans h.asked, h.render⟩

end Holding

end Stencil
