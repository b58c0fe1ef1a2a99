import Stencil.Proofs.Render.Driving
import Stencil.Proofs.Render.Honesty

/-! Whom a report blames. A report comes out of a filter, of a callable or of a body on the side, and on its way out it
    passes the calls around that place. The filter, the body on the side and each call fill in what is still open: their
    own name, and the template that is rendered there. A filter leaves the template open. -/

namespace Stencil

open RenderM Render

/-! ### The way out -/

/-- What a report comes through on its way out, with the name of the template that is rendered there. -/
inductive Site where
  /-- A filter of a name. -/
  | filter (name : String) (template : Option String)
  /-- A callable that is called under a name. -/
  | call (name : String) (template : Option String)
  /-- A body rendered on the side. -/
  | quote (template : Option String)

namespace Site

/-- The name that the site fills in. -/
def name? : Site → Option String
  | .filter name _ => some name
  | .call name _ => some name
  | .quote _ => none

/-- The template that the site fills in. -/
def told : Site → Option String
  | .filter _ _ => none
  | .call _ template => template
  | .quote template => template

end Site

/-- The report of a message that comes through the sites, the innermost first. -/
def Error.through (sites : List Site) (message : String) : Error :=
  .helper (sites.findSome? Site.name?) (sites.findSome? Site.told) message

/-- What is said of a body on the side that puts work off. -/
def sideMessage : String := "parameter body did not render synchronously"

theorem Error.through_attributed (sites : List Site) (message name : String) (template : Option String) :
    (Error.through sites message).attributed name template = .through (sites ++ [.call name template]) message := by
  unfold through attributed
  rw [List.findSome?_append, List.findSome?_append]
  cases template <;> rfl

theorem Error.notSynchronous_eq (template : Option String) :
    notSynchronous template = .through [.quote template] sideMessage := by
  cases template <;> rfl

theorem Error.ofMessage_attributed (message name : String) (template : Option String) :
    (Error.ofMessage message).attributed name none = .through [.filter name template] message := rfl

theorem Error.reports_attributed {error : Error} {name : String} {template : Option String} :
    (error.attributed name template).Reports ↔ error.Reports := by
  cases error <;> exact Iff.rfl

/-! ### Where a report comes from -/

/-- What fails: a body rendered in a scope, or the steps of a callable. -/
inductive Code where
  | body (body : Body) (context : Context)
  | program (program : Program)

/-- From a stage of the kind, the code fails with the error. -/
def Fails (A : Stage → Prop) (nesting : Nat) (error : Error) : Code → Prop
  | .body body context => ∃ s t, A s ∧ (exec nesting body context).run s = .ok (.error error, t)
  | .program program => ∃ s t, A s ∧ (program.run (exec nesting)).run s = .ok (.error error, t)

/-- From a stage of the kind, the body is rendered on the side and leaves work there. -/
def LeavesWork (A : Stage → Prop) (nesting : Nat) (body : Body) (context : Context) : Prop :=
  ∃ s u, A s ∧ (within Chunks.root (exec nesting body context)).run s.onSide = .ok (.ok (), u) ∧ u.render.tasks ≠ []

/-- The steps themselves, or a future they wait for, fail with the message. -/
def Program.Tells (p : Program) (message : String) : Prop :=
  p.ComesTo (.fail (.ofMessage message)) ∨ ∃ future resume next host,
    p.ComesTo (.defer future resume next) ∧ future host = some (.error (.ofMessage message))

/-- What the engine calls under a name in a scope: a helper, or what the data hold under a path. -/
def Engine.Offers (e : Engine) (context : Context) (name : String) (helper : Helper) : Prop :=
  Dict.get? name e.helpers = some helper ∨ ∃ inner path id, context.Derives inner ∧ path.text = name ∧
    inner.resolve path = some (.function id) ∧ e.functions id = helper

/-- The filter of a name fails with the message. -/
def Engine.Refuses (e : Engine) (name message : String) : Prop :=
  ∃ filter value, Dict.get? name e.filters = some filter ∧ filter value = .error (.ofMessage message)

/-- At stages of the kind, the step renders the body in the scope by itself: on the side, as a section, what fills it, or
    the template that is found under the name the step comes to. -/
inductive Step.Shows (A : Stage → Prop) (context : Context) (step : Step) : Body → Context → Prop
  | quoted {body : Body} : step.Quotes body → Shows A context step body context
  | dispatched {body : Body} {inner : Context} : step.Dispatches body → context.Derives inner →
    Shows A context step body inner
  | filling {name : String} {default : Option Body} {body : Body} : step = .slot name default →
    (context.block? name).or default = some body → Shows A context step body context.fill
  | entered {name : String} {inner : Context} {t : Template} : step.Tags A context name inner →
    (Subject.name name).Leads A t → Shows A context step t.body (inner.enter t)

/-- The report of the message comes out of the code through the sites, the innermost first, in a run through stages of the
    kind. Steps of a callable fail by themselves or hand on what a body they render fails with. A body fails where one of
    its steps does: at a filter, in what it renders by itself, or in a call, which is a site of its own. -/
inductive Raised (A : Stage → Prop) : (nesting : Nat) → Code → List Site → (message : String) → Prop
  | own {nesting : Nat} {program : Program} {message : String} : program.Tells message →
    Raised A nesting (.program program) [] message
  | mentioned {nesting : Nat} {program : Program} {body : Body} {context : Context} {sites : List Site}
    {message : String} : program.Mentions body context → Fails A nesting (.through sites message) (.body body context) →
    Raised A nesting (.body body context) sites message → Raised A nesting (.program program) sites message
  | aside {nesting : Nat} {program : Program} {body : Body} {context : Context} : program.Mentions body context →
    LeavesWork A nesting body context → Raised A nesting (.program program) [.quote context.templateName] sideMessage
  | filter {nesting : Nat} {body : Body} {context : Context} {step : Step} {filters : List String} {name : String}
    {message : String} {s : Stage} : step ∈ body → step.Filters filters → name ∈ filters → A s →
    s.engine.Refuses name message → Raised A (nesting + 1) (.body body context) [.filter name context.templateName] message
  | quoted {nesting : Nat} {body : Body} {context : Context} {step : Step} {held : Body} : step ∈ body →
    step.Quotes held → LeavesWork A nesting held context →
    Raised A (nesting + 1) (.body body context) [.quote context.templateName] sideMessage
  | called {nesting : Nat} {body : Body} {context inner : Context} {step : Step} {name : String} {helper : Helper}
    {bodies : Bodies Body} {params : Params} {sites : List Site} {message : String} {s : Stage} : step ∈ body →
    step.Calls name → A s → s.engine.Offers context name helper → context.Derives inner →
    (∀ held, bodies.Holds held → step.Holds held) →
    Fails A nesting (.through sites message) (.program (helper inner bodies params)) →
    Raised A nesting (.program (helper inner bodies params)) sites message →
    Raised A (nesting + 1) (.body body context) (sites ++ [.call name context.templateName]) message
  | shown {nesting : Nat} {body held : Body} {context inner : Context} {step : Step} {sites : List Site}
    {message : String} : step ∈ body → step.Shows A context held inner →
    Fails A nesting (.through sites message) (.body held inner) →
    Raised A nesting (.body held inner) sites message → Raised A (nesting + 1) (.body body context) sites message

/-- If the error is a report, it comes out of the code through some sites. -/
def Blamed (A : Stage → Prop) (nesting : Nat) (code : Code) (error : Error) : Prop :=
  error.Reports → ∃ sites message, error = .through sites message ∧ Raised A nesting code sites message

variable {A : Stage → Prop} {hosts : Host → Prop} {good Q : Error → Prop} {nesting : Nat} {code : Code} {error : Error}
  {context inner : Context} {step : Step} {body held : Body}

theorem Blamed.of_not_reports (h : ¬ error.Reports) : Blamed A nesting code error := fun no => absurd no h

theorem Blamed.own {program : Program} (unsigned : error.Unsigned)
    (tells : ∀ message, error = .ofMessage message → program.Tells message) :
    Blamed A nesting (.program program) error := by
  intro reports
  obtain ⟨message, rfl⟩ := unsigned.eq_ofMessage reports
  exact ⟨[], message, rfl, .own (tells message rfl)⟩

/-! ### Steps of callables -/

theorem honestly_program (hr : ∀ body context, Honestly A hosts good (fun _ => True)
      (Blamed A nesting (.body body context)) (exec nesting body context)) {program : Program}
    (honest : program.Honest hosts fun _ => False) :
    Honestly A hosts good (fun _ => True) (Blamed A nesting (.program program)) (program.run (exec nesting)) := by
  have mentions {body : Body} {context : Context} (there : program.Mentions body context) :
      Honestly A hosts good (fun _ => True) (Blamed A nesting (.program program)) (exec nesting body context) := by
    refine (hr body context).mono_error fun s t error here ran blamed reports => ?_
    obtain ⟨sites, message, rfl, raised⟩ := blamed reports
    exact ⟨sites, message, rfl, .mentioned there ⟨s, t, here, ran⟩ raised⟩
  have handed {α : Type} {V : α → Prop} {received : Error → Prop} {outcome : Except Error α}
      (before : ∀ error, received error → Blamed A nesting (.program program) error)
      (ends : Outcome V (Blamed A nesting (.program program)) outcome) (error : Error)
      (given : Error.HandedOver received outcome error) : Blamed A nesting (.program program) error := by
    rcases given with given | rfl
    · exact before error given
    · exact ends
  suffices ∀ (p : Program) (received : Error → Prop), program.ComesTo p → p.Honest hosts received →
      (∀ error, received error → Blamed A nesting (.program program) error) →
      Honestly A hosts good (fun _ => True) (Blamed A nesting (.program program)) (p.run (exec nesting)) from
    this program _ .here honest fun _ no => no.elim
  intro p
  induction p with
  | finish reply => exact fun _ _ _ _ => .pure trivial
  | fail error =>
    intro received comes honest before
    rcases honest with unsigned | given
    · exact .throw (.own unsigned fun message same => Or.inl (same ▸ comes))
    · exact .throw (before error given)
  | write text next ih =>
    intro received comes honest before
    exact (Admits.write steady_honest text).attempt.bind fun o ends =>
      ih o _ (comes.trans (.write .here)) (honest o) (handed before ends)
  | render body context next ih =>
    intro received comes honest before
    exact (mentions (Or.inl ⟨next, comes⟩)).attempt.bind fun o ends =>
      ih o _ (comes.trans (.render .here)) (honest o) (handed before ends)
  | renderToString body context next ih =>
    intro received comes honest before
    have there : program.Mentions body context := Or.inr ⟨next, comes⟩
    have quotes := (mentions there).toText steady_honest fun s u here ran left _ =>
      ⟨_, _, Error.notSynchronous_eq _, .aside there ⟨s, u, here, ran, left⟩⟩
    exact quotes.attempt.bind fun o ends => ih o _ (comes.trans (.renderToString .here)) (honest o) (handed before ends)
  | defer future resume next ihResume ih =>
    intro received comes ⟨fails, resumes, honest⟩ before
    have waits : Wait.Honest hosts (.text future resume) := ⟨fails, resumes⟩
    have failed (host : Host) (error : Error) (here : hosts host) (found : future host = some (.error error)) :
        Blamed A nesting (.program program) error :=
      .own (fails host error here found) fun message same => Or.inr ⟨future, resume, next, host, comes, same ▸ found⟩
    have works (text : String) : Honestly A hosts good (fun _ => True) (Blamed A nesting (.program program)) (do
        let _ ← (resume text).run (exec nesting)) :=
      (ihResume text _ (comes.trans (.resume .here)) (resumes text) fun _ no => no.elim).bind fun _ _ => .pure trivial
    have polls := Honestly.pollText failed works
    exact (Honestly.putOff waits polls).attempt.bind fun o ends =>
      ih o _ (comes.trans (.defer .here)) (honest o) (handed before ends)
  | act action next ih =>
    intro received comes ⟨keeps, honest⟩ before
    exact (Honestly.perform keeps fun _ => .of_not_reports).attempt.bind fun o ends =>
      ih o _ (comes.trans (.act .here)) (honest o) (handed before ends)

/-! ### Steps of templates -/

theorem applyFilters_error {filters : List String} {value : Value} {e : Engine}
    (failed : (Engine.applyFilters filters value e).1 = .error error) : ∃ name ∈ filters, ∃ filter given cause,
      Dict.get? name e.filters = some filter ∧ filter given = .error cause ∧ error = cause.attributed name none := by
  induction filters generalizing value e with
  | nil => cases failed
  | cons name rest ih =>
    unfold Engine.applyFilters at failed
    split at failed
    · obtain ⟨name', mem, filter, given, cause, found, refuses⟩ := ih failed
      rw [Engine.record_eq] at found
      exact ⟨name', List.mem_cons_of_mem _ mem, filter, given, cause, found, refuses⟩
    · next filter found =>
      dsimp only at failed
      split at failed
      · obtain ⟨name', mem, filter, given, cause, found, refuses⟩ := ih failed
        exact ⟨name', List.mem_cons_of_mem _ mem, filter, given, cause, found, refuses⟩
      · next cause refuses =>
        cases failed
        exact ⟨name, List.mem_cons_self, filter, value, cause, found, refuses, rfl⟩

theorem honestly_template (others : ∀ error, ¬ error.Reports → Q error) (t : Template) (context : Context)
    (entered : Honestly A hosts good (fun _ => True) Q (exec nesting t.body (context.enter t))) :
    Honestly A hosts good (fun _ => True) Q (template (exec nesting) t context) := by
  have limits : Honestly A hosts good (fun _ => True) Q depthLimit := .get_bind fun _ _ _ => .pure trivial
  refine limits.bind fun limit _ => ?_
  split
  · exact .throw (others _ id)
  · exact entered

theorem honestly_named (others : ∀ error, ¬ error.Reports → Q error) (name : String) (context : Context)
    (entered : ∀ t, (Subject.name name).Leads A t →
      Honestly A hosts good (fun _ => True) Q (exec nesting t.body (context.enter t))) :
    Honestly A hosts good (fun _ => True) Q (named (exec nesting) name context) := by
  have kept : Honestly A hosts good (fun found => ∀ t, found = some t → (Subject.name name).Leads A t) Q (kept? name) :=
    .get_bind fun s _ here => .pure fun t found => .of_kept here found
  have templates (t : Template) (leads : (Subject.name name).Leads A t) :=
    honestly_template others t context (entered t leads)
  refine kept.bind fun found leads => ?_
  cases found with
  | some t => exact templates t (leads t rfl)
  | none =>
    refine (Honestly.startLoad name (others _ id)).bind fun _ _ => ?_
    have waits : Wait.Honest hosts (.load name context) := trivial
    exact Honestly.putOff waits (Honestly.pollTemplate others templates)

/-- What a body renders by itself, the steps are made of: with errors that come out of the body. -/
def blaming (A : Stage → Prop) (hosts : Host → Prop) (good : Error → Prop) (nesting : Nat) (body : Body)
    (context : Context) : Joint (.derived context) where
  rel V x _ := Honestly A hosts good V (Blamed A (nesting + 1) (.body body context)) x
  helper name helper := helper.Honest hosts ∧ ∃ s, A s ∧ s.engine.Offers context name helper
  fills _ := True
  pure h := .pure h
  bind := Admits.bind
  write text := Admits.write steady_honest text
  record level message := Honestly.record level message
  helper? _ := .get_bind fun s h here => .pure fun _ found => ⟨h.engine.helpers found, s, here, Or.inl found⟩
  callable {inner path id} derives found := .get_bind fun s h here =>
    .pure ⟨h.engine.functions id, s, here, Or.inr ⟨inner, path, id, derives, rfl, found, rfl⟩⟩
  filled _ := Honestly.note _

theorem honestly_filtered (mem : step ∈ body) {filters : List String} (uses : step.Filters filters) (value : Value) :
    Honestly A hosts good (fun _ => True) (Blamed A (nesting + 1) (.body body context)) (writeFiltered value filters) := by
  have runs : Honestly A hosts good (Outcome (fun _ => True) (Blamed A (nesting + 1) (.body body context)))
      (Blamed A (nesting + 1) (.body body context)) (withEngine (Engine.applyFilters filters value)) := by
    refine Honestly.withEngine (fun e h => h.of_same (e.same_applyFilters filters value) ?_) fun s h here => ?_
    · rw [Engine.applyFilters_eq]
    · cases ran : (Engine.applyFilters filters value s.engine).1 with
      | ok v => trivial
      | error error =>
        intro reports
        obtain ⟨name, listed, filter, given, cause, found, refuses, rfl⟩ := applyFilters_error ran
        obtain ⟨message, rfl⟩ := (h.engine.filters found refuses).eq_ofMessage (Error.reports_attributed.mp reports)
        exact ⟨_, _, Error.ofMessage_attributed .., .filter mem uses listed here ⟨filter, given, found, refuses⟩⟩
  unfold writeFiltered
  split
  · exact .pure trivial
  · exact runs.bind fun outcome ends => (Admits.ofExcept ends).bind fun v _ => Admits.write steady_honest v.text

section

variable (hr : ∀ body context, Honestly A hosts good (fun _ => True) (Blamed A nesting (.body body context))
  (exec nesting body context))

include hr

theorem honestly_shown (mem : step ∈ body) (shows : step.Shows A context held inner) :
    Honestly A hosts good (fun _ => True) (Blamed A (nesting + 1) (.body body context)) (exec nesting held inner) := by
  refine (hr held inner).mono_error fun s t error here ran blamed reports => ?_
  obtain ⟨sites, message, rfl, raised⟩ := blamed reports
  exact ⟨sites, message, rfl, .shown mem shows ⟨s, t, here, ran⟩ raised⟩

theorem honestly_call (mem : step ∈ body) {name : String} (calls : step.Calls name) {helper : Helper} {s : Stage}
    (honest : helper.Honest hosts) (here : A s) (offers : s.engine.Offers context name helper)
    (derives : context.Derives inner) {bodies : Bodies Body} (holds : ∀ held, bodies.Holds held → step.Holds held)
    (params : Params) : Honestly A hosts good (fun _ => True) (Blamed A (nesting + 1) (.body body context))
      (call (exec nesting) helper name inner bodies params) := by
  let program := helper inner bodies params
  have steps : Honestly A hosts good (fun _ => True)
      (fun error => Fails A nesting error (.program program) ∧ Blamed A nesting (.program program) error)
      (program.run (exec nesting)) :=
    (honestly_program hr (honest inner bodies params)).mono_error fun s t _ here ran blamed =>
      ⟨⟨s, t, here, ran⟩, blamed⟩
  have same : inner.templateName = context.templateName := by rw [derives.eq]
  refine (Honestly.called _).bind fun _ _ => steps.mapError fun error ⟨fails, blamed⟩ reports => ?_
  obtain ⟨sites, message, rfl, raised⟩ := blamed (Error.reports_attributed.mp reports)
  rw [same, Error.through_attributed]
  exact ⟨_, _, rfl, .called mem calls here offers derives holds fails raised⟩

theorem honestly_quoted (mem : step ∈ body) (quotes : step.Quotes held) : Honestly A hosts good (fun _ => True)
    (Blamed A (nesting + 1) (.body body context)) (toText context.templateName (exec nesting held context)) :=
  (honestly_shown hr mem (.quoted quotes)).toText steady_honest fun s u here ran left _ =>
    ⟨_, _, Error.notSynchronous_eq _, .quoted mem quotes ⟨s, u, here, ran, left⟩⟩

theorem honestly_step (mem : step ∈ body) : Honestly A hosts good (fun _ => True)
    (Blamed A (nesting + 1) (.body body context)) (Render.step (exec nesting) context step) := by
  by_cases includes : step.Includes
  · obtain ⟨target, own, list, rfl⟩ := includes.eq
    have tags : Honestly A hosts good (context.Derives ·.2) (Blamed A (nesting + 1) (.body body context))
        (tagged (exec nesting) target own list context) :=
      @Joint.tagged _ _ (blaming A hosts good nesting body context) (exec nesting) (exec nesting) _ _ _ .refl
        fun _ => honestly_quoted hr mem
    show Honestly A hosts good _ _ (partialTag (exec nesting) target own list context)
    rw [partialTag_eq]
    refine tags.ran.bind fun (name, inner) ⟨_, s, t, here, there, ran⟩ => ?_
    exact honestly_named (fun _ => .of_not_reports) name inner fun _ leads =>
      honestly_shown hr mem (.entered ⟨target, own, list, nesting, s, t, rfl, here, there, ran⟩ leads)
  · have meets : (blaming A hosts good nesting body context).Meets (exec nesting) (exec nesting) context step :=
      { body := fun shows derives => honestly_shown hr mem (.dispatched shows derives)
        quoted := honestly_quoted hr mem
        call := fun calls ⟨honest, s, here, offers⟩ derives holds _ =>
          (honestly_call hr mem calls honest here offers derives holds _).mono fun reply _ => by cases reply <;> trivial
        filtered := fun value uses => honestly_filtered mem uses value
        named := fun _ _ yes _ => absurd yes includes
        filling := fun same found _ => honestly_shown hr mem (.filling same found) }
    exact meets.step .refl

end

/-- Whatever report comes out of a body, it comes out through some sites. -/
theorem honestly_exec (nesting : Nat) (body : Body) (context : Context) :
    Honestly A hosts good (fun _ => True) (Blamed A nesting (.body body context)) (exec nesting body context) := by
  induction nesting generalizing body context with
  | zero => exact .halt trivial
  | succ nesting ih =>
    let joint := blaming A hosts good nesting body context
    exact Joint.forM (J := joint) (g := step (exec nesting) context) fun step mem => honestly_step ih mem

end Stencil
