import Stencil.Proofs.Engine.Loads
import Stencil.Proofs.Render.Running

/-! Renders whose helpers are pure. What a helper does depends on what it is given and on the texts it waits for, each
    future has one outcome whenever it is done, and the loader answers a name always alike. Then a name leads to one
    template, whatever has been loaded before, and using an engine changes nothing that rendering can see. -/

namespace Stencil

/-- Whenever the future is done, it has this outcome. -/
def Future.Settles {α : Type} (hosts : Host → Prop) (future : Future α) (outcome : Except Error α) : Prop :=
  ∀ host, hosts host → future host = none ∨ future host = some outcome

/-- The steps leave the engine alone, hand every error on, and wait for futures with one outcome each. -/
def Program.Pure (hosts : Host → Prop) : Program → Prop
  | .finish _ | .fail _ => True
  | .write _ next | .render _ _ next => (∀ e, next (.error e) = .fail e) ∧ (next (.ok ())).Pure hosts
  | .renderToString _ _ next => (∀ e, next (.error e) = .fail e) ∧ ∀ text, (next (.ok text)).Pure hosts
  | .defer future resume next => (∃ outcome, future.Settles hosts outcome) ∧ (∀ text, (resume text).Pure hosts) ∧
    (∀ e, next (.error e) = .fail e) ∧ (next (.ok ())).Pure hosts
  | .act _ _ => False

def Helper.Pure (hosts : Host → Prop) (helper : Helper) : Prop :=
  ∀ context bodies params, (helper context bodies params).Pure hosts

theorem Helper.pure_builtin {hosts : Host → Prop} {name : String} {helper : Helper}
    (known : Dict.get? name Helper.builtin = some helper) : helper.Pure hosts := by
  have body (body : Option Body) (context : Context) : (Program.renderBody body context).Pure hosts := by
    cases body with
    | none => exact trivial
    | some body => exact ⟨fun _ => rfl, trivial⟩
  have blockIf (condition : Bool) (context : Context) (bodies : Bodies Body) :
      (Helper.blockIf condition context bodies).Pure hosts := by
    unfold Helper.blockIf
    split
    · exact body _ _
    · exact trivial
  rcases Helper.eq_of_get?_builtin known with rfl | rfl | rfl | rfl | rfl
  · exact fun _ _ _ => blockIf _ _ _
  · exact fun _ _ _ => blockIf _ _ _
  · exact fun _ _ _ => blockIf _ _ _
  · exact fun _ _ _ => body _ _
  · exact fun _ _ _ => trivial

/-- All that an engine calls is pure in the hosts given. -/
structure Engine.Pure (hosts : Host → Prop) (e : Engine) : Prop where
  helpers {name : String} {helper : Helper} : Dict.get? name e.helpers = some helper → helper.Pure hosts
  functions (id : FunctionId) : (e.functions id).Pure hosts
  loader {loader : Loader} : e.loader = some loader →
    ∀ name, ∃ outcome, ∀ asked, (loader.load asked name).Settles hosts outcome

def Wait.Pure (hosts : Host → Prop) : Wait → Prop
  | .text future resume => (∃ outcome, future.Settles hosts outcome) ∧ ∀ text, (resume text).Pure hosts
  | .load _ _ => True

variable {hosts : Host → Prop} {e e' : Engine} {name other : String} {t t' : Template}

theorem Future.Settles.eq {α : Type} {future : Future α} {outcome found : Except Error α} {host : Host}
    (h : future.Settles hosts outcome) (here : hosts host) (done : future host = some found) : found = outcome := by
  rcases h host here with no | same
  · cases no.symm.trans done
  · exact Option.some.inj (done.symm.trans same)

/-! ### The template of a name -/

/-- The template that a name leads to: one that is kept, or what the loader finds. -/
inductive Engine.Finds (hosts : Host → Prop) (e : Engine) : String → Template → Prop where
  | kept {name : String} {t : Template} : e.lookup name e.config.cache = some t → Finds hosts e name t
  | source {name text : String} {t : Template} {loader : Loader} {asked : List String} {host : Host} :
    e.lookup name e.config.cache = none → e.loader = some loader → hosts host →
    loader.load asked name host = some (.ok (.source text)) → e.compile text (some name) = .ok t → Finds hosts e name t
  | template {name : String} {t : Template} {loader : Loader} {asked : List String} {host : Host} :
    e.lookup name e.config.cache = none → e.loader = some loader → hosts host →
    loader.load asked name host = some (.ok (.template t)) → Finds hosts e name t
  | redirect {name other : String} {t : Template} {loader : Loader} {asked : List String} {host : Host} :
    e.lookup name e.config.cache = none → e.loader = some loader → hosts host →
    loader.load asked name host = some (.ok (.redirect other)) → Finds hosts e other t → Finds hosts e name t

namespace Engine

theorem Pure.answer_eq (pure : e.Pure hosts) {loader loader' : Loader} (some' : e.loader = some loader)
    (some'' : e.loader = some loader') {asked asked' : List String} {host host' : Host} {a b : Except Error Loaded}
    (here : hosts host) (there : hosts host') (answer : loader.load asked name host = some a)
    (answer' : loader'.load asked' name host' = some b) : b = a := by
  cases some'.symm.trans some''
  obtain ⟨outcome, settles⟩ := pure.loader some' name
  rw [(settles asked).eq here answer, (settles asked').eq there answer']

/-- A name leads to one template. -/
theorem Finds.unique (pure : e.Pure hosts) (h : e.Finds hosts name t) (h' : e.Finds hosts name t') : t' = t := by
  induction h with
  | kept look =>
    cases h' with
    | kept look' => exact Option.some.inj (look'.symm.trans look)
    | source no | template no | redirect no => cases no.symm.trans look
  | source no some here answer compiled =>
    cases h' with
    | kept look => cases no.symm.trans look
    | source _ some' there answer' compiled' =>
      cases pure.answer_eq some some' here there answer answer'
      exact Except.ok.inj (compiled'.symm.trans compiled)
    | template _ some' there answer' | redirect _ some' there answer' =>
      cases pure.answer_eq some some' here there answer answer'
  | template no some here answer =>
    cases h' with
    | kept look => cases no.symm.trans look
    | template _ some' there answer' =>
      cases pure.answer_eq some some' here there answer answer'
      rfl
    | source _ some' there answer' | redirect _ some' there answer' =>
      cases pure.answer_eq some some' here there answer answer'
  | redirect no some here answer _ ih =>
    cases h' with
    | kept look => cases no.symm.trans look
    | redirect _ some' there answer' next =>
      cases pure.answer_eq some some' here there answer answer'
      exact ih next
    | source _ some' there answer' | template _ some' there answer' =>
      cases pure.answer_eq some some' here there answer answer'

/-! ### Engines in use -/

/-- The engine `e'` is `e` after some use by renders: it calls the same code, and keeps what names lead to. -/
structure Used (hosts : Host → Prop) (e e' : Engine) : Prop where
  same : Same e e'
  filters : e'.filters = e.filters
  config : e'.config = e.config
  kept {name : String} {t : Template} : e.lookup name e.config.cache = some t → e'.lookup name e.config.cache = some t
  finds {name : String} {t : Template} : e'.lookup name e.config.cache = some t → e.Finds hosts name t

namespace Used

theorem refl (hosts : Host → Prop) (e : Engine) : Used hosts e e := ⟨.refl e, rfl, rfl, id, .kept⟩

theorem read (h : Used hosts e e') (reading : Reading) : Used hosts e (e'.read reading) :=
  ⟨⟨h.same.helpers, h.same.functions, h.same.loader⟩, h.filters, h.config, h.kept, h.finds⟩

theorem noted (h : Used hosts e e') (log : List LogRecord) (asked : List String) (calls : List Call) :
    Used hosts e { e' with log, asked, calls } :=
  ⟨⟨h.same.helpers, h.same.functions, h.same.loader⟩, h.filters, h.config, h.kept, h.finds⟩

theorem record (h : Used hosts e e') (level : LogLevel) (message : String) : Used hosts e (e'.record level message) := by
  rw [record_eq]
  exact h.noted _ _ _

theorem ask (h : Used hosts e e') (loader : Loader) (name : String) : Used hosts e (e'.ask loader name).2 := h.noted _ _ _

theorem applyFilters (h : Used hosts e e') (filters : List String) (value : Value) :
    Used hosts e (applyFilters filters value e').2 := by
  rw [applyFilters_eq]
  exact h.noted _ _ _

theorem called (h : Used hosts e e') (call : Call) : Used hosts e (e'.called call) := h.noted _ _ _

theorem lookup_none (h : Used hosts e e') (absent : e'.lookup name e.config.cache = none) :
    e.lookup name e.config.cache = none := by
  cases look : e.lookup name e.config.cache with
  | none => rfl
  | some t => cases absent.symm.trans (h.kept look)

theorem compile_eq (h : Used hosts e e') (source : String) (name : Option String) :
    e'.compile source name = e.compile source name := by
  unfold compile
  rw [h.config]

end Used

theorem name_of_compile {source : String} {name : Option String} (compiled : e.compile source name = .ok t) :
    t.name = name := by
  unfold compile Template.compile at compiled
  cases parsed : Node.ofSource source with
  | error fault =>
    rw [parsed] at compiled
    cases compiled
  | ok nodes =>
    rw [parsed] at compiled
    cases compiled
    rfl

theorem lookup_insert (e : Engine) (t : Template) (name other : String) :
    lookup { e with templates := Dict.insert name t e.templates } other true =
      if other = name then some t else e.lookup other true := by
  show Dict.get? other (Dict.insert name t e.templates) = if other = name then some t else Dict.get? other e.templates
  split
  · next same =>
    rw [same]
    exact Dict.get?_insert_self ..
  · next ne => exact Dict.get?_insert_of_ne ne ..

theorem Used.keep (h : Used hosts e e') (absent : e.lookup name e.config.cache = none) (named : t.name = some name)
    (found : e.Finds hosts name t) : Used hosts e (e'.keep t) := by
  unfold Engine.keep
  rw [named]
  dsimp only
  split
  · next cache =>
    rw [h.config] at cache
    refine ⟨⟨h.same.helpers, h.same.functions, h.same.loader⟩, h.filters, h.config, fun {other u} kept => ?_,
      fun {other u} look => ?_⟩
    · rw [cache, lookup_insert, if_neg]
      · exact cache ▸ h.kept kept
      · rintro rfl
        cases absent.symm.trans kept
    · rw [cache, lookup_insert] at look
      split at look
      · next same =>
        cases look
        exact same ▸ found
      · exact h.finds (cache ▸ look)
  · exact h

theorem Used.addTemplate (h : Used hosts e e') {text : String} {loader : Loader} {asked : List String} {host : Host}
    (absent : e.lookup name e.config.cache = none) (some' : e.loader = some loader) (here : hosts host)
    (answer : loader.load asked name host = some (.ok (.source text))) :
    Used hosts e (e'.addTemplate name text).2 ∧
      ∀ t, (e'.addTemplate name text).1 = .ok t → e.Finds hosts name t := by
  unfold Engine.addTemplate
  rw [h.compile_eq]
  cases compiled : e.compile text (some name) with
  | error error => exact ⟨h.read _, fun _ no => by cases no⟩
  | ok t =>
    have found : e.Finds hosts name t := .source absent some' here answer compiled
    exact ⟨((h.read _).read _).keep absent (name_of_compile compiled) found, fun _ same => by cases same; exact found⟩

end Engine

/-! ### Loads -/

/-- A load leads to the template of a name, or fails. -/
def Load.Right (hosts : Host → Prop) (e : Engine) (name : String) : Load → Prop
  | .waiting other answer _ => e.lookup other e.config.cache = none ∧
    (∃ loader asked, e.loader = some loader ∧ answer = loader.load asked other) ∧
    ∀ t, e.Finds hosts other t → e.Finds hosts name t
  | .settled result => ∀ t, result = .ok t → e.Finds hosts name t

namespace Load

theorem Right.mono {load : Load} (h : load.Right hosts e other) (imp : ∀ t, e.Finds hosts other t → e.Finds hosts name t) :
    load.Right hosts e name := by
  cases load with
  | waiting asked answer rounds =>
    obtain ⟨absent, answers, finds⟩ := h
    exact ⟨absent, answers, fun t found => imp t (finds t found)⟩
  | settled result => exact fun t same => imp t (h t same)

theorem Right.finds {load : Load} (h : load.Right hosts e name) (settled : load.result? = some (.ok t)) :
    e.Finds hosts name t := by
  cases load with
  | waiting other answer rounds => cases settled
  | settled result => exact h t (Option.some.inj settled)

theorem right_advance {host : Host} {limit rounds : Nat} {answer : Future Loaded} (used : Engine.Used hosts e e')
    (here : hosts host) (absent : e.lookup name e.config.cache = none)
    (answers : ∃ loader asked, e.loader = some loader ∧ answer = loader.load asked name) :
    (advance host e.config.cache limit rounds name answer e').1.Right hosts e name ∧
      Engine.Used hosts e (advance host e.config.cache limit rounds name answer e').2 := by
  refine advance_induct (P := fun name answer e' result => Engine.Used hosts e e' →
      e.lookup name e.config.cache = none → (∃ loader asked, e.loader = some loader ∧ answer = loader.load asked name) →
      result.1.Right hosts e name ∧ Engine.Used hosts e result.2)
    ?waiting ?error ?source ?template ?kept ?ask used absent answers
  case waiting => exact fun name answer e' rounds _ used absent answers => ⟨⟨absent, answers, fun _ => id⟩, used⟩
  case error => exact fun name answer e' error used _ _ => ⟨(fun _ no => by cases no), used⟩
  case source =>
    rintro name _ e' text found used absent ⟨loader, asked, some, rfl⟩
    obtain ⟨used', finds⟩ := used.addTemplate absent some here found
    exact ⟨finds, used'⟩
  case template =>
    rintro name _ e' t found used absent ⟨loader, asked, some, rfl⟩
    exact ⟨(fun _ same => by cases same; exact .template absent some here found), used⟩
  case kept =>
    rintro name _ e' other t found look used absent ⟨loader, asked, some, rfl⟩
    exact ⟨(fun _ same => by cases same; exact .redirect absent some here found (used.finds look)), used⟩
  case ask =>
    rintro name _ e' other loader' result found look some' ih used absent ⟨loader, asked, some, rfl⟩
    have next : Engine.Used hosts e
        ((e'.record .debug ("Redirecting `" ++ name ++ "` to `" ++ other ++ "`")).ask loader' other).2 :=
      (used.record ..).ask ..
    obtain ⟨right, used'⟩ := ih next (used.lookup_none look) ⟨loader', _, used.same.loader ▸ some', rfl⟩
    exact ⟨right.mono fun t => .redirect absent some here found, used'⟩

end Load

/-! ### Stages -/

/-- The engine has been used by renders only, and what a render waits for is pure. -/
structure Stage.Pure (hosts : Host → Prop) (e : Engine) (s : Stage) : Prop where
  host : hosts s.host
  engine : e.Used hosts s.engine
  config : s.render.config = e.config
  loads {name : String} {load : Load} : Dict.get? name s.render.loads = some load → load.Right hosts e name
  tasks : ∀ task ∈ s.render.tasks, task.wait.Pure hosts

theorem Stage.Pure.used {s : Stage} (h : s.Pure hosts e) {engine : Engine} (used : e.Used hosts engine) :
    Stage.Pure hosts e { s with engine } := ⟨h.host, used, h.config, h.loads, h.tasks⟩

theorem Stage.Pure.load {s : Stage} (h : s.Pure hosts e) {load : Load} (right : load.Right hosts e name) :
    Stage.Pure hosts e { s with render := { s.render with loads := Dict.insert name load s.render.loads } } := by
  refine ⟨h.host, h.engine, h.config, fun found => ?_, h.tasks⟩
  exact loads_insert (P := fun name load => load.Right hosts e name) right h.loads found

namespace RenderM

variable {s u : Stage}

theorem run_of_returns {α : Type} {next : Except Error α → Program} (returns : ∀ e, next (.error e) = .fail e)
    (render : Renderer) (e : Error) : (next (.error e)).run render = throw e := by
  rw [returns]
  rfl

theorem pure_startLoad {template : Option String} (h : s.Pure hosts e)
    (absent : s.engine.lookup name s.render.config.cache = none)
    (done : (startLoad name template).run s = .ok (.ok (), u)) : u.Pure hosts e := by
  rw [h.config] at absent
  change RenderM.run (if Dict.contains name s.render.loads then pure () else _) s = _ at done
  split at done
  · cases done
    exact h
  · obtain ⟨_, _, here, done⟩ := run_bind_eq_ok_ok.mp done
    cases here
    split at done
    · cases done
    · next loader kind =>
      cases done
      have used : e.Used hosts ((s.engine.record .debug ("Loading template `" ++ name ++ "`")).ask loader name).2 :=
        (h.engine.record ..).ask ..
      exact (h.used used).load
        ⟨h.engine.lookup_none absent, ⟨loader, _, h.engine.same.loader ▸ kind, rfl⟩, fun _ => id⟩

theorem pure_pollLoad {result : Option (Except Error Template)} (h : s.Pure hosts e)
    (done : (pollLoad name).run s = .ok (.ok result, u)) :
    u.Pure hosts e ∧ ∀ t, result = some (.ok t) → e.Finds hosts name t := by
  obtain ⟨_, _, here, done⟩ := run_bind_eq_ok_ok.mp done
  cases here
  split at done
  · cases done
    exact ⟨h, fun _ no => by cases no⟩
  · next load found =>
    have polled : (load.poll s.host s.render.config.cache s.render.config.maxPartialDepth s.engine).1.Right hosts e name ∧
        e.Used hosts (load.poll s.host s.render.config.cache s.render.config.maxPartialDepth s.engine).2 := by
      have right := h.loads found
      rw [h.config]
      cases load with
      | waiting other answer rounds =>
        obtain ⟨absent, answers, finds⟩ := right
        obtain ⟨right', used⟩ := Load.right_advance h.engine h.host absent answers
        exact ⟨right'.mono finds, used⟩
      | settled result => exact ⟨right, h.engine⟩
    obtain ⟨right, used⟩ := polled
    cases done
    exact ⟨(h.used used).load right, fun t same => right.finds same⟩

end RenderM
end Stencil
