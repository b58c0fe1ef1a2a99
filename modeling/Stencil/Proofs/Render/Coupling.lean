import Stencil.Proofs.Render.Joints

/-! Relations of code that rendering respects. If two ways to render bodies are related on the bodies inside a step, and
    so are the programs of helpers and the partials, then doing the step is related too. What is proved of rendering goes
    through here, so that each property says only how it holds of the pieces. -/

namespace Stencil

/-- A relation of code whose results have a property. -/
structure Coupling (S : Scopes) where
  rel {α : Type} : (α → Prop) → RenderM α → RenderM α → Prop
  /-- The helpers that code is to meet. -/
  helper : Helper → Prop
  /-- The limits that code is to meet. -/
  limit : Nat → Prop
  /-- The numbers of slots around a slot that code is to meet. -/
  fills : Nat → Prop
  protected pure {α : Type} {V : α → Prop} {a : α} : V a → rel V (pure a) (pure a)
  protected throw {α : Type} (V : α → Prop) (e : Error) : rel V (throw e) (throw e)
  protected bind {α β : Type} {V : α → Prop} {W : β → Prop} {x y : RenderM α} {f g : α → RenderM β} :
    rel V x y → (∀ a, V a → rel W (f a) (g a)) → rel W (x >>= f) (y >>= g)
  protected mapError {α : Type} {V : α → Prop} {x y : RenderM α} (f : Error → Error) :
    rel V x y → rel V (RenderM.mapError f x) (RenderM.mapError f y)
  protected write (text : String) : rel (fun _ => True) (RenderM.write text) (RenderM.write text)
  protected filter (filters : List String) (value : Value) :
    rel (fun _ => True) (RenderM.withEngine (Engine.applyFilters filters value))
      (RenderM.withEngine (Engine.applyFilters filters value))
  protected record (level : LogLevel) (message : String) :
    rel (fun _ => True) (RenderM.record level message) (RenderM.record level message)
  protected called (call : Call) : rel (fun _ => True) (RenderM.called call) (RenderM.called call)
  protected toText {x y : RenderM Unit} (template : Option String) :
    rel (fun _ => True) x y → rel (fun _ => True) (RenderM.toText template x) (RenderM.toText template y)
  protected helper? (name : String) :
    rel (fun h => ∀ f, h = some f → helper f) (RenderM.helper? name) (RenderM.helper? name)
  protected callable {id : FunctionId} : S.value (.function id) → rel helper (RenderM.callable id) (RenderM.callable id)
  protected filled (fillings : Nat) :
    rel (fun _ => fills fillings) (RenderM.note (.filled fillings)) (RenderM.note (.filled fillings))
  protected depthLimit : rel limit RenderM.depthLimit RenderM.depthLimit

/-- The bodies have a property. -/
def Bodies.All (p : Body → Prop) (bodies : Bodies Body) : Prop :=
  (∀ body, bodies.block = some body → p body) ∧ ∀ e ∈ bodies.named, p e.2

/-- The body of an operand has a property. -/
def Operand.All (p : Body → Prop) : Operand Body → Prop
  | .body b => p b
  | _ => True

/-- The body of a name has a property. -/
def PartialName.All (p : Body → Prop) : PartialName Body → Prop
  | .static _ => True
  | .dynamic b => p b

/-- The bodies inside a step have a property; what fills a slot is not inside it. -/
def Step.Inside (p : Body → Prop) : Step → Prop
  | .sectionTag _ _ _ params bodies => (∀ e ∈ params, e.2.All p) ∧ bodies.All p
  | .helperTag _ _ params bodies => (∀ e ∈ params, e.2.All p) ∧ bodies.All p
  | .partialTag target _ params => target.All p ∧ ∀ e ∈ params, e.2.All p
  | _ => True

theorem Bodies.All.holds {p : Body → Prop} {bodies : Bodies Body} {body : Body} (h : bodies.All p)
    (holds : bodies.Holds body) : p body := by
  rcases holds with some | ⟨e, mem, rfl⟩
  · exact h.1 body some
  · exact h.2 e mem

theorem Step.InParams.all {p : Body → Prop} {params : List (String × Operand Body)} {body : Body}
    (mem : InParams params body) (h : ∀ e ∈ params, e.2.All p) : p body := by
  obtain ⟨e, mem, same⟩ := mem
  have here := h e mem
  rw [same] at here
  exact here

theorem Step.Inside.holds {p : Body → Prop} {step : Step} {body : Body} (h : step.Inside p) (holds : step.Holds body) :
    p body := by
  cases step with
  | sectionTag => exact holds.elim (·.all h.1) h.2.holds
  | helperTag => exact holds.elim (·.all h.1) h.2.holds
  | partialTag target =>
    refine holds.elim (fun same => ?_) (·.all h.2)
    subst same
    exact h.1
  | write => exact holds.elim
  | reference => exact holds.elim
  | slot => exact holds.elim

theorem Step.inside_all (step : Step) : step.Inside fun _ => True := by
  have operand (o : Operand Body) : o.All fun _ => True := by cases o <;> trivial
  have bodies (b : Bodies Body) : b.All fun _ => True := ⟨fun _ _ => trivial, fun _ _ => trivial⟩
  cases step with
  | sectionTag => exact ⟨fun _ _ => operand _, bodies _⟩
  | helperTag => exact ⟨fun _ _ => operand _, bodies _⟩
  | partialTag target => exact ⟨by cases target <;> trivial, fun _ _ => operand _⟩
  | write => trivial
  | reference => trivial
  | slot => trivial

namespace Coupling

open Render

variable {S : Scopes} (C : Coupling S) {render render' : Renderer} {p : Body → Prop} {context : Context}

/-- The relation of what steps are made of. -/
def joint : Joint S where
  rel := C.rel
  helper _ := C.helper
  fills := C.fills
  pure := C.pure
  bind := C.bind
  write := C.write
  record := C.record
  helper? := C.helper?
  callable hc found := C.callable (S.resolve hc found)
  filled := C.filled

/-- Two ways to render agree on some bodies, on the programs of helpers and on partials. -/
structure Renders (render render' : Renderer) (p : Body → Prop) : Prop where
  body {body : Body} {context : Context} : p body → S.context context →
    C.rel (fun _ => True) (render body context) (render' body context)
  program {helper : Helper} {context : Context} {bodies : Bodies Body} {params : Params} : C.helper helper →
    S.context context → bodies.All p → (∀ e ∈ params, S.value e.2) →
    C.rel (·.All S.value) ((helper context bodies params).run render) ((helper context bodies params).run render')
  named (name : String) {context : Context} : S.context context →
    C.rel (fun _ => True) (Render.named render name context) (Render.named render' name context)

variable {C}

theorem ofExcept {α : Type} (outcome : Except Error α) :
    C.rel (fun _ => True) (ofExcept outcome : RenderM α) (ofExcept outcome) := by
  cases outcome with
  | ok a => exact C.pure trivial
  | error e => exact C.throw _ e

theorem forM {α : Type} {f g : α → RenderM Unit} {list : List α}
    (h : ∀ a ∈ list, C.rel (fun _ => True) (f a) (g a)) : C.rel (fun _ => True) (list.forM f) (list.forM g) :=
  Joint.forM (J := C.joint) h

theorem writeFiltered (value : Value) (filters : List String) :
    C.rel (fun _ => True) (Render.writeFiltered value filters) (Render.writeFiltered value filters) := by
  unfold Render.writeFiltered
  split
  · exact C.pure trivial
  · exact C.bind (C.filter filters value) fun outcome _ => C.bind (ofExcept outcome) fun v _ => C.write v.text

namespace Renders

variable (R : C.Renders render render' p)

include R

theorem call {helper : Helper} {bodies : Bodies Body} {params : Params} (name : String) (hh : C.helper helper)
    (hc : S.context context) (hb : bodies.All p) (hp : ∀ e ∈ params, S.value e.2) :
    C.rel (·.All S.value) (Render.call render helper name context bodies params)
      (Render.call render' helper name context bodies params) :=
  C.bind (C.called _) fun _ _ => C.mapError _ (R.program hh hc hb hp)

theorem params {list : List (String × Operand Body)} (hc : S.context context) (hl : ∀ e ∈ list, e.2.All p) :
    C.rel (fun values => ∀ e ∈ values, S.value e.2) (Render.params render list context)
      (Render.params render' list context) :=
  Joint.params (J := C.joint) hc fun _ mem => C.toText _ (R.body (mem.all hl) hc)

theorem meets {step : Step} (hs : step.Inside p) (hc : S.context context)
    (filling : ∀ name default body, step = .slot name default → (context.block? name).or default = some body →
      C.fills context.fillings → C.rel (fun _ => True) (render body context.fill) (render' body context.fill)) :
    C.joint.Meets render render' context step where
  body shows hi := R.body (hs.holds shows.holds) hi
  quoted quotes := C.toText _ (R.body (hs.holds quotes.holds) hc)
  call _ hh hi hb hp := R.call _ hh hi
    ⟨fun _ some => hs.holds (hb _ (Or.inl some)), fun e mem => hs.holds (hb _ (Or.inr ⟨e, mem, rfl⟩))⟩ hp
  filtered value _ := writeFiltered value _
  named name _ _ hi := R.named name hi
  filling same found hf := filling _ _ _ same found hf

theorem reference (path : Path) (filters : List String) (hc : S.context context) :
    C.rel (fun _ => True) (Render.reference render path filters context)
      (Render.reference render' path filters context) := by
  have meets : C.joint.Meets render render' context (.reference path filters) :=
    R.meets trivial hc fun _ _ _ no => nomatch no
  exact meets.reference hc

/-- Steps are related if what fills their slots is. -/
theorem step {step : Step} (hs : step.Inside p) (hc : S.context context)
    (filling : ∀ name default body, step = .slot name default → (context.block? name).or default = some body →
      C.fills context.fillings → C.rel (fun _ => True) (render body context.fill) (render' body context.fill)) :
    C.rel (fun _ => True) (Render.step render context step) (Render.step render' context step) :=
  (R.meets hs hc filling).step hc

end Renders

theorem template {t : Template} (h : ∀ limit, C.limit limit → context.depth ≤ limit →
    C.rel (fun _ => True) (render t.body (context.enter t)) (render' t.body (context.enter t))) :
    C.rel (fun _ => True) (Render.template render t context) (Render.template render' t context) := by
  unfold Render.template
  refine C.bind C.depthLimit fun limit hl => ?_
  split
  · exact C.throw ..
  · next le => exact h limit hl (Nat.le_of_not_lt le)

/-! ### All code -/

/-- What a relation of all code takes, with a relation of the polls of work put off. -/
structure Whole (C : Coupling .any) where
  polls : RenderM (Option (RenderM Unit)) → RenderM (Option (RenderM Unit)) → Prop
  mono {α : Type} {V W : α → Prop} {x y : RenderM α} : C.rel V x y → (∀ a, V a → W a) → C.rel W x y
  attempt {α : Type} {V : α → Prop} {x y : RenderM α} : C.rel V x y →
    C.rel (fun _ => True) (RenderM.attempt x) (RenderM.attempt y)
  helper (helper : Helper) : C.helper helper
  kept? (name : String) : C.rel (fun _ => True) (RenderM.kept? name) (RenderM.kept? name)
  startLoad (name : String) (template : Option String) :
    C.rel (fun _ => True) (RenderM.startLoad name template) (RenderM.startLoad name template)
  perform (action : Action) : C.rel (fun _ => True) (RenderM.perform action) (RenderM.perform action)
  pollText (future : Future String) {work work' : String → RenderM Unit} :
    (∀ text, C.rel (fun _ => True) (work text) (work' text)) →
    polls (RenderM.pollText future work) (RenderM.pollText future work')
  pollTemplate (name : String) {work work' : Template → RenderM Unit} :
    (∀ t, C.rel (fun _ => True) (work t) (work' t)) →
    polls (RenderM.pollTemplate name work) (RenderM.pollTemplate name work')
  putOff {x y : RenderM (Option (RenderM Unit))} (wait : Wait) : polls x y →
    C.rel (fun _ => True) (RenderM.putOff wait x) (RenderM.putOff wait y)

namespace Whole

variable {C : Coupling .any} (W : C.Whole) (hr : ∀ body context, C.rel (fun _ => True) (render body context)
  (render' body context))

include W hr

theorem program (program : Program) : C.rel (fun _ => True) (program.run render) (program.run render') := by
  induction program with
  | finish reply => exact C.pure trivial
  | fail error => exact C.throw _ error
  | write text next ih => exact C.bind (W.attempt (C.write text)) fun o _ => ih o
  | render body context next ih => exact C.bind (W.attempt (hr body context)) fun o _ => ih o
  | renderToString body context next ih => exact C.bind (W.attempt (C.toText _ (hr body context))) fun o _ => ih o
  | defer future resume next ihResume ih =>
    have polls := W.pollText future fun text =>
      C.bind (ihResume text) fun _ _ => C.pure (V := fun _ => True) (a := ()) trivial
    exact C.bind (W.attempt (W.putOff _ polls)) fun o _ => ih o
  | act action next ih => exact C.bind (W.attempt (W.perform action)) fun o _ => ih o

omit W in
theorem template (t : Template) (context : Context) :
    C.rel (fun _ => True) (Render.template render t context) (Render.template render' t context) :=
  Coupling.template fun _ _ _ => hr _ _

theorem named (name : String) (context : Context) :
    C.rel (fun _ => True) (Render.named render name context) (Render.named render' name context) := by
  refine C.bind (W.kept? name) fun found _ => ?_
  cases found with
  | some t => exact template hr t context
  | none =>
    exact C.bind (W.startLoad name _) fun _ _ => W.putOff _ (W.pollTemplate name fun t => template hr t context)

theorem poll (wait : Wait) : W.polls (Render.poll render wait) (Render.poll render' wait) := by
  cases wait with
  | text future resume =>
    exact W.pollText future fun text => C.bind (W.program hr _) fun _ _ => C.pure trivial
  | load name context => exact W.pollTemplate name fun t => template hr t context

theorem job (job : Job) : C.rel (fun _ => True) (job.run render) (job.run render') := by
  cases job with
  | named name context => exact W.named hr name context
  | template t context => exact template hr t context
  | fail error => exact C.throw _ error

theorem renders : C.Renders render render' fun _ => True where
  body _ _ := hr _ _
  program _ _ _ _ := W.mono (W.program hr _) fun reply _ => by cases reply <;> trivial
  named name _ _ := W.named hr name _

/-- A level of bodies more. -/
theorem steps (body : Body) (context : Context) :
    C.rel (fun _ => True) (body.forM (Render.step render context)) (body.forM (Render.step render' context)) :=
  forM fun step _ => (W.renders hr).step step.inside_all trivial fun _ _ _ _ _ _ => hr _ _

end Whole

/-- A step of going through the work put off. -/
theorem settle_succ {C : Coupling .any} {n m : Nat}
    (ahead : ∀ {f g : Stage → RenderM Unit}, (∀ s t, t.render.progress = s.render.progress →
        t.render.tasks = s.render.tasks → f t = f s ∧ g t = g s) →
      (∀ s, C.rel (fun _ => True) (f s) (g s)) → C.rel (fun _ => True) (get >>= f) (get >>= g))
    (visits : ∀ index task, C.rel (fun _ => True) (RenderM.attempt (visit render index task))
      (RenderM.attempt (visit render' index task)))
    (closes : ∀ outcome, C.rel (fun _ => True) (close outcome) (close outcome))
    (next : ∀ index progressed, C.rel (fun _ => True) (settle render n index progressed)
      (settle render' m index progressed)) (index : Nat) (progressed : Bool) :
    C.rel (fun _ => True) (settle render (n + 1) index progressed) (settle render' (m + 1) index progressed) := by
  refine ahead (fun s t progress tasks => ?_) fun s => ?_
  · dsimp only
    rw [progress, tasks]
    exact ⟨rfl, rfl⟩
  dsimp only
  split
  · exact C.pure trivial
  · split
    · split
      · exact next 0 false
      · exact C.pure trivial
    · refine C.bind (visits ..) fun outcome _ => ?_
      split
      · exact next ..
      · exact C.bind (closes _) fun _ _ => next ..
      · exact C.bind (closes _) fun _ _ => next ..

end Coupling
end Stencil
