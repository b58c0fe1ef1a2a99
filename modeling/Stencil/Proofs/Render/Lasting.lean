import Stencil.Proofs.Engine.Loads
import Stencil.Proofs.Render.Driving
import Stencil.Proofs.Render.Entries
import Stencil.Proofs.Render.Upholding

/-! What lasts through a render. A property of stages that each way to change them keeps, holds in every stage that a driver
    call comes through. And renderers that do the same with the bodies that such runs come to, give the same runs, whatever
    they do with other bodies. Which bodies these are depends on what is found under names on the way: so a kind of stages
    is given, and all is said of runs that come through stages of the kind. -/

namespace Stencil

/-! ### Properties that last -/

/-- The chunks of a render, the ways to change the engine that rendering takes, renders on the side, the work that is
    parked and the loads: all of it keeps a property of stages. Work is parked for some waits, and the helpers found are of
    some kind. -/
structure Lasting (I : Stage → Prop) (W : Wait → Prop) (H : Helper → Prop) : Prop where
  output {s : Stage} (chunks : Chunks) (writers : List ChunkId) (journal : List Entry) (events : List Event)
    (progress : Progress) : I s → I { s with render := { s.render with chunks, writers, journal, events, progress } }
  noted {s : Stage} (log : List LogRecord) (calls : List Call) (readings : List Reading) : I s →
    I { s with engine := { s.engine with log, calls, readings } }
  side {s t : Stage} : I s → I t → I { t with render := { config := s.engine.config } }
  back {s t : Stage} : I s → I t → I { t with render := s.render }
  tasks {s : Stage} {tasks : List Task} : I s → (∀ task ∈ tasks, W task.wait) →
    I { s with render := { s.render with tasks } }
  ended {s : Stage} : I s → I { s with render := { s.render with tasks := [], loads := [] } }
  waits {s : Stage} {task : Task} : I s → task ∈ s.render.tasks → W task.wait
  helper {s : Stage} {name : String} {helper : Helper} : I s → Dict.get? name s.engine.helpers = some helper → H helper
  callable {s : Stage} (id : FunctionId) : I s → H (s.engine.functions id)
  startLoad (name : String) (template : Option String) :
    RenderM.Upholds (fun _ => True) I (fun _ => True) (fun _ => True) (RenderM.startLoad name template)
  pollLoad (name : String) : RenderM.Upholds (fun _ => True) I (fun _ => True) (fun _ => True) (RenderM.pollLoad name)

namespace RenderM

open Render

variable {α β : Type} {A I : Stage → Prop} {W : Wait → Prop} {H : Helper → Prop} {V : α → Prop} {Q : β → Prop}
  {render render' : Renderer} {s t : Stage}

/-- If all stages on the way are of the kind `A`, there is `I` in all of them, results have a property, and other code does
    the same. -/
structure Lasts (A I : Stage → Prop) (V : α → Prop) (x y : RenderM α) : Prop where
  upholds : Upholds A I (fun _ => True) V x
  same : ∀ s, I s → (∀ t, x.Passes s t → A t) → y.run s = x.run s

theorem run_bind_congr {x y : RenderM α} (f : α → RenderM β) (same : y.run s = x.run s) :
    (y >>= f).run s = (x >>= f).run s := by
  rw [run_bind, run_bind, same]

theorem run_attempt_congr {x y : RenderM α} (same : y.run s = x.run s) : (attempt y).run s = (attempt x).run s := by
  rw [run_attempt, run_attempt, same]

namespace Lasts

variable {x y : RenderM α}

theorem refl (h : Upholds A I (fun _ => True) V x) : Lasts A I V x x := ⟨h, fun _ _ _ => rfl⟩

theorem ends (h : Lasts A I V x y) (here : I s) (admitted : ∀ u, x.Passes s u → A u) {o : Except Error α}
    (done : x.run s = .ok (o, t)) : I t ∧ ∀ a, o = .ok a → V a := by
  have safe := h.upholds s here admitted
  exact ⟨safe.passes (passes_last done), safe.ends done⟩

theorem bind {x y : RenderM β} {f g : β → RenderM α} (h : Lasts A I Q x y)
    (hf : ∀ b, Q b → Lasts A I V (f b) (g b)) : Lasts A I V (x >>= f) (y >>= g) := by
  refine ⟨h.upholds.bind fun b hb => (hf b hb).upholds, fun s here admitted => ?_⟩
  have known (u : Stage) (pass : x.Passes s u) : A u := admitted u (passes_bind_left pass)
  rw [run_bind, run_bind, h.same s here known]
  cases ran : x.run s with
  | error reason => rfl
  | ok r =>
    obtain ⟨o, t⟩ := r
    obtain ⟨there, results⟩ := h.ends here known ran
    cases o with
    | error e => rfl
    | ok b => exact (hf b (results b rfl)).same t there fun u pass => admitted u (passes_bind ran pass)

theorem get_bind {f g : Stage → RenderM α} (h : ∀ s, I s → Lasts A I V (f s) (g s)) :
    Lasts A I V (get >>= f) (get >>= g) :=
  ⟨.get_bind fun s here => (h s here).upholds, fun s here admitted => (h s here).same s here admitted⟩

theorem mono {W : α → Prop} (h : Lasts A I V x y) (imp : ∀ a, V a → W a) : Lasts A I W x y :=
  ⟨h.upholds.mono imp, h.same⟩

/-- The results are those of runs from a stage of the kind to another. -/
theorem ran (h : Lasts A I V x y) :
    Lasts A I (fun a => V a ∧ ∃ s t, A s ∧ A t ∧ x.run s = .ok (.ok a, t)) x y := ⟨h.upholds.ran, h.same⟩

theorem attempt (h : Lasts A I V x y) : Lasts A I (fun _ => True) (attempt x) (attempt y) :=
  ⟨h.upholds.attempt, fun s here admitted =>
    run_attempt_congr (h.same s here fun t pass => admitted t (passes_attempt.mpr pass))⟩

theorem mapError (h : Lasts A I V x y) (g : Error → Error) : Lasts A I V (mapError g x) (mapError g y) :=
  ⟨h.upholds.mapError g, fun s here admitted => run_bind_congr _ (run_attempt_congr (h.same s here fun t pass =>
    admitted t (passes_bind_left (passes_attempt.mpr pass))))⟩

end Lasts

end RenderM

/-! ### Code that rendering is made of -/

namespace Lasting

open RenderM

variable {A I : Stage → Prop} {W : Wait → Prop} {H : Helper → Prop} (L : Lasting I W H)

include L

theorem steady : Steady I fun _ => True where
  violation _ := trivial
  output chunks writers here := L.output chunks writers _ _ _ here
  side _ here there := L.side here (L.noted _ _ _ there)
  back := L.back

theorem note (entry : Entry) : Upholds A I (fun _ => True) (fun _ => True) (note entry) :=
  .modify fun _ here => L.output _ _ _ _ _ here

theorem record (level : LogLevel) (message : String) :
    Upholds A I (fun _ => True) (fun _ => True) (record level message) :=
  .modify fun s here => by
    show I { s with engine := s.engine.record level message }
    rw [Engine.record_eq]
    exact L.noted _ _ _ here

end Lasting

namespace RenderM

open Render

variable {α β : Type} {A I : Stage → Prop} {W : Wait → Prop} {H : Helper → Prop} {render render' : Renderer}
  {s t : Stage} (L : Lasting I W H)

include L

namespace Lasts

variable {x y : RenderM Unit} (h : Lasts A I (fun _ => True) x y)

include h

theorem within (id : ChunkId) : Lasts A I (fun _ => True) (within id x) (within id y) := by
  refine ⟨.within L.steady id h.upholds, fun s here admitted => ?_⟩
  have there : I { s with render := { s.render with writers := id :: s.render.writers } } := L.output _ _ _ _ _ here
  exact run_bind_congr _ (run_attempt_congr (h.same _ there fun t pass =>
    admitted t (passes_bind (s := s) rfl (passes_bind_left (passes_attempt.mpr pass)))))

theorem toText (template : Option String) : Lasts A I (fun _ => True) (toText template x) (toText template y) := by
  refine ⟨.toText L.steady template h.upholds, fun s here admitted => ?_⟩
  have side : I s.onSide := L.steady.side _ here here
  exact run_bind_congr _ (run_attempt_congr (run_bind_congr _ ((h.within L Chunks.root).same _ side fun t pass =>
    admitted t (passes_bind (u := s) rfl (passes_bind (u := s) rfl (passes_bind (u := s.onSide) rfl
      (passes_bind_left (passes_attempt.mpr (passes_bind_left pass)))))))))

theorem takeUp (id : ChunkId) (wait : Wait) : Lasts A I (fun _ => True) (takeUp id wait x) (takeUp id wait y) := by
  refine ⟨(L.note _).bind fun _ _ => (h.within L id).upholds.attempt.bind fun o _ => ?_, fun s here admitted => ?_⟩
  · cases o with
    | ok _ => exact L.note _
    | error e => exact (L.note _).bind fun _ _ => .throw e
  · have there : I { s with render := { s.render with journal := .taken wait :: s.render.journal } } :=
      L.output _ _ _ _ _ here
    exact run_bind_congr _ (run_attempt_congr ((h.within L id).same _ there fun t pass =>
      admitted t (passes_bind (s := s) rfl (passes_bind_left (passes_attempt.mpr pass)))))

end Lasts

/-! ### Work put off -/

/-- Two polls find nothing, or work that is alike. -/
structure PollsAlike (A I : Stage → Prop) (x y : RenderM (Option (RenderM Unit))) : Prop where
  upholds : Upholds A I (fun _ => True) (fun _ => True) x
  finds (s : Stage) : I s → (∀ t, x.Passes s t → A t) → ∃ found found' t, x.run s = .ok (.ok found, t) ∧
    y.run s = .ok (.ok found', t) ∧ Option.Rel (Lasts A I fun _ => True) found found'

omit L in
theorem alike_map {γ : Type} {work work' : γ → RenderM Unit} (result : Option (Except Error γ))
    (h : ∀ c, result = some (.ok c) → Lasts A I (fun _ => True) (work c) (work' c)) :
    Option.Rel (Lasts A I fun _ => True) (result.map fun outcome => ofExcept outcome >>= work)
      (result.map fun outcome => ofExcept outcome >>= work') := by
  cases result with
  | none => exact .none
  | some outcome =>
    cases outcome with
    | error e => exact .some (.refl (.throw e))
    | ok c => exact .some (h c rfl)

omit L in
theorem alike_pollText (future : Future String) {work work' : String → RenderM Unit}
    (h : ∀ text, Lasts A I (fun _ => True) (work text) (work' text)) :
    PollsAlike A I (pollText future work) (pollText future work') := by
  refine ⟨.get_bind fun s _ => ?_, fun s _ _ => ⟨_, _, s, run_pollText .., run_pollText .., alike_map _ fun c _ => h c⟩⟩
  split <;> exact .pure trivial

/-- The polls of a load find work that is alike if it is for each template that is found under the name. -/
theorem alike_pollTemplate (name : String) {work work' : Template → RenderM Unit}
    (h : ∀ t, (Subject.name name).Leads A t → Lasts A I (fun _ => True) (work t) (work' t)) :
    PollsAlike A I (pollTemplate name work) (pollTemplate name work') := by
  refine ⟨(L.pollLoad name).restrict.bind fun result _ => ?_, fun s _ admitted => ?_⟩
  · split <;> exact .pure trivial
  · cases begun : Dict.get? name s.render.loads with
    | none => exact ⟨_, _, s, run_pollTemplate_of_none begun, run_pollTemplate_of_none begun, .none⟩
    | some load =>
      have ran := run_pollTemplate_of_some work begun
      exact ⟨_, _, _, ran, run_pollTemplate_of_some _ begun, alike_map _ fun t settled =>
        h t (.of_found (admitted _ (passes_last ran)) (Stage.found_withLoad settled))⟩

theorem lasts_park (id : ChunkId) {wait : Wait} (hw : W wait) :
    Upholds A I (fun _ => True) (fun _ => True) (park id wait) := by
  refine .modify fun s here => L.tasks here fun task mem => ?_
  rcases List.mem_append.mp mem with mem | mem
  · exact L.waits here mem
  · cases List.mem_singleton.mp mem
    exact hw

omit L in
/-- What is done behind polls that are alike, with the work that they find or without any. -/
theorem PollsAlike.bind {x y : RenderM (Option (RenderM Unit))} {f g : Option (RenderM Unit) → RenderM α}
    {V : α → Prop} (polls : PollsAlike A I x y) (nothing : Lasts A I V (f none) (g none))
    (work : ∀ {x y}, Lasts A I (fun _ => True) x y → Lasts A I V (f (some x)) (g (some y))) :
    Lasts A I V (x >>= f) (y >>= g) := by
  refine ⟨fun s here admitted => ?_, fun s here admitted => ?_⟩
  · have known (t : Stage) (pass : x.Passes s t) : A t := admitted t (passes_bind_left pass)
    obtain ⟨found, found', t, ran, -, rel⟩ := polls.finds s here known
    refine Safe.bind ((polls.upholds s here known).mono_run fun o u ran' there _ => ?_)
    cases ran.symm.trans ran'
    have after (u : Stage) (pass) : A u := admitted u (passes_bind ran pass)
    rcases rel with works | -
    · exact (work works).upholds t there after
    · exact nothing.upholds t there after
  · have known (t : Stage) (pass : x.Passes s t) : A t := admitted t (passes_bind_left pass)
    obtain ⟨found, found', t, ran, ran', rel⟩ := polls.finds s here known
    have there := (polls.upholds s here known).passes (passes_last ran)
    have after (u : Stage) (pass) : A u := admitted u (passes_bind ran pass)
    rw [run_bind_of_ok ran, run_bind_of_ok ran']
    rcases rel with works | -
    · exact (work works).same t there after
    · exact nothing.same t there after

theorem lasts_putOff {wait : Wait} (hw : W wait) {x y : RenderM (Option (RenderM Unit))} (polls : PollsAlike A I x y) :
    Lasts A I (fun _ => True) (putOff wait x) (putOff wait y) := by
  have reserves : Upholds A I (fun _ => True) (fun _ => True) reserve := fun s here _ =>
    (Upholds.safe_reserve L.steady here).mono fun _ _ _ _ _ _ => trivial
  refine (Lasts.refl reserves).bind fun id _ => (Lasts.refl (L.note _)).bind fun _ _ => ?_
  exact polls.bind (.refl (lasts_park L id hw)) fun works => works.takeUp L id wait

/-! ### Rendering -/

/-- The limits on the depth of partials in the stages with a property. -/
def Limits (I : Stage → Prop) (limit : Nat) : Prop := ∃ s, I s ∧ s.render.config.maxPartialDepth = limit

def lastingCoupling (A : Stage → Prop) (S : Scopes) : Coupling S where
  rel := Lasts A I
  helper := H
  limit := Limits I
  fills _ := True
  pure h := .refl (.pure h)
  throw _ e := .refl (.throw e)
  bind := .bind
  mapError g h := h.mapError g
  write text := .refl (.write L.steady text)
  filter filters value := .refl <| .withEngine fun s here => by
    rw [Engine.applyFilters_eq]
    exact L.noted _ _ _ here
  record level message := .refl (L.record level message)
  called _ := .refl (.modify fun _ here => L.noted _ _ _ here)
  toText template h := h.toText L template
  helper? _ := .refl (.get_bind fun _ here => .pure fun _ found => L.helper here found)
  callable {id} _ := .refl (.get_bind fun _ here => .pure (L.callable id here))
  filled _ := .refl (L.note _)
  depthLimit := .refl (.get_bind fun s here => .pure ⟨s, here, rfl⟩)

omit L in
theorem lasts_program {places : Body → Context → Prop} {actions : Action → Prop} {entries : Subject → Context → Prop}
    (L : Lasting I (Wait.In entries (·.Inside places actions)) H)
    (acts : ∀ action, actions action → Upholds (fun _ => True) I (fun _ => True) (fun _ => True) (perform action))
    (hr : ∀ body context, places body context → Lasts A I (fun _ => True) (render body context) (render' body context))
    {program : Program} (inside : program.Inside places actions) :
    Lasts A I (fun _ => True) (program.run render) (program.run render') := by
  induction program with
  | finish reply => exact .refl (.pure trivial)
  | fail error => exact .refl (.throw error)
  | write text next ih =>
    exact (Lasts.refl (.write L.steady text)).attempt.bind fun o _ => ih o (inside.of_comesTo (.write .here))
  | render body context next ih =>
    have rendered := hr body context (inside.mentions (Or.inl ⟨next, .here⟩))
    exact rendered.attempt.bind fun o _ => ih o (inside.of_comesTo (.render .here))
  | renderToString body context next ih =>
    have rendered := hr body context (inside.mentions (Or.inr ⟨next, .here⟩))
    exact (rendered.toText L _).attempt.bind fun o _ => ih o (inside.of_comesTo (.renderToString .here))
  | defer future resume next ihResume ih =>
    have resumes : Wait.In entries (·.Inside places actions) (.text future resume) := fun text =>
      inside.of_comesTo (.resume .here)
    have polls := alike_pollText future fun text =>
      (ihResume text (resumes text)).bind fun _ _ => Lasts.refl (.pure (V := fun _ => True) (a := ()) trivial)
    exact (lasts_putOff L resumes polls).attempt.bind fun o _ => ih o (inside.of_comesTo (.defer .here))
  | act action next ih =>
    have acted := acts action (inside.performs ⟨next, .here⟩)
    exact (Lasts.refl acted.restrict).attempt.bind fun o _ => ih o (inside.of_comesTo (.act .here))

end RenderM

/-! ### Places -/

open RenderM Render

/-- The places that bodies are rendered at, and the scopes that names and templates are rendered in: from these, rendering
    comes to no others, in stages with a property that lasts. A template is entered if it is what is found under the name at
    a stage of the kind, and a name is rendered where a partial tag comes to it. -/
structure Confines (A I : Stage → Prop) (helpers : Helper → Prop) (actions : Action → Prop)
    (entries : Subject → Context → Prop) (places : Body → Context → Prop) : Prop where
  lasting : Lasting I (Wait.In entries (·.Inside places actions)) helpers
  inside {body held : Body} {context context' : Context} {step : Step} : places body context → step ∈ body →
    step.Holds held → context.Derives context' → places held context'
  fill {body filling : Body} {context : Context} {name : String} {default : Option Body} : places body context →
    .slot name default ∈ body → (context.block? name).or default = some filling → places filling context.fill
  call {body : Body} {context context' : Context} {step : Step} {helper : Helper} {bodies : Bodies Body}
    {params : Params} : places body context → step ∈ body → context.Derives context' → helpers helper →
    (bodies.All fun held => step.Holds held) → (helper context' bodies params).Inside places actions
  tag {body : Body} {context inner : Context} {step : Step} {name : String} : places body context → step ∈ body →
    step.Tags A context name inner → entries (.name name) inner
  enter {s : Stage} {subject : Subject} {context : Context} {t : Template} : I s → entries subject context →
    subject.Leads A t → context.depth ≤ s.render.config.maxPartialDepth → places t.body (context.enter t)
  perform {action : Action} : actions action → Upholds (fun _ => True) I (fun _ => True) (fun _ => True) (perform action)

/-- At the places given, the renderers do what rendering does; elsewhere they may do anything. -/
structure RendersAt (places : Body → Context → Prop) (render : Nat → Renderer) : Prop where
  zero {body : Body} {context : Context} : places body context → render 0 body context = halt .outOfSteps
  succ {nesting : Nat} {body : Body} {context : Context} : places body context →
    render (nesting + 1) body context = body.forM (step (render nesting) context)

/-- What the job renders, it renders in one of the scopes given. -/
def Job.Enters (entries : Subject → Context → Prop) (job : Job) : Prop :=
  ∀ subject context, job.subject? = some (subject, context) → entries subject context

namespace Confines

variable {A I : Stage → Prop} {helpers : Helper → Prop} {actions : Action → Prop} {entries : Subject → Context → Prop}
  {places : Body → Context → Prop} (C : Confines A I helpers actions entries places) {render render' : Renderer}

include C

section

variable (hr : ∀ body context, places body context →
  Lasts A I (fun _ => True) (render body context) (render' body context))

include hr

theorem template {subject : Subject} {context : Context} {t : Template} (hc : entries subject context)
    (leads : subject.Leads A t) : Lasts A I (fun _ => True) (template render t context) (template render' t context) :=
  Coupling.template (C := lastingCoupling C.lasting A .any) fun _ ⟨_, here, same⟩ le =>
    hr _ _ (C.enter here hc leads (same ▸ le))

theorem named (name : String) {context : Context} (hc : entries (.name name) context) :
    Lasts A I (fun _ => True) (named render name context) (named render' name context) := by
  have kept : Lasts A I (fun found => ∀ t, found = some t → (Subject.name name).Leads A t) (kept? name) (kept? name) :=
    .refl (.look_bind fun _ _ known => .pure fun _ found => .of_kept known found)
  refine kept.bind fun found leads => ?_
  cases found with
  | some t => exact C.template hr hc (leads t rfl)
  | none =>
    refine (Lasts.refl (C.lasting.startLoad name _).restrict).bind fun _ _ => ?_
    have waits : Wait.In entries (·.Inside places actions) (.load name context) := hc
    exact lasts_putOff C.lasting waits (alike_pollTemplate C.lasting name fun _ => C.template hr hc)

theorem poll {wait : Wait} (hw : Wait.In entries (·.Inside places actions) wait) :
    PollsAlike A I (poll render wait) (poll render' wait) := by
  cases wait with
  | text future resume =>
    refine alike_pollText future fun text => ?_
    exact (lasts_program C.lasting (fun _ => C.perform) hr (hw text)).bind fun _ _ => .refl (.pure trivial)
  | load name context => exact alike_pollTemplate C.lasting name fun _ => C.template hr hw

theorem job {job : Job} (hj : job.Enters entries) : Lasts A I (fun _ => True) (job.run render) (job.run render') := by
  cases job with
  | named name context => exact C.named hr name (hj _ _ rfl)
  | template t context => exact C.template hr (hj _ _ rfl) rfl
  | fail error => exact .refl (.throw error)

theorem visit (index : Nat) {task : Task} (hw : Wait.In entries (·.Inside places actions) task.wait) :
    Lasts A I (fun _ => True) (visit render index task) (visit render' index task) := by
  have erases : Upholds A I (fun _ => True) (fun _ => True)
      (modifyRender fun r => { r with tasks := r.tasks.eraseIdx index }) :=
    .modify fun s here => C.lasting.tasks here fun _ mem => C.lasting.waits here (List.mem_of_mem_eraseIdx mem)
  refine (C.poll hr hw).bind (.refl (.pure trivial)) fun works => (Lasts.refl erases).bind fun _ _ => ?_
  exact (works.takeUp C.lasting task.chunk task.wait).bind fun _ _ => .refl (.pure trivial)

end

/-- A body at one of the places, its steps done with one renderer or with the other. -/
theorem steps {nesting : Nat} (hr : ∀ body context, places body context →
      Lasts A I (fun _ => True) (Render.exec nesting body context) (render body context)) {body : Body}
    {context : Context} (hp : places body context) : Lasts A I (fun _ => True)
      (body.forM (step (Render.exec nesting) context)) (body.forM (step render context)) := by
  let derived := lastingCoupling C.lasting A (.derived context)
  refine Coupling.forM (C := derived) fun step mem => ?_
  have quoted (held : Body) (quotes : step.Quotes held) :=
    (hr _ _ (C.inside hp mem quotes.holds .refl)).toText C.lasting context.templateName
  -- Which name and scope a partial tag comes to is known of the run only, so that the tag is taken apart there.
  by_cases includes : step.Includes
  · obtain ⟨target, own, list, rfl⟩ := includes.eq
    have tags : Lasts A I (context.Derives ·.2) (tagged (Render.exec nesting) target own list context)
        (tagged render target own list context) := Joint.tagged (J := derived.joint) .refl quoted
    show Lasts A I _ (partialTag (Render.exec nesting) target own list context) (partialTag render target own list context)
    rw [partialTag_eq, partialTag_eq]
    refine tags.ran.bind fun (name, inner) ⟨_, s, t, here, there, ran⟩ => ?_
    exact C.named hr name (C.tag hp mem ⟨target, own, list, nesting, s, t, rfl, here, there, ran⟩)
  · have programs {helper : Helper} {inner : Context} {bodies : Bodies Body} {params : Params}
        (known : helpers helper) (derives : context.Derives inner)
        (holds : ∀ held, bodies.Holds held → step.Holds held) : Lasts A I (fun _ => True)
          ((helper inner bodies params).run (Render.exec nesting)) ((helper inner bodies params).run render) :=
      lasts_program C.lasting (fun _ => C.perform) hr (C.call hp mem derives known
        ⟨fun _ some => holds _ (Or.inl some), fun e mem => holds _ (Or.inr ⟨e, mem, rfl⟩)⟩)
    have meets : derived.joint.Meets (Render.exec nesting) render context step :=
      { body := fun shows derives => hr _ _ (C.inside hp mem shows.holds derives)
        quoted := quoted _
        call := fun _ known derives holds _ => (derived.called _).bind fun _ _ =>
          ((programs known derives holds).mapError _).mono fun reply _ => by cases reply <;> trivial
        filtered := fun value _ => Coupling.writeFiltered (C := derived) value _
        named := fun _ _ yes _ => absurd yes includes
        filling := fun same found _ => hr _ _ (C.fill hp (same ▸ mem) found) }
    exact meets.step .refl

theorem close (outcome : Except Error Unit) : Upholds A I (fun _ => True) (fun _ => True) (close outcome) := by
  refine .modify fun s here => ?_
  rcases close_cases s outcome with same | ⟨chunks, events, progress, same⟩ | ⟨error, same⟩
  · exact same.symm ▸ here
  · rw [same]
    exact C.lasting.output _ _ _ _ _ here
  · rw [same, Engine.record_eq]
    exact C.lasting.ended (C.lasting.output .discard _ _ _ .failed (C.lasting.noted _ _ _ here))

theorem settle (hr : ∀ body context, places body context →
      Lasts A I (fun _ => True) (render body context) (render' body context)) (steps index : Nat) (progressed : Bool) :
    Lasts A I (fun _ => True) (settle render steps index progressed) (settle render' steps index progressed) := by
  induction steps generalizing index progressed with
  | zero => exact .refl (.halt trivial)
  | succ steps ih =>
    refine .get_bind fun s here => ?_
    dsimp only
    split
    · exact .refl (.pure trivial)
    · split
      · split
        · exact ih 0 false
        · exact .refl (.pure trivial)
      · next task found =>
        refine (C.visit hr index (C.lasting.waits here (List.mem_of_getElem? found))).attempt.bind fun o _ => ?_
        split
        · exact ih _ _
        · exact (Lasts.refl (C.close _)).bind fun _ _ => ih _ _
        · exact (Lasts.refl (C.close _)).bind fun _ _ => ih _ _

theorem start {x y : RenderM Unit} (h : Lasts A I (fun _ => True) x y) :
    Lasts A I (fun _ => True) (start x) (start y) :=
  (h.within C.lasting Chunks.root).attempt.bind fun _ _ => .refl (C.close _)

/-- At the places, rendering is what renderers do that render by it there. -/
theorem exec {render : Nat → Renderer} (renders : RendersAt places render) (nesting : Nat) (body : Body)
    (context : Context) (hp : places body context) :
    Lasts A I (fun _ => True) (exec nesting body context) (render nesting body context) := by
  induction nesting generalizing body context with
  | zero =>
    rw [renders.zero hp]
    exact .refl (.halt trivial)
  | succ nesting ih =>
    rw [renders.succ hp]
    exact C.steps ih hp

end Confines

/-! ### Streams -/

namespace OutputStream

/-- All that can be done without waiting, where the bodies are rendered in a given way. -/
def workWith (render : Renderer) (steps : Nat) (o : OutputStream) : RenderM Unit := do
  match o.job with
  | none => pure ()
  | some job => Render.start (job.run render)
  Render.settle render steps 0 false

variable {A I : Stage → Prop} {helpers : Helper → Prop} {actions : Action → Prop} {entries : Subject → Context → Prop}
  {places : Body → Context → Prop} {o : OutputStream} {w w' : World} {o' : OutputStream} {steps : Nat}

/-- A driver call comes through stages with the property only, and renders bodies at the places only: what a renderer does
    with other bodies makes no difference. -/
theorem lasts_work (C : Confines A I helpers actions entries places) {render : Nat → Renderer}
    (renders : RendersAt places render) (hj : ∀ job, o.job = some job → job.Enters entries) (steps : Nat) :
    Lasts A I (fun _ => True) (o.work steps) (o.workWith (render steps) steps) := by
  have hr := C.exec renders steps
  have driven := C.settle hr steps 0 false
  unfold work workWith
  cases waiting : o.job with
  | none => exact driven
  | some job => exact (C.start (C.job hr (hj job waiting))).bind fun _ _ => driven

theorem renders_exec (places : Body → Context → Prop) : RendersAt places Render.exec := ⟨fun _ => rfl, fun _ => rfl⟩

theorem lasts_advance (C : Confines A I helpers actions entries places)
    (hj : ∀ job, o.job = some job → job.Enters entries) (here : I { w with render := o.render })
    (through : o.Through A steps w) (ran : o.advance steps w = .ok (w', o')) :
    I { w' with render := o'.render } ∧ o'.job = none := by
  obtain ⟨⟨_, s⟩, worked, same⟩ := bind_eq_ok.mp ran
  cases same
  exact ⟨((lasts_work C (renders_exec places) hj steps).ends here through worked).1, rfl⟩

end OutputStream

end Stencil
