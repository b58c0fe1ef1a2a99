import Stencil.Proofs.Engine.Stocks
import Stencil.Proofs.Render.Driving

/-! Where templates are not kept and a loader is set, what an engine holds of templates is no matter for renders: no code
    looks at it, and no code changes it. Helpers leave the engine alone, but may do with errors what they like. -/

namespace Stencil

def Wait.Aloof : Wait → Prop
  | .text _ resume => ∀ text, (resume text).Aloof
  | .load _ _ => True

structure Stage.Uncached (s : Stage) : Prop where
  engine : s.engine.Uncached
  cache : s.render.config.cache = false
  tasks : ∀ task ∈ s.render.tasks, task.wait.Aloof

def Stage.stock (s : Stage) (templates : Dict Template) : Stage := { s with engine := s.engine.stock templates }

namespace RenderM

open Render

variable {α β : Type} {x : RenderM α} {s t : Stage}

/-- Where templates are not kept, running the code commutes with putting other templates into the engine, leaves the
    templates there and gives results with a property. -/
structure Overlooks (V : α → Prop) (x : RenderM α) : Prop where
  stock {s : Stage} (d : Dict Template) : s.Uncached →
    x.run (s.stock d) = (x.run s).map fun (outcome, t) => (outcome, t.stock d)
  leaves {s t : Stage} {o : Except Error α} : s.Uncached → x.run s = .ok (o, t) →
    t.Uncached ∧ t.engine.templates = s.engine.templates ∧ ∀ a, o = .ok a → V a

namespace Overlooks

variable {V : α → Prop} {W : β → Prop}

theorem pure {a : α} (h : V a) : Overlooks V (pure a) where
  stock _ _ := rfl
  leaves uncached ran := by
    cases ran
    exact ⟨uncached, rfl, fun _ same => by cases same; exact h⟩

theorem throw (V : α → Prop) (e : Error) : Overlooks V (throw e) where
  stock _ _ := rfl
  leaves uncached ran := by
    cases ran
    exact ⟨uncached, rfl, fun _ no => by cases no⟩

theorem halt (V : α → Prop) (reason : Halt) : Overlooks V (halt reason) where
  stock _ _ := rfl
  leaves _ no := by cases no

theorem ofExcept (outcome : Except Error α) : Overlooks (fun _ => True) (ofExcept outcome) := by
  cases outcome with
  | ok a => exact pure trivial
  | error e => exact throw _ e

theorem mono {W : α → Prop} (h : Overlooks V x) (imp : ∀ a, V a → W a) : Overlooks W x where
  stock := h.stock
  leaves uncached ran := by
    obtain ⟨after, templates, results⟩ := h.leaves uncached ran
    exact ⟨after, templates, fun a same => imp a (results a same)⟩

theorem bind {f : α → RenderM β} (hx : Overlooks V x) (hf : ∀ a, V a → Overlooks W (f a)) : Overlooks W (x >>= f) where
  stock {s} d uncached := by
    rw [run_bind, run_bind, hx.stock d uncached]
    cases ran : x.run s with
    | error reason => rfl
    | ok r =>
      obtain ⟨e | a, t⟩ := r
      · rfl
      · obtain ⟨after, -, results⟩ := hx.leaves uncached ran
        exact (hf a (results a rfl)).stock d after
  leaves uncached ran := by
    rcases run_bind_eq_ok.mp ran with ⟨e, first, rfl⟩ | ⟨a, u, first, rest⟩
    · obtain ⟨after, templates, -⟩ := hx.leaves uncached first
      exact ⟨after, templates, fun _ no => by cases no⟩
    · obtain ⟨between, templates, results⟩ := hx.leaves uncached first
      obtain ⟨after, templates', results'⟩ := (hf a (results a rfl)).leaves between rest
      exact ⟨after, templates'.trans templates, results'⟩

theorem attempt (h : Overlooks V x) : Overlooks (fun _ => True) (attempt x) where
  stock {s} d uncached := by
    rw [run_attempt, run_attempt, h.stock d uncached]
    cases x.run s <;> rfl
  leaves uncached ran := by
    obtain ⟨_, inner, rfl⟩ := run_attempt_eq_ok.mp ran
    obtain ⟨after, templates, -⟩ := h.leaves uncached inner
    exact ⟨after, templates, fun _ _ => trivial⟩

theorem mapError (g : Error → Error) (h : Overlooks V x) : Overlooks V (mapError g x) where
  stock := (h.attempt.bind fun outcome _ => ofExcept (outcome.mapError g)).stock
  leaves {s t o} uncached ran := by
    obtain ⟨after, templates, -⟩ := (h.attempt.bind fun outcome _ => ofExcept (outcome.mapError g)).leaves uncached ran
    refine ⟨after, templates, fun a same => ?_⟩
    subst same
    obtain ⟨outcome, u, tried, rest⟩ := run_bind_eq_ok_ok.mp ran
    obtain ⟨-, -, results⟩ := h.leaves uncached (run_attempt_eq_ok_ok.mp tried)
    cases outcome with
    | ok b =>
      cases rest
      exact results a rfl
    | error e => cases rest

theorem get_bind {f : Stage → RenderM β} (stock : ∀ s d, f (s.stock d) = f s)
    (hf : ∀ s, s.Uncached → Overlooks W (f s)) : Overlooks W (get >>= f) where
  stock {s} d uncached := by
    show (f (s.stock d)).run (s.stock d) = ((f s).run s).map _
    rw [stock]
    exact (hf s uncached).stock d uncached
  leaves {s _ _} uncached ran := by
    change (f s).run s = _ at ran
    exact (hf s uncached).leaves uncached ran

theorem modify {g : Stage → Stage} (stock : ∀ s d, g (s.stock d) = (g s).stock d)
    (uncached : ∀ s, s.Uncached → (g s).Uncached) (templates : ∀ s, (g s).engine.templates = s.engine.templates) :
    Overlooks (fun _ => True) (modify g) where
  stock {s} d _ := by
    show Except.ok (Except.ok (), g (s.stock d)) = _
    rw [stock]
    rfl
  leaves h ran := by
    cases ran
    exact ⟨uncached _ h, templates _, fun _ _ => trivial⟩

theorem modifyRender {g : Render → Render} (config : ∀ r, (g r).config = r.config)
    (tasks : ∀ r : Render, (∀ task ∈ r.tasks, task.wait.Aloof) → ∀ task ∈ (g r).tasks, task.wait.Aloof) :
    Overlooks (fun _ => True) (modifyRender g) :=
  modify (fun _ _ => rfl) (fun s h => ⟨h.engine, (config s.render).symm ▸ h.cache, tasks s.render h.tasks⟩) fun _ => rfl

/-- A change of the render that leaves the settings and the parked work alone. -/
theorem modifyOutput {g : Render → Render} (config : ∀ r, (g r).config = r.config) (tasks : ∀ r, (g r).tasks = r.tasks) :
    Overlooks (fun _ => True) (RenderM.modifyRender g) :=
  modifyRender config fun r h => (tasks r).symm ▸ h

theorem withEngine {g : Engine → α × Engine} (h : Engine.Overlooks g) : Overlooks (fun _ => True) (withEngine g) where
  stock {s} d uncached := by
    have same := h.stock s.engine d uncached.engine
    show Except.ok (Except.ok (g (s.engine.stock d)).1, { s with engine := (g (s.engine.stock d)).2 }) = _
    rw [same]
    rfl
  leaves {s _ _} uncached ran := by
    cases ran
    have leaves := h.leaves s.engine uncached.engine
    exact ⟨⟨leaves.uncached uncached.engine, uncached.cache, uncached.tasks⟩, leaves.templates, fun _ _ => trivial⟩

theorem modifyEngine {g : Engine → Engine} (stock : ∀ e d, g (e.stock d) = (g e).stock d)
    (leaves : ∀ e : Engine, e.Leaves (g e)) :
    Overlooks (fun _ => True) (modifyEngine g) :=
  modify (fun s d => congrArg (fun e => { s with engine := e }) (stock s.engine d))
    (fun s h => ⟨(leaves s.engine).uncached h.engine, h.cache, h.tasks⟩) fun s => (leaves s.engine).templates

theorem record (level : LogLevel) (message : String) : Overlooks (fun _ => True) (record level message) :=
  modifyEngine (fun e d => e.stock_record d level message) fun e => e.leaves_record level message

/-! ### Output -/

theorem writer : Overlooks (fun _ => True) writer := by
  refine get_bind (fun _ _ => rfl) fun s _ => ?_
  split
  · exact pure trivial
  · exact halt ..

theorem rightful (outcome : Except Error α) : Overlooks (fun _ => True) (rightful outcome) := by
  cases outcome with
  | ok a => exact pure trivial
  | error e => exact halt ..

theorem write (text : String) : Overlooks (fun _ => True) (write text) := by
  unfold RenderM.write
  split
  · exact pure trivial
  · refine get_bind (fun _ _ => rfl) fun s _ => writer.bind fun id _ => (rightful _).bind fun chunks _ => ?_
    exact modifyOutput (fun _ => rfl) fun _ => rfl

theorem reserve : Overlooks (fun _ => True) reserve := by
  refine writer.bind fun id _ => get_bind (fun _ _ => rfl) fun s _ => (rightful _).bind fun _ _ => ?_
  exact bind (W := fun _ => True) (modifyOutput (fun _ => rfl) fun _ => rfl) fun _ _ => pure trivial

theorem finish : Overlooks (fun _ => True) finish := by
  refine get_bind (fun _ _ => rfl) fun s _ => writer.bind fun id _ => (rightful _).bind fun chunks _ => ?_
  exact modifyOutput (fun _ => rfl) fun _ => rfl

theorem note (entry : Entry) : Overlooks (fun _ => True) (note entry) := modifyOutput (fun _ => rfl) fun _ => rfl

section

variable {x : RenderM Unit} (hx : Overlooks (fun _ => True) x)

include hx

theorem within (chunk : ChunkId) : Overlooks (fun _ => True) (within chunk x) := by
  refine bind (modifyOutput (fun _ => rfl) fun _ => rfl) fun _ _ => hx.attempt.bind fun outcome _ => ?_
  cases outcome with
  | ok _ => exact finish
  | error e => exact bind (modifyOutput (fun _ => rfl) fun _ => rfl) fun _ _ => throw _ e

theorem takeUp (chunk : ChunkId) (wait : Wait) : Overlooks (fun _ => True) (takeUp chunk wait x) := by
  refine (note _).bind fun _ _ => (hx.within chunk).attempt.bind fun outcome _ => ?_
  cases outcome with
  | ok _ => exact note _
  | error e => exact (note _).bind fun _ _ => throw _ e

theorem toText (template : Option String) : Overlooks (fun _ => True) (toText template x) := by
  have side : Overlooks (fun _ => True) (do
      RenderM.within Chunks.root x
      let side := (← get).render
      if side.tasks.isEmpty then Pure.pure side.chunks.flush.1 else MonadExcept.throw (notSynchronous template)) := by
    refine (within hx _).bind fun _ _ => get_bind (fun _ _ => rfl) fun s _ => ?_
    dsimp only
    split
    · exact pure trivial
    · exact throw ..
  refine get_bind (fun _ _ => rfl) fun s outside => get_bind (fun _ _ => rfl) fun s' before => ?_
  have aside := modify (g := fun u : Stage =>
      { u with engine := u.engine.read (.aside s'.engine.config.cache s'.engine.config.maxPartialDepth),
               render := { config := s'.engine.config } })
    (fun _ _ => rfl)
    (fun u inside => ⟨⟨inside.engine.cache, inside.engine.loader, inside.engine.helpers, inside.engine.functions⟩,
      before.engine.cache, fun _ no => nomatch no⟩) fun _ => rfl
  have back : Overlooks (fun _ => True) (RenderM.modifyRender fun _ => s.render) :=
    modify (fun _ _ => rfl) (fun u inside => ⟨inside.engine, outside.cache, outside.tasks⟩) fun _ => rfl
  exact aside.bind fun _ _ => side.attempt.bind fun outcome _ => back.bind fun _ _ => ofExcept outcome

end

/-! ### Looks at the engine, and loads -/

theorem called (call : Call) : Overlooks (fun _ => True) (called call) :=
  modifyEngine (fun _ _ => rfl) fun _ => ⟨⟨rfl, rfl, rfl⟩, rfl, rfl⟩

theorem helper? (name : String) : Overlooks (fun found => ∀ f, found = some f → f.Aloof) (helper? name) :=
  get_bind (fun _ _ => rfl) fun _ uncached => pure fun _ found => uncached.engine.helpers found

theorem callable (id : FunctionId) : Overlooks Helper.Aloof (callable id) :=
  get_bind (fun _ _ => rfl) fun _ uncached => pure (uncached.engine.functions id)

theorem depthLimit : Overlooks (fun _ => True) depthLimit := get_bind (fun _ _ => rfl) fun _ _ => pure trivial

/-- No template is found, whichever are there. -/
theorem kept? (name : String) : Overlooks (· = none) (kept? name) where
  stock {s} d uncached := by
    show Except.ok (Except.ok ((s.engine.stock d).lookup name s.render.config.cache), s.stock d) =
      Except.ok (Except.ok (s.engine.lookup name s.render.config.cache), s.stock d)
    rw [uncached.cache, uncached.engine.lookup, (uncached.engine.stock d).lookup]
  leaves {s _ _} uncached ran := by
    cases ran
    refine ⟨uncached, rfl, fun a same => ?_⟩
    cases same
    rw [uncached.cache]
    exact uncached.engine.lookup name

theorem startLoad (name : String) (template : Option String) : Overlooks (fun _ => True) (startLoad name template) := by
  refine get_bind (fun _ _ => rfl) fun s _ => ?_
  split
  · exact pure trivial
  · refine get_bind (fun _ _ => rfl) fun s _ => ?_
    split
    · exact (record ..).bind fun _ _ => throw ..
    · refine (record ..).bind fun _ _ => (withEngine (Engine.overlooks_ask _ name)).bind fun _ _ => ?_
      exact modifyOutput (fun _ => rfl) fun _ => rfl

theorem pollLoad (name : String) : Overlooks (fun _ => True) (pollLoad name) := by
  refine get_bind (fun _ _ => rfl) fun s uncached => ?_
  split
  · exact pure trivial
  · next load _ =>
    rw [uncached.cache]
    exact (withEngine (Load.overlooks_poll s.host s.render.config.maxPartialDepth load)).bind fun _ _ =>
      bind (W := fun _ => True) (modifyOutput (fun _ => rfl) fun _ => rfl) fun _ _ => pure trivial

/-- The work that a poll finds overlooks the templates too. -/
def Polls (x : RenderM (Option (RenderM Unit))) : Prop :=
  Overlooks (fun found => ∀ work, found = some work → Overlooks (fun _ => True) work) x

theorem pollText (future : Future String) {work : String → RenderM Unit} (h : ∀ text, Overlooks (fun _ => True) (work text)) :
    Polls (pollText future work) := by
  refine get_bind (fun _ _ => rfl) fun s _ => ?_
  split
  · exact pure fun _ no => by cases no
  · exact pure fun _ same => by cases same; exact throw ..
  · exact pure fun _ same => by cases same; exact h _

theorem pollTemplate (name : String) {work : Template → RenderM Unit} (h : ∀ t, Overlooks (fun _ => True) (work t)) :
    Polls (pollTemplate name work) := by
  refine (pollLoad name).bind fun result _ => ?_
  split
  · exact pure fun _ no => by cases no
  · exact pure fun _ same => by cases same; exact throw ..
  · exact pure fun _ same => by cases same; exact h _

theorem putOff {x : RenderM (Option (RenderM Unit))} {wait : Wait} (aloof : wait.Aloof) (h : Polls x) :
    Overlooks (fun _ => True) (putOff wait x) := by
  refine reserve.bind fun id _ => (note _).bind fun _ _ => h.bind fun found works => ?_
  cases found with
  | none =>
    refine modifyRender (fun _ => rfl) fun r parked task mem => ?_
    rcases List.mem_append.mp mem with mem | mem
    · exact parked task mem
    · cases List.mem_singleton.mp mem
      exact aloof
  | some work => exact (works work rfl).takeUp id wait

end Overlooks

/-! ### Rendering -/

/-- Running overlooks the templates in the engine, as a relation that rendering respects. -/
def overlooking : Coupling .any where
  rel V x _ := Overlooks V x
  helper := Helper.Aloof
  limit _ := True
  fills _ := True
  pure := .pure
  throw := .throw
  bind := .bind
  mapError := .mapError
  write := .write
  filter filters value := .withEngine (Engine.overlooks_applyFilters filters value)
  record := .record
  called := .called
  toText template h := h.toText template
  helper? := .helper?
  callable _ := .callable _
  filled _ := (Overlooks.note _).mono fun _ _ => trivial
  depthLimit := .depthLimit

section

variable {render : Renderer} (hr : ∀ body context, Overlooks (fun _ => True) (render body context))

include hr

theorem overlooks_program {program : Program} (aloof : program.Aloof) : Overlooks (fun _ => True) (program.run render) := by
  induction program with
  | finish reply => exact .pure trivial
  | fail error => exact .throw _ error
  | write text next ih => exact (Overlooks.write text).attempt.bind fun o _ => ih o (aloof o)
  | render body context next ih => exact (hr body context).attempt.bind fun o _ => ih o (aloof o)
  | renderToString body context next ih => exact ((hr body context).toText _).attempt.bind fun o _ => ih o (aloof o)
  | defer future resume next ihResume ih =>
    obtain ⟨resumes, aloof⟩ := aloof
    have polls := Overlooks.pollText future fun text => (ihResume text (resumes text)).bind fun _ _ =>
      Overlooks.pure (V := fun _ => True) (a := ()) trivial
    exact (Overlooks.putOff (show Wait.Aloof (.text future resume) from resumes) polls).attempt.bind fun o _ => ih o (aloof o)
  | act action next => exact aloof.elim

theorem overlooks_template (t : Template) (context : Context) : Overlooks (fun _ => True) (template render t context) :=
  @Coupling.template .any overlooking render render context t fun _ _ _ => hr _ _

theorem overlooks_named (name : String) (context : Context) : Overlooks (fun _ => True) (named render name context) := by
  refine (Overlooks.kept? name).bind fun found absent => ?_
  rw [absent]
  exact (Overlooks.startLoad name _).bind fun _ _ =>
    Overlooks.putOff trivial (Overlooks.pollTemplate name fun t => overlooks_template hr t context)

theorem overlooks_poll {wait : Wait} (aloof : wait.Aloof) : Overlooks.Polls (Render.poll render wait) := by
  cases wait with
  | text future resume =>
    exact Overlooks.pollText future fun text => (overlooks_program hr (aloof text)).bind fun _ _ => .pure trivial
  | load name context => exact Overlooks.pollTemplate name fun t => overlooks_template hr t context

theorem overlooks_job (job : Job) : Overlooks (fun _ => True) (job.run render) := by
  cases job with
  | named name context => exact overlooks_named hr name context
  | template t context => exact overlooks_template hr t context
  | fail error => exact .throw _ error

theorem overlooks_visit (index : Nat) {task : Task} (aloof : task.wait.Aloof) :
    Overlooks (fun _ => True) (visit render index task) := by
  refine (overlooks_poll hr aloof).bind fun found works => ?_
  cases found with
  | none => exact .pure trivial
  | some work =>
    have removes : Overlooks (fun _ => True) (modifyRender fun r => { r with tasks := r.tasks.eraseIdx index }) :=
      .modifyRender (fun _ => rfl) fun r parked task mem => parked task (List.mem_of_mem_eraseIdx mem)
    exact removes.bind fun _ _ => ((works work rfl).takeUp _ _).bind fun _ _ => .pure trivial

end

theorem overlooks_exec (nesting : Nat) (body : Body) (context : Context) :
    Overlooks (fun _ => True) (exec nesting body context) := by
  induction nesting generalizing body context with
  | zero => exact .halt _ _
  | succ nesting ih =>
    have renders : overlooking.Renders (exec nesting) (exec nesting) fun _ => True :=
      { body := fun _ _ => ih _ _
        program := fun aloof _ _ _ => (overlooks_program ih (aloof _ _ _)).mono fun reply _ => by cases reply <;> trivial
        named := fun name _ _ => overlooks_named ih name _ }
    exact Coupling.forM (C := overlooking) fun step _ =>
      renders.step step.inside_all trivial fun _ _ _ _ _ _ => ih _ _

/-! ### Driving -/

theorem overlooks_close (outcome : Except Error Unit) : Overlooks (fun _ => True) (close outcome) := by
  refine .modify (fun s d => ?_) (fun s uncached => ?_) fun s => ?_
  · cases outcome with
    | ok _ => rfl
    | error error =>
      show (s.stock d).fail error = (s.fail error).stock d
      by_cases ended : s.render.progress ≠ .pending
      · rw [Stage.fail, Stage.fail, if_pos ended, if_pos (by exact ended)]
      · rw [Stage.fail, Stage.fail, if_neg ended, if_neg (by exact ended)]
        exact congrArg (fun e => { s with engine := e, render := s.render.abandon error }) (Engine.stock_record ..)
  · cases outcome with
    | ok _ =>
      have config : s.render.flush.config = s.render.config := by rw [flush_output]
      have tasks : s.render.flush.tasks = s.render.tasks := by rw [flush_output]
      exact ⟨uncached.engine, config.symm ▸ uncached.cache, tasks.symm ▸ uncached.tasks⟩
    | error error =>
      unfold Stage.close Stage.fail
      dsimp only
      split
      · exact uncached
      · exact ⟨(s.engine.leaves_record _ _).uncached uncached.engine, uncached.cache, fun _ no => nomatch no⟩
  · cases outcome with
    | ok _ => rfl
    | error error =>
      unfold Stage.close Stage.fail
      dsimp only
      split
      · rfl
      · exact (s.engine.leaves_record _ _).templates

theorem overlooks_settle {render : Renderer} (hr : ∀ body context, Overlooks (fun _ => True) (render body context))
    (steps index : Nat) (progressed : Bool) : Overlooks (fun _ => True) (settle render steps index progressed) := by
  induction steps generalizing index progressed with
  | zero => exact .halt _ _
  | succ steps ih =>
    refine .get_bind (fun _ _ => rfl) fun s uncached => ?_
    dsimp only
    split
    · exact .pure trivial
    split
    · split
      · exact ih ..
      · exact .pure trivial
    · next task found =>
      refine (overlooks_visit hr index (uncached.tasks task (List.mem_of_getElem? found))).attempt.bind fun outcome _ => ?_
      obtain error | _ | _ := outcome
      · exact (overlooks_close _).bind fun _ _ => ih ..
      · exact ih ..
      · exact (overlooks_close _).bind fun _ _ => ih ..

theorem overlooks_drive (steps : Nat) : Overlooks (fun _ => True) (drive steps) :=
  overlooks_settle (overlooks_exec steps) steps 0 false

theorem overlooks_start (steps : Nat) (job : Job) : Overlooks (fun _ => True) (start (job.run (exec steps))) :=
  ((overlooks_job (overlooks_exec steps) job).within _).attempt.bind fun outcome _ => overlooks_close outcome

end RenderM
end Stencil
