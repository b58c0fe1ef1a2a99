import Stencil.Proofs.Render.Loading
import Stencil.Proofs.Render.Places

/-! Which templates are entered, and in which scopes. A partial tag comes to a name and a scope, and what is rendered in that
    scope is what the render finds under the name, when it is kept there or once it is loaded. -/

namespace Stencil

open RenderM Render

variable {A : Stage → Prop} {context inner : Context} {name : String} {step : Step}

/-- Somewhere at the stages of the kind, the template is what is to be rendered. -/
def Subject.Leads (A : Stage → Prop) : Subject → Template → Prop
  | .name name, t => ∃ s, A s ∧ s.Answers name t
  | .template u, t => t = u

theorem Subject.Leads.of_kept {s : Stage} {t : Template} (here : A s)
    (kept : s.engine.lookup name s.render.config.cache = some t) : (Subject.name name).Leads A t :=
  ⟨s, here, Or.inl kept⟩

theorem Subject.Leads.of_found {s : Stage} {t : Template} (here : A s) (loaded : s.Found name t) :
    (Subject.name name).Leads A t := ⟨s, here, Or.inr loaded⟩

/-- What a job renders, and in which scope. -/
def Job.subject? : Job → Option (Subject × Context)
  | .named name context => some (.name name, context)
  | .template t context => some (.template t, context)
  | .fail _ => none

theorem Job.scope?_eq (job : Job) : job.scope? = job.subject?.map (·.2) := by
  cases job <;> rfl

theorem Job.scope?_of_subject? {job : Job} {subject : Subject} (renders : job.subject? = some (subject, context)) :
    job.scope? = some context := by
  rw [job.scope?_eq, renders]
  rfl

/-! ### What is found under a name -/

namespace Render

variable {render : Renderer} {s : Stage} {t : Template}

theorem run_template_of_le (render : Renderer) (t : Template) (le : context.depth ≤ s.render.config.maxPartialDepth) :
    (template render t context).run s = (render t.body (context.enter t)).run s := by
  show (if s.render.config.maxPartialDepth < context.depth then
    throw (.recursionLimit s.render.config.maxPartialDepth t.name) else render t.body (context.enter t)).run s = _
  rw [if_neg (Nat.not_lt.mpr le)]

/-- A template that is kept is rendered. -/
theorem run_named_of_kept (kept : s.engine.lookup name s.render.config.cache = some t) :
    (named render name context).run s = (template render t context).run s := by
  have found : (kept? name).run s = .ok (.ok (some t), s) := by
    rw [← kept]
    rfl
  unfold named
  rw [run_bind_of_ok found]

/-- Where the load of a name has found a template, work that was put off for it renders the template. -/
theorem run_poll_of_found (loaded : s.Found name t) :
    ∃ u, (poll render (.load name context)).run s = .ok (.ok (some (template render t context)), u) := by
  unfold poll
  rw [run_pollTemplate_of_some _ loaded]
  exact ⟨_, rfl⟩

end Render

/-! ### Partial tags -/

namespace Render

/-- The name that a partial tag comes to, and the scope that the tag gives to what is found under it. -/
def tagged (render : Renderer) (target : PartialName Body) (own : Option Path) (list : List (String × Operand Body))
    (context : Context) : RenderM (String × Context) := do
  let name ←
    match target with
    | .static name => pure name
    | .dynamic body => toText context.templateName (render body context)
  let params ← params render list context
  pure (name, scope context own params)

variable {render render' : Renderer} {target : PartialName Body} {own : Option Path}
  {list : List (String × Operand Body)} {s t : Stage}

theorem partialTag_eq : partialTag render target own list context =
    tagged render target own list context >>= fun tag => named render tag.1 tag.2 := by
  have rest (name : String) : (params render list context >>= fun params => named render name (scope context own params)) =
      (params render list context >>= fun params => pure (name, scope context own params)) >>= fun tag =>
        named render tag.1 tag.2 := by
    rw [RenderM.bind_assoc]
    rfl
  cases target with
  | static name => exact rest name
  | dynamic body =>
    have quoted := congrArg (toText context.templateName (render body context) >>= ·) (funext rest)
    rw [← RenderM.bind_assoc] at quoted
    exact quoted

theorem scope_of_tagged (ran : (tagged render target own list context).run s = .ok (.ok (name, inner), t)) :
    ∃ params, inner = scope context own params := by
  have rest {name' : String} {s : Stage} (ran : (params render list context >>= fun params =>
      pure (name', scope context own params) : RenderM (String × Context)).run s = .ok (.ok (name, inner), t)) :
      ∃ params, inner = scope context own params := by
    obtain ⟨params, _, -, ran⟩ := run_bind_eq_ok_ok.mp ran
    cases ran
    exact ⟨params, rfl⟩
  cases target with
  | static => exact rest ran
  | dynamic =>
    obtain ⟨_, _, -, ran⟩ := run_bind_eq_ok_ok.mp ran
    exact rest ran

end Render

/-- At stages of the kind, the step is a partial tag that comes to the name and to the scope. -/
def Step.Tags (A : Stage → Prop) (context : Context) (step : Step) (name : String) (inner : Context) : Prop :=
  ∃ target own list nesting s t, step = .partialTag target own list ∧ A s ∧ A t ∧
    (tagged (exec nesting) target own list context).run s = .ok (.ok (name, inner), t)

namespace Step.Tags

theorem derives (h : step.Tags A context name inner) : context.Derives inner := by
  obtain ⟨_, own, _, _, _, _, -, -, -, ran⟩ := h
  obtain ⟨params, rfl⟩ := scope_of_tagged ran
  exact Joint.context_scope (S := .derived context) own .refl fun _ _ => trivial

/-- A tag that spells its name out and has no parameters comes to the name, whatever the stage. -/
theorem static {s : Stage} (here : A s) (own : Option Path) :
    (Step.partialTag (.static name) own []).Tags A context name (scope context own []) :=
  ⟨_, _, _, 0, s, s, rfl, here, here, rfl⟩

end Step.Tags

theorem Step.Includes.eq (h : step.Includes) : ∃ target own list, step = .partialTag target own list := by
  cases step with
  | partialTag target own list => exact ⟨target, own, list, rfl⟩
  | write | reference | sectionTag | helperTag | slot => exact h.elim

/-- Ways to render that agree on the bodies that a partial tag quotes, agree on the name and the scope that it comes to. -/
theorem Joint.tagged {S : Scopes} {J : Joint S} {render render' : Renderer} {target : PartialName Body}
    {own : Option Path} {list : List (String × Operand Body)} (hc : S.context context)
    (quoted : ∀ held, (Step.partialTag target own list).Quotes held → J.rel (fun _ => True)
      (toText context.templateName (render held context)) (toText context.templateName (render' held context))) :
    J.rel (S.context ·.2) (Render.tagged render target own list context)
      (Render.tagged render' target own list context) := by
  have rest (name : String) : J.rel (S.context ·.2)
      (Render.params render list context >>= fun params => Pure.pure (name, scope context own params))
      (Render.params render' list context >>= fun params => Pure.pure (name, scope context own params)) :=
    J.bind (params hc fun b mem => quoted b (Or.inr mem)) fun _ hp => J.pure (context_scope own hc hp)
  unfold Render.tagged
  cases target with
  | static name => exact J.bind (V := fun _ => True) (J.pure trivial) fun name _ => rest name
  | dynamic body => exact J.bind (quoted body (Or.inl rfl)) fun name _ => rest name

end Stencil
