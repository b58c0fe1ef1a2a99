import Stencil.Proofs.Render.Lasting

/-! How deeply templates nest. Wherever a body is rendered, also in work that was put off, in what fills a slot, in a section
    with a scope of its own and on the side, the depth of its scope is the number of templates entered around it. So a
    template is refused exactly if it is nested in more templates than the limit allows. -/

namespace Stencil

open RenderM Render Decimal.Numeral

/-- The action does not change how deeply partials may nest. -/
def Action.KeepsLimit (limit : Nat) : Action → Prop
  | .setConfig config => config.maxPartialDepth = limit
  | _ => True

/-- The helper renders bodies in scopes made of its own only, and does not change how deeply partials may nest. -/
def Helper.Derives (limit : Nat) (helper : Helper) : Prop :=
  ∀ context bodies params, (helper context bodies params).Inside (fun _ => context.Derives) (Action.KeepsLimit limit)

/-- The engine calls helpers of a kind, and allows partials to nest so deeply. -/
structure Engine.Limits (calls : Helper → Prop) (limit : Nat) (e : Engine) : Prop where
  helpers {name : String} {helper : Helper} : Dict.get? name e.helpers = some helper → calls helper
  functions (id : FunctionId) : calls (e.functions id)
  config : e.config.maxPartialDepth = limit

variable {A : Stage → Prop} {calls : Helper → Prop} {limit : Nat} {job : Job} {ts : List Template} {t : Template}
  {body : Body} {subject : Subject} {context context' : Context} {e e' : Engine} {s : Stage}

/-! ### Templates around a place -/

/-- How many templates there are, as a machine word counts them. -/
def counted (ts : List Template) : Nat := min ts.length maxIndex

/-- Through stages of the kind, the job comes to render the body in the scope inside of the templates given, the innermost
    first. A template is entered where it is found for the job, or under the name that a partial tag comes to, and in the
    scope of the tag; it is inside of those that enclose the body with the tag. All else is rendered inside of the templates
    that enclose what holds it, calls its helper or has its slot, whenever it is rendered. -/
inductive Within (A : Stage → Prop) (calls : Helper → Prop) (limit : Nat) (job : Job) :
    List Template → Body → Context → Prop
  | begin {subject : Subject} {t : Template} {context : Context} : job.subject? = some (subject, context) →
    subject.Leads A t → Within A calls limit job [t] t.body (context.enter t)
  | held {ts : List Template} {body held : Body} {context context' : Context} {step : Step} :
    Within A calls limit job ts body context → step ∈ body → step.Holds held → context.Derives context' →
    Within A calls limit job ts held context'
  | filling {ts : List Template} {body filling : Body} {context : Context} {name : String} {default : Option Body} :
    Within A calls limit job ts body context → .slot name default ∈ body →
    (context.block? name).or default = some filling → Within A calls limit job ts filling context.fill
  | mentioned {ts : List Template} {body other : Body} {context context' scope : Context} {step : Step} {helper : Helper}
    {bodies : Bodies Body} {params : Params} : Within A calls limit job ts body context → step ∈ body →
    context.Derives context' → calls helper → (bodies.All fun held => step.Holds held) →
    (helper context' bodies params).Mentions other scope → Within A calls limit job ts other scope
  | entered {ts : List Template} {t : Template} {body : Body} {context inner : Context} {step : Step} {name : String} :
    Within A calls limit job ts body context → step ∈ body → step.Tags A context name inner →
    (Subject.name name).Leads A t → counted ts ≤ limit → Within A calls limit job (t :: ts) t.body (inner.enter t)

/-- Inside of the templates given the job comes to render the subject in the scope: it begins so, or a partial tag of a body
    inside of them comes to the name and to the scope. -/
inductive Enters (A : Stage → Prop) (calls : Helper → Prop) (limit : Nat) (job : Job) :
    List Template → Subject → Context → Prop
  | begin {subject : Subject} {context : Context} : job.subject? = some (subject, context) →
    Enters A calls limit job [] subject context
  | tag {ts : List Template} {body : Body} {context inner : Context} {step : Step} {name : String} :
    Within A calls limit job ts body context → step ∈ body → step.Tags A context name inner →
    Enters A calls limit job ts (.name name) inner

theorem Within.of_enters (h : Enters A calls limit job ts subject context) (leads : subject.Leads A t)
    (fits : counted ts ≤ limit) : Within A calls limit job (t :: ts) t.body (context.enter t) := by
  cases h with
  | begin starts => exact .begin starts leads
  | tag within mem tags => exact .entered within mem tags leads fits

theorem Context.Derives.depth_eq (h : context.Derives context') : context'.depth = context.depth := by
  rw [h.eq]

theorem counted_cons (t : Template) (ts : List Template) : counted (t :: ts) = min (counted ts + 1) maxIndex := by
  unfold counted
  rw [List.length_cons]
  omega

section

variable (derives : ∀ helper, calls helper → helper.Derives limit)
  (fresh : ∀ context, job.scope? = some context → context.depth = 0)

include derives fresh

/-- The depth of the scope counts the templates around the place. -/
theorem Within.depth_eq (h : Within A calls limit job ts body context) : context.depth = counted ts := by
  induction h with
  | begin starts =>
    show min (_ + 1) maxIndex = _
    rw [fresh _ (job.scope?_of_subject? starts)]
    rfl
  | held _ _ _ derived ih => exact derived.depth_eq.trans ih
  | filling _ _ _ ih => exact ih
  | mentioned _ _ derived known _ mentions ih =>
    exact ((derives _ known _ _ _).mentions mentions).depth_eq.trans (derived.depth_eq.trans ih)
  | entered _ _ tags _ _ ih =>
    show min (_ + 1) maxIndex = _
    rw [tags.derives.depth_eq, ih, counted_cons]

theorem Enters.depth_eq (h : Enters A calls limit job ts subject context) : context.depth = counted ts := by
  cases h with
  | begin starts => exact fresh _ (job.scope?_of_subject? starts)
  | tag within _ tags => exact tags.derives.depth_eq.trans (within.depth_eq derives fresh)

end

/-! ### Engines in use -/

theorem Engine.Limits.of_same (h : e.Limits calls limit) (same : e.Same e') (config : e'.config = e.config) :
    e'.Limits calls limit where
  helpers found := h.helpers (same.helpers ▸ found)
  functions id := same.functions ▸ h.functions id
  config := config ▸ h.config

/-- The engine and the render are under the limit, and what is put off is inside of the templates it was put off in. -/
structure Stage.Nests (A : Stage → Prop) (calls : Helper → Prop) (limit : Nat) (job : Job) (s : Stage) : Prop where
  engine : s.engine.Limits calls limit
  config : s.render.config.maxPartialDepth = limit
  tasks : ∀ task ∈ s.render.tasks, task.wait.In (fun subject context => ∃ ts, Enters A calls limit job ts subject context)
    (·.Inside (fun body context => ∃ ts, Within A calls limit job ts body context) (Action.KeepsLimit limit))

namespace Stage.Nests

theorem used (h : s.Nests A calls limit job) (same : s.engine.Same e) (config : e.config = s.engine.config) :
    Stage.Nests A calls limit job { s with engine := e } := ⟨h.engine.of_same same config, h.config, h.tasks⟩

end Stage.Nests

theorem Action.KeepsLimit.onEngine {action : Action} (keeps : action.KeepsLimit limit) (h : e.Limits calls limit) :
    (action.onEngine e).Limits calls limit := by
  have same := action.same_onEngine e
  cases action with
  | setConfig config => exact ⟨h.helpers, h.functions, keeps⟩
  | addTemplate name source => exact h.of_same same (e.config_addTemplate name source)
  | renameTemplate name newName =>
    obtain ⟨templates, renamed⟩ := e.renameTemplate_eq name newName
    exact h.of_same same ((congrArg Engine.config renamed).trans rfl)
  | getTemplate | removeTemplate | clearTemplates | openGate => exact h.of_same same rfl

/-- The helpers that every engine starts with are of this kind. -/
theorem Helper.derives_builtin {name : String} {helper : Helper} (known : Dict.get? name Helper.builtin = some helper) :
    helper.Derives limit := Helper.inside_builtin known

/-! ### Streams -/

variable {o : OutputStream} {w : World}

/-- The render of the stream nests under each engine that fits, and its job begins outside of all templates. -/
structure OutputStream.Nests (A : Stage → Prop) (calls : Helper → Prop) (limit : Nat) (job : Job) (o : OutputStream) :
    Prop where
  stage {w : World} : w.engine.Limits calls limit → Stage.Nests A calls limit job { w with render := o.render }
  job {j : Job} : o.job = some j → j.Enters fun subject context => ∃ ts, Enters A calls limit job ts subject context

section

variable (derives : ∀ helper, calls helper → helper.Derives limit)
  (fresh : ∀ context, job.scope? = some context → context.depth = 0)

include derives fresh

end

end Stencil
