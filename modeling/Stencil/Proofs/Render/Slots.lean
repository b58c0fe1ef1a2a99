import Stencil.Proofs.Render.Nesting

/-! What fills a slot. The templates entered around a place, the innermost first, decide it and nothing else does: the
    innermost of them that puts a body into the slot fills it with that body, and the slot stands for itself where none does.
    That holds wherever and whenever the slot is rendered, in a section with a scope of its own, in what fills another slot
    and after a load that was put off, and it holds again behind a partial as it did before it. -/

namespace Stencil

open RenderM Render Decimal.Numeral

/-- The helper renders bodies in scopes made of its own only. -/
def Helper.Scoped (helper : Helper) : Prop :=
  ∀ context bodies params, (helper context bodies params).Inside (fun _ => context.Derives) fun _ => True

variable {A : Stage → Prop} {calls : Helper → Prop} {job : Job} {ts : List Template} {t : Template} {body : Body}
  {subject : Subject} {context context' : Context} {e : Engine} {s : Stage}

/-- Through stages of the kind and inside of the templates given, the innermost first, the job comes to render the body in
    the scope, however many there are: no count of templates is over the largest. -/
abbrev Around (A : Stage → Prop) (calls : Helper → Prop) (job : Job) : List Template → Body → Context → Prop :=
  Within A calls maxIndex job

/-- Inside of the templates given the job comes to render the subject in the scope. -/
abbrev Reaches (A : Stage → Prop) (calls : Helper → Prop) (job : Job) : List Template → Subject → Context → Prop :=
  Enters A calls maxIndex job

theorem Around.of_reaches (h : Reaches A calls job ts subject context) (leads : subject.Leads A t) :
    Around A calls job (t :: ts) t.body (context.enter t) := .of_enters h leads (Nat.min_le_right ..)

/-! ### The chain of templates -/

/-- What fills a slot inside of templates, the innermost first. -/
inductive Filling (name : String) (default : Option Body) : List Template → Option Body → Prop
  | override {inner outer : List Template} {t : Template} {body : Body} :
    (∀ u ∈ inner, Dict.get? name u.blocks = none) → Dict.get? name t.blocks = some body →
    Filling name default (inner ++ t :: outer) (some body)
  | own {ts : List Template} : (∀ u ∈ ts, Dict.get? name u.blocks = none) → Filling name default ts default

theorem filling_iff {name : String} {default filling : Option Body} :
    Filling name default ts filling ↔ (ts.findSome? fun t => Dict.get? name t.blocks).or default = filling := by
  constructor
  · rintro (⟨none, here⟩ | none)
    · rw [List.findSome?_append, List.findSome?_eq_none_iff.mpr none, List.findSome?_cons, here]
      rfl
    · rw [List.findSome?_eq_none_iff.mpr none]
      rfl
  · rintro rfl
    cases found : ts.findSome? fun t => Dict.get? name t.blocks with
    | none => exact .own (List.findSome?_eq_none_iff.mp found)
    | some body =>
      obtain ⟨inner, t, outer, rfl, here, none⟩ := List.findSome?_eq_some_iff.mp found
      exact .override none here

section

variable (derives : ∀ helper, calls helper → helper.Scoped)
  (fresh : ∀ context, job.scope? = some context → context.blocks = [])

include derives fresh

/-- The scope knows what the templates around the place put into slots. -/
theorem Around.block?_eq (h : Around A calls job ts body context) (slot : String) :
    context.block? slot = ts.findSome? fun t => Dict.get? slot t.blocks := by
  have derived {c d : Context} (made : c.Derives d) : d.block? slot = c.block? slot := by
    rw [made.eq]
    rfl
  have entered {c : Context} {ts : List Template} (t : Template)
      (outer : c.block? slot = ts.findSome? fun t => Dict.get? slot t.blocks) :
      (c.enter t).block? slot = (t :: ts).findSome? fun t => Dict.get? slot t.blocks := by
    rw [Context.block?_enter, outer, List.findSome?_cons]
    cases Dict.get? slot t.blocks <;> rfl
  induction h with
  | @begin _ t _ starts _ =>
    refine entered t ?_
    rw [Context.block?, fresh _ (job.scope?_of_subject? starts)]
    rfl
  | held _ _ _ made ih => exact (derived made).trans ih
  | filling _ _ _ ih => exact ih
  | mentioned _ _ made known _ mentions ih =>
    exact (derived ((derives _ known _ _ _).mentions mentions)).trans ((derived made).trans ih)
  | @entered _ t _ _ _ _ _ _ _ tags _ _ ih => exact entered t ((derived tags.derives).trans ih)

omit fresh in
/-- The name that the scope knows is that of the innermost template. -/
theorem Around.templateName_eq (h : Around A calls job ts body context) :
    context.templateName = ts.head?.bind (·.name) := by
  have derived {c d : Context} (made : c.Derives d) : d.templateName = c.templateName := by
    rw [made.eq]
  induction h with
  | begin => rfl
  | held _ _ _ made ih => exact (derived made).trans ih
  | filling _ _ _ ih => exact ih
  | mentioned _ _ made known _ mentions ih =>
    exact (derived ((derives _ known _ _ _).mentions mentions)).trans ((derived made).trans ih)
  | entered => rfl

end

/-! ### Stages of a render -/

/-- What is put off is inside of the templates it was put off in. -/
structure Stage.Chained (A : Stage → Prop) (calls : Helper → Prop) (job : Job) (s : Stage) : Prop where
  engine : s.engine.CallsOnly calls
  tasks : ∀ task ∈ s.render.tasks, task.wait.In (fun subject context => ∃ ts, Reaches A calls job ts subject context)
    (·.Inside (fun body context => ∃ ts, Around A calls job ts body context) fun _ => True)

theorem Stage.Chained.used (h : s.Chained A calls job) (same : s.engine.Same e) :
    Stage.Chained A calls job { s with engine := e } := ⟨h.engine.of_same same, h.tasks⟩

/-- What comes through stages in which all that is put off is inside of templates. -/
abbrev Chaining {α : Type} (A : Stage → Prop) (calls : Helper → Prop) (job : Job) (x : RenderM α) : Prop :=
  Upholds (fun _ => True) (Stage.Chained A calls job) (fun _ => True) (fun _ => True) x

theorem chaining_startLoad (name : String) (template : Option String) :
    Chaining A calls job (startLoad name template) :=
  .startLoad (fun level message h => h.used (Engine.same_record _ level message)) fun h _ =>
    ⟨h.used (Engine.same_ask ..), fun _ h => ⟨h.engine, h.tasks⟩⟩

theorem chaining_pollLoad (name : String) : Chaining A calls job (pollLoad name) :=
  .pollLoad fun h _ => ⟨h.used (Load.same_poll _), fun h => ⟨h.engine, h.tasks⟩⟩

/-- Rendering comes to places inside of templates only, and to scopes for templates inside of these. -/
theorem confines_chaining (derives : ∀ helper, calls helper → helper.Scoped) :
    Confines A (Stage.Chained A calls job) calls (fun _ => True)
      (fun subject context => ∃ ts, Reaches A calls job ts subject context)
      fun body context => ∃ ts, Around A calls job ts body context where
  lasting := {
    output := fun _ _ _ _ _ h => ⟨h.engine, h.tasks⟩
    noted := fun _ _ _ h => h.used ⟨rfl, rfl, rfl⟩
    side := fun _ h' => ⟨h'.engine, by simp⟩
    back := fun h h' => ⟨h'.engine, h.tasks⟩
    tasks := fun h tasks => ⟨h.engine, tasks⟩
    ended := fun h => ⟨h.engine, by simp⟩
    waits := fun h mem => h.tasks _ mem
    helper := fun h found => h.engine.helpers found
    callable := fun id h => h.engine.functions id
    startLoad := chaining_startLoad
    pollLoad := chaining_pollLoad }
  inside := fun ⟨ts, around⟩ mem holds made => ⟨ts, .held around mem holds made⟩
  fill := fun ⟨ts, around⟩ mem found => ⟨ts, .filling around mem found⟩
  call := fun ⟨ts, around⟩ mem made known held =>
    ⟨fun mentions => ⟨ts, .mentioned around mem made known held mentions⟩, (derives _ known _ _ _).performs⟩
  tag := fun ⟨ts, around⟩ mem tags => ⟨ts, .tag around mem tags⟩
  enter := fun {_ _ _ t} _ ⟨ts, reaches⟩ leads _ => ⟨t :: ts, .of_reaches reaches leads⟩
  perform := fun _ => .perform fun s h => ⟨h.engine.of_same (Action.same_onEngine _ s.engine), h.tasks⟩

/-! ### Streams -/

variable {o : OutputStream} {w : World}

/-- Under each engine that calls helpers of the kind, what the stream has put off is inside of templates. -/
structure OutputStream.Chained (A : Stage → Prop) (calls : Helper → Prop) (job : Job) (o : OutputStream) : Prop where
  stage {w : World} : w.engine.CallsOnly calls → Stage.Chained A calls job { w with render := o.render }
  job {j : Job} : o.job = some j → j.Enters fun subject context => ∃ ts, Reaches A calls job ts subject context

theorem Rendered.chained (derives : ∀ helper, calls helper → helper.Scoped)
    (h : Rendered (·.engine.CallsOnly calls) A job o) : o.Chained A calls job := by
  refine h.induct (fun w _ => ⟨fun known => ⟨known, by simp [OutputStream.new]⟩, fun same => ?_⟩)
    (fun ih known through advanced => ?_)
    fun _ _ _ _ ih => ⟨fun known => ⟨known, (ih.stage known).tasks⟩, ih.job⟩
  · cases same
    exact fun _ _ starts => ⟨[], .begin starts⟩
  · obtain ⟨after, called⟩ :=
      OutputStream.lasts_advance (confines_chaining derives) (fun _ => ih.job) (ih.stage known) through advanced
    exact ⟨fun known' => ⟨known', after.tasks⟩, fun waiting => by cases called.symm.trans waiting⟩

/-! ### Slots between other steps -/

/-- Renders what fills a slot in a scope, if anything does. All that it notes down in the scope is that a slot is filled. -/
def Render.filled (render : Renderer) (context : Context) : Option Body → RenderM Unit
  | some body => do
    note (.filled context.fillings)
    render body { context with fillings := context.fillings + 1 }
  | none => pure ()

theorem slot_eq_filled (render : Renderer) (name : String) (default : Option Body) (context : Context) :
    slot render name default context = filled render context ((context.block? name).or default) := by
  unfold slot
  cases (context.block? name).or default <;> rfl

/-- A step between others is done in the scope of the body, whatever the steps before it did. -/
theorem exec_between (nesting : Nat) (front back : Body) (here : Step) (context : Context) :
    exec (nesting + 1) (front ++ here :: back) context = (do
      exec (nesting + 1) front context
      step (exec nesting) context here
      exec (nesting + 1) back context) := by
  unfold exec
  induction front with
  | nil => rfl
  | cons first front ih =>
    show (step (exec nesting) context first >>= fun _ => (front ++ here :: back).forM (step (exec nesting) context)) = _
    rw [ih]
    exact (RenderM.bind_assoc (step (exec nesting) context first) _ _).symm

/-- Let a job begin outside of all templates, let helpers make scopes by putting frames on those of their own or in their
    place, and let the driver calls come through stages of a kind. Then each driver call renders bodies inside of entered
    templates only: a renderer that does anything else elsewhere gives the same run. Each load that is parked on the way is
    for a name that is rendered inside of templates. Wherever a template is found for a subject, its body is rendered inside
    of it and of those around, unless the depth of its scope is over the limit: where it is kept under a name, and where a
    load that was put off has found it. At every such place the scope names the innermost template, and a slot in the body,
    whatever the steps before it have entered, is filled with what the innermost template that has something for it put
    there, and with its own body, if it has one, exactly where none of them has anything; and what fills it is rendered in
    the scope of the place. -/
theorem slot_takes_innermost (derives : ∀ helper, calls helper → helper.Scoped)
    (fresh : ∀ context, job.scope? = some context → context.blocks = [])
    (rendered : Rendered (·.engine.CallsOnly calls) A job o) (known : w.engine.CallsOnly calls) (steps : Nat)
    (through : o.Through A steps w) :
    (∀ render, RendersAt (fun body context => ∃ ts, Around A calls job ts body context) render →
      (o.workWith (render steps) steps).run { w with render := o.render } =
        (o.work steps).run { w with render := o.render }) ∧
    (∀ s, (o.work steps).Passes { w with render := o.render } s → ∀ task ∈ s.render.tasks, ∀ name context,
      task.wait = .load name context → ∃ ts, Reaches A calls job ts (.name name) context) ∧
    (∀ ts subject context, Reaches A calls job ts subject context → ∀ t, subject.Leads A t →
      Around A calls job (t :: ts) t.body (context.enter t) ∧
      ∀ (render : Renderer) (s : Stage), context.depth ≤ s.render.config.maxPartialDepth →
        (template render t context).run s = (render t.body (context.enter t)).run s ∧
        ∀ name, subject = .name name →
          (s.engine.lookup name s.render.config.cache = some t →
            (named render name context).run s = (render t.body (context.enter t)).run s) ∧
          (s.Found name t →
            ∃ u, (poll render (.load name context)).run s = .ok (.ok (some (template render t context)), u))) ∧
    ∀ ts body context, Around A calls job ts body context → context.templateName = ts.head?.bind (·.name) ∧
      ∀ front name default back, body = front ++ .slot name default :: back →
        (∃ filling, Filling name default ts filling) ∧
        ∀ filling, Filling name default ts filling → ∀ nesting, exec (nesting + 1) body context = (do
          exec (nesting + 1) front context
          filled (exec nesting) context filling
          exec (nesting + 1) back context) := by
  have confines := @confines_chaining A calls job derives
  have chained := rendered.chained derives
  have here := chained.stage known
  refine ⟨fun render renders => ?_, fun s pass task mem name context same => ?_,
    fun ts subject context reaches t leads => ⟨.of_reaches reaches leads, fun render s le => ?_⟩,
    fun ts body context around => ⟨around.templateName_eq derives, fun front name default back split => ?_⟩⟩
  · exact (OutputStream.lasts_work confines renders (fun _ => chained.job) steps).same _ here through
  · have lasts := OutputStream.lasts_work confines (OutputStream.renders_exec _) (fun _ => chained.job) steps
    have there : s.Chained A calls job := (lasts.upholds _ here through).passes pass
    have waits := there.tasks task mem
    rw [same] at waits
    exact waits
  · have rendered := run_template_of_le render t le
    exact ⟨rendered, fun name _ => ⟨fun kept => (run_named_of_kept kept).trans rendered, run_poll_of_found⟩⟩
  · subst split
    refine ⟨⟨_, filling_iff.mpr rfl⟩, fun filling fills nesting => ?_⟩
    rw [exec_between, ← filling_iff.mp fills, ← around.block?_eq derives fresh, ← slot_eq_filled]
    rfl

/-- A template that fills one slot, and has two slots behind a partial with a scope of its own. -/
def outerTemplate : Template where
  name := some "p"
  body := [.partialTag (.static "q") (some ⟨false, [.key "k"]⟩) [], .slot "s" none, .slot "t" (some [.write "z"])]
  blocks := [("s", [.write "P"])]

/-- A template that fills the other slot, and has both. -/
def innerTemplate : Template where
  name := some "q"
  body := [.reference ⟨true, []⟩ [], .slot "s" (some [.write "x"]), .slot "t" (some [.write "y"])]
  blocks := [("t", [.write "Q"])]

/-- An engine that loads the inner template once a gate is open. -/
def lateInnerEngine : Engine where
  templates := [("p", outerTemplate)]
  loader := some ⟨fun _ _ host => (Future.gate "g" host).map (·.map fun _ => .template innerTemplate)⟩

def outerScope : Context := .ofValue (.ofFields [("k", .string "v")])

/-- A call with the gate closed and one with the gate open. -/
def lateInnerRun : Except Halt (World × OutputStream) := do
  let stream : OutputStream := { OutputStream.new lateInnerEngine (.named "p" outerScope) with listeners := [⟨0, .sink⟩] }
  let (_, w, o) ← stream.runUntilStalled 9 { engine := lateInnerEngine }
  let (_, w, o) ← o.runUntilStalled 9 { w with host := w.host.openGate "g" (.ok "") }
  pure (w, o)

theorem callsOnly_lateInnerEngine : lateInnerEngine.CallsOnly Helper.Scoped where
  helpers := Helper.inside_builtin
  functions _ := fun _ _ _ => .finish _

/-- The load of the inner template is settled in the end. -/
theorem found_lateInnerRun : lateInnerRun.toOption.map (fun r => Dict.get? "q" r.2.render.loads) =
    some (some (.settled (.ok innerTemplate))) := rfl

/-- Loaded late and in a scope of its own, the inner template takes what the outer one put into its first slot and its own
    for the second; behind it, the outer template's second slot stands for itself again. -/
theorem slot_takes_innermost_lateInnerRun : ∃ w o A c, lateInnerRun = .ok (w, o) ∧
    o.delivered = [⟨⟨0, .sink⟩, .data "vPQPz"⟩, ⟨⟨0, .sink⟩, .finished⟩] ∧
    Around A Helper.Scoped (.named "p" outerScope) [innerTemplate, outerTemplate] innerTemplate.body c ∧
    c.templateName = some "q" ∧
    ∀ nesting, exec (nesting + 1) innerTemplate.body c = (do
      exec (nesting + 1) [.reference ⟨true, []⟩ []] c
      filled (exec nesting) c (some [.write "P"])
      exec (nesting + 1) [.slot "t" (some [.write "y"])] c) := by
  have seen : lateInnerRun.toOption.any (fun r =>
      decide (r.2.delivered = [⟨⟨0, .sink⟩, .data "vPQPz"⟩, ⟨⟨0, .sink⟩, .finished⟩])) = true := by decide +kernel
  obtain ⟨⟨w, o⟩, done, seen⟩ := exists_eq_ok seen
  have settled := found_lateInnerRun
  rw [done] at settled
  have run := done
  unfold lateInnerRun at run
  obtain ⟨⟨_, v, u⟩, first, run⟩ := bind_eq_ok.mp run
  obtain ⟨⟨_, v', u'⟩, second, run⟩ := bind_eq_ok.mp run
  cases run
  let stream : OutputStream := { OutputStream.new lateInnerEngine (.named "p" outerScope) with listeners := [⟨0, .sink⟩] }
  let opened : World := { v with host := v.host.openGate "g" (.ok "") }
  let A (s : Stage) : Prop := stream.Passes 9 { engine := lateInnerEngine } s ∨ u.Passes 9 opened s
  have fresh : ∀ context, (Job.named "p" outerScope).scope? = some context → context.blocks = [] := by
    rintro _ same
    cases same
    rfl
  have begun : Rendered (·.engine.CallsOnly Helper.Scoped) A (.named "p" outerScope) stream :=
    .attach ⟨0, .sink⟩ (.new (w := { engine := lateInnerEngine }) callsOnly_lateInnerEngine)
  have chained := begun.chained fun _ known => known
  obtain ⟨_, advanced, -⟩ := OutputStream.runUntilStalled_ok first
  have calls : v.engine.CallsOnly Helper.Scoped := (OutputStream.lasts_advance (confines_chaining fun _ known => known)
    (fun _ => chained.job) (chained.stage callsOnly_lateInnerEngine) (fun _ => Or.inl) advanced).1.engine
  have known : A { ({ engine := lateInnerEngine } : World) with render := stream.render } := Or.inl passes_self
  have loaded : (Subject.name "q").Leads A innerTemplate := by
    obtain ⟨after, advanced, rfl⟩ := OutputStream.runUntilStalled_ok second
    rw [OutputStream.tellAll_eq] at settled
    exact .of_found (Or.inr (OutputStream.passes_after advanced)) (Option.some.inj settled)
  have rendered := Rendered.runUntilStalled begun callsOnly_lateInnerEngine (fun _ => Or.inl) first
  obtain ⟨-, -, enters, places⟩ := slot_takes_innermost (fun _ known => known) fresh rendered
    (w := opened) calls 9 fun _ => Or.inr
  have outer := (enters [] (.name "p") outerScope (.begin rfl) outerTemplate (.of_kept known rfl)).1
  have inner := (enters [outerTemplate] (.name "q") _ (.tag outer List.mem_cons_self (.static known _)) innerTemplate loaded).1
  obtain ⟨named, slots⟩ := places _ _ _ inner
  have fills : Filling "s" (some [.write "x"]) ([innerTemplate] ++ outerTemplate :: []) (some [.write "P"]) :=
    .override (by simp [innerTemplate, Dict.get?]) rfl
  exact ⟨_, _, A, _, done, of_decide_eq_true seen, inner, named,
    (slots [.reference ⟨true, []⟩ []] "s" _ [.slot "t" (some [.write "y"])] rfl).2 _ fills⟩

end Stencil
