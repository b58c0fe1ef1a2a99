import Stencil.Proofs.Render.Lasting
import Stencil.Proofs.Render.Schedules

/-! A redirect is the same as asking for its target. Where the loader points from a name to another one, both names lead to
    one template, and renders of the one and of the other tell one text. Neither keeps a template under the name that the
    loader points away from. -/

namespace Stencil

open RenderM Render

variable {hosts : Host → Prop} {e : Engine} {name other : String} {t t' : Template} {job job' : Job}
  {listeners listeners' : List Listener} {l l' : Listener} {w w' : World} {o o' : OutputStream}

/-- The engine has nothing to render under the name, and its loader points from there to the other name. -/
structure Engine.PointsTo (hosts : Host → Prop) (e : Engine) (name other : String) : Prop where
  absent : e.lookup name e.config.cache = none
  loader : ∃ loader, e.loader = some loader ∧ ∀ asked, (loader.load asked name).Settles hosts (.ok (.redirect other))

namespace Engine.PointsTo

/-- What the loader finds under the name is the other name. -/
theorem answer_eq (points : e.PointsTo hosts name other) {loader : Loader} {asked : List String} {host : Host}
    {answer : Except Error Loaded} (some' : e.loader = some loader) (here : hosts host)
    (answered : loader.load asked name host = some answer) : answer = .ok (.redirect other) := by
  obtain ⟨loader', given, settles⟩ := points.loader
  cases some'.symm.trans given
  exact (settles asked).eq here answered

theorem finds (points : e.PointsTo hosts name other) (h : e.Finds hosts name t) : e.Finds hosts other t := by
  cases h with
  | kept look => cases points.absent.symm.trans look
  | source _ some here answered _ => cases points.answer_eq some here answered
  | template _ some here answered => cases points.answer_eq some here answered
  | redirect _ some here answered next =>
    cases points.answer_eq some here answered
    exact next

end Engine.PointsTo

/-! ### Jobs -/

/-- The same step, or a partial of the other name in place of a partial of the name. -/
inductive Step.Retargets (name other : String) : Step → Step → Prop
  | same (step : Step) : Retargets name other step step
  | tag (own : Option Path) (list : List (String × Operand Body)) :
    Retargets name other (.partialTag (.static name) own list) (.partialTag (.static other) own list)

/-- Two jobs of which one renders the other name where the other renders the name, itself or as a partial. -/
inductive Job.Retargets (name other : String) : Job → Job → Prop
  | named (context : Context) : Retargets name other (.named name context) (.named other context)
  | template {body body' : Body} (title : Option String) (blocks : Dict Body) (context : Context) :
    List.Forall₂ (Step.Retargets name other) body body' →
    Retargets name other (.template ⟨title, body, blocks⟩ context) (.template ⟨title, body', blocks⟩ context)

namespace RenderM

variable (pure : e.Pure hosts) (points : e.PointsTo hosts name other)

include pure points

/-- What is put off for the one name and for the other is the very same. -/
theorem leads_eq_of_pointsTo {context : Context} {render : Renderer} {x y : RenderM Unit}
    (hx : Leads hosts e render (.load name context) x) (hy : Leads hosts e render (.load other context) y) : y = x := by
  obtain ⟨t, finds, rfl⟩ := hx
  obtain ⟨t', finds', rfl⟩ := hy
  rw [(points.finds finds).unique pure finds']

variable (depth n m : Nat)

theorem matches_retargeted_step {step step' : Step} (retargets : step.Retargets name other step') (context : Context) :
    Matches hosts e depth (fun _ => True) (Render.step (exec n) context step) (Render.step (exec m) context step') := by
  have below := agrees_below pure depth
  have hr := matches_exec pure below n m
  cases retargets with
  | same => exact matches_step pure below hr context step
  | tag own list =>
    have values : Matches hosts e depth _ (params (exec n) list context) (params (exec m) list context) :=
      (renders_matching pure below hr).params trivial (Step.inside_all (.partialTag (.static name) own list)).2
    exact values.bind fun params _ => matches_named pure below hr (fun _ => points.finds) (scope context own params)

theorem matches_retargeted_steps {body body' : Body} (retargets : List.Forall₂ (Step.Retargets name other) body body')
    (context : Context) : Matches hosts e depth (fun _ => True) (body.forM (Render.step (exec n) context))
      (body'.forM (Render.step (exec m) context)) := by
  induction retargets with
  | nil => exact .pure trivial
  | cons step _ ih => exact (matches_retargeted_step pure points depth n m step context).bind fun _ _ => ih

theorem matches_retargeted_body {body body' : Body} (retargets : List.Forall₂ (Step.Retargets name other) body body')
    (context : Context) : Matches hosts e depth (fun _ => True) (exec n body context) (exec m body' context) := by
  have writes (n : Nat) (body : Body) : Writes hosts e (fun _ => True) (exec n body context) :=
    (matches_exec pure (agrees_below pure depth) n n body context).left
  cases n with
  | zero => exact ⟨writes _ _, writes _ _, fun _ _ _ _ _ _ _ _ _ _ done => by cases done⟩
  | succ n =>
    cases m with
    | zero => exact ⟨writes _ _, writes _ _, fun _ _ _ _ _ _ _ _ _ _ _ done => by cases done⟩
    | succ m => exact matches_retargeted_steps pure points depth n m retargets context

/-- The two jobs add what reads alike. -/
theorem matches_retargeted_job (retargets : job.Retargets name other job') :
    Matches hosts e depth (fun _ => True) (job.run (exec n)) (job'.run (exec m)) := by
  have below := agrees_below pure depth
  cases retargets with
  | named context => exact matches_named pure below (matches_exec pure below n m) (fun _ => points.finds) context
  | template title blocks context bodies =>
    refine Matches.bind (matching pure depth).depthLimit fun limit _ => ?_
    split
    · exact .throw _ _
    · exact matches_retargeted_body pure points depth n m bodies _

end RenderM

/-! ### The templates kept -/

/-- The steps do not use the engine. -/
abbrev Program.Inert (p : Program) : Prop := p.Inside (fun _ _ => True) fun _ => False

theorem Program.Pure.of_comesTo {p q : Program} (h : p.Pure hosts) (comes : p.ComesTo q) : q.Pure hosts := by
  have returns {α : Type} {next : Except Error α → Program} {outcome : Except Error α}
      (throws : ∀ e, next (.error e) = .fail e) (ok : ∀ a, (next (.ok a)).Pure hosts) : (next outcome).Pure hosts := by
    cases outcome with
    | ok a => exact ok a
    | error e =>
      rw [throws e]
      trivial
  induction comes with
  | here => exact h
  | write _ ih | render _ ih => exact ih (returns h.1 fun _ => h.2)
  | renderToString _ ih => exact ih (returns h.1 h.2)
  | resume _ ih => exact ih (h.2.1 _)
  | defer _ ih => exact ih (returns h.2.2.1 fun _ => h.2.2.2)
  | act => exact h.elim

theorem Program.Pure.inert {p : Program} (h : p.Pure hosts) : p.Inert where
  mentions _ := trivial
  performs := fun ⟨_, comes⟩ => h.of_comesTo comes

/-- After some use the engine calls the same code, and keeps under the name what it kept before. -/
structure Engine.Bypasses (e : Engine) (name : String) (e' : Engine) : Prop where
  same : e.Same e'
  kept : e'.getTemplate name = e.getTemplate name

/-- The load waits for the loader of the engine. -/
def Load.Asks (e : Engine) : Load → Prop
  | .waiting asking answer _ => ∃ loader asked, e.loader = some loader ∧ answer = loader.load asked asking
  | .settled _ => True

/-- The engine keeps under the name what it kept before, and waits for nothing but its loader and programs that do not use
    it. -/
structure Stage.Bypasses (hosts : Host → Prop) (e : Engine) (name : String) (s : Stage) : Prop where
  host : hosts s.host
  engine : e.Bypasses name s.engine
  loads {asked : String} {load : Load} : Dict.get? asked s.render.loads = some load → load.Asks e
  tasks : ∀ task ∈ s.render.tasks, task.wait.In (fun _ _ => True) Program.Inert

namespace Engine.Bypasses

variable {e' : Engine}

theorem noted (h : e.Bypasses name e') (log : List LogRecord) (asked : List String) (calls : List Call)
    (readings : List Reading) : e.Bypasses name { e' with log, asked, calls, readings } :=
  ⟨⟨h.same.helpers, h.same.functions, h.same.loader⟩, h.kept⟩

theorem record (h : e.Bypasses name e') (level : LogLevel) (message : String) :
    e.Bypasses name (e'.record level message) := by
  rw [record_eq]
  exact h.noted _ _ _ _

theorem addTemplate (h : e.Bypasses name e') (ne : name ≠ other) (source : String) :
    e.Bypasses name (e'.addTemplate other source).2 := by
  refine ⟨h.same.trans (same_addTemplate ..), ?_⟩
  unfold Engine.addTemplate
  cases compiled : e'.compile source (some other) with
  | error error => exact h.kept
  | ok t =>
    dsimp only
    unfold Engine.keep
    rw [name_of_compile compiled]
    dsimp only
    split
    · exact (Dict.get?_insert_of_ne ne ..).trans h.kept
    · exact h.kept

end Engine.Bypasses

theorem Load.bypasses_advance (points : e.PointsTo hosts name other) {host : Host} (here : hosts host) {cache : Bool}
    {limit rounds : Nat} {asking : String} {answer : Future Loaded} {e' : Engine} (h : e.Bypasses name e')
    (asks : ∃ loader asked, e.loader = some loader ∧ answer = loader.load asked asking) :
    (advance host cache limit rounds asking answer e').1.Asks e ∧
      e.Bypasses name (advance host cache limit rounds asking answer e').2 := by
  refine advance_induct (P := fun asking answer e' result => e.Bypasses name e' →
      (∃ loader asked, e.loader = some loader ∧ answer = loader.load asked asking) →
      result.1.Asks e ∧ e.Bypasses name result.2)
    ?waiting ?error ?source ?template ?kept ?ask h asks
  case waiting => exact fun _ _ _ _ _ h asks => ⟨asks, h⟩
  case error => exact fun _ _ _ _ h _ => ⟨trivial, h⟩
  case source =>
    rintro asking _ e' text found h ⟨loader, asked, some, rfl⟩
    refine ⟨trivial, h.addTemplate ?_ text⟩
    rintro rfl
    cases points.answer_eq some here found
  case template => exact fun _ _ _ _ _ h _ => ⟨trivial, h⟩
  case kept => exact fun _ _ _ _ _ _ _ h _ => ⟨trivial, h⟩
  case ask =>
    rintro asking _ e' next loader result _ _ some ih h -
    exact ih ((h.record ..).noted _ _ _ _) ⟨loader, _, h.same.loader ▸ some, rfl⟩

namespace Stage.Bypasses

variable {s : Stage}

theorem used (h : s.Bypasses hosts e name) {engine : Engine} (engine' : e.Bypasses name engine) :
    Stage.Bypasses hosts e name { s with engine } := ⟨h.host, engine', h.loads, h.tasks⟩

theorem load (h : s.Bypasses hosts e name) {asked : String} {load : Load} (asks : load.Asks e) :
    Stage.Bypasses hosts e name { s with render := { s.render with loads := Dict.insert asked load s.render.loads } } := by
  refine ⟨h.host, h.engine, fun found => ?_, h.tasks⟩
  exact loads_insert (P := fun _ => Load.Asks e) asks h.loads found

end Stage.Bypasses

theorem bypasses_startLoad (asked : String) (template : Option String) :
    Upholds (fun _ => True) (Stage.Bypasses hosts e name) (fun _ => True) (fun _ => True) (startLoad asked template) :=
  .startLoad (fun level message h => h.used (h.engine.record level message)) fun h some =>
    ⟨h.used (h.engine.noted ..), fun _ h' => h'.load ⟨_, _, h.engine.same.loader ▸ some, rfl⟩⟩

theorem bypasses_pollLoad (points : e.PointsTo hosts name other) (asked : String) :
    Upholds (fun _ => True) (Stage.Bypasses hosts e name) (fun _ => True) (fun _ => True) (pollLoad asked) := by
  refine .pollLoad fun {s load} h found => ?_
  have advanced : (load.poll s.host s.render.config.cache s.render.config.maxPartialDepth s.engine).1.Asks e ∧
      e.Bypasses name (load.poll s.host s.render.config.cache s.render.config.maxPartialDepth s.engine).2 := by
    have asks := h.loads found
    cases load with
    | waiting asking answer rounds => exact Load.bypasses_advance points h.host h.engine asks
    | settled result => exact ⟨trivial, h.engine⟩
  exact ⟨h.used advanced.2, fun h => h.load advanced.1⟩

/-- Whatever a pure engine renders, it leaves the name alone that its loader points away from. -/
theorem confines_bypasses (pure : e.Pure hosts) (points : e.PointsTo hosts name other) :
    Confines (fun _ => True) (Stage.Bypasses hosts e name)
      (fun helper => ∀ context bodies params, (helper context bodies params).Inert) (fun _ => False) (fun _ _ => True)
      fun _ _ => True where
  lasting := {
    output := fun _ _ _ _ _ h => ⟨h.host, h.engine, h.loads, h.tasks⟩
    noted := fun _ _ _ h => ⟨h.host, h.engine.noted _ _ _ _, h.loads, h.tasks⟩
    side := fun _ h => ⟨h.host, h.engine, (fun no => by cases no), by simp⟩
    back := fun h h' => ⟨h'.host, h'.engine, h.loads, h.tasks⟩
    tasks := fun h tasks => ⟨h.host, h.engine, h.loads, tasks⟩
    ended := fun h => ⟨h.host, h.engine, (fun no => by cases no), by simp⟩
    waits := fun h mem => h.tasks _ mem
    helper := fun h found context bodies params =>
      (pure.helpers (h.engine.same.helpers ▸ found) context bodies params).inert
    callable := fun id h context bodies params => by
      rw [h.engine.same.functions]
      exact (pure.functions id context bodies params).inert
    startLoad := fun asked _ => bypasses_startLoad asked _
    pollLoad := fun asked => bypasses_pollLoad points asked }
  inside _ _ _ _ := trivial
  fill _ _ _ := trivial
  call _ _ _ known _ := known _ _ _
  tag _ _ _ := trivial
  enter _ _ _ _ := trivial
  perform no := no.elim

/-- In all runs of a job the engine keeps under the name what it kept before. -/
theorem Scheduled.bypasses (pure : e.Pure hosts) (points : e.PointsTo hosts name other)
    (h : Scheduled hosts e job listeners w o) : Stage.Bypasses hosts e name { w with render := o.render } := by
  have confines := confines_bypasses pure points
  have enters {waiting : Option Job} (job : Job) (_ : waiting = some job) : job.Enters fun _ _ => True :=
    fun _ _ _ => trivial
  induction h with
  | new here => exact ⟨here, ⟨.refl e, rfl⟩, (fun no => by cases no), by simp [OutputStream.new]⟩
  | wait _ there ih => exact ⟨there, ih.engine, ih.loads, ih.tasks⟩
  | runUntilStalled _ ran ih =>
    obtain ⟨u, advanced, rfl⟩ := OutputStream.runUntilStalled_ok ran
    have after := (OutputStream.lasts_advance confines enters ih (fun _ _ => trivial) advanced).1
    rw [OutputStream.tellAll_eq]
    exact ⟨after.host, after.engine, after.loads, after.tasks⟩
  | pollNext _ polled ih =>
    rcases OutputStream.pollNext_ok polled with ⟨rfl, rfl⟩ | ⟨u, exhausted, advanced, rfl | ⟨event, rest, -, rfl⟩⟩
    · exact ih
    · exact (OutputStream.lasts_advance confines enters ih (fun _ _ => trivial) advanced).1
    · have after := (OutputStream.lasts_advance confines enters ih (fun _ _ => trivial) advanced).1
      exact ⟨after.host, after.engine, after.loads, after.tasks⟩

/-! ### A redirect and its target -/

/-- Let helpers be pure, futures have one outcome each, and the loader answer each name alike. Let it point from a name under
    which the engine has nothing to render, to another name. Then a job that renders the name and one that renders the other
    name in its place tell one text, if both complete. What is put off for the two names is the very same code, so bodies are
    rendered in the same scopes, under the same template name. And no run of either job, whether it completes or not, changes
    what is kept under the name. -/
theorem redirect_same_as_target (pure : e.Pure hosts) (points : e.PointsTo hosts name other)
    (retargets : job.Retargets name other job')
    (once : listeners.count l = 1) (hears : ∀ text, l.kind.hears (.data text) = true)
    (once' : listeners'.count l' = 1) (hears' : ∀ text, l'.kind.hears (.data text) = true)
    (scheduled : Scheduled hosts e job listeners w o) (scheduled' : Scheduled hosts e job' listeners' w' o') :
    (o.progress = .complete → o'.progress = .complete → o'.output l' = o.output l) ∧
    (∀ (context : Context) (nesting : Nat) (x y : RenderM Unit), Leads hosts e (exec nesting) (.load name context) x →
      Leads hosts e (exec nesting) (.load other context) y → y = x) ∧
    w.engine.getTemplate name = e.getTemplate name ∧ w'.engine.getTemplate name = e.getTemplate name := by
  refine ⟨fun complete complete' => ?_, fun _ _ _ _ => leads_eq_of_pointsTo pure points,
    (scheduled.bypasses pure points).engine.kept, (scheduled'.bypasses pure points).engine.kept⟩
  have tells := scheduled.tells pure once hears complete
  have tells' := scheduled'.tells pure once' hears' complete'
  obtain ⟨rest, same, nothing⟩ := tells.eq_append_of_agrees pure
    (fun depth n m => (matches_retargeted_job pure points depth n m retargets).agrees) complete tells'
  rw [nothing complete', String.append_empty] at same
  exact same.symm

/-- An engine with a helper that writes the name of the template it is called in. Its loader points from one name to another
    one, for which it has a source. -/
def aliasEngine : Engine where
  helpers := [("here", fun context _ _ => .writeText (context.templateName.getD ""))]
  loader := some ⟨fun _ name host =>
    if name = "x" then some (.ok (.redirect "y")) else (Future.gate "g" host).map (·.map .source)⟩

/-- A partial between two calls of the helper. -/
def aliasTemplate (name : String) : Template :=
  ⟨some "page", [.helperTag "here" none [] .empty, .partialTag (.static name) none [], .helperTag "here" none [] .empty], []⟩

/-- The template after a call with the gate closed and one with the gate open. -/
def aliasRun (name : String) : Except Halt (World × OutputStream) := do
  let stream : OutputStream :=
    { OutputStream.new aliasEngine (.template (aliasTemplate name) {}) with listeners := [⟨0, .data⟩] }
  let (_, w, o) ← stream.runUntilStalled 9 { engine := aliasEngine }
  let (_, w, o) ← o.runUntilStalled 9 { w with host := Host.openGate {} "g" (.ok "({@here/})") }
  Pure.pure (w, o)

/-- The gate is closed, or open with the source. -/
def aliasHosts (host : Host) : Prop := (Future.gate "g").Settles (· = host) (.ok "({@here/})")

theorem pointsTo_aliasEngine : aliasEngine.PointsTo aliasHosts "x" "y" :=
  ⟨rfl, _, rfl, fun _ _ _ => Or.inr rfl⟩

theorem pure_aliasEngine : aliasEngine.Pure aliasHosts where
  helpers {name helper} found context bodies params := by
    simp only [aliasEngine, Dict.get?] at found
    split at found
    · cases found
      exact ⟨fun _ => rfl, trivial⟩
    · cases found
  functions _ _ _ _ := trivial
  loader {loader} some name := by
    cases some
    by_cases x : name = "x"
    · refine ⟨.ok (.redirect "y"), fun _ _ _ => Or.inr ?_⟩
      dsimp only
      rw [if_pos x]
    · refine ⟨.ok (.source "({@here/})"), fun _ host here => ?_⟩
      dsimp only
      rw [if_neg x]
      rcases here host rfl with closed | opened
      · exact Or.inl (by rw [closed]; rfl)
      · exact Or.inr (by rw [opened]; rfl)

/-- Every helper says that it is called in the template of the other name, on both ways. -/
theorem redirect_same_as_target_aliasRun : ∃ w o w' o', aliasRun "x" = .ok (w, o) ∧ aliasRun "y" = .ok (w', o') ∧
    o.progress = .complete ∧ o'.progress = .complete ∧ o.output ⟨0, .data⟩ = "page(y)page" ∧
    o'.output ⟨0, .data⟩ = o.output ⟨0, .data⟩ ∧ w.engine.getTemplate "x" = none ∧ w'.engine.getTemplate "x" = none := by
  have seen : (aliasRun "x").toOption.any (fun r => decide (r.2.progress = .complete) &&
      decide (r.2.output ⟨0, .data⟩ = "page(y)page")) = true := by decide +kernel
  have seen' : (aliasRun "y").toOption.any (fun r => decide (r.2.progress = .complete)) = true := by decide +kernel
  obtain ⟨⟨w, o⟩, done, seen⟩ := exists_eq_ok seen
  obtain ⟨⟨w', o'⟩, done', seen'⟩ := exists_eq_ok seen'
  simp only [Bool.and_eq_true, decide_eq_true_eq] at seen seen'
  have closed : aliasHosts {} := by
    rintro _ rfl
    exact Or.inl rfl
  have opened : aliasHosts (Host.openGate {} "g" (.ok "({@here/})")) := by
    rintro _ rfl
    exact Or.inr rfl
  have scheduled {name : String} {w : World} {o : OutputStream} (run : aliasRun name = .ok (w, o)) :
      Scheduled aliasHosts aliasEngine (.template (aliasTemplate name) {}) [⟨0, .data⟩] w o := by
    unfold aliasRun at run
    obtain ⟨⟨_, v, u⟩, first, run⟩ := bind_eq_ok.mp run
    obtain ⟨⟨_, v', u'⟩, second, run⟩ := bind_eq_ok.mp run
    cases run
    exact .runUntilStalled (.wait (.runUntilStalled (.new closed) first) opened) second
  have retargets : Job.Retargets "x" "y" (.template (aliasTemplate "x") {}) (.template (aliasTemplate "y") {}) :=
    .template _ _ _ (.cons (.same _) (.cons (.tag none []) (.cons (.same _) .nil)))
  let l : Listener := ⟨0, .data⟩
  have hears (text : String) : l.kind.hears (.data text) = true := rfl
  obtain ⟨same, -, kept, kept'⟩ := redirect_same_as_target pure_aliasEngine pointsTo_aliasEngine retargets rfl hears rfl
    hears (scheduled done) (scheduled done')
  exact ⟨w, o, w', o', done, done', seen.1, seen', seen.2, same seen.1 seen', kept, kept'⟩

end Stencil
