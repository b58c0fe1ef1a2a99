import Stencil.Proofs.Render.Abreast
import Stencil.Proofs.Render.Loading

/-! Rendering, where loaders answer at once. A name that is kept is rendered in the chunk at hand; one that is not has its
    load started and settled, and is rendered in a chunk of its own. Both ways go through the same code, which adds the
    same where it stands. -/

namespace Stencil

variable {sources : Sources} {e : Engine} {s t s' t' : Stage}

/-! ### Work that is done at once -/

/-- What code added that ran from `s₁` to `u` has been put in where `s` stands, which leads from `s` to `v`. -/
structure Joins (s s₁ u v : Stage) : Prop where
  same : ∃ chunks writers journal, v = { u with render := { u.render with chunks, writers, journal } }
  kept : Render.Kept s.render v.render
  adds {label : ChunkId → Wait} {added : Draft} : Render.Adds (s₁.render.labelled label) (u.render.labelled label) added →
    Render.Adds (s.render.labelled label) (v.render.labelled label) added

/-- A run from `s` goes through code that is run from `s₁`: it lets the code add to the output where it stands itself. -/
structure Through (sources : Sources) (e : Engine) (x : RenderM Unit) (s s₁ : Stage)
    (r : Except Halt (Except Error Unit × Stage)) : Prop where
  writable : s₁.render.Writable
  stocked : s₁.Stocked sources e
  host : s₁.host = s.host
  tasks : s₁.render.tasks = s.render.tasks
  echoes : Echoes (Joins s s₁) (x.run s₁) r

namespace RenderM

open Render

variable {x : RenderM Unit} {wait : Wait} {render : Renderer}

theorem through_self (keeps : Keeps (fun _ => True) x) (writable : s.render.Writable) (stocked : s.Stocked sources e) :
    Through sources e x s s (x.run s) where
  writable := writable
  stocked := stocked
  host := rfl
  tasks := rfl
  echoes := by
    cases ran : x.run s with
    | error reason => exact .halt reason
    | ok r =>
      obtain ⟨o, u⟩ := r
      cases o with
      | error error => exact .fail rfl
      | ok _ => exact .done ⟨⟨_, _, _, rfl⟩, ((keeps s writable.sound writable.writing).ends ran).1, id⟩

/-- Work that is put off and need not wait is gone through, in a chunk of its own. -/
theorem through_putOff {poll : RenderM (Option (RenderM Unit))} {r : Except Halt (Except Error Unit × Stage)}
    (keeps : Keeps (fun _ => True) x) (writable : s.render.Writable)
    (same : t.render = { s.render with loads := t.render.loads })
    (depth : s.render.config.maxPartialDepth = e.config.maxPartialDepth)
    (polls : ∀ v : Stage, v.toWorld = t.toWorld → v.render.loads = t.render.loads → v.render.config = t.render.config →
      ∃ (w : World) (loads : Dict Load), poll.run v = .ok (.ok (some x), { w with render := { v.render with loads } }) ∧
        w.host = s.host ∧ e.Stocked sources w.engine ∧
        ∀ {name load}, Dict.get? name loads = some load → load = .settled (e.loaded sources name))
    (ran : (putOff wait poll).run t = r) (kept : ∀ {v}, r = .ok (.ok (), v) → Kept s.render v.render) :
    ∃ s₁, Through sources e x s s₁ r := by
  have writable' : t.render.Writable := by
    rw [same]
    exact ⟨⟨writable.sound.owned, writable.sound.linked⟩, writable.writing⟩
  obtain ⟨id, cs, writers, reserves, run⟩ := run_putOff writable'.sound writable'.writing wait poll
  obtain ⟨w, loads, polled, host, engine, settled⟩ := polls { t with render := { t.render with
    chunks := cs, writers, journal := .deferred wait :: t.render.journal } } rfl rfl rfl
  have reserves := reserves loads
  have taken := (run polled).symm.trans ran
  let u : Stage := { w with render := { t.render with
    chunks := cs, writers, journal := .deferred wait :: t.render.journal, loads } }
  change (takeUp id wait x).run u = r at taken
  have begins : (u.takenUp id wait).render.Writable := writable_takenUp reserves.sound reserves.spare
  have inner : Echoes _ _ ((takeUp id wait x).run u) :=
    echoes_takeUp fun ran => ((keeps _ begins.sound begins.writing).ends ran).1
  have config : u.render.config = s.render.config := by
    show t.render.config = _
    rw [same]
  have tasks : u.render.tasks = s.render.tasks := by
    show t.render.tasks = _
    rw [same]
  rw [taken] at inner
  refine ⟨u.takenUp id wait, begins, ⟨engine, (congrArg Config.maxPartialDepth config).trans depth, settled⟩, host, tasks,
    ?_⟩
  refine inner.with_runs.mono fun _ u v ended => ?_
  obtain ⟨ended, -, ran⟩ := ended
  refine ⟨ended.same, kept ran, fun {label added} adds => ?_⟩
  have begun : Adds (s.render.labelled label) (t.render.labelled label) [] := by
    rw [same]
    exact .of_eq (writable.sound.labelled label) writable.writing rfl rfl rfl rfl
  exact begun.trans (reserves.adds (ended.inserts adds))

end RenderM

/-- Runs that go through the same code run abreast if the code does. -/
theorem Through.abreast {x : RenderM Unit} {r r' : Except Halt (Except Error Unit × Stage)}
    (left : Through sources e x s s' r) (right : Through sources e x t t' r') (beside : Beside sources e s t)
    (hx : Evenly sources e (fun _ => True) x) : Abreast (Peers sources e) (fun _ u v => True ∧ Beside sources e u v ∧
      Alongside s.render t.render u.render v.render) r r' := by
  have beside' : Beside sources e s' t' := by
    refine ⟨left.stocked, right.stocked, right.host.trans (beside.host.trans left.host.symm), ?_, ?_⟩
    · unfold Render.parked
      rw [right.tasks, left.tasks]
      exact beside.parked
    · unfold Render.parked
      rw [left.tasks]
      exact beside.candid
  refine (hx left.writable right.writable beside').echo left.echoes right.echoes fun u v u' v' related l r => ?_
  obtain ⟨-, after, alongside⟩ := related
  obtain ⟨⟨_, _, _, rfl⟩, kept, adds⟩ := l
  obtain ⟨⟨_, _, _, rfl⟩, kept', adds'⟩ := r
  refine ⟨trivial, after.of_renders after.peers ⟨rfl, rfl, rfl⟩ ⟨rfl, rfl, rfl⟩, kept, kept', left.tasks ▸ alongside.more,
    right.tasks ▸ alongside.more', fun labels => ?_⟩
  obtain ⟨added, one, other⟩ := alongside.adds labels
  exact ⟨added, adds one, adds' other⟩

namespace RenderM

open Render

variable {render : Renderer} {wait : Wait} {future : Future String} {resume : String → Program}
  {work : String → RenderM Unit}

/-- Work has been parked where the code stands, and a gap left for it. -/
structure Parks (wait : Wait) (id : ChunkId) (r r' : Render) : Prop where
  config : r'.config = r.config
  loads : r'.loads = r.loads
  tasks : r'.tasks = r.tasks ++ [⟨id, wait⟩]
  kept : Kept r r'
  adds (label : ChunkId → Wait) : Adds (r.labelled label) (r'.labelled label) [.gap (label id)]

/-- Work that has to wait is parked. -/
theorem run_putOff_none (writable : s.render.Writable) {poll : RenderM (Option (RenderM Unit))}
    (waits : ∀ v : Stage, v.toWorld = s.toWorld → poll.run v = .ok (.ok none, v))
    (kept : ∀ {v}, (putOff wait poll).run s = .ok (.ok (), v) → Kept s.render v.render) : ∃ id r,
      (putOff wait poll).run s = .ok (.ok (), { s with render := r }) ∧ Parks wait id s.render r := by
  obtain ⟨id, cs, writers, reserves, run⟩ := run_putOff writable.sound writable.writing wait poll
  have reserves := reserves s.render.loads
  obtain ⟨ids, linked⟩ := reserves.sound.linked
  have ran := run (waits _ rfl)
  refine ⟨id, _, ran, rfl, rfl, rfl, kept ran, fun label => reserves.adds ?_⟩
  rw [labelled_park]
  exact inserts_park (r := labelled label _) linked (reserves.spare.labelled label)

/-- Where the same work has been parked, the stages are side by side again. -/
theorem Parks.beside {r r' : Render} {id id' : ChunkId} (parks : Parks wait id s.render r)
    (parks' : Parks wait id' t.render r') (candid : wait.Candid) (beside : Beside sources e s t) :
    Beside sources e { s with render := r } { t with render := r' } ∧ Alongside s.render t.render r r' := by
  have left := beside.left
  have right := beside.right
  refine ⟨⟨⟨left.engine, parks.config ▸ left.depth, parks.loads ▸ left.loads⟩,
    ⟨right.engine, parks'.config ▸ right.depth, parks'.loads ▸ right.loads⟩, beside.host, ?_, fun {wait} mem => ?_⟩,
    parks.kept, parks'.kept, ⟨_, parks.tasks.symm⟩, ⟨_, parks'.tasks.symm⟩, fun {label label'} labels => ?_⟩
  · have before := beside.parked
    unfold Render.parked at before ⊢
    dsimp only
    rw [parks.tasks, parks'.tasks, List.map_append, List.map_append, before]
    rfl
  · unfold Render.parked at mem
    dsimp only at mem
    rw [parks.tasks, List.map_append] at mem
    rcases List.mem_append.mp mem with mem | mem
    · exact beside.candid mem
    · cases List.mem_singleton.mp mem
      exact candid
  · -- The two gaps come last, so their labels are the same.
    refine ⟨_, parks.adds label, ?_⟩
    rw [parked_labelled, parked_labelled, parks.tasks, parks'.tasks, List.map_append, List.map_append] at labels
    have last : label' id' = label id := List.head_eq_of_cons_eq (List.append_inj' labels rfl).2
    rw [← last]
    exact parks'.adds label'

theorem works_outcome (keeps : ∀ text, Keeps (fun _ => True) (work text))
    (hw : ∀ text, Evenly sources e (fun _ => True) (work text)) (outcome : Except Error String) :
    Keeps (fun _ => True) (ofExcept outcome >>= work) ∧ Evenly sources e (fun _ => True) (ofExcept outcome >>= work) := by
  cases outcome with
  | ok text => exact ⟨keeps text, hw text⟩
  | error error => exact ⟨.throw error, .throw _ error⟩

theorem evenly_putOff (keeps : ∀ text, Keeps (fun _ => True) (work text)) (candid : Wait.Candid (.text future resume))
    (hw : ∀ text, Evenly sources e (fun _ => True) (work text)) :
    Evenly sources e (fun _ => True) (putOff (.text future resume) (pollText future work)) := by
  intro s t left right beside
  have whole : Keeps (fun _ => True) (putOff (.text future resume) (pollText future work)) :=
    Keeps.putOff (Quiet.pollText keeps Keeps.throw)
  have kept {s v : Stage} (writable : s.render.Writable)
      (ran : (putOff (.text future resume) (pollText future work)).run s = .ok (.ok (), v)) : Kept s.render v.render :=
    ((whole s writable.sound writable.writing).ends ran).1
  have polls {s v : Stage} {found : Option (Except Error String)} (there : future s.host = found)
      (same : v.toWorld = s.toWorld) :
      (pollText future work).run v = .ok (.ok (found.map fun outcome => ofExcept outcome >>= work), v) := by
    rw [run_pollText, same, there]
  cases found : future s.host with
  | none =>
    have found' : future t.host = none := by
      rw [beside.host, found]
    obtain ⟨id, r, ran, parks⟩ := run_putOff_none left (fun _ => polls found) (kept left)
    obtain ⟨id', r', ran', parks'⟩ := run_putOff_none right (fun _ => polls found') (kept right)
    rw [ran, ran']
    exact .done ⟨trivial, parks.beside parks' candid beside⟩
  | some outcome =>
    obtain ⟨keepsX, evenly⟩ := works_outcome keeps hw outcome
    have through {s : Stage} (stocked : s.Stocked sources e) (writable : s.render.Writable)
        (there : future s.host = some outcome) : ∃ s₁, Through sources e (ofExcept outcome >>= work) s s₁
          ((putOff (.text future resume) (pollText future work)).run s) :=
      through_putOff keepsX writable rfl stocked.depth (fun v same loads _ =>
        ⟨v.toWorld, v.render.loads, polls there same, by rw [same], by rw [same]; exact stocked.engine,
          by rw [loads]; exact stocked.loads⟩) rfl (kept writable)
    obtain ⟨s₁, left'⟩ := through beside.left left found
    obtain ⟨t₁, right'⟩ := through beside.right right (by rw [beside.host, found])
    exact left'.abreast right' beside evenly

/-- The load of a name is started, or has settled before. -/
theorem run_startLoad (answers : e.Answers sources) (stocked : s.Stocked sources e) (name : String)
    (template : Option String) : ∃ engine loads, (startLoad name template).run s =
        .ok (.ok (), { s with engine, render := { s.render with loads } }) ∧ e.Stocked sources engine ∧
      (∃ load, Dict.get? name loads = some load ∧ ∀ cache limit e', e.Stocked sources e' → ∃ e'',
        load.poll s.host cache limit e' = (.settled (e.loaded sources name), e'') ∧ e.Stocked sources e'') ∧
      ∀ {other load}, other ≠ name → Dict.get? other loads = some load → load = .settled (e.loaded sources other) := by
  obtain ⟨loader, set, gives⟩ := answers.loader
  by_cases started : Dict.contains name s.render.loads = true
  · obtain ⟨load, found⟩ := Option.isSome_iff_exists.mp started
    refine ⟨s.engine, s.render.loads, run_startLoad_of_contains started, stocked.engine,
      ⟨load, found, fun _ _ e' h => ?_⟩, fun _ => stocked.loads⟩
    rw [stocked.loads found]
    exact ⟨e', rfl, h⟩
  · let asking := s.engine.record .debug ("Loading template `" ++ name ++ "`")
    let load : Load := .begin s.render.config.maxPartialDepth name (loader.load asking.asked name)
    have new : Dict.get? name s.render.loads = none := Option.not_isSome_iff_eq_none.mp started
    have there : s.engine.loader = some loader := stocked.engine.same.loader.trans set
    refine ⟨(asking.ask loader name).2, Dict.insert name load s.render.loads, run_startLoad_of_loader new there,
      (stocked.engine.record _ _).ask _ _,
      ⟨load, Dict.get?_insert_self .., fun _ _ _ h => Load.poll_stocked h (gives _ _ _)⟩, fun ne found => ?_⟩
    rw [Dict.get?_insert_of_ne ne] at found
    exact stocked.loads found

theorem keeps_follow (keeps : ∀ body context, Keeps (fun _ => True) (render body context)) (context : Context)
    (result : Except Error Template) : Keeps (fun _ => True) (follow render context result) := by
  cases result with
  | ok t => exact Coupling.Whole.template (C := keeping) (keeps_self keeps) t context
  | error error => exact .throw error

theorem run_pollTemplate {name : String} {load : Load} {result : Except Error Template} {engine : Engine}
    (found : Dict.get? name s.render.loads = some load)
    (polled : load.poll s.host s.render.config.cache s.render.config.maxPartialDepth s.engine = (.settled result, engine))
    (render : Renderer) (context : Context) : (pollTemplate name fun t => template render t context).run s =
      .ok (.ok (some (follow render context result)),
        { s with engine, render := { s.render with loads := Dict.insert name (.settled result) s.render.loads } }) := by
  rw [run_pollTemplate_of_some _ found, polled]
  cases result <;> rfl

/-- Whether a name is kept or loaded, rendering it goes through what the name leads to. -/
theorem through_named (answers : e.Answers sources) (keeps : ∀ body context, Keeps (fun _ => True) (render body context))
    (writable : s.render.Writable) (stocked : s.Stocked sources e) (name : String) (context : Context) :
    ∃ s₁, Through sources e (follow render context (e.loaded sources name)) s s₁
      ((named render name context).run s) := by
  have whole : Keeps (fun _ => True) (named render name context) := keepingWhole.named (keeps_self keeps) name context
  have kept {v : Stage} (ran : (named render name context).run s = .ok (.ok (), v)) : Kept s.render v.render :=
    ((whole s writable.sound writable.writing).ends ran).1
  have looked : (kept? name).run s = .ok (.ok (s.engine.lookup name s.render.config.cache), s) := rfl
  unfold named at kept ⊢
  rw [run_bind_of_ok looked] at kept ⊢
  cases look : s.engine.lookup name s.render.config.cache with
  | some t =>
    rw [stocked.engine.lookup look]
    exact ⟨s, through_self (keeps_follow keeps context (.ok t)) writable stocked⟩
  | none =>
    obtain ⟨engine, loads, started, engine', ⟨load, found, polls⟩, others⟩ :=
      run_startLoad answers stocked name context.templateName
    rw [look] at kept
    dsimp only at kept ⊢
    rw [run_bind_of_ok started] at kept ⊢
    refine through_putOff (t := { s with engine, render := { s.render with loads } }) (keeps_follow keeps context _)
      writable rfl stocked.depth (fun v world same config => ?_) rfl kept
    change v.render.loads = loads at same
    rw [← same] at found
    obtain ⟨e'', polled, engine''⟩ := polls v.render.config.cache v.render.config.maxPartialDepth engine engine'
    have ran := run_pollTemplate found (by rw [world]; exact polled) render context
    refine ⟨_, _, ran, ?_, engine'', fun {other load} there => ?_⟩
    · rw [world]
    · by_cases own : other = name
      · subst own
        exact Option.some.inj (there.symm.trans (Dict.get?_insert_self ..))
      · rw [Dict.get?_insert_of_ne own, same] at there
        exact others own there

/-! ### Rendering -/

theorem keeps_resume (keeps : ∀ body context, Keeps (fun _ => True) (render body context)) (resume : String → Program)
    (text : String) : Keeps (fun _ => True) (do let _ ← (resume text).run render) :=
  (keepingWhole.program (keeps_self keeps) (resume text)).bind fun _ _ => Keeps.pure (V := fun _ => True) trivial

theorem evenly_program (keeps : ∀ body context, Keeps (fun _ => True) (render body context))
    (hr : ∀ body context, Evenly sources e (fun _ => True) (render body context)) {program : Program}
    (candid : program.Pure fun _ => False) : Evenly sources e (fun _ => True) (program.run render) := by
  induction program with
  | finish reply => exact .pure trivial
  | fail error => exact .throw _ error
  | write text next ih =>
    obtain ⟨returns, candid⟩ := candid
    exact (Evenly.write text).attempt_bind (run_of_returns returns render) fun _ _ => ih _ candid
  | render body context next ih =>
    obtain ⟨returns, candid⟩ := candid
    exact (hr body context).attempt_bind (run_of_returns returns render) fun _ _ => ih _ candid
  | renderToString body context next ih =>
    obtain ⟨returns, candid⟩ := candid
    exact (Evenly.toText _ (hr body context)).attempt_bind (run_of_returns returns render) fun text _ => ih _ (candid text)
  | defer future resume next ihResume ih =>
    obtain ⟨-, resumes, returns, candid⟩ := candid
    exact (evenly_putOff (keeps_resume keeps resume) resumes fun text => (ihResume text (resumes text)).bind fun _ _ =>
      .pure trivial).attempt_bind (run_of_returns returns render) fun _ _ => ih _ candid
  | act action next => exact candid.elim

/-- Running abreast, as a relation that rendering respects. -/
def evenness (answers : e.Answers sources) : Coupling .any where
  rel V x _ := Evenly sources e V x
  helper := Helper.Candid
  limit _ := True
  fills _ := True
  pure := .pure
  throw := .throw
  bind := .bind
  mapError g := .mapError g
  write := .write
  filter filters value := .withEngine (·.applyFilters filters value) fun h h' =>
    Engine.applyFilters_congr _ _ (h'.filters.trans h.filters.symm)
  record level message := .modifyEngine (·.record level message)
  called call := .modifyEngine (·.called call)
  toText template := .toText template
  helper? name := .look
    (fun beside => by rw [beside.right.engine.same.helpers, beside.left.engine.same.helpers])
    fun stocked _ found => answers.helpers (stocked.engine.same.helpers ▸ found)
  callable {id} _ := .look
    (fun beside => by rw [beside.right.engine.same.functions, beside.left.engine.same.functions])
    fun stocked => stocked.engine.same.functions ▸ answers.functions id
  filled fillings := (Evenly.filled fillings).mono fun _ _ => trivial
  depthLimit := .look (fun beside => beside.right.depth.trans beside.left.depth.symm) fun _ => trivial

section

variable (answers : e.Answers sources) (keeps : ∀ body context, Keeps (fun _ => True) (render body context))
  (hr : ∀ body context, Evenly sources e (fun _ => True) (render body context))

include answers hr

theorem evenly_template (t : Template) (context : Context) :
    Evenly sources e (fun _ => True) (template render t context) :=
  @Coupling.template .any (evenness answers) render render context t fun _ _ _ => hr _ _

include keeps

theorem evenly_named (name : String) (context : Context) :
    Evenly sources e (fun _ => True) (named render name context) := by
  intro s t left right beside
  obtain ⟨s₁, through⟩ := through_named answers keeps left beside.left name context
  obtain ⟨t₁, through'⟩ := through_named answers keeps right beside.right name context
  refine through.abreast through' beside ?_
  cases e.loaded sources name with
  | ok t => exact evenly_template answers hr t context
  | error error => exact .throw _ error

theorem evenly_job (job : Job) : Evenly sources e (fun _ => True) (job.run render) := by
  cases job with
  | named name context => exact evenly_named answers keeps hr name context
  | template t context => exact evenly_template answers hr t context
  | fail error => exact .throw _ error

end

theorem evenly_exec (answers : e.Answers sources) (nesting : Nat) (body : Body) (context : Context) :
    Evenly sources e (fun _ => True) (exec nesting body context) := by
  induction nesting generalizing body context with
  | zero => exact fun _ _ _ _ _ => .halt _
  | succ nesting ih =>
    have renders : (evenness answers).Renders (exec nesting) (exec nesting) fun _ => True :=
      { body := fun _ _ => ih _ _
        program := fun candid _ _ _ => (evenly_program (keeps_exec nesting) ih (candid _ _ _)).mono fun reply _ => by
          cases reply <;> trivial
        named := fun name _ _ => evenly_named answers (keeps_exec nesting) ih name _ }
    exact Coupling.forM (C := evenness answers) fun step _ =>
      renders.step step.inside_all trivial fun _ _ _ _ _ _ => ih _ _

end RenderM
end Stencil
