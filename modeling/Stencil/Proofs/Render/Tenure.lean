import Stencil.Proofs.Render.Caching
import Stencil.Proofs.Render.Holdings

/-! How long a template stays under its name. Renders go on in turns, and what they and other code do in between leaves the
    name alone. Then what was added under the name stays there, unless a load of the name was under way when it was added:
    such a load puts its template in place of it as it ends. -/

namespace Stencil

open RenderM Render

variable {hosts : Host → Prop} {n : String} {t : Template} {late : Future Loaded → Prop} {k : Nat} {render : Renderer}

/-! ### Rendering -/

/-- Holding a template, as a relation that rendering respects. -/
def holding (hosts : Host → Prop) (n : String) (t : Template) (late : Future Loaded → Prop) (k : Nat) : Coupling .any where
  rel V x _ := Holding hosts n t late k V x
  helper := Helper.Spares hosts n
  limit _ := True
  fills _ := True
  pure := .pure
  throw _ e := .throw e
  bind := .bind
  mapError f h := h.mapError f
  write text := .write Stage.Holds.steady text
  filter filters value := .withEngine fun s h => by
    rw [Engine.applyFilters_eq]
    exact h.used (h.engine.noted _ _ _ _) rfl
  record level message := Holding.record level message
  called _ := .modify fun _ h => h.used (h.engine.noted _ _ _ _) rfl
  toText template h := h.toText Stage.Holds.steady template
  helper? _ := .get_bind fun _ h => .pure fun _ found => h.engine.calls.helpers found
  callable {id} _ := .get_bind fun _ h => .pure (h.engine.calls.functions id)
  filled _ := Holding.note _
  depthLimit := .get_bind fun _ _ => .pure trivial

namespace Holding

section

variable (hr : ∀ body context, Holding hosts n t late k (fun _ => True) (render body context))

include hr

theorem program {program : Program} (spares : program.Spares hosts n) :
    Holding hosts n t late k (fun _ => True) (program.run render) := by
  induction program with
  | finish reply => exact .pure trivial
  | fail error => exact .throw error
  | write text next ih =>
    exact (Upholds.write Stage.Holds.steady text).attempt.bind fun o _ => ih o (spares.of_comesTo (.write .here))
  | render body context next ih =>
    exact (hr body context).attempt.bind fun o _ => ih o (spares.of_comesTo (.render .here))
  | renderToString body context next ih =>
    refine ((hr body context).toText Stage.Holds.steady _).attempt.bind fun o _ => ?_
    exact ih o (spares.of_comesTo (.renderToString .here))
  | defer future resume next ihResume ih =>
    have resumes (text : String) : (resume text).Spares hosts n := spares.of_comesTo (.resume .here)
    have polls := pollText future fun text => (ihResume text (resumes text)).bind fun _ _ =>
      Upholds.pure (a := ()) (V := fun _ => True) trivial
    have waits : Wait.In (fun _ _ => True) (Program.Spares hosts n) (.text future resume) := resumes
    exact (putOff waits polls).attempt.bind fun o _ => ih o (spares.of_comesTo (.defer .here))
  | act action next ih =>
    obtain ⟨leaves, keeps⟩ := spares.performs ⟨next, .here⟩
    have acts : Holding hosts n t late k (fun _ => True) (RenderM.perform action) := perform leaves keeps
    exact acts.attempt.bind fun o _ => ih o (spares.of_comesTo (.act .here))

theorem template (u : Template) (context : Context) : Holding hosts n t late k (fun _ => True) (template render u context) :=
  @Coupling.template .any (holding hosts n t late k) render render context u fun _ _ _ => hr _ _

theorem named (name : String) (context : Context) : Holding hosts n t late k (fun _ => True) (named render name context) := by
  refine (kept? name).bind fun found absent => ?_
  cases found with
  | some u => exact template hr u context
  | none =>
    refine (startLoad (absent rfl) _).bind fun _ _ => ?_
    have waits : Wait.In (fun _ _ => True) (Program.Spares hosts n) (.load name context) := trivial
    exact putOff waits (pollTemplate name fun u => template hr u context)

theorem poll {wait : Wait} (spares : wait.In (fun _ _ => True) (Program.Spares hosts n)) :
    Polls hosts n t late k (Render.poll render wait) := by
  cases wait with
  | text future resume => exact pollText future fun text => (program hr (spares text)).bind fun _ _ => .pure trivial
  | load name context => exact pollTemplate name fun u => template hr u context

theorem steps (body : Body) (context : Context) :
    Holding hosts n t late k (fun _ => True) (body.forM (Render.step render context)) := by
  have renders : (holding hosts n t late k).Renders render render fun _ => True :=
    { body := fun _ _ => hr _ _
      program := fun {_ context bodies params} spares _ _ _ =>
        (program hr (spares context bodies params)).mono fun reply _ => by cases reply <;> trivial
      named := fun name _ _ => named hr name _ }
  exact Coupling.forM (C := holding hosts n t late k) fun step _ =>
    renders.step step.inside_all trivial fun _ _ _ _ _ _ => hr _ _

theorem job (job : Job) : Holding hosts n t late k (fun _ => True) (job.run render) := by
  cases job with
  | named name context => exact named hr name context
  | template u context => exact template hr u context
  | fail error => exact .throw error

theorem visit (index : Nat) {task : Task} (spares : task.wait.In (fun _ _ => True) (Program.Spares hosts n)) :
    Holding hosts n t late k (fun _ => True) (visit render index task) := by
  refine (poll hr spares).bind fun found works => ?_
  cases found with
  | none => exact .pure trivial
  | some work =>
    have erases : Holding hosts n t late k (fun _ => True)
        (modifyRender fun r => { r with tasks := r.tasks.eraseIdx index }) :=
      .modify fun s h => ⟨h.host, h.engine, h.asked, h.render.cache, h.render.loads,
        fun _ mem => h.render.tasks _ (List.mem_of_mem_eraseIdx mem)⟩
    exact erases.bind fun _ _ => (takeUp _ _ (works work rfl)).bind fun _ _ => .pure trivial

end

theorem close (outcome : Except Error Unit) : Holding hosts n t late k (fun _ => True) (close outcome) := by
  refine .modify fun s h => ?_
  rcases close_cases s outcome with same | ⟨chunks, events, progress, same⟩ | ⟨error, same⟩
  · exact same.symm ▸ h
  · rw [same]
    exact h.output _ _ _ _ _
  · rw [same]
    exact ⟨h.host, h.engine.record _ _, (congrArg _ (s.engine.silent_record ..).asked).trans h.asked, h.render.cache,
      nofun, by simp [abandon]⟩

theorem settle (hr : ∀ body context, Holding hosts n t late k (fun _ => True) (render body context)) (rounds index : Nat)
    (progressed : Bool) : Holding hosts n t late k (fun _ => True) (settle render rounds index progressed) := by
  induction rounds generalizing index progressed with
  | zero => exact .halt trivial
  | succ rounds ih =>
    refine .get_bind fun s h => ?_
    dsimp only
    split
    · exact .pure trivial
    · split
      · split
        · exact ih 0 false
        · exact .pure trivial
      · next task found =>
        refine (visit hr index (h.render.tasks task (List.mem_of_getElem? found))).attempt.bind fun outcome _ => ?_
        split
        · exact ih _ _
        · exact (close _).bind fun _ _ => ih _ _
        · exact (close _).bind fun _ _ => ih _ _

theorem exec (nesting : Nat) (body : Body) (context : Context) :
    Holding hosts n t late k (fun _ => True) (exec nesting body context) := by
  induction nesting generalizing body context with
  | zero => exact .halt trivial
  | succ nesting ih => exact steps ih body context

end Holding

/-! ### Streams -/

namespace OutputStream

variable {o o' : OutputStream} {w w' : World} {m : Move} {items : List Item}

theorem holding_work (o : OutputStream) (steps : Nat) : Holding hosts n t late k (fun _ => True) (o.work steps) := by
  have hr : ∀ body context, Holding hosts n t late k (fun _ => True) (exec steps body context) := Holding.exec steps
  have driven : Holding hosts n t late k (fun _ => True) (drive steps) := Holding.settle hr steps 0 false
  unfold work
  split
  · exact driven
  · next job _ =>
    have begins := (Upholds.within Stage.Holds.steady Chunks.root (Holding.job hr job)).attempt
    exact (begins.bind fun outcome _ => Holding.close outcome).bind fun _ _ => driven

theorem holds_advance {steps : Nat} (h : Stage.Holds hosts n t late k { w with render := o.render })
    (ran : o.advance steps w = .ok (w', o')) : Stage.Holds hosts n t late k { w' with render := o'.render } := by
  obtain ⟨⟨_, s⟩, worked, same⟩ := bind_eq_ok.mp ran
  cases same
  exact (holding_work o steps _ h fun _ _ => trivial).passes (passes_last worked)

/-- A call of the driver leaves the engine holding the template, or one that comes of an answer. -/
theorem holds_move (call : m.IsCall) (h : Stage.Holds hosts n t late k { w with render := o.render })
    (moved : o.move w m = .ok (items, w', o')) : Stage.Holds hosts n t late k { w' with render := o'.render } := by
  rcases move_of_isCall call o with ⟨-, idle⟩ | ⟨steps, give, goes, same⟩
  · rw [idle] at moved
    cases moved
    exact h
  · rw [goes] at moved
    obtain ⟨⟨v, u⟩, advanced, moved⟩ := map_eq_ok.mp moved
    cases moved
    obtain ⟨events, render⟩ := same u
    have there := holds_advance h advanced
    rw [render]
    exact ⟨there.host, there.engine, there.asked, there.render.cache, there.render.loads, there.render.tasks⟩

end OutputStream

/-! ### Sessions -/

/-- What other code does leaves alone what is held under the name, lets templates be kept, brings in no helpers but such as
    leave the name alone, too, and leads from the hosts given to such hosts. -/
structure World.Spares (hosts : Host → Prop) (n : String) (change : World → World) : Prop where
  host {w : World} : hosts w.host → hosts (change w).host
  held (w : World) : (change w).engine.getTemplate n = w.engine.getTemplate n
  cache {w : World} : w.engine.config.cache = true → (change w).engine.config.cache = true
  calls {w : World} : w.engine.CallsOnly (Helper.Spares hosts n) → (change w).engine.CallsOnly (Helper.Spares hosts n)

def Act.Spares (hosts : Host → Prop) (n : String) : Act → Prop
  | .begin _ => True
  | .move _ m => m.Others (World.Spares hosts n)

namespace Session

variable {s s' : Session} {a : Act}

/-- A render waits for the loader to answer the name. -/
def Outstanding (s : Session) (n : String) (answer : Future Loaded) : Prop :=
  ∃ o ∈ s.streams, ∃ key rounds, Dict.get? key o.render.loads = some (.waiting n answer rounds)

/-- The engine holds the template, or one that comes of an answer, and all renders wait for such answers only. -/
structure Holds (hosts : Host → Prop) (n : String) (t : Template) (late : Future Loaded → Prop) (s : Session) : Prop where
  host : hosts s.world.host
  engine : s.world.engine.Holds hosts n t late
  streams : ∀ o ∈ s.streams, o.render.Awaits hosts n late

theorem Holds.act (h : s.Holds hosts n t late) (spares : a.Spares hosts n) (acted : s.act a = .ok s') :
    s'.Holds hosts n t late := by
  cases a with
  | begin job =>
    cases acted
    refine ⟨h.host, h.engine, fun o mem => ?_⟩
    rcases List.mem_append.mp mem with mem | mem
    · exact h.streams o mem
    · cases List.mem_singleton.mp mem
      exact ⟨h.engine.cache, nofun, by simp [OutputStream.new]⟩
  | move index m =>
    unfold Session.act at acted
    dsimp only at acted
    split at acted
    · cases acted
      exact h
    · next o found =>
      obtain ⟨⟨items, w, u⟩, moved, same⟩ := bind_eq_ok.mp acted
      cases same
      have here := h.streams o (List.mem_of_getElem? found)
      rcases m.isCall_or with call | ⟨change, rfl⟩
      · have there := OutputStream.holds_move call ⟨h.host, h.engine, rfl, here⟩ moved
        refine ⟨there.host, there.engine, fun o' mem => ?_⟩
        rcases List.mem_or_eq_of_mem_set mem with mem | rfl
        · exact h.streams o' mem
        · exact there.render
      · cases moved
        obtain ⟨v, held, whence⟩ := h.engine.held
        have engine : (change _).engine.Holds hosts n t late :=
          ⟨spares.cache h.engine.cache, spares.calls h.engine.calls, v, (spares.held _).trans held, whence⟩
        refine ⟨spares.host h.host, engine, fun o' mem => ?_⟩
        rcases List.mem_or_eq_of_mem_set mem with mem | rfl
        · exact h.streams o' mem
        · exact here

theorem Holds.run {acts : List Act} (h : s.Holds hosts n t late) (spares : ∀ a ∈ acts, a.Spares hosts n)
    (ran : s.run acts = .ok s') : s'.Holds hosts n t late := by
  induction acts generalizing s with
  | nil =>
    cases ran
    exact h
  | cons a acts ih =>
    obtain ⟨u, acted, ran⟩ := bind_eq_ok.mp ran
    rw [List.forall_mem_cons] at spares
    exact ih (h.act spares.1 acted) spares.2 ran

end Session

/-- Let templates be kept, and let neither what the engine calls nor what is put off touch the name. Once a template has been
    added under the name, whatever renders begin and however they are driven, in turns and with other code in between that
    leaves the name alone, the engine holds that template under the name at every moment; or it holds one that is compiled
    from the source that came for the name, at one of the hosts on the way, in answer to a load under way when the template
    was added. No load of the name is begun, and no driver call asks the loader for it, on the side or anywhere else; so
    where no load was under way, the template stays. -/
theorem added_template_stays {hosts : Host → Prop} {s s' : Session} {n source : String} {t : Template} {e : Engine}
    {acts : List Act} (host : hosts s.world.host) (cache : s.world.engine.config.cache = true)
    (calls : s.world.engine.CallsOnly (Helper.Spares hosts n))
    (streams : ∀ o ∈ s.streams, o.render.config.cache = true ∧
      ∀ task ∈ o.render.tasks, task.wait.In (fun _ _ => True) (Program.Spares hosts n))
    (added : s.world.engine.addTemplate n source = (.ok t, e)) (spares : ∀ a ∈ acts, a.Spares hosts n)
    (ran : Session.run { s with world := { s.world with engine := e } } acts = .ok s') :
    (∃ u, s'.world.engine.getTemplate n = some u ∧ (u = t ∨ Belated hosts n (s.Outstanding n) u)) ∧
    (∀ answer, s'.Outstanding n answer → s.Outstanding n answer) ∧
    ((∀ answer, ¬ s.Outstanding n answer) → s'.world.engine.getTemplate n = some t) ∧
    ∀ o ∈ s'.streams, ∀ steps stage, (o.work steps).Passes { s'.world with render := o.render } stage →
      (∃ u, stage.engine.getTemplate n = some u ∧ (u = t ∨ Belated hosts n (s.Outstanding n) u)) ∧
      stage.engine.asked.count n = s'.world.engine.asked.count n := by
  have held : e.getTemplate n = some t := by
    have compiled : s.world.engine.compile source (some n) = .ok t := by
      unfold Engine.addTemplate at added
      split at added
      · cases added
        assumption
      · cases added
    have there := Engine.getTemplate_addTemplate cache compiled n
    rwa [added, if_pos rfl] at there
  have engine : e.Holds hosts n t (s.Outstanding n) := by
    have same := s.world.engine.same_addTemplate n source
    have config := s.world.engine.config_addTemplate n source
    rw [added] at same config
    exact ⟨(congrArg Config.cache config).trans cache, calls.of_same same, t, held, .inl rfl⟩
  have awaits (o : OutputStream) (mem : o ∈ s.streams) : o.render.Awaits hosts n (s.Outstanding n) := by
    refine ⟨(streams o mem).1, fun {key load} found => ?_, (streams o mem).2⟩
    cases load with
    | waiting name answer rounds =>
      rintro rfl
      exact ⟨o, mem, key, rounds, found⟩
    | settled result => trivial
  have begins : Session.Holds hosts n t (s.Outstanding n) { s with world := { s.world with engine := e } } :=
    ⟨host, engine, awaits⟩
  have ends := begins.run spares ran
  refine ⟨ends.engine.held, ?_, fun none => ?_, fun o mem steps stage pass => ?_⟩
  · rintro answer ⟨o, mem, key, rounds, found⟩
    exact (ends.streams o mem).loads found rfl
  · obtain ⟨u, there, rfl | ⟨answer, _, _, _, outstanding, -, -, -⟩⟩ := ends.engine.held
    · exact there
    · exact (none answer outstanding).elim
  · have there : Stage.Holds hosts n t (s.Outstanding n) _ { s'.world with render := o.render } :=
      ⟨ends.host, ends.engine, rfl, ends.streams o mem⟩
    have after := (o.holding_work steps _ there fun _ _ => trivial).passes pass
    exact ⟨after.engine.held, after.asked⟩

/-- An engine whose loader answers every name with the text of a gate. -/
def lateLoadEngine : Engine where
  loader := some ⟨fun _ _ host => (Future.gate "g" host).map (·.map .source)⟩

/-- A render that has begun a load, and waits. -/
def lateLoadStream : Except Halt OutputStream := do
  let job : Job := .template ⟨none, [.partialTag (.static "p") none []], []⟩ {}
  let stream : OutputStream := { OutputStream.new lateLoadEngine job with listeners := [recorder] }
  let (_, _, o) ← stream.runUntilStalled 9 { engine := lateLoadEngine }
  pure o

/-- Another render begins and ends. Then the gate is opened with a text, and the first render is driven on. -/
def lateLoadActs : List Act :=
  [.begin (.named "p" {}), .move 1 (.runUntilStalled 9),
    .move 0 (.others fun w => { w with host := w.host.openGate "g" (.ok "old") }), .move 0 (.runUntilStalled 9)]

/-- The gate is closed, or open with the text. -/
def lateLoadHosts (host : Host) : Prop := (Future.gate "g").Settles (· = host) (.ok "old")

/-- The template that is added while the load is under way. -/
def newTemplate : Template := ⟨some "p", [.write "new"], []⟩

/-- The renders after that. -/
def lateLoadRun (o : OutputStream) : Except Halt Session :=
  Session.run { world := { engine := (lateLoadEngine.addTemplate "p" "new").2 }, streams := [o] } lateLoadActs

/-- What waits is a load. -/
def Wait.isLoad : Wait → Bool
  | .text _ _ => false
  | .load _ _ => true

theorem calls_lateLoadEngine : lateLoadEngine.CallsOnly (Helper.Spares hosts "p") where
  helpers {_ helper} known context bodies params := by
    have inside : (helper context bodies params).Inside (fun _ => context.Derives) fun _ => False :=
      Helper.inside_builtin known ..
    exact ⟨fun _ => trivial, fun performs => (inside.performs performs).elim⟩
  functions _ := fun _ _ _ => .finish _

theorem added_newTemplate :
    lateLoadEngine.addTemplate "p" "new" = (.ok newTemplate, (lateLoadEngine.addTemplate "p" "new").2) := by
  with_unfolding_all rfl

theorem spares_lateLoadActs (opens : ∀ host, hosts host → hosts (host.openGate "g" (.ok "old"))) :
    ∀ a ∈ lateLoadActs, a.Spares hosts "p" := by
  simp only [lateLoadActs, List.forall_mem_cons]
  exact ⟨trivial, trivial, ⟨opens _, fun _ => rfl, id, fun h => ⟨h.helpers, h.functions⟩⟩, trivial, nofun⟩

/-- The load ends last, and its template stands in place of the other. -/
theorem lateLoadRun_ends : ∃ o s', lateLoadStream = .ok o ∧ (o.render.config.cache = true ∧
      ∀ task ∈ o.render.tasks, task.wait.In (fun _ _ => True) (Program.Spares hosts "p")) ∧ lateLoadRun o = .ok s' ∧
    s'.results = [some (.ok "old"), some (.ok "new")] ∧
    (s'.world.engine.getTemplate "p").any (fun u => Step.beqAll u.body [.write "old"]) = true := by
  have seen : lateLoadStream.toOption.any (fun o => o.render.config.cache && o.render.tasks.all (·.wait.isLoad) &&
      (lateLoadRun o).toOption.any (fun s' => decide (s'.results = [some (.ok "old"), some (.ok "new")]) &&
        (s'.world.engine.getTemplate "p").any (fun u => Step.beqAll u.body [.write "old"]))) = true := by decide +kernel
  obtain ⟨o, waits, seen⟩ := exists_eq_ok seen
  simp only [Bool.and_eq_true, List.all_eq_true] at seen
  obtain ⟨⟨cache, loads⟩, seen⟩ := seen
  obtain ⟨s', ran, seen⟩ := exists_eq_ok seen
  simp only [Bool.and_eq_true, decide_eq_true_eq] at seen
  refine ⟨o, s', waits, ⟨cache, fun task mem => ?_⟩, ran, seen.1, seen.2⟩
  have load := loads task mem
  cases wait : task.wait with
  | load name context => trivial
  | text future resume =>
    rw [wait] at load
    cases load

/-- What the engine holds in the end is compiled from the text that came for the load under way. -/
theorem added_template_stays_lateLoadRun : ∃ o s' u, lateLoadStream = .ok o ∧ lateLoadRun o = .ok s' ∧
    s'.results = [some (.ok "old"), some (.ok "new")] ∧ s'.world.engine.getTemplate "p" = some u ∧ u ≠ newTemplate ∧
    Belated lateLoadHosts "p" (Session.Outstanding { world := { engine := lateLoadEngine }, streams := [o] } "p") u := by
  obtain ⟨o, s', waits, spares, ran, results, old⟩ := @lateLoadRun_ends lateLoadHosts
  have closed : lateLoadHosts {} := by
    rintro _ rfl
    exact .inl rfl
  have opens (host : Host) : lateLoadHosts host → lateLoadHosts (host.openGate "g" (.ok "old")) := by
    rintro - _ rfl
    exact .inr (Future.gate_openGate_self ..)
  have stays := added_template_stays (s := { world := { engine := lateLoadEngine }, streams := [o] }) closed rfl
    calls_lateLoadEngine (by simpa using spares) added_newTemplate (spares_lateLoadActs opens) ran
  obtain ⟨u, held, whence⟩ := stays.1
  rw [held] at old
  have ne : u ≠ newTemplate := by
    rintro rfl
    exact absurd old (by decide +kernel)
  exact ⟨o, s', u, waits, ran, results, held, ne, whence.resolve_left ne⟩

/-- A load that was under way puts its template in place of the one added in the meantime. -/
theorem late_load_replaces_added : ¬ ∀ (s s' : Session) (n source : String) (t : Template) (e : Engine) (acts : List Act),
    s.world.engine.config.cache = true → s.world.engine.CallsOnly (Helper.Spares (fun _ => True) n) →
    (∀ o ∈ s.streams, o.render.config.cache = true ∧
      ∀ task ∈ o.render.tasks, task.wait.In (fun _ _ => True) (Program.Spares (fun _ => True) n)) →
    s.world.engine.addTemplate n source = (.ok t, e) → (∀ a ∈ acts, a.Spares (fun _ => True) n) →
    Session.run { s with world := { s.world with engine := e } } acts = .ok s' →
    s'.world.engine.getTemplate n = some t := by
  intro stays
  obtain ⟨o, s', -, spares, ran, -, old⟩ := lateLoadRun_ends
  have held := stays { world := { engine := lateLoadEngine }, streams := [o] } s' "p" "new" newTemplate _ lateLoadActs rfl
    calls_lateLoadEngine (by simpa using spares) added_newTemplate (spares_lateLoadActs fun _ _ => trivial) ran
  rw [held] at old
  exact absurd old (by decide +kernel)

end Stencil
