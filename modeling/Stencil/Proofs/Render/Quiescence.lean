import Stencil.Proofs.Render.Misses
import Stencil.Proofs.Render.Upholding

/-! A driven render is quiet. When a driver returns and the render is pending, none of the work left has what it waits for,
    whatever the work done in between has made ready: that is what the last round through it was for. -/

namespace Stencil

open Render RenderM

/-- Work put off that waits for a load finds it among the loads. -/
def Stage.Attended (s : Stage) : Prop := ∀ n, ∀ task ∈ s.render.tasks, task.wait.Attended n s.render.loads

/-- What is waited for is there. A load waits for the loader's answer to the name that it has come to. -/
def Wait.Over (loads : Dict Load) (host : Host) : Wait → Prop
  | .text future _ => (future host).isSome
  | .load name _ => ∀ asked answer rounds, Dict.get? name loads = some (.waiting asked answer rounds) →
    (answer host).isSome

/-- The wait is over as soon as all these gates are open. -/
def Wait.ForGates (gates : List String) (loads : Dict Load) (wait : Wait) : Prop :=
  ∀ host, (∀ gate ∈ gates, (Future.gate gate host).isSome) → wait.Over loads host

variable {s : Stage} {wait : Wait} {host : Host} {loads : Dict Load}

/-- Blocked work is not waiting for something that is there. -/
theorem Wait.Blocked.not_over (blocked : wait.Blocked host loads) (attended : ∀ n, wait.Attended n loads) :
    ¬ wait.Over loads host := by
  intro ended
  cases wait with
  | text future resume =>
    rw [Over, show future host = none from blocked] at ended
    cases ended
  | load name context =>
    rcases blocked with none | ⟨asked, answer, rounds, kept, unanswered⟩
    · have some := attended name context rfl
      rw [none] at some
      cases some
    · have found : Dict.get? name loads = some (.waiting asked answer rounds) := by
        rw [← kept, Dict.get?_insert_self]
      have answered := ended asked answer rounds found
      rw [unanswered] at answered
      cases answered

theorem Stage.Attended.insert (here : s.Attended) (engine : Engine) (name : String) (load : Load) :
    Stage.Attended { s with engine, render := { s.render with loads := Dict.insert name load s.render.loads } } :=
  fun n task mem context same => Dict.isSome_get?_insert (here n task mem context same)

namespace RenderM

variable {α : Type} {V : α → Prop}

/-- The code leaves no work waiting for a load that was not begun. -/
abbrev Attends (V : α → Prop) (x : RenderM α) : Prop := Upholds (fun _ => True) Stage.Attended (fun _ => True) V x

theorem steady_attended : Steady Stage.Attended (fun _ => True) where
  violation _ := trivial
  output _ _ here := here
  side _ _ _ := nofun
  back here _ := here

namespace Attends

theorem modifyEngine (g : Engine → Engine) : Attends (fun _ => True) (modifyEngine g) := .modify fun _ here => here

theorem withEngine (g : Engine → α × Engine) : Attends (fun _ => True) (withEngine g) :=
  Upholds.withEngine fun _ here => here

theorem takeUp {x : RenderM Unit} (id : ChunkId) (wait : Wait) (hx : Attends (fun _ => True) x) :
    Attends (fun _ => True) (takeUp id wait x) := Upholds.takeUp steady_attended (fun _ here => here) id wait hx

/-! ### Work that is put off -/

/-- A poll for a wait that finds its load still does so afterwards, and the work that it finds is of the kind, too. -/
def Polls (wait : Wait) (x : RenderM (Option (RenderM Unit))) : Prop := ∀ s : Stage, s.Attended →
  (∀ n, wait.Attended n s.render.loads) → x.Safe Stage.Attended (fun _ => True) s fun o t =>
    (∀ n, wait.Attended n t.render.loads) ∧ ∀ work, o = .ok (some work) → Attends (fun _ => True) work

theorem pollText {future : Future String} {work : String → RenderM Unit}
    (hw : ∀ text, Attends (fun _ => True) (work text)) : Polls wait (pollText future work) := by
  intro s here attended
  refine Safe.bind (Safe.get here ?_)
  dsimp only
  split
  · exact Safe.pure here ⟨attended, fun _ same => by cases same⟩
  · next e _ => exact Safe.pure here ⟨attended, fun _ same => by cases same; exact .throw e⟩
  · next text _ => exact Safe.pure here ⟨attended, fun _ same => by cases same; exact hw text⟩

theorem pollTemplate {name : String} {work : Template → RenderM Unit}
    (hw : ∀ t, Attends (fun _ => True) (work t)) : Polls wait (pollTemplate name work) := by
  intro s here attended
  have polled : (pollLoad name).Safe Stage.Attended (fun _ => True) s fun _ t => ∀ n, wait.Attended n t.render.loads := by
    refine Safe.bind (Safe.get here ?_)
    dsimp only
    split
    · exact Safe.pure here attended
    · refine ⟨here, here, here.insert _ _ _, fun n context same => ?_⟩
      exact Dict.isSome_get?_insert (attended n context same)
  refine Safe.bind (polled.mono fun o t there attended => ?_)
  cases o with
  | error e => exact ⟨attended, fun _ same => by cases same⟩
  | ok result =>
    dsimp only
    split
    · exact Safe.pure there ⟨attended, fun _ same => by cases same⟩
    · next e => exact Safe.pure there ⟨attended, fun _ same => by cases same; exact .throw e⟩
    · next t => exact Safe.pure there ⟨attended, fun _ same => by cases same; exact hw t⟩

theorem safe_putOff {x : RenderM (Option (RenderM Unit))} (hx : Polls wait x) (here : s.Attended)
    (attended : ∀ n, wait.Attended n s.render.loads) :
    (putOff wait x).Safe Stage.Attended (fun _ => True) s fun _ _ => True := by
  refine Safe.bind ((Upholds.safe_reserve steady_attended here).mono fun o t there loads => ?_)
  cases o with
  | error e => trivial
  | ok reserved =>
    have noted : Stage.Attended { t with render := { t.render with journal := .deferred wait :: t.render.journal } } :=
      there
    refine Safe.bind (Safe.modifyRender there noted (Safe.bind ((hx _ noted (loads ▸ attended)).mono ?_)))
    intro o u there ⟨attended, works⟩
    cases o with
    | error e => trivial
    | ok found =>
      cases found with
      | none =>
        refine Safe.modifyRender there (fun n task mem => ?_) trivial
        rcases List.mem_append.mp mem with mem | mem
        · exact there n task mem
        · cases List.mem_singleton.mp mem
          exact attended n
      | some work => exact (takeUp reserved wait (works work rfl) u there fun _ _ => trivial).mono fun _ _ _ _ => trivial

theorem safe_startLoad (here : s.Attended) (name : String) (template : Option String) :
    (startLoad name template).Safe Stage.Attended (fun _ => True) s
      fun o t => o = .ok () → (Dict.get? name t.render.loads).isSome := by
  refine Safe.bind (Safe.get here ?_)
  dsimp only
  split
  · next started => exact Safe.pure here fun _ => started
  · refine Safe.bind (Safe.get here ?_)
    dsimp only
    split
    · exact ⟨here, here, nofun⟩
    · refine ⟨here, here, here, here.insert _ _ _, fun _ => ?_⟩
      dsimp only
      rw [Dict.get?_insert_self]
      rfl

end Attends

/-! ### Rendering -/

def attending : Coupling .any where
  rel V x _ := Attends V x
  helper _ := True
  limit _ := True
  fills _ := True
  pure := .pure
  throw _ := .throw
  bind := .bind
  mapError g hx := hx.mapError g
  write := .write steady_attended
  filter _ _ := Attends.withEngine _
  record _ _ := Attends.modifyEngine _
  called _ := Attends.modifyEngine _
  toText := .toText steady_attended
  helper? _ := .get_bind fun _ _ => .pure fun _ _ => trivial
  callable _ := .get_bind fun _ _ => .pure trivial
  filled _ := .modify fun _ here => here
  depthLimit := .get_bind fun _ _ => .pure trivial

section

variable {render : Renderer} (hr : ∀ body context, Attends (fun _ => True) (render body context))

include hr

theorem attends_program (program : Program) : Attends (fun _ => True) (program.run render) := by
  induction program with
  | finish reply => exact .pure trivial
  | fail error => exact .throw error
  | write text next ih => exact (Upholds.write steady_attended text).attempt.bind fun o _ => ih o
  | render body context next ih => exact (hr body context).attempt.bind fun o _ => ih o
  | renderToString body context next ih =>
    exact (Upholds.toText steady_attended _ (hr body context)).attempt.bind fun o _ => ih o
  | defer future resume next ihResume ih =>
    have put : Attends (fun _ => True) (putOff (.text future resume) (pollText future fun text => do
        let _ ← (resume text).run render)) := fun s here _ =>
      (Attends.safe_putOff (Attends.pollText fun text => (ihResume text).bind fun _ _ => .pure (V := fun _ => True) trivial)
        here fun _ _ no => by cases no).mono fun _ _ _ _ _ _ => trivial
    exact put.attempt.bind fun o _ => ih o
  | act action next ih => exact (Upholds.perform fun _ here => here).attempt.bind fun o _ => ih o

theorem attends_template (t : Template) (context : Context) : Attends (fun _ => True) (template render t context) :=
  @Coupling.template .any attending render render context t fun _ _ _ => hr _ _

theorem attends_named (name : String) (context : Context) : Attends (fun _ => True) (named render name context) := by
  have kept : Attends (fun _ => True) (kept? name) := .get_bind fun _ _ => .pure trivial
  refine kept.bind fun found _ => ?_
  cases found with
  | some t => exact attends_template hr t context
  | none =>
    intro s here _
    refine Safe.mono (Q := fun _ _ => True) ?_ fun _ _ _ _ _ _ => trivial
    refine Safe.bind ((Attends.safe_startLoad here name _).mono fun o t there started => ?_)
    cases o with
    | error e => trivial
    | ok _ =>
      have attended (n : String) : Wait.Attended n t.render.loads (.load name context) := by
        intro _ same
        cases same
        exact started rfl
      exact Attends.safe_putOff (Attends.pollTemplate fun t => attends_template hr t context) there attended

theorem attends_poll (wait : Wait) : Attends.Polls wait (Render.poll render wait) := by
  cases wait with
  | text future resume => exact Attends.pollText fun text => (attends_program hr _).bind fun _ _ => .pure trivial
  | load name context => exact Attends.pollTemplate fun t => attends_template hr t context

theorem attends_job (job : Job) : Attends (fun _ => True) (job.run render) := by
  cases job with
  | named name context => exact attends_named hr name context
  | template t context => exact attends_template hr t context
  | fail error => exact .throw error

theorem safe_visit (here : s.Attended) (index : Nat) {task : Task} (mem : task ∈ s.render.tasks) :
    (visit render index task).Safe Stage.Attended (fun _ => True) s fun _ _ => True := by
  refine Safe.bind ((attends_poll hr task.wait s here fun n => here n task mem).mono fun o t there ⟨_, works⟩ => ?_)
  cases o with
  | error e => trivial
  | ok found =>
    cases found with
    | none => exact Safe.pure there trivial
    | some work =>
      have left : Stage.Attended { t with render := { t.render with tasks := t.render.tasks.eraseIdx index } } :=
        fun n task mem => there n task (List.mem_of_mem_eraseIdx mem)
      refine Safe.bind (Safe.modifyRender there left (Safe.bind ?_))
      refine (Attends.takeUp task.chunk task.wait (works work rfl) _ left fun _ _ => trivial).mono fun o u there _ => ?_
      cases o with
      | ok _ => exact Safe.pure there trivial
      | error e => trivial

end

theorem attends_exec (nesting : Nat) (body : Body) (context : Context) :
    Attends (fun _ => True) (exec nesting body context) := by
  induction nesting generalizing body context with
  | zero => exact .halt trivial
  | succ nesting ih =>
    have renders : attending.Renders (exec nesting) (exec nesting) fun _ => True :=
      { body := fun _ _ => ih _ _
        program := fun _ _ _ _ => (attends_program ih _).mono fun reply _ => by cases reply <;> trivial
        named := fun name _ _ => attends_named ih name _ }
    exact Coupling.forM (C := attending) fun step _ => renders.step step.inside_all trivial fun _ _ _ _ _ _ => ih _ _

end RenderM

theorem Stage.Attended.close (here : s.Attended) (outcome : Except Error Unit) : (s.close outcome).Attended := by
  rcases close_cases s outcome with same | ⟨chunks, events, progress, same⟩ | ⟨error, same⟩
  · exact same.symm ▸ here
  · rw [same]
    exact here
  · rw [same]
    exact nofun

namespace RenderM

theorem safe_settle {render : Renderer} (hr : ∀ body context, Attends (fun _ => True) (render body context))
    (here : s.Attended) (steps index : Nat) (progressed : Bool) :
    (settle render steps index progressed).Safe Stage.Attended (fun _ => True) s fun _ _ => True := by
  induction steps generalizing s index progressed with
  | zero => exact ⟨here, trivial⟩
  | succ steps ih =>
    refine Safe.bind (Safe.get here ?_)
    dsimp only
    split
    · exact Safe.pure here trivial
    · split
      · split
        · exact ih here 0 false
        · exact Safe.pure here trivial
      · next task found =>
        have visits := safe_visit hr here index (List.mem_of_getElem? found)
        refine Safe.bind (Safe.attempt (visits.mono fun o t there _ => ?_))
        have closing (outcome : Except Error Unit) : (do close outcome; settle render steps index true : RenderM Unit).Safe
            Stage.Attended (fun _ => True) t fun _ _ => True :=
          Safe.bind (Safe.modify there (there.close outcome) (ih (there.close outcome) index true))
        obtain error | _ | _ := o
        · exact closing (.error error)
        · exact ih there (index + 1) progressed
        · exact closing (.ok ())

end RenderM

namespace OutputStream

variable {w w' : World} {o o' : OutputStream} {steps : Nat} {items : List Item}

theorem attended_advance (here : (stage w o).Attended) (ran : o.advance steps w = .ok (w', o')) :
    (stage w' o').Attended := by
  obtain ⟨⟨r, t⟩, worked, same⟩ := bind_eq_ok.mp ran
  cases same
  have renders : ∀ body context, Attends (fun _ => True) (exec steps body context) := attends_exec steps
  suffices works : (o.work steps).Safe Stage.Attended (fun _ => True) (stage w o) fun _ _ => True from
    works.passes (passes_last worked)
  unfold work
  cases o.job with
  | none => exact safe_settle renders here steps 0 false
  | some job =>
    have runs := (Upholds.within steady_attended Chunks.root (attends_job renders job)).attempt
    refine Safe.bind (Safe.bind ((runs _ here fun _ _ => trivial).mono fun outcome t there _ => ?_))
    cases outcome with
    | error e => trivial
    | ok outcome => exact Safe.modify there (there.close outcome) (safe_settle renders (there.close outcome) steps 0 false)

theorem attended_move {m : Move} (here : (stage w o).Attended) (moved : o.move w m = .ok (items, w', o')) :
    (stage w' o').Attended := by
  rcases m.isCall_or with call | ⟨change, rfl⟩
  · rcases move_of_isCall call o with ⟨-, idle⟩ | ⟨steps, give, goes, same⟩
    · rw [idle] at moved
      cases moved
      exact here
    · rw [goes] at moved
      obtain ⟨⟨v, u⟩, advanced, moved⟩ := map_eq_ok.mp moved
      cases moved
      obtain ⟨events, render⟩ := same u
      show ∀ n, ∀ task ∈ (give u).2.render.tasks, task.wait.Attended n (give u).2.render.loads
      rw [render]
      exact attended_advance here advanced
  · cases moved
    exact here

end OutputStream

open OutputStream

/-- When a driver returns and the render is pending, no work left can go on: what it waits for is not there, so some gate
    that it waits for is closed, and to look at it once more finds nothing and changes nothing. -/
theorem driven_render_quiescent (w : World) (job : Job) (listeners : List Listener) {moves : List Move}
    {items : List Item} {w₁ w₂ : World} {o₁ o₂ : OutputStream}
    (played : play w { OutputStream.new w.engine job with listeners } moves = .ok (items, w₁, o₁)) {steps : Nat}
    (advanced : o₁.advance steps w₁ = .ok (w₂, o₂)) (pending : o₂.progress = .pending) :
    ∀ task ∈ o₂.render.tasks,
      (∀ render, (Render.poll render task.wait).run (stage w₂ o₂) = .ok (.ok none, stage w₂ o₂)) ∧
      ¬ task.wait.Over o₂.render.loads w₂.host ∧
      ∀ gates, task.wait.ForGates gates o₂.render.loads → ∃ gate ∈ gates, Future.gate gate w₂.host = none := by
  have begins : (stage w { OutputStream.new w.engine job with listeners }).Attended := fun _ => nofun
  have attended : (stage w₁ o₁).Attended := play_keeps (P := fun _ => True) (fun _ => attended_move) (fun _ _ => trivial)
    begins played
  have attended' := attended_advance attended advanced
  obtain ⟨blocked, -⟩ := (still_advance advanced).blocked pending
  intro task mem
  have waiting : ¬ task.wait.Over o₂.render.loads w₂.host :=
    (blocked task mem).not_over fun n => attended' n task mem
  refine ⟨fun render => run_poll_of_blocked (blocked task mem), waiting, fun gates awaits => ?_⟩
  by_contra allOpen
  refine waiting (awaits w₂.host fun gate mem => ?_)
  cases closed : Future.gate gate w₂.host with
  | none => exact (allOpen ⟨gate, mem, closed⟩).elim
  | some outcome => rfl

/-- A helper that waits for one gate and then opens another and waits for a third. -/
def passingOn : Helper := fun _ _ _ =>
  .defer (.gate "h") (fun _ => .act (.openGate "g" (.ok "x")) (Program.orFail fun _ =>
    .defer (.gate "k") .writeText (Program.orFail fun _ => .done))) (Program.orFail fun _ => .done)

/-- An engine whose loader waits for a gate, too. -/
def chainedEngine : Engine where
  helpers := [("late", gateText "g"), ("passing", passingOn)]
  loader := some ⟨fun _ _ host => (Future.gate "l" host).map (·.map .source)⟩

/-- A helper that waits for the gate that one behind it opens, and two partials of one name. -/
def chainedStream : OutputStream :=
  .new chainedEngine (.template ⟨none, [.helperTag "late" none [] .empty, .partialTag (.static "p") none [],
    .helperTag "passing" none [] .empty, .partialTag (.static "p") none []], []⟩ {})

/-- A call, and after it the gate of the last helper is opened. -/
def chainedMoves : List Move := [.runUntilStalled 20, .others fun w => { w with host := w.host.openGate "h" (.ok "") }]

/-- One call opens the gate of earlier work and puts off new work; the earlier work is done in the same call, and the new
    work and two partials with one load are left waiting. -/
theorem driven_render_quiescent_chainedMoves : ∃ w₁ o₁ w₂ o₂,
    play { engine := chainedEngine } chainedStream chainedMoves = .ok ([], w₁, o₁) ∧ o₁.render.tasks.length = 4 ∧
    o₁.advance 20 w₁ = .ok (w₂, o₂) ∧ (Future.gate "g" w₂.host).isSome = true ∧ w₂.engine.asked = ["p"] ∧
    o₂.render.events = [.data "x"] ∧ o₂.render.tasks.length = 3 ∧ ∀ task ∈ o₂.render.tasks,
      (∀ render, (Render.poll render task.wait).run (stage w₂ o₂) = .ok (.ok none, stage w₂ o₂)) ∧
      ¬ task.wait.Over o₂.render.loads w₂.host := by
  have seen : (play { engine := chainedEngine } chainedStream chainedMoves).toOption.any (fun r =>
      decide (r.1 = []) && decide (r.2.2.render.tasks.length = 4) && (r.2.2.advance 20 r.2.1).toOption.any (fun r =>
        decide (r.2.progress = .pending) && (Future.gate "g" r.1.host).isSome && decide (r.1.engine.asked = ["p"]) &&
        decide (r.2.render.events = [.data "x"]) && decide (r.2.render.tasks.length = 3))) = true := by decide +kernel
  obtain ⟨⟨items, w₁, o₁⟩, played, seen⟩ := exists_eq_ok seen
  simp only [Bool.and_eq_true, decide_eq_true_eq] at seen
  obtain ⟨⟨rfl, four⟩, seen⟩ := seen
  obtain ⟨⟨w₂, o₂⟩, advanced, seen⟩ := exists_eq_ok seen
  simp only [Bool.and_eq_true, decide_eq_true_eq] at seen
  obtain ⟨⟨⟨⟨pending, opened⟩, asked⟩, told⟩, three⟩ := seen
  have quiet := driven_render_quiescent _ _ [] played advanced pending
  exact ⟨w₁, o₁, w₂, o₂, played, four, advanced, opened, asked, told, three, fun task mem =>
    ⟨(quiet task mem).1, (quiet task mem).2.1⟩⟩

end Stencil
