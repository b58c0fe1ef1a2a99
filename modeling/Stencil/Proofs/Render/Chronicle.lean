import Stencil.Proofs.Render.Driving
import Stencil.Proofs.Render.Loading
import Stencil.Proofs.Render.Upholding

/-! What the journal of a render tells of the work put off. Behind each note that work has ended well stands a run of the very
    code that follows the wait: it began where the wait was noted to be over, and ended well where the note was made. -/

namespace Stencil

open RenderM Render

/-- In a stage of the kind the wait is over, and the code is what follows it. -/
inductive Wait.Yields (A : Stage → Prop) : Wait → RenderM Unit → Prop
  | text {future : Future String} {resume : String → Program} {text : String} {s : Stage} (nesting : Nat) : A s →
    future s.host = some (.ok text) → Yields A (.text future resume) do
      let _ ← (resume text).run (exec nesting)
  | load {name : String} {context : Context} {t : Template} {s : Stage} (nesting : Nat) : A s → s.Found name t →
    Yields A (.load name context) (template (exec nesting) t context)

/-- The code that follows the wait has run to a good end in a chunk, from a stage that notes the wait to be over to one with
    the notes given, both of the kind. -/
def Wait.RanWell (A : Stage → Prop) (wait : Wait) (notes : List Entry) : Prop :=
  ∃ work chunk u v earlier, wait.Yields A work ∧ A u ∧ A v ∧ u.render.journal = .taken wait :: earlier ∧
    (within chunk work).run u = .ok (.ok (), v) ∧ v.render.journal = notes

/-- Each note that work has ended well is true of the run before it. -/
def Chronicle (A : Stage → Prop) (journal : List Entry) : Prop :=
  ∀ later wait notes, journal = later ++ .finished wait :: notes → wait.RanWell A notes

variable {A : Stage → Prop} {journal : List Entry} {entry : Entry} {wait : Wait}

namespace Chronicle

theorem nil : Chronicle A [] := fun later _ _ no => by cases later <;> cases no

theorem cons (h : Chronicle A journal) (here : ∀ wait, entry = .finished wait → wait.RanWell A journal) :
    Chronicle A (entry :: journal) := by
  intro later wait notes same
  cases later with
  | nil =>
    cases same
    exact here wait rfl
  | cons _ later =>
    cases same
    exact h later wait notes rfl

end Chronicle

/-! ### Code that keeps a true journal -/

namespace RenderM

variable {α : Type}

/-- The code keeps the journal true, and its results are of some kind. -/
abbrev Chronicles (A : Stage → Prop) (V : α → Prop) (x : RenderM α) : Prop :=
  Upholds A (fun s => Chronicle A s.render.journal) (fun _ => True) V x

theorem steady_chronicle : Steady (fun s => Chronicle A s.render.journal) fun _ => True where
  violation _ := trivial
  output _ _ here := here
  side _ _ _ := .nil
  back here _ := here

/-- A poll finds nothing, or the code that follows the wait, or an error. -/
def ChroniclesPoll (A : Stage → Prop) (wait : Wait) (x : RenderM (Option (RenderM Unit))) : Prop :=
  Chronicles A (fun found => ∀ work, found = some work → Chronicles A (fun _ => True) work ∧
    (wait.Yields A work ∨ ∃ e, work = throw e)) x

namespace Chronicles

theorem note (other : ∀ wait, entry ≠ .finished wait) : Chronicles A (fun _ => True) (note entry) :=
  .modify fun _ here => here.cons fun wait same => absurd same (other wait)

theorem record (level : LogLevel) (message : String) : Chronicles A (fun _ => True) (record level message) :=
  .modify fun _ here => here

theorem startLoad (name : String) (template : Option String) :
    Chronicles A (fun _ => True) (startLoad name template) :=
  Upholds.startLoad (fun _ _ here => here) fun here _ => ⟨here, fun _ => id⟩

theorem pollLoad (name : String) :
    Chronicles A (fun result => ∀ t, result = some (.ok t) → ∃ s, A s ∧ s.Found name t) (pollLoad name) := by
  have polls : Chronicles A (fun _ => True) (RenderM.pollLoad name) :=
    Upholds.pollLoad fun here _ => ⟨here, id⟩
  refine polls.ran.mono fun result ⟨_, s, u, _, there, ran⟩ t same => ⟨u, there, ?_⟩
  subst same
  exact found_of_pollLoad ran

/-- Work is done at once, and the note at its end is true. -/
theorem takeUp (chunk : ChunkId) {work : RenderM Unit} (yields : wait.Yields A work ∨ ∃ e, work = throw e)
    (works : Chronicles A (fun _ => True) work) : Chronicles A (fun _ => True) (takeUp chunk wait work) := by
  intro s here admitted
  let u : Stage := { s with render := { s.render with journal := .taken wait :: s.render.journal } }
  have begun : Chronicle A (.taken wait :: s.render.journal) := here.cons fun _ no => nomatch no
  have passed {t : Stage} (pass : (RenderM.within chunk work).Passes u t) : A t :=
    admitted t (passes_bind (u := u) rfl (passes_bind_left (passes_attempt.mpr pass)))
  refine Safe.bind (Safe.modifyRender here begun (Safe.bind (Safe.attempt ?_)))
  refine (Upholds.within steady_chronicle chunk works u begun fun _ => passed).mono_run fun o v ran there _ => ?_
  cases o with
  | ok _ =>
    have done : Chronicle A (.finished wait :: v.render.journal) := there.cons fun other same => by
      cases same
      rcases yields with yields | ⟨e, rfl⟩
      · exact ⟨work, chunk, u, v, _, yields, passed passes_self, passed (passes_last ran), rfl, ran, rfl⟩
      · cases ran
    exact Safe.modifyRender there done fun _ _ => trivial
  | error e =>
    have failed : Chronicle A (.failed wait :: v.render.journal) := there.cons fun _ no => nomatch no
    exact Safe.bind (Safe.modifyRender there failed (Safe.throw failed nofun))

theorem putOff {x : RenderM (Option (RenderM Unit))} (polls : ChroniclesPoll A wait x) :
    Chronicles A (fun _ => True) (putOff wait x) := by
  have reserves : Chronicles A (fun _ => True) reserve := upholds_iff.mpr (.reserve steady_chronicle)
  have notes : Chronicles A (fun _ => True) (RenderM.note (.deferred wait)) := note nofun
  refine reserves.bind fun chunk _ => notes.bind fun _ _ => polls.bind fun found works => ?_
  cases found with
  | none => exact .modify fun _ here => here
  | some work => exact takeUp chunk (works work rfl).2 (works work rfl).1

theorem pollText (nesting : Nat) {future : Future String} {resume : String → Program}
    (works : ∀ text, Chronicles A (fun _ => True) ((resume text).run (exec nesting))) :
    ChroniclesPoll A (.text future resume) (poll (exec nesting) (.text future resume)) := by
  refine .look_bind fun s _ known => ?_
  split
  · exact .pure nofun
  · refine .pure fun work same => ?_
    cases same
    exact ⟨.throw _, Or.inr ⟨_, rfl⟩⟩
  · next text ended =>
    refine .pure fun work same => ?_
    cases same
    exact ⟨(works text).bind fun _ _ => .pure trivial, Or.inl (.text nesting known ended)⟩

theorem pollTemplate (nesting : Nat) {name : String} {context : Context}
    (works : ∀ t, Chronicles A (fun _ => True) (template (exec nesting) t context)) :
    ChroniclesPoll A (.load name context) (poll (exec nesting) (.load name context)) := by
  refine (pollLoad name).bind fun result loaded => ?_
  split
  · exact .pure nofun
  · refine .pure fun work same => ?_
    cases same
    exact ⟨.throw _, Or.inr ⟨_, rfl⟩⟩
  · next t =>
    refine .pure fun work same => ?_
    cases same
    obtain ⟨s, known, loaded⟩ := loaded t rfl
    exact ⟨works t, Or.inl (.load nesting known loaded)⟩

end Chronicles

/-! ### Rendering -/

/-- Keeping the journal true, as a relation that rendering respects. -/
def chronicling (A : Stage → Prop) : Coupling .any where
  rel V x _ := Chronicles A V x
  helper _ := True
  limit _ := True
  fills _ := True
  pure := .pure
  throw _ e := .throw e
  bind := .bind
  mapError f h := h.mapError f
  write text := .write steady_chronicle text
  filter _ _ := .withEngine fun _ here => here
  record := Chronicles.record
  called _ := .modify fun _ here => here
  toText template h := h.toText steady_chronicle template
  helper? _ := .get_bind fun _ _ => .pure fun _ _ => trivial
  callable _ := .get_bind fun _ _ => .pure trivial
  filled _ := .note nofun
  depthLimit := .get_bind fun _ _ => .pure trivial

namespace Chronicles

section

variable {nesting : Nat} (hr : ∀ body context, Chronicles A (fun _ => True) (exec nesting body context))

include hr

theorem program (program : Program) : Chronicles A (fun _ => True) (program.run (exec nesting)) := by
  induction program with
  | finish reply => exact .pure trivial
  | fail error => exact .throw error
  | write text next ih => exact (Upholds.write steady_chronicle text).attempt.bind fun o _ => ih o
  | render body context next ih => exact (hr body context).attempt.bind fun o _ => ih o
  | renderToString body context next ih =>
    exact ((hr body context).toText steady_chronicle _).attempt.bind fun o _ => ih o
  | defer future resume next ihResume ih => exact (putOff (pollText nesting ihResume)).attempt.bind fun o _ => ih o
  | act action next ih =>
    have acts : Chronicles A (fun _ => True) (perform action) := .perform fun _ here => here
    exact acts.attempt.bind fun o _ => ih o

theorem template (t : Template) (context : Context) :
    Chronicles A (fun _ => True) (template (exec nesting) t context) :=
  @Coupling.template .any (chronicling A) (exec nesting) (exec nesting) context t fun _ _ _ => hr _ _

theorem poll (wait : Wait) : ChroniclesPoll A wait (poll (exec nesting) wait) := by
  cases wait with
  | text future resume => exact pollText nesting fun text => program hr (resume text)
  | load name context => exact pollTemplate nesting fun t => template hr t context

theorem named (name : String) (context : Context) :
    Chronicles A (fun _ => True) (named (exec nesting) name context) := by
  have kept : Chronicles A (fun _ => True) (kept? name) := .get_bind fun _ _ => .pure trivial
  refine kept.bind fun found _ => ?_
  cases found with
  | some t => exact template hr t context
  | none => exact (startLoad name _).bind fun _ _ => putOff (poll hr (.load name context))

theorem job (job : Job) : Chronicles A (fun _ => True) (job.run (exec nesting)) := by
  cases job with
  | named name context => exact named hr name context
  | template t context => exact template hr t context
  | fail error => exact .throw error

theorem visit (index : Nat) (task : Task) : Chronicles A (fun _ => True) (visit (exec nesting) index task) := by
  refine (poll hr task.wait).bind fun found works => ?_
  cases found with
  | none => exact .pure trivial
  | some work =>
    have erases : Chronicles A (fun _ => True) (modifyRender fun r => { r with tasks := r.tasks.eraseIdx index }) :=
      .modify fun _ here => here
    obtain ⟨works, yields⟩ := works work rfl
    exact erases.bind fun _ _ => (takeUp task.chunk yields works).bind fun _ _ => .pure trivial

end

theorem exec (nesting : Nat) (body : Body) (context : Context) :
    Chronicles A (fun _ => True) (exec nesting body context) := by
  induction nesting generalizing body context with
  | zero => exact .halt trivial
  | succ nesting ih =>
    have renders : (chronicling A).Renders (Render.exec nesting) (Render.exec nesting) fun _ => True :=
      { body := fun _ _ => ih _ _
        program := fun _ _ _ _ => (program ih _).mono fun reply _ => by cases reply <;> trivial
        named := fun name _ _ => named ih name _ }
    exact Coupling.forM (C := chronicling A) fun step _ =>
      renders.step step.inside_all trivial fun _ _ _ _ _ _ => ih _ _

theorem close (outcome : Except Error Unit) : Chronicles A (fun _ => True) (close outcome) := by
  refine .modify fun s here => ?_
  rcases close_cases s outcome with same | ⟨chunks, events, progress, same⟩ | ⟨error, same⟩ <;> rw [same] <;> exact here

theorem settle {nesting : Nat} (steps index : Nat) (progressed : Bool) :
    Chronicles A (fun _ => True) (settle (Render.exec nesting) steps index progressed) := by
  induction steps generalizing index progressed with
  | zero => exact .halt trivial
  | succ steps ih =>
    have next (index : Nat) (progressed : Bool) : (chronicling A).rel (fun _ => True)
      (Render.settle (Render.exec nesting) steps index progressed)
      (Render.settle (Render.exec nesting) steps index progressed) := ih index progressed
    exact Coupling.settle_succ (fun _ known => Upholds.get_bind fun s _ => known s)
      (fun index task => (visit (exec nesting) index task).attempt) close next index progressed

end Chronicles

end RenderM

/-! ### Streams -/

theorem OutputStream.chronicles_work (o : OutputStream) (steps : Nat) : Chronicles A (fun _ => True) (o.work steps) := by
  have driven : Chronicles A (fun _ => True) (drive steps) := Chronicles.settle steps 0 false
  unfold work
  split
  · exact driven
  · next job _ =>
    have runs := Chronicles.job (Chronicles.exec (A := A) steps) job
    have started := (Upholds.within steady_chronicle Chunks.root runs).attempt
    exact (started.bind fun outcome _ => Chronicles.close outcome).bind fun _ _ => driven

/-- The journal of a render is true of the stages that the calls have come through. -/
theorem Rendered.chronicle {fits : World → Prop} {job : Job} {o : OutputStream} (h : Rendered fits A job o) :
    Chronicle A o.render.journal := by
  refine h.induct (P := fun o => Chronicle A o.render.journal) (fun _ _ => .nil) (fun here _ through advanced => ?_)
    fun _ _ _ _ here => here
  obtain ⟨⟨outcome, s⟩, worked, same⟩ := bind_eq_ok.mp advanced
  cases same
  exact (OutputStream.chronicles_work _ _ _ here through).passes (passes_last worked)

/-- Whatever helpers do and in whatever order the world lets futures be done: in every stage that a driver call comes
    through, parked work and running code own the chunks they write to; so no chunk is used that does not exist or has
    ended. When a render is complete, no work is parked, and all that was put off has been taken up once and ended well.
    Work has ended well where the code that follows its wait has run to a good end, between stages that the calls have come
    through: `A` may be any property that all of these have. -/
theorem chunks_owned_and_work_done_once {job : Job} {o : OutputStream} (rendered : Rendered (fun _ => True) A job o)
    (steps : Nat) (w : World) :
    (∀ s, (o.work steps).Passes { w with render := o.render } s → s.render.Owned) ∧
    (∀ e, (o.work steps).run { w with render := o.render } ≠ .error (.violation e)) ∧
    (o.progress = .complete → o.render.tasks = [] ∧ o.render.failed = [] ∧ o.render.deferred.Perm o.render.taken ∧
      o.render.deferred.Perm o.render.finished) ∧
    ∀ later wait notes, o.render.journal = later ++ .finished wait :: notes → wait.RanWell A notes := by
  have awaits := rendered.reached.awaits
  have safe : (o.work steps).Safe (·.render.Owned) (· = .outOfSteps) { w with render := o.render } _ :=
    OutputStream.safe_work awaits
  refine ⟨fun s pass => safe.passes pass, fun e stop => ?_, fun complete => ?_, rendered.chronicle⟩
  · have no : Halt.violation e = .outOfSteps := safe.halts stop
    cases no
  · rcases awaits with ⟨⟨config, begun⟩, -⟩ | ⟨-, driven⟩
    · unfold OutputStream.progress at complete
      rw [begun] at complete
      cases complete
    · exact driven.perm complete

/-- The stages of the first call and of the second one. -/
def LateStage (w : World) (o : OutputStream) (s : Stage) : Prop :=
  (lateStream.work 9).Passes { engine := lateEngine, render := lateStream.render } s ∨
    (o.work 9).Passes { w with render := o.render } s

/-- What the code behind the wait writes is told where its place was kept. -/
theorem chunks_owned_and_work_done_once_lateRun : ∃ w o o', lateRun = .ok (o, o') ∧ o.progress = .pending ∧
    o.render.parked.length = 1 ∧ o'.progress = .complete ∧
    o'.delivered = [⟨⟨0, .sink⟩, .data "axb"⟩, ⟨⟨0, .sink⟩, .finished⟩] ∧
    (∀ s, (o.work 9).Passes { engine := lateEngine, render := o.render } s → s.render.Owned) ∧
    o'.render.deferred.Perm o'.render.finished ∧
    ∃ later wait notes, o'.render.journal = later ++ .finished wait :: notes ∧ wait.RanWell (LateStage w o) notes := by
  have seen : lateRun.toOption.any (fun r => decide (r.1.progress = .pending) && r.1.render.parked.length == 1 &&
      decide (r.2.progress = .complete) &&
      decide (r.2.delivered = [⟨⟨0, .sink⟩, .data "axb"⟩, ⟨⟨0, .sink⟩, .finished⟩]) &&
      r.2.render.finished.length == 1) = true := by decide +kernel
  obtain ⟨⟨o, o'⟩, done, seen⟩ := exists_eq_ok seen
  simp only [Bool.and_eq_true, decide_eq_true_eq, beq_iff_eq] at seen
  obtain ⟨⟨⟨⟨pending, parked⟩, complete⟩, told⟩, finished⟩ := seen
  have run := done
  unfold lateRun at run
  obtain ⟨⟨_, w, u⟩, first, run⟩ := bind_eq_ok.mp run
  obtain ⟨⟨_, _, u'⟩, second, run⟩ := bind_eq_ok.mp run
  cases run
  let late : World := { w with host := w.host.openGate "g" (.ok "x") }
  have begun : Rendered (fun _ => True) (LateStage late o) _ lateStream :=
    .attach ⟨0, .sink⟩ (.new (w := { engine := lateEngine }) trivial)
  have rendered : Rendered (fun _ => True) (LateStage late o) _ o :=
    .runUntilStalled begun trivial (fun _ => Or.inl) first
  have rendered' := rendered.runUntilStalled trivial (fun _ => Or.inr) second
  obtain ⟨-, -, ended, ran⟩ := chunks_owned_and_work_done_once rendered' 9 {}
  obtain ⟨wait, mem⟩ := List.exists_mem_of_length_pos (Nat.lt_of_lt_of_eq Nat.one_pos finished.symm)
  obtain ⟨entry, mem, same⟩ := List.mem_filterMap.mp mem
  obtain rfl : entry = .finished wait := by
    cases entry <;> cases same
    rfl
  obtain ⟨later, notes, journal⟩ := List.append_of_mem mem
  exact ⟨late, o, o', done, pending, parked, complete, told,
    (chunks_owned_and_work_done_once rendered 9 { engine := lateEngine }).1, (ended complete).2.2.2,
    later, wait, notes, journal, ran later wait notes journal⟩

end Stencil
