import Stencil.Proofs.Render.Running

/-! Between the calls of a driver no code runs, so every open chunk belongs to parked work or was left behind by work that
    failed. A render that is complete has done all its work. -/

namespace Stencil

open RenderM

theorem bind_eq_ok {ε α β : Type} {x : Except ε α} {f : α → Except ε β} {b : β} :
    (x >>= f) = .ok b ↔ ∃ a, x = .ok a ∧ f a = .ok b := by
  cases x with
  | error e =>
    constructor
    · intro no
      cases no
    · rintro ⟨_, no, -⟩
      cases no
  | ok a =>
    constructor
    · exact fun next => ⟨a, rfl, next⟩
    · rintro ⟨_, same, next⟩
      cases same
      exact next

theorem map_eq_ok {ε α β : Type} {x : Except ε α} {f : α → β} {b : β} : x.map f = .ok b ↔ ∃ a, x = .ok a ∧ f a = b := by
  cases x with
  | error e =>
    constructor
    · intro no
      cases no
    · rintro ⟨_, no, -⟩
      cases no
  | ok a =>
    constructor
    · exact fun same => ⟨a, rfl, Except.ok.inj same⟩
    · rintro ⟨_, same, rfl⟩
      cases same
      rfl

theorem exists_eq_ok {ε α : Type} {x : Except ε α} {test : α → Bool} (seen : x.toOption.any test = true) :
    ∃ a, x = .ok a ∧ test a = true := by
  cases x with
  | error e => cases seen
  | ok a => exact ⟨a, rfl, seen⟩

namespace Render

/-- No code runs, and nothing is going on that the accounts do not show. -/
structure Resting (r : Render) : Prop where
  sound : r.Sound
  idle : r.writers = []
  spares : r.spares = 0
  limbo (p : Wait → Bool) : r.limbo p = 0
  running (p : Wait → Bool) : r.running p = 0

/-- The outcome of the last piece of work has been taken in. -/
structure Driven (r : Render) : Prop where
  resting : r.progress ≠ .failed → r.Resting
  complete : r.progress ≠ .failed → (r.progress = .complete ↔ r.chunks.openCount = 0)
  failed : r.progress = .failed → r.tasks = [] ∧ r.writers = []

variable {r r' : Render} {s : Stage} {wait : Wait}

theorem Resting.of_eq (h : r.Resting) (same : r' = { r with loads := r'.loads }) : r'.Resting := by
  rw [same]
  exact ⟨⟨h.sound.owned, h.sound.linked⟩, h.idle, h.spares, h.limbo, h.running⟩

theorem Driven.of_eq (h : r.Driven) (same : r' = { r with loads := r'.loads }) : r'.Driven := by
  have resting (hf : r.progress ≠ .failed) := (h.resting hf).of_eq same
  rw [same] at resting ⊢
  exact ⟨resting, h.complete, h.failed⟩

theorem Driven.told (h : r.Driven) (events : List Event) : Driven { r with events } := by
  refine ⟨fun hf => ?_, h.complete, h.failed⟩
  have rest := h.resting hf
  exact ⟨⟨rest.sound.owned, rest.sound.linked⟩, rest.idle, rest.spares, rest.limbo, rest.running⟩

theorem Driven.owned (h : r.Driven) : r.Owned := by
  by_cases hf : r.progress = .failed
  · obtain ⟨tasks, writers⟩ := h.failed hf
    have owners : r.owners = [] := by
      unfold owners
      rw [tasks, writers]
      rfl
    unfold Owned
    rw [owners]
    exact ⟨List.nodup_nil, by simp⟩
  · exact (h.resting hf).sound.owned

/-- At rest every open chunk is that of parked work or of work that failed. -/
theorem Resting.openCount (h : r.Resting) : r.chunks.openCount = r.tasks.length + r.failed.length := by
  have spares := h.spares
  unfold Render.spares at spares
  rw [h.idle, List.length_nil] at spares
  omega

/-! ### Taking in an outcome -/

/-- What one flush tells. -/
def told (text : String) : List Event := if text.isEmpty then [] else [.data text]

/-- Handing out leaves the work put off and the loads alone. -/
theorem flush_output (r : Render) :
    r.flush = { r with chunks := r.flush.chunks, events := r.flush.events, progress := r.flush.progress } := by
  unfold flush
  dsimp only
  split
  · rfl
  · split <;> rfl

theorem flush_eq (pending : r.progress = .pending) : r.flush = { r with
    chunks := r.chunks.flush.2
    events := r.events ++ told r.chunks.flush.1 ++ if r.chunks.flush.2.isFlushed then [.finished] else []
    progress := if r.chunks.flush.2.isFlushed then .complete else .pending } := by
  have events : (if r.chunks.flush.1.isEmpty then r.events else r.events ++ [.data r.chunks.flush.1]) =
      r.events ++ told r.chunks.flush.1 := by
    unfold told
    split
    · rw [List.append_nil]
    · rfl
  unfold Render.flush
  rw [if_neg (by simp [pending])]
  dsimp only
  rw [events]
  split
  · rfl
  · rw [List.append_nil, ← pending]

theorem close_error_eq (pending : s.render.progress = .pending) (error : Error) : s.close (.error error) =
    { s with engine := s.engine.record .error error.message, render := s.render.abandon error } := by
  unfold Stage.close Stage.fail
  dsimp only
  rw [if_neg (by simp [pending])]

/-- What has ended takes in no more outcomes. -/
theorem close_of_ended (ended : s.render.progress ≠ .pending) (outcome : Except Error Unit) : s.close outcome = s := by
  cases outcome with
  | ok _ =>
    show { s with render := s.render.flush } = _
    rw [Render.flush, if_pos ended]
  | error error => exact if_pos ended

/-- What is closed has been flushed or abandoned, unless it had ended. -/
theorem close_cases (s : Stage) (outcome : Except Error Unit) : s.close outcome = s ∨
    (∃ chunks events progress, s.close outcome = { s with render := { s.render with chunks, events, progress } }) ∨
      ∃ error, s.close outcome =
        { s with engine := s.engine.record .error error.message, render := s.render.abandon error } := by
  by_cases pending : s.render.progress = .pending
  · cases outcome with
    | ok _ =>
      have flushed : s.close (.ok ()) = { s with render := s.render.flush } := rfl
      rw [flush_eq pending] at flushed
      exact Or.inr (Or.inl ⟨_, _, _, flushed⟩)
    | error error => exact Or.inr (Or.inr ⟨error, close_error_eq pending error⟩)
  · exact Or.inl (close_of_ended pending outcome)

theorem Resting.flush (h : r.Resting) (pending : r.progress = .pending) : r.flush.Driven := by
  obtain ⟨ids, linked⟩ := h.sound.linked
  have sound := h.sound.flushed
  have openCount : r.chunks.flush.2.openCount = r.chunks.openCount :=
    Chunks.openCount_congr linked.ended_flush
  have spares : Render.spares { r with chunks := r.chunks.flush.2 } = 0 := by
    unfold Render.spares
    dsimp only
    rw [openCount]
    exact h.spares
  rw [flush_eq pending]
  refine ⟨fun _ => ⟨⟨sound.owned, sound.linked⟩, h.idle, spares, h.limbo, h.running⟩, fun _ => ?_, fun no => ?_⟩
  · dsimp only
    rw [openCount, ← linked.isFlushed_flush]
    split
    · next all => simp [all]
    · next some' => simp [some']
  · dsimp only at no
    split at no
    · cases no
    · cases no

theorem driven_close {outcome : Except Error Unit} (pending : s.render.progress = .pending)
    (idle : s.render.writers = []) (h : outcome = .ok () → s.render.Resting) : (s.close outcome).render.Driven := by
  cases outcome with
  | ok _ => exact (h rfl).flush pending
  | error e =>
    rw [close_error_eq pending]
    exact ⟨fun no => absurd rfl no, fun no => absurd rfl no, fun _ => ⟨rfl, idle⟩⟩

/-! ### Running the job and the work put off -/

variable {render : Renderer} {job : RenderM Unit}

/-- What the job leads to as it is closed, holds after the start. -/
theorem safe_start_of {I : Stage → Prop} (driven : ∀ {t}, I t → t.render.Driven) (hj : Keeps (fun _ => True) job)
    {config : Config} (begun : s.render = { config })
    (closes : ∀ outcome t, (within Chunks.root job).run s = .ok (outcome, t) → Confined outcome s.render t.render →
      I (t.close outcome)) :
    (start job).Safe (·.render.Owned) (· = .outOfSteps) s fun _ t => I t := by
  obtain ⟨sound, spare⟩ := sound_new config
  rw [← begun] at sound spare
  refine Safe.bind (Safe.attempt ((safe_within hj sound spare).mono_run fun outcome t ran owned confined => ?_))
  have closed := closes outcome t ran confined
  exact Safe.modify owned (driven closed).owned closed

theorem pending_of_confined {outcome : Except Error Unit} {config : Config} (h : Confined outcome { config } r') :
    r'.progress = .pending ∧ r'.events = [] ∧ r'.writers = [] ∧ (outcome = .ok () → r'.Resting) := by
  refine ⟨h.alike.progress, h.alike.events, h.writers, fun same => ?_⟩
  cases same
  exact ⟨h.sound, h.writers, h.spares, h.alike.limbo, h.alike.running⟩

theorem safe_start (hj : Keeps (fun _ => True) job) (config : Config) (begun : s.render = { config }) :
    (start job).Safe (·.render.Owned) (· = .outOfSteps) s fun _ t => t.render.Driven := by
  refine safe_start_of id hj begun fun outcome t _ confined => ?_
  rw [begun] at confined
  obtain ⟨progress, -, idle, resting⟩ := pending_of_confined confined
  exact driven_close progress idle resting

theorem quiet_poll (hr : ∀ body context, Keeps (fun _ => True) (render body context)) (wait : Wait) :
    Quiet (∃ found, · = .ok found ∧ ∀ x, found = some x → Keeps (fun _ => True) x) (poll render wait) :=
  keepingWhole.poll (keeps_self hr) wait

/-- A visit finds nothing to do, or does the work of the task. -/
theorem safe_visit (hr : ∀ body context, Keeps (fun _ => True) (render body context)) {index : Nat} {task : Task}
    (resting : s.render.Resting) (found : s.render.tasks[index]? = some task) :
    (visit render index task).Safe (·.render.Owned) (· = .outOfSteps) s fun o t =>
      t.render.progress = s.render.progress ∧ t.render.events = s.render.events ∧ t.render.Resting ∧
        (o = .ok false → t.render = { s.render with loads := t.render.loads }) := by
  have polled := ((quiet_poll hr task.wait s).mono fun o t same outcome => And.intro same outcome).weaken
    (J := (·.render.Owned)) (K := (· = .outOfSteps)) (fun t same => (resting.of_eq same).sound.owned) fun _ no => no.elim
  refine Safe.bind (polled.mono fun o t owned end' => ?_)
  obtain ⟨same, work, rfl, keeps⟩ := end'
  have resting' := resting.of_eq same
  have progress : t.render.progress = s.render.progress := by
    rw [same]
  have events : t.render.events = s.render.events := by
    rw [same]
  cases work with
  | none => exact Safe.pure owned ⟨progress, events, resting', fun _ => same⟩
  | some x =>
    have found' : t.render.tasks[index]? = some task := by
      rw [same]
      exact found
    obtain ⟨sound, spare⟩ := resting'.sound.remove found'
    let u : Stage := { t with render := { t.render with tasks := t.render.tasks.eraseIdx index } }
    have spares : u.render.spares = t.render.spares + 1 := spares_remove found'
    have limbo (p : Wait → Bool) : u.render.limbo p = t.render.limbo p + weight p task.wait := limbo_remove found'
    refine Safe.bind (Safe.modifyRender owned sound.owned (Safe.bind ?_))
    refine (safe_takeUp (s := u) (keeps x rfl) sound spare).mono fun o v owned' worked => ?_
    have resting'' : v.render.Resting := by
      refine ⟨worked.sound, worked.writers.trans resting'.idle, ?_, fun p => ?_,
        fun p => (worked.running p).trans (resting'.running p)⟩
      · rw [worked.spares, spares, resting'.spares]
        rfl
      · rw [worked.limbo p, limbo p, resting'.limbo p]
        omega
    have progress' : v.render.progress = s.render.progress := worked.progress.trans progress
    have events' : v.render.events = s.render.events := worked.events.trans events
    cases o with
    | ok _ => exact Safe.pure owned' ⟨progress', events', resting'', fun no => by cases no⟩
    | error e => exact ⟨progress', events', resting'', fun no => by cases no⟩

/-- What each visit leads to as its outcome is taken in, holds after all rounds of work. -/
theorem safe_settle_of {I : Stage → Prop} (driven : ∀ {s}, I s → s.render.Driven)
    (hr : ∀ body context, Keeps (fun _ => True) (render body context))
    (still : ∀ {s t index task}, I s → s.render.progress = .pending → s.render.tasks[index]? = some task →
      (visit render index task).run s = .ok (.ok false, t) → I t)
    (done : ∀ {s t index task}, I s → s.render.progress = .pending → s.render.tasks[index]? = some task →
      (visit render index task).run s = .ok (.ok true, t) → I (t.close (.ok ())))
    (failed : ∀ {s t index task error}, I s → s.render.progress = .pending → s.render.tasks[index]? = some task →
      (visit render index task).run s = .ok (.error error, t) → I (t.close (.error error)))
    (steps index : Nat) (progressed : Bool) (h : I s) :
    (settle render steps index progressed).Safe (·.render.Owned) (· = .outOfSteps) s fun _ t => I t := by
  induction steps generalizing s index progressed with
  | zero => exact ⟨(driven h).owned, rfl⟩
  | succ steps ih =>
    refine Safe.bind (Safe.get (driven h).owned ?_)
    dsimp only
    split
    · exact Safe.pure (driven h).owned h
    · next pending =>
      have pending : s.render.progress = .pending := by simpa using pending
      have resting := (driven h).resting (by simp [pending])
      split
      · split
        · exact ih 0 false h
        · exact Safe.pure (driven h).owned h
      · next task found =>
        refine Safe.bind (Safe.attempt ((safe_visit hr resting found).mono_run fun outcome t ran owned _ => ?_))
        dsimp only
        split
        · exact ih _ _ (still h pending found ran)
        · have closed := done h pending found ran
          exact Safe.bind (Safe.modify owned (driven closed).owned (ih _ _ closed))
        · have closed := failed h pending found ran
          exact Safe.bind (Safe.modify owned (driven closed).owned (ih _ _ closed))

theorem safe_drive (steps : Nat) (h : s.render.Driven) :
    (drive steps).Safe (·.render.Owned) (· = .outOfSteps) s fun _ t => t.render.Driven := by
  have visited {s t : Stage} {index : Nat} {task : Task} {outcome : Except Error Bool} (h : s.render.Driven)
      (pending : s.render.progress = .pending) (found : s.render.tasks[index]? = some task)
      (ran : (visit (exec steps) index task).run s = .ok (outcome, t)) :=
    (safe_visit (keeps_exec steps) (h.resting (by simp [pending])) found).ends ran
  refine safe_settle_of (I := (·.render.Driven)) id (keeps_exec steps) (fun h pending found ran => ?still)
    (fun h pending found ran => ?done) (fun h pending found ran => ?failed) steps 0 false h
  case still =>
    obtain ⟨-, -, -, same⟩ := visited h pending found ran
    exact h.of_eq (same rfl)
  case done =>
    obtain ⟨progress, -, resting, -⟩ := visited h pending found ran
    exact driven_close (progress.trans pending) resting.idle fun _ => resting
  case failed =>
    obtain ⟨progress, -, resting, -⟩ := visited h pending found ran
    exact driven_close (progress.trans pending) resting.idle fun _ => resting

end Render

/-! ### Streams -/

/-- The streams that the calls of a driver lead to. The world may change between two calls in any way, and each call is
    given its own number of steps. -/
inductive Reached : OutputStream → Prop
  | new (e : Engine) (job : Job) : Reached (.new e job)
  | attach {o : OutputStream} (listener : Listener) : Reached o → Reached (o.attach listener)
  | runUntilStalled {o o' : OutputStream} {steps : Nat} {w w' : World} {progress : Progress} : Reached o →
    o.runUntilStalled steps w = .ok (progress, w', o') → Reached o'
  | pollNext {o o' : OutputStream} {steps : Nat} {w w' : World} {item : Item} : Reached o →
    o.pollNext steps w = .ok (item, w', o') → Reached o'

namespace OutputStream

open Render

/-- The job of a stream has not run yet, or the render is driven. -/
def Awaits (o : OutputStream) : Prop := (∃ config, o.render = { config }) ∧ o.job ≠ none ∨ o.job = none ∧ o.render.Driven

variable {o o' : OutputStream} {w w' : World} {steps : Nat}

theorem safe_work (h : o.Awaits) : (o.work steps).Safe (·.render.Owned) (· = .outOfSteps) { w with render := o.render }
    fun _ t => t.render.Driven := by
  unfold work
  rcases h with ⟨⟨config, begun⟩, some⟩ | ⟨none, driven⟩
  · obtain ⟨job, isSome⟩ := Option.ne_none_iff_exists'.mp some
    rw [isSome]
    refine Safe.bind ((safe_start (keeps_job steps job) config begun).mono fun outcome t _ driven => ?_)
    cases outcome with
    | ok _ => exact safe_drive steps driven
    | error e => exact driven
  · rw [none]
    exact safe_drive steps driven

theorem driven_advance (h : o.Awaits) (ran : o.advance steps w = .ok (w', o')) :
    o'.job = none ∧ o'.render.Driven := by
  obtain ⟨⟨outcome, t⟩, run, same⟩ := bind_eq_ok.mp ran
  cases same
  exact ⟨rfl, (safe_work h).ends run⟩

theorem tellAll_eq (o : OutputStream) : o.tellAll = { o with
    render := { o.render with events := [] }
    delivered := o.delivered ++ o.render.events.flatMap (deliveries o.listeners) } := by
  have told (events : List Event) (o : OutputStream) :
      events.foldl tell o = { o with delivered := o.delivered ++ events.flatMap (deliveries o.listeners) } := by
    induction events generalizing o with
    | nil => rw [List.flatMap_nil, List.append_nil, List.foldl_nil]
    | cons event rest ih =>
      rw [List.foldl_cons, ih, List.flatMap_cons, ← List.append_assoc]
      rfl
  exact told _ _

theorem nextEvent_eq_some {event : Event} (next : o.nextEvent = some (event, o')) :
    ∃ rest, o.render.events = event :: rest ∧ o' = { o with
      render := { o.render with events := rest }
      delivered := o.delivered ++ deliveries o.listeners event } := by
  unfold nextEvent at next
  cases events : o.render.events with
  | nil =>
    rw [events] at next
    cases next
  | cons first rest =>
    rw [events] at next
    cases next
    exact ⟨rest, rfl, rfl⟩

theorem runUntilStalled_ok {progress : Progress} (ran : o.runUntilStalled steps w = .ok (progress, w', o')) :
    ∃ u, o.advance steps w = .ok (w', u) ∧ o' = u.tellAll := by
  obtain ⟨⟨v, u⟩, advanced, same⟩ := bind_eq_ok.mp ran
  cases same
  exact ⟨u, advanced, rfl⟩

/-- A poll of a stream that has not ended does all that can be done and takes the first event, if there is any. -/
theorem pollNext_ok {item : Item} (polled : o.pollNext steps w = .ok (item, w', o')) : (w' = w ∧ o' = o) ∨
    ∃ u exhausted, o.advance steps w = .ok (w', u) ∧ (o' = { u with exhausted } ∨
      ∃ event rest, u.render.events = event :: rest ∧ o' = { u with
        render := { u.render with events := rest }
        delivered := u.delivered ++ deliveries u.listeners event
        exhausted }) := by
  unfold pollNext at polled
  split at polled
  · cases polled
    exact Or.inl ⟨rfl, rfl⟩
  · obtain ⟨⟨v, u⟩, advanced, polled⟩ := bind_eq_ok.mp polled
    dsimp only at polled
    split at polled
    · next next =>
      cases polled
      obtain ⟨rest, events, rfl⟩ := nextEvent_eq_some next
      exact Or.inr ⟨u, _, advanced, Or.inr ⟨_, rest, events, rfl⟩⟩
    · next next =>
      cases polled
      obtain ⟨rest, events, rfl⟩ := nextEvent_eq_some next
      exact Or.inr ⟨u, true, advanced, Or.inr ⟨_, rest, events, rfl⟩⟩
    · next next =>
      cases polled
      obtain ⟨rest, events, rfl⟩ := nextEvent_eq_some next
      exact Or.inr ⟨u, true, advanced, Or.inr ⟨_, rest, events, rfl⟩⟩
    · split at polled
      · cases polled
        exact Or.inr ⟨_, _, advanced, Or.inl rfl⟩
      · cases polled
        exact Or.inr ⟨u, true, advanced, Or.inl rfl⟩

theorem awaits_runUntilStalled {progress : Progress} (h : o.Awaits)
    (ran : o.runUntilStalled steps w = .ok (progress, w', o')) : o'.Awaits := by
  obtain ⟨u, advanced, rfl⟩ := runUntilStalled_ok ran
  obtain ⟨job, driven⟩ := driven_advance h advanced
  rw [tellAll_eq]
  exact Or.inr ⟨job, driven.told []⟩

theorem awaits_pollNext {item : Item} (h : o.Awaits) (polled : o.pollNext steps w = .ok (item, w', o')) :
    o'.Awaits := by
  rcases pollNext_ok polled with ⟨-, rfl⟩ | ⟨u, exhausted, advanced, rfl | ⟨event, rest, -, rfl⟩⟩
  · exact h
  · obtain ⟨job, driven⟩ := driven_advance h advanced
    exact Or.inr ⟨job, driven⟩
  · obtain ⟨job, driven⟩ := driven_advance h advanced
    exact Or.inr ⟨job, driven.told rest⟩

theorem awaits_new (e : Engine) (job : Job) : (OutputStream.new e job).Awaits :=
  Or.inl ⟨⟨e.config, rfl⟩, by simp [OutputStream.new]⟩

end OutputStream

/-- A driver call of the stream comes through the stage. -/
def OutputStream.Passes (steps : Nat) (w : World) (o : OutputStream) (s : Stage) : Prop :=
  (o.work steps).Passes { w with render := o.render } s

/-- A driver call comes through the stage that it ends in. -/
theorem OutputStream.passes_after {o o' : OutputStream} {steps : Nat} {w w' : World}
    (ran : o.advance steps w = .ok (w', o')) : o.Passes steps w { w' with render := o'.render } := by
  obtain ⟨⟨_, s⟩, worked, same⟩ := bind_eq_ok.mp ran
  cases same
  exact passes_last worked

/-- The stages that a driver call comes through are of a kind. -/
def OutputStream.Through (A : Stage → Prop) (o : OutputStream) (steps : Nat) (w : World) : Prop :=
  ∀ s, o.Passes steps w s → A s

/-- The streams of a job that the calls of a driver lead to, where the world is one that fits at each call, and the stages
    that the calls come through are of a kind. -/
inductive Rendered (fits : World → Prop) (A : Stage → Prop) (job : Job) : OutputStream → Prop
  | new {w : World} : fits w → Rendered fits A job (.new w.engine job)
  | attach {o : OutputStream} (listener : Listener) : Rendered fits A job o → Rendered fits A job (o.attach listener)
  | runUntilStalled {o o' : OutputStream} {steps : Nat} {w w' : World} {progress : Progress} : Rendered fits A job o →
    fits w → o.Through A steps w → o.runUntilStalled steps w = .ok (progress, w', o') → Rendered fits A job o'
  | pollNext {o o' : OutputStream} {steps : Nat} {w w' : World} {item : Item} : Rendered fits A job o →
    fits w → o.Through A steps w → o.pollNext steps w = .ok (item, w', o') → Rendered fits A job o'

/-- What holds of the new stream, after all that can be done without waiting, and whoever has heard what, holds always. -/
theorem Rendered.induct {fits : World → Prop} {A : Stage → Prop} {job : Job} {P : OutputStream → Prop}
    {o : OutputStream} (new : ∀ w, fits w → P (.new w.engine job))
    (advance : ∀ {o o' steps w w'}, P o → fits w → o.Through A steps w → o.advance steps w = .ok (w', o') → P o')
    (told : ∀ {o} events listeners delivered exhausted, P o →
      P { o with render := { o.render with events }, listeners, delivered, exhausted })
    (h : Rendered fits A job o) : P o := by
  induction h with
  | new fits => exact new _ fits
  | attach listener _ ih => exact told _ _ _ _ ih
  | runUntilStalled _ fits through ran ih =>
    obtain ⟨u, advanced, rfl⟩ := OutputStream.runUntilStalled_ok ran
    rw [OutputStream.tellAll_eq]
    exact told _ _ _ _ (advance ih fits through advanced)
  | pollNext _ fits through polled ih =>
    rcases OutputStream.pollNext_ok polled with ⟨-, rfl⟩ | ⟨u, exhausted, advanced, rfl | ⟨event, rest, -, rfl⟩⟩
    · exact ih
    · exact told _ _ _ _ (advance ih fits through advanced)
    · exact told _ _ _ _ (advance ih fits through advanced)

theorem Rendered.reached {fits : World → Prop} {A : Stage → Prop} {job : Job} {o : OutputStream}
    (h : Rendered fits A job o) : Reached o := by
  induction h with
  | new fits => exact .new _ _
  | attach listener _ ih => exact .attach listener ih
  | runUntilStalled _ _ _ ran ih => exact .runUntilStalled ih ran
  | pollNext _ _ _ polled ih => exact .pollNext ih polled

theorem Reached.awaits {o : OutputStream} (h : Reached o) : o.Awaits := by
  induction h with
  | new e job => exact OutputStream.awaits_new e job
  | attach listener _ ih => exact ih
  | runUntilStalled _ ran ih => exact OutputStream.awaits_runUntilStalled ih ran
  | pollNext _ polled ih => exact OutputStream.awaits_pollNext ih polled

/-! ### Work put off -/

namespace Render

variable {r : Render}

theorem perm_of_countP {l l' : List Wait} (same : ∀ p : Wait → Bool, l.countP p = l'.countP p) : l.Perm l' := by
  classical
  exact List.perm_iff_count.mpr fun wait => same (· == wait)

/-- What was put off is parked or has been taken up; what was taken up has ended well or badly. -/
theorem Resting.perm (h : r.Resting) :
    r.deferred.Perm (r.parked ++ r.taken) ∧ r.taken.Perm (r.finished ++ r.failed) := by
  refine ⟨perm_of_countP fun p => ?_, perm_of_countP fun p => ?_⟩
  · have limbo := h.limbo p
    unfold Render.limbo at limbo
    rw [List.countP_append]
    omega
  · have running := h.running p
    unfold Render.running at running
    rw [List.countP_append]
    omega

theorem Driven.perm (h : r.Driven) (complete : r.progress = .complete) :
    r.tasks = [] ∧ r.failed = [] ∧ r.deferred.Perm r.taken ∧ r.deferred.Perm r.finished := by
  have alive : r.progress ≠ .failed := by simp [complete]
  have resting := h.resting alive
  have count := resting.openCount
  rw [(h.complete alive).mp complete] at count
  have tasks : r.tasks = [] := List.length_eq_zero_iff.mp (by omega)
  have failed : r.failed = [] := List.length_eq_zero_iff.mp (by omega)
  obtain ⟨deferred, taken⟩ := resting.perm
  have parked : r.parked = [] := by
    unfold parked
    rw [tasks]
    rfl
  rw [parked, List.nil_append] at deferred
  rw [failed, List.append_nil] at taken
  exact ⟨tasks, failed, deferred, deferred.trans taken⟩

end Render

/-- A helper that writes the text of a gate once the gate is open. -/
def gateText (gate : String) : Helper := fun _ _ _ => .defer (.gate gate) .writeText (Program.orFail fun _ => .done)

/-- An engine with one helper that waits. -/
def lateEngine : Engine := { helpers := [("late", gateText "g")] }

/-- A text, the helper that waits, and a text. -/
def lateTemplate : Template := ⟨none, [.write "a", .helperTag "late" none [] .empty, .write "b"], []⟩

/-- The stream of the template with a listener, before any call. -/
def lateStream : OutputStream := { OutputStream.new lateEngine (.template lateTemplate {}) with listeners := [⟨0, .sink⟩] }

/-- The stream after a call with the gate closed, and after another with the gate open. -/
def lateRun : Except Halt (OutputStream × OutputStream) := do
  let (_, w, o) ← lateStream.runUntilStalled 9 { engine := lateEngine }
  let (_, _, o') ← o.runUntilStalled 9 { w with host := w.host.openGate "g" (.ok "x") }
  pure (o, o')

end Stencil
