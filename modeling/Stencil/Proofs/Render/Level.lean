import Stencil.Proofs.Render.Evenly
import Stencil.Proofs.Render.Schedules

/-! Driving two renders of the same job, where loaders answer at once. The drafts of both have the same gaps, which the same
    work fills with the same; so both come as far, and end with one text or one error. -/

namespace Stencil

open RenderM Render

variable {sources : Sources} {e : Engine} {s t u v : Stage} {told told' : List Event} {heard heard' : String}
  {label label' : ChunkId → Wait} {r r' q q' : Render} {index steps nesting : Nat} {task task' : Task}

/-- In two pending renders the same work is parked, and wherever it is, what has been told stands in front of one draft. -/
structure Together (sources : Sources) (e : Engine) (heard heard' : String) (s t : Stage) : Prop where
  beside : Beside sources e s t
  left : s.render.failed = []
  right : t.render.failed = []
  trails {label label' : ChunkId → Wait} : (t.render.labelled label').parked = (s.render.labelled label).parked →
    ∃ draft, Trails heard (s.render.labelled label) draft ∧ Trails heard' (t.render.labelled label') draft

/-- Two renders have come as far as each other; once they have ended, with one text or one error. -/
structure Level (sources : Sources) (e : Engine) (told told' : List Event) (s t : Stage) : Prop where
  peers : Peers sources e s.toWorld t.toWorld
  left : s.render.Driven
  right : t.render.Driven
  progress : t.render.progress = s.render.progress
  pending : s.render.progress = .pending → Together sources e (Event.join told) (Event.join told') s t
  complete : s.render.progress = .complete →
    Event.join (told ++ s.render.events) = Event.join (told' ++ t.render.events)
  failed : s.render.progress = .failed → ∃ error, (told ++ s.render.events).getLast? = some (.failed error) ∧
    (told' ++ t.render.events).getLast? = some (.failed error)

/-- Some of the events that wait have been told. -/
theorem Level.tell (h : Level sources e told told' s t) {more more' events events' : List Event}
    (same : more ++ events = told ++ s.render.events) (same' : more' ++ events' = told' ++ t.render.events) :
    Level sources e more more' { s with render := { s.render with events } }
      { t with render := { t.render with events := events' } } := by
  have joined {more events told : List Event} {r : Render} (same : more ++ events = told ++ r.events) :
      Event.join more ++ Event.join events = Event.join told ++ r.untold := by
    unfold Render.untold
    rw [← Event.join_append, same, Event.join_append]
  refine ⟨h.peers, h.left.told events, h.right.told events', h.progress, fun pending => ?_, fun complete => ?_,
    fun failed => ?_⟩
  · have together := h.pending pending
    refine ⟨together.beside.of_renders h.peers ⟨rfl, rfl, rfl⟩ ⟨rfl, rfl, rfl⟩, together.left, together.right,
      fun labels => ?_⟩
    obtain ⟨draft, one, other⟩ := together.trails labels
    exact ⟨draft, one.tell (joined same), other.tell (joined same')⟩
  · show Event.join (more ++ events) = Event.join (more' ++ events')
    rw [same, same']
    exact h.complete complete
  · show ∃ error, (more ++ events).getLast? = _ ∧ (more' ++ events').getLast? = _
    rw [same, same']
    exact h.failed failed

/-- Other code has been at work around the renders. -/
theorem Level.of_peers (h : Level sources e told told' s t) {w w' : World} (peers : Peers sources e w w') :
    Level sources e told told' { w with render := s.render } { w' with render := t.render } := by
  refine ⟨peers, h.left, h.right, h.progress, fun pending => ?_, h.complete, h.failed⟩
  have together := h.pending pending
  exact ⟨together.beside.of_renders peers ⟨rfl, rfl, rfl⟩ ⟨rfl, rfl, rfl⟩, together.left, together.right, together.trails⟩

/-! ### Taking in an outcome -/

theorem labelled_flush (label : ChunkId → Wait) (r : Render) : (r.labelled label).flush = r.flush.labelled label := by
  unfold Render.flush
  dsimp only
  show (if r.progress ≠ .pending then _ else _) = _
  split
  · rfl
  · show (if r.chunks.flush.2.isFlushed = true then _ else _) = _
    split <;> rfl

theorem isFlushed_iff (resting : r.Resting) (none : r.failed = []) : r.chunks.flush.2.isFlushed = true ↔ r.tasks = [] := by
  obtain ⟨ids, linked⟩ := resting.sound.linked
  rw [linked.isFlushed_flush, resting.openCount, none, List.length_nil, Nat.add_zero, List.length_eq_zero_iff]

theorem level_flush (together : Together sources e (Event.join told) (Event.join told') s t)
    (pending : s.render.progress = .pending) (pending' : t.render.progress = .pending) (resting : s.render.Resting)
    (resting' : t.render.Resting) : Level sources e told told' (s.close (.ok ())) (t.close (.ok ())) := by
  have beside := together.beside
  have same := isFlushed_iff resting together.left
  have same' := isFlushed_iff resting' together.right
  have both : t.render.tasks = [] ↔ s.render.tasks = [] := by
    rw [← List.length_eq_zero_iff, beside.length_eq, List.length_eq_zero_iff]
  have trails {label label' : ChunkId → Wait}
      (labels : (t.render.labelled label').parked = (s.render.labelled label).parked) : ∃ draft,
      Trails (Event.join told) (s.render.flush.labelled label) draft ∧
        Trails (Event.join told') (t.render.flush.labelled label') draft := by
    obtain ⟨draft, one, other⟩ := together.trails labels
    rw [← labelled_flush, ← labelled_flush]
    exact ⟨draft, one.flush pending (resting.sound.labelled label), other.flush pending' (resting'.sound.labelled label')⟩
  have progress : s.render.flush.progress = if s.render.tasks = [] then .complete else .pending := by
    rw [flush_eq pending]
    exact if_congr same rfl rfl
  have progress' : t.render.flush.progress = if s.render.tasks = [] then .complete else .pending := by
    rw [flush_eq pending']
    exact if_congr (same'.trans both) rfl rfl
  have output {r : Render} : r.flush.config = r.config ∧ r.flush.tasks = r.tasks ∧ r.flush.loads = r.loads ∧
      r.flush.failed = r.failed := by
    rw [flush_output]
    exact ⟨rfl, rfl, rfl, rfl⟩
  obtain ⟨config, tasks, loads, failed⟩ := output (r := s.render)
  obtain ⟨config', tasks', loads', failed'⟩ := output (r := t.render)
  refine ⟨beside.peers, resting.flush pending, resting'.flush pending', progress'.trans progress.symm, fun still => ?_,
    fun complete => ?_, fun failed => ?_⟩
  · refine ⟨beside.of_renders beside.peers ⟨config, tasks, loads⟩ ⟨config', tasks', loads'⟩, failed.trans together.left,
      failed'.trans together.right, fun labels => trails ?_⟩
    rw [parked_labelled, parked_labelled] at labels ⊢
    rw [← tasks, ← tasks']
    exact labels
  · change s.render.flush.progress = .complete at complete
    have none : s.render.tasks = [] := by
      rw [progress] at complete
      split at complete
      · assumption
      · cases complete
    have complete' : t.render.flush.progress = .complete := progress'.trans (progress.symm.trans complete)
    have labels := labels_of_length beside.length_eq (.load "" {})
    obtain ⟨draft, one, other⟩ := trails labels
    unfold Trails at one other
    rw [show (labelled _ s.render.flush).progress = .complete from complete] at one
    rw [show (labelled _ t.render.flush).progress = .complete from complete'] at other
    rw [Event.join_append, Event.join_append]
    exact Draft.ofText_injective (one.symm.trans other)
  · change s.render.flush.progress = .failed at failed
    rw [progress] at failed
    split at failed <;> cases failed

theorem level_fail (peers : Peers sources e s.toWorld t.toWorld) (pending : s.render.progress = .pending)
    (pending' : t.render.progress = .pending) (idle : s.render.writers = []) (idle' : t.render.writers = [])
    (error : Error) : Level sources e told told' (s.close (.error error)) (t.close (.error error)) := by
  have driven := driven_close pending idle (fun no : Except.error error = .ok () => by cases no)
  have driven' := driven_close pending' idle' (fun no : Except.error error = .ok () => by cases no)
  rw [close_error_eq pending, close_error_eq pending'] at *
  have last {told events : List Event} : (told ++ (events ++ [Event.failed error])).getLast? =
      some (.failed error) := by
    rw [← List.append_assoc, List.getLast?_concat]
  exact ⟨⟨peers.left.record .error error.message, peers.right.record .error error.message, peers.host⟩, driven, driven',
    rfl, nofun, nofun, fun _ => ⟨error, last, last⟩⟩

/-! ### Doing work that was put off -/

/-- Tasks at one place of both lists are done: the others are as they were, and the same has been put in for both. -/
structure Done (index : Nat) (task task' : Task) (r q r' q' : Render) : Prop where
  more : (r.without index).tasks <+: r'.tasks
  more' : (q.without index).tasks <+: q'.tasks
  inserts {label label' : ChunkId → Wait} : (q'.labelled label').parked = (r'.labelled label).parked → ∃ added,
    Inserts ((r.without index).labelled label) (r'.labelled label) task.chunk added ∧
      Inserts ((q.without index).labelled label') (q'.labelled label') task'.chunk added

theorem eq_of_eraseIdx_eq {α : Type} {l l' : List α} {a : α} (here : l[index]? = some a) (here' : l'[index]? = some a)
    (same : l.eraseIdx index = l'.eraseIdx index) : l = l' := by
  refine List.ext_getElem? fun i => ?_
  rcases Nat.lt_trichotomy i index with lt | rfl | gt
  · rw [← List.getElem?_eraseIdx_of_lt lt, same, List.getElem?_eraseIdx_of_lt lt]
  · rw [here, here']
  · obtain ⟨i, rfl⟩ := Nat.exists_eq_add_of_lt gt
    have le : index ≤ index + i := Nat.le_add_right ..
    rw [← List.getElem?_eraseIdx_of_ge le, same, List.getElem?_eraseIdx_of_ge le]

theorem labelled_without_update (sound : r.Sound) (found : r.tasks[index]? = some task) (label : ChunkId → Wait)
    (wait : Wait) : (r.labelled (Function.update label task.chunk wait)).without index = (r.without index).labelled label := by
  obtain ⟨-, spare⟩ := sound.remove found
  rw [← labelled_without]
  refine labelled_congr fun other mem => ?_
  rw [Function.update_of_ne (ne_of_mem_tasks spare.2 other mem)]

theorem getElem?_labelled (found : r.tasks[index]? = some task) (label : ChunkId → Wait) :
    (r.labelled label).tasks[index]? = some ⟨task.chunk, label task.chunk⟩ := by
  unfold Render.labelled
  dsimp only
  rw [List.getElem?_map, found]
  rfl

theorem parked_without (r : Render) (index : Nat) : (r.without index).parked = r.parked.eraseIdx index :=
  (List.eraseIdx_map ..).symm

/-- A gap with a label of its own divides a draft in one way. -/
theorem Trails.divides {draft : Draft} {wait : Wait}
    (trails : Trails heard (r.labelled (Function.update label task.chunk wait)) draft)
    (pending : r.progress = .pending) (sound : r.Sound) (found : r.tasks[index]? = some task)
    (fresh : wait ∉ ((r.without index).labelled label).parked) : ∃ front back, draft = front ++ .gap wait :: back ∧
      .gap wait ∉ front ∧ .gap wait ∉ back ∧ ∀ {r' added}, Inserts ((r.without index).labelled label) r' task.chunk added →
        r'.progress = r.progress → r'.events = r.events → Trails heard r' (front ++ added ++ back) := by
  have found' := getElem?_labelled found (Function.update label task.chunk wait)
  rw [Function.update_self] at found'
  obtain ⟨front, back, same, gaps, opens⟩ := trails.opens pending (sound.labelled _) found'
  have none : .gap wait ∉ front ++ back := fun mem => by
    obtain ⟨other, parked, rfl⟩ := gaps wait mem
    refine fresh ?_
    rw [← labelled_without_update sound found label other.wait]
    exact List.mem_map_of_mem parked
  refine ⟨front, back, same, fun mem => none (List.mem_append_left _ mem), fun mem => none (List.mem_append_right _ mem),
    fun {r' added} inserts progress events => opens ?_ progress events⟩
  show Inserts ((r.labelled (Function.update label task.chunk wait)).without index) r' task.chunk added
  rw [labelled_without_update sound found label wait]
  exact inserts

/-- What is put in for a task fills its gap in both drafts, which is at one place. -/
theorem Together.fill (together : Together sources e heard heard' s t) (pending : s.render.progress = .pending)
    (pending' : t.render.progress = .pending) (sound : s.render.Sound) (sound' : t.render.Sound)
    (found : s.render.tasks[index]? = some task) (found' : t.render.tasks[index]? = some task')
    (beside : Beside sources e u v) (done : Done index task task' s.render t.render u.render v.render)
    (same : u.render.progress = s.render.progress ∧ u.render.events = s.render.events)
    (same' : v.render.progress = t.render.progress ∧ v.render.events = t.render.events) :
    Together sources e heard heard' u v := by
  obtain ⟨_, left, right⟩ := done.inserts (labels_of_length beside.length_eq (.load "" {}))
  refine ⟨beside, left.failed.trans together.left, right.failed.trans together.right, fun {label label'} labels => ?_⟩
  have length : (t.render.without index).tasks.length = (s.render.without index).tasks.length := by
    have parked := congrArg (fun waits => (waits.eraseIdx index).length) together.beside.parked
    rwa [← parked_without, ← parked_without, Render.parked, Render.parked, List.length_map, List.length_map] at parked
  have others := labels_of_front done.more done.more' length labels
  obtain ⟨wait, fresh⟩ := exists_label ((s.render.without index).labelled label).parked
  have marked : (t.render.labelled (Function.update label' task'.chunk wait)).parked =
      (s.render.labelled (Function.update label task.chunk wait)).parked := by
    have here {r : Render} {task : Task} (label : ChunkId → Wait) (found : r.tasks[index]? = some task) :
        (r.labelled (Function.update label task.chunk wait)).parked[index]? = some wait := by
      rw [Render.parked, List.getElem?_map, getElem?_labelled found, Function.update_self]
      rfl
    refine eq_of_eraseIdx_eq (here label' found') (here label found) ?_
    rw [← parked_without, ← parked_without, labelled_without_update sound' found', labelled_without_update sound found, others]
  obtain ⟨draft, one, other⟩ := together.trails marked
  obtain ⟨front, back, rfl, notFront, notBack, fills⟩ := one.divides pending sound found fresh
  obtain ⟨front', back', one_draft, -, -, fills'⟩ := other.divides pending' sound' found' (others ▸ fresh)
  obtain ⟨rfl, -, rfl⟩ := (List.append_cons_inj_of_notMem notFront notBack).mp one_draft
  obtain ⟨added, inserts, inserts'⟩ := done.inserts labels
  exact ⟨front ++ added ++ back, fills inserts same.1 same.2, fills' inserts' same'.1 same'.2⟩

theorem run_visit_some {render : Renderer} {x : RenderM Unit}
    (polled : (poll render task.wait).run s = .ok (.ok (some x), s)) : (visit render index task).run s =
      (takeUp task.chunk task.wait x >>= fun _ => pure true).run { s with render := s.render.without index } := by
  unfold visit
  rw [run_bind_of_ok polled]
  rfl

theorem run_visit_none {render : Renderer} (polled : (poll render task.wait).run s = .ok (.ok none, s)) :
    (visit render index task).run s = .ok (.ok false, s) := by
  unfold visit
  rw [run_bind_of_ok polled]
  rfl

theorem Beside.without (beside : Beside sources e s t) (index : Nat) {id id' : ChunkId} {wait wait' : Wait} :
    Beside sources e (.takenUp id wait { s with render := s.render.without index })
      (.takenUp id' wait' { t with render := t.render.without index }) := by
  have left := beside.left
  have right := beside.right
  refine ⟨⟨left.engine, left.depth, left.loads⟩, ⟨right.engine, right.depth, right.loads⟩, beside.host, ?_,
    fun {wait} mem => ?_⟩
  · show (t.render.without index).parked = (s.render.without index).parked
    rw [parked_without, parked_without, beside.parked]
  · change wait ∈ (s.render.without index).parked at mem
    rw [parked_without] at mem
    exact beside.candid (List.mem_of_mem_eraseIdx mem)

/-- Code that is done for tasks at one place of both lists puts in the same for both. -/
theorem abreast_takeUp {x : RenderM Unit} (keeps : Keeps (fun _ => True) x) (evenly : Evenly sources e (fun _ => True) x)
    (beside : Beside sources e s t) (sound : s.render.Sound) (sound' : t.render.Sound)
    (found : s.render.tasks[index]? = some task) (found' : t.render.tasks[index]? = some task') :
    Abreast (Peers sources e) (fun _ u v => Beside sources e u v ∧ Done index task task' s.render t.render u.render v.render)
      ((takeUp task.chunk task.wait x).run { s with render := s.render.without index })
      ((takeUp task'.chunk task'.wait x).run { t with render := t.render.without index }) := by
  have begins {s : Stage} {task : Task} (sound : s.render.Sound) (found : s.render.tasks[index]? = some task) :
      (Stage.takenUp task.chunk task.wait { s with render := s.render.without index }).render.Writable :=
    writable_takenUp (sound.remove found).1 (sound.remove found).2
  have left := begins sound found
  have right := begins sound' found'
  refine (evenly left right (beside.without index)).echo
    (echoes_takeUp fun ran => ((keeps _ left.sound left.writing).ends ran).1)
    (echoes_takeUp fun ran => ((keeps _ right.sound right.writing).ends ran).1) fun u v u' v' h l r => ?_
  obtain ⟨-, after, alongside⟩ := h
  obtain ⟨⟨_, _, _, rfl⟩, -, inserts⟩ := l
  obtain ⟨⟨_, _, _, rfl⟩, -, inserts'⟩ := r
  refine ⟨after.of_renders after.peers ⟨rfl, rfl, rfl⟩ ⟨rfl, rfl, rfl⟩, alongside.more, alongside.more', fun labels => ?_⟩
  obtain ⟨added, one, other⟩ := alongside.adds labels
  exact ⟨added, inserts one, inserts' other⟩

/-- Visits of tasks at one place of both lists find nothing to do, or do the same. -/
theorem abreast_visit (answers : e.Answers sources) (beside : Beside sources e s t) (sound : s.render.Sound)
    (sound' : t.render.Sound) (found : s.render.tasks[index]? = some task) (found' : t.render.tasks[index]? = some task') :
    Abreast (Peers sources e) (fun progressed u v => Beside sources e u v ∧ (progressed = false → u = s ∧ v = t) ∧
        (progressed = true → Done index task task' s.render t.render u.render v.render))
      ((visit (exec nesting) index task).run s) ((visit (exec nesting) index task').run t) := by
  have parked {r : Render} {task : Task} (found : r.tasks[index]? = some task) : r.parked[index]? = some task.wait := by
    rw [Render.parked, List.getElem?_map, found]
    rfl
  have same : task'.wait = task.wait := by
    have one := parked found
    rw [← beside.parked, parked found'] at one
    exact Option.some.inj one
  have candid := beside.candid (List.mem_of_getElem? (parked found))
  cases wait : task.wait with
  | load name context =>
    rw [wait] at candid
    exact candid.elim
  | text future resume =>
    rw [wait] at candid
    have polled (s : Stage) {task : Task} (wait : task.wait = .text future resume) :
        (poll (exec nesting) task.wait).run s = .ok (.ok ((future s.host).map fun outcome =>
          ofExcept outcome >>= fun text => do let _ ← (resume text).run (exec nesting)), s) := by
      rw [wait]
      exact run_pollText ..
    have polled' := polled t (same.trans wait)
    have polled := polled s wait
    rw [beside.host] at polled'
    cases there : future s.host with
    | none =>
      rw [there] at polled polled'
      rw [run_visit_none polled, run_visit_none polled']
      exact .done ⟨beside, fun _ => ⟨rfl, rfl⟩, nofun⟩
    | some outcome =>
      rw [there] at polled polled'
      rw [run_visit_some polled, run_visit_some polled']
      obtain ⟨keeps, evenly⟩ := works_outcome (keeps_resume (keeps_exec nesting) resume) (fun text =>
        (evenly_program (keeps_exec nesting) (evenly_exec answers nesting) (candid text)).bind fun _ _ => .pure trivial) outcome
      exact (abreast_takeUp keeps evenly beside sound sound' found found').bind fun _ _ _ h =>
        .done ⟨h.1, nofun, fun _ => h.2⟩

/-! ### All rounds -/

theorem abreast_settle (answers : e.Answers sources) {progressed : Bool} (level : Level sources e told told' s t) :
    Abreast (fun _ _ => False) (fun _ u v => Level sources e told told' u v)
      ((settle (exec nesting) steps index progressed).run s) ((settle (exec nesting) steps index progressed).run t) := by
  induction steps generalizing s t index progressed with
  | zero => exact .halt _
  | succ steps ih =>
    unfold settle
    rw [run_bind, run_get, run_bind, run_get]
    dsimp only
    rw [level.progress]
    split
    · exact .done level
    · next pending =>
      have pending : s.render.progress = .pending := by simpa using pending
      have pending' := level.progress.trans pending
      have together := level.pending pending
      have resting := level.left.resting (by simp [pending])
      have resting' := level.right.resting (by simp [pending'])
      have both : (t.render.tasks[index]?).map (·.wait) = (s.render.tasks[index]?).map (·.wait) := by
        have parked := congrArg (·[index]?) together.beside.parked
        unfold Render.parked at parked
        rwa [List.getElem?_map, List.getElem?_map] at parked
      cases found : s.render.tasks[index]? with
      | none =>
        rw [found] at both
        rw [Option.map_eq_none_iff.mp both]
        dsimp only
        split
        · exact ih level
        · exact .done level
      | some task =>
        rw [found] at both
        obtain ⟨task', found', -⟩ := Option.map_eq_some_iff.mp both
        rw [found']
        dsimp only
        refine (abreast_visit answers together.beside resting.sound resting'.sound found found').attempt.bind
          fun o u v visited => ?_
        obtain ⟨ran, ran', failing, ending⟩ := visited
        obtain ⟨progress, events, after, -⟩ := (safe_visit (keeps_exec nesting) resting found).ends ran
        obtain ⟨progress', events', after', -⟩ := (safe_visit (keeps_exec nesting) resting' found').ends ran'
        cases o with
        | error error => exact ih (level_fail (failing error rfl) (progress.trans pending) (progress'.trans pending')
            after.idle after'.idle error)
        | ok progressed =>
          obtain ⟨beside, still, done⟩ := ending progressed rfl
          cases progressed with
          | false =>
            obtain ⟨rfl, rfl⟩ := still rfl
            exact ih level
          | true =>
            have filled := together.fill pending pending' resting.sound resting'.sound found found' beside (done rfl)
              ⟨progress, events⟩ ⟨progress', events'⟩
            exact ih (level_flush filled (progress.trans pending) (progress'.trans pending') after after')

/-- As long as nothing has been told, the chunks hold the whole draft. -/
theorem trails_of_draft {ids : List ChunkId} (silent : r.events = []) (pending : r.progress = .pending)
    (linked : r.chunks.Linked ids) : Trails "" r (r.draft ids) := by
  unfold Trails Render.untold
  rw [pending, silent]
  exact ⟨ids, linked, rfl⟩

theorem trails_of_finish {config : Config} {id : ChunkId} {cs : Chunks} {added : Draft}
    (adds : Adds { config, writers := [Chunks.root] } (r.labelled label) added) (finished : r.chunks.finish id = .ok cs)
    (silent : r.events = []) (pending : r.progress = .pending) :
    Trails "" (labelled label { r with chunks := cs, writers := r.writers.tail }) added := by
  obtain ⟨ids, linked, drafted⟩ := draft_root adds finished
  rw [← drafted]
  exact trails_of_draft silent pending linked

/-- The job of two new renders writes the same draft. -/
theorem abreast_begin (answers : e.Answers sources) (peers : Peers sources e s.toWorld t.toWorld) {config config' : Config}
    (begun : s.render = { config }) (begun' : t.render = { config := config' })
    (depth : config.maxPartialDepth = e.config.maxPartialDepth)
    (depth' : config'.maxPartialDepth = e.config.maxPartialDepth) (job : Job) :
    Abreast (Peers sources e) (fun _ u v => u.render.events = [] → v.render.events = [] → u.render.progress = .pending →
        v.render.progress = .pending → Together sources e "" "" u v)
      ((within Chunks.root (job.run (exec nesting))).run s) ((within Chunks.root (job.run (exec nesting))).run t) := by
  obtain ⟨w, _⟩ := s
  obtain ⟨w', _⟩ := t
  cases begun
  cases begun'
  have writable (config : Config) : Render.Writable { config, writers := [Chunks.root] } :=
    ⟨(sound_new config).1.enter (sound_new config).2, List.cons_ne_nil _ _⟩
  have beside : Beside sources e (.entered Chunks.root { w with render := { config } })
      (.entered Chunks.root { w' with render := { config := config' } }) :=
    ⟨⟨peers.left, depth, nofun⟩, ⟨peers.right, depth', nofun⟩, peers.host, rfl, nofun⟩
  have sides := evenly_job answers (keeps_exec nesting) (evenly_exec answers nesting) job (writable config)
    (writable config') beside
  refine sides.echo (echoes_within fun ran => (sides.of_left ran).elim fun _ h => h.2.2.left)
    (echoes_within fun ran => (sides.of_right ran).elim fun _ h => h.2.2.right) fun u v u' v' h l r => ?_
  obtain ⟨-, after, alongside⟩ := h
  obtain ⟨-, last, cs, -, finished, rfl⟩ := l
  obtain ⟨-, last', cs', -, finished', rfl⟩ := r
  intro events events' pending pending'
  obtain ⟨_, left, right⟩ := alongside.adds (labels_of_length after.length_eq (.load "" {}))
  refine ⟨after.of_renders after.peers ⟨rfl, rfl, rfl⟩ ⟨rfl, rfl, rfl⟩, left.failed, right.failed,
    fun {label label'} labels => ?_⟩
  obtain ⟨added, one, other⟩ := alongside.adds labels
  exact ⟨added, trails_of_finish one finished events pending, trails_of_finish other finished' events' pending'⟩

theorem abreast_start (answers : e.Answers sources) (peers : Peers sources e s.toWorld t.toWorld) {config config' : Config}
    (begun : s.render = { config }) (begun' : t.render = { config := config' })
    (depth : config.maxPartialDepth = e.config.maxPartialDepth)
    (depth' : config'.maxPartialDepth = e.config.maxPartialDepth) (job : Job) :
    Abreast (fun _ _ => False) (fun _ u v => Level sources e [] [] u v) ((start (job.run (exec nesting))).run s)
      ((start (job.run (exec nesting))).run t) := by
  refine (abreast_begin answers peers begun begun' depth depth' job).attempt.bind fun o u v ran => ?_
  obtain ⟨ran, ran', failing, ending⟩ := ran
  have facts {s u : Stage} {config : Config} (begun : s.render = { config })
      (ran : (within Chunks.root (job.run (exec nesting))).run s = .ok (o, u)) := by
    obtain ⟨sound, spare⟩ := sound_new config
    have confined := (safe_within (keeps_job nesting job) (begun ▸ sound) (begun ▸ spare)).ends ran
    rw [begun] at confined
    exact pending_of_confined confined
  obtain ⟨pending, events, idle, resting⟩ := facts begun ran
  obtain ⟨pending', events', idle', resting'⟩ := facts begun' ran'
  refine .done ?_
  cases o with
  | error error => exact level_fail (failing error rfl) pending pending' idle idle' error
  | ok _ => exact level_flush (ending () rfl events events' pending pending') pending pending' (resting rfl) (resting' rfl)

end Stencil
