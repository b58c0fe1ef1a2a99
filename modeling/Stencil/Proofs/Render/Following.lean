import Mathlib.Logic.Relation
import Stencil.Proofs.Render.Driving
import Stencil.Proofs.Render.Readings

/-! What a render tells while its futures get done. The job begins a draft, and work that is taken up fills a gap of it. So
    the draft keeps its readings, and what has been told stands in front of it. -/

namespace Stencil

open RenderM Render

/-- The text of an event. -/
def Event.text : Event → String
  | .data text => text
  | .finished | .failed _ => ""

/-- The text of events. -/
def Event.join (events : List Event) : String := String.join (events.map (·.text))

/-- The text that waits to be told. -/
def Render.untold (r : Render) : String := Event.join r.events

namespace Event

theorem join_append (events events' : List Event) : join (events ++ events') = join events ++ join events' := by
  unfold join
  rw [List.map_append, String.join_append]

theorem join_singleton (event : Event) : join [event] = event.text := by
  show String.join [event.text] = _
  rw [String.join_cons, String.join_nil, String.append_empty]

theorem join_cons (event : Event) (events : List Event) : join (event :: events) = event.text ++ join events :=
  String.join_cons

end Event

variable {hosts : Host → Prop} {e : Engine} {depth : Nat} {start draft draft' : Draft} {text : List Char}
  {heard : String} {r r' : Render} {s t : Stage} {error : Error}

/-! ### Filling gaps -/

/-- A gap has been filled by what some run of its work adds. -/
def Fills (hosts : Host → Prop) (e : Engine) (draft draft' : Draft) : Prop := ∃ before wait after added nesting,
  wait.Pure hosts ∧ Does hosts e (exec nesting) wait added ∧ draft = before ++ .gap wait :: after ∧
    draft' = before ++ added ++ after

theorem Fills.reads_before (fills : Fills hosts e draft draft') (reads : Reads hosts e depth draft' text) :
    ∃ deeper, Reads hosts e deeper draft text := by
  obtain ⟨before, wait, after, added, nesting, -, does, rfl, rfl⟩ := fills
  obtain ⟨_, text₃, rfl, reads, reads₃⟩ := reads.split
  obtain ⟨text₁, text₂, rfl, reads₁, reads₂⟩ := reads.split
  refine ⟨depth + 1, ?_⟩
  rw [List.append_assoc]
  exact (reads₁.mono (Nat.le_succ _)).append (.gap does reads₂ (reads₃.mono (Nat.le_succ _)))

theorem Fills.reads_after (pure : e.Pure hosts) (fills : Fills hosts e draft draft')
    (reads : Reads hosts e depth draft text) : ∃ deeper, Reads hosts e deeper draft' text := by
  obtain ⟨before, wait, after, added, nesting, waits, ⟨x, s, t, leads, ready, ran, adds⟩, rfl, rfl⟩ := fills
  obtain ⟨text₁, _, rfl, reads₁, reads⟩ := reads.split
  cases reads with
  | @gap depth _ _ filling _ text₂ text₃ does reads₂ reads₃ =>
    obtain ⟨x', s', t', leads', ready', ran', adds'⟩ := does
    have agrees := (matches_leads pure (agrees_below pure depth) waits leads' leads).agrees
    obtain ⟨deeper, reads₂'⟩ := (agrees ready' ready ran' ran adds' adds).2 text₂ reads₂
    refine ⟨max (depth + 1) deeper, ?_⟩
    rw [← List.append_assoc]
    exact ((reads₁.mono (Nat.le_max_left ..)).append (reads₂'.mono (Nat.le_max_right ..))).append
      (reads₃.mono (Nat.le_max_left ..))

abbrev Becomes (hosts : Host → Prop) (e : Engine) : Draft → Draft → Prop := Relation.ReflTransGen (Fills hosts e)

theorem Becomes.reads_before (becomes : Becomes hosts e draft draft') (reads : Reads hosts e depth draft' text) :
    ∃ deeper, Reads hosts e deeper draft text := by
  induction becomes generalizing depth with
  | refl => exact ⟨depth, reads⟩
  | tail _ fills ih =>
    obtain ⟨deeper, reads⟩ := fills.reads_before reads
    exact ih reads

theorem Becomes.reads_after (pure : e.Pure hosts) (becomes : Becomes hosts e draft draft')
    (reads : Reads hosts e depth draft text) : ∃ deeper, Reads hosts e deeper draft' text := by
  induction becomes with
  | refl => exact ⟨depth, reads⟩
  | tail _ fills ih =>
    obtain ⟨deeper, reads⟩ := ih
    exact fills.reads_after pure reads

/-! ### What a render has told -/

/-- What has been told stands in front of a draft; the chunks of a render that is pending hold the rest. -/
def Trails (heard : String) (r : Render) (draft : Draft) : Prop :=
  match r.progress with
  | .pending => ∃ ids, r.chunks.Linked ids ∧ draft = Draft.ofText (heard ++ r.untold) ++ r.draft ids
  | .complete => draft = Draft.ofText (heard ++ r.untold)
  | .failed => ∃ rest, draft = Draft.ofText (heard ++ r.untold) ++ rest

/-- What has been told is the front of the draft, and all of it once the render is complete. -/
theorem Trails.eq_append (h : Trails heard r draft) : ∃ rest, draft = Draft.ofText (heard ++ r.untold) ++ rest ∧
    (r.progress = .complete → rest = []) := by
  unfold Trails at h
  cases progress : r.progress with
  | pending =>
    rw [progress] at h
    obtain ⟨ids, -, same⟩ := h
    exact ⟨_, same, fun no => by cases no⟩
  | complete =>
    rw [progress] at h
    exact ⟨[], h.trans (List.append_nil _).symm, fun _ => rfl⟩
  | failed =>
    rw [progress] at h
    obtain ⟨rest, same⟩ := h
    exact ⟨rest, same, fun no => by cases no⟩

theorem untold_flush (pending : r.progress = .pending) : r.flush.untold = r.untold ++ r.chunks.flush.1 := by
  have telling (text : String) : Event.join (told text) = text := by
    unfold told
    split
    · next empty => exact (String.isEmpty_iff.mp empty).symm
    · exact Event.join_singleton (.data text)
  have ending : Event.join (if r.chunks.flush.2.isFlushed then [.finished] else []) = "" := by
    split <;> rfl
  unfold Render.untold
  rw [flush_eq pending]
  dsimp only
  rw [Event.join_append, Event.join_append, telling, ending, String.append_empty]

theorem Trails.flush (h : Trails heard r draft) (pending : r.progress = .pending) (sound : r.Sound) :
    Trails heard r.flush draft := by
  unfold Trails at h
  rw [pending] at h
  obtain ⟨ids, linked, rfl⟩ := h
  have told : Draft.ofText (heard ++ r.flush.untold) =
      Draft.ofText (heard ++ r.untold) ++ Draft.ofText r.chunks.flush.1 := by
    rw [untold_flush pending, ← String.append_assoc, Draft.ofText_append (heard ++ r.untold)]
  have same := flush_eq pending
  by_cases all : r.chunks.flush.2.isFlushed = true
  · have complete : r.flush.progress = .complete := by
      rw [same]
      exact if_pos all
    unfold Trails
    rw [complete]
    dsimp only
    rw [told, sound.draft_eq_flush (linked.isFlushed_flush.mp all) linked]
  · have still : r.flush.progress = .pending := by
      rw [same]
      exact if_neg all
    have chunks : r.flush.chunks = r.chunks.flush.2 := by
      rw [same]
    have left : r.flush.draft ids = draft { r with chunks := r.chunks.flush.2 } ids :=
      draft_congr fun x _ => pieces_congr (by rw [chunks]) (by rw [same])
    unfold Trails
    rw [still]
    refine ⟨ids, chunks ▸ linked.flush.1, ?_⟩
    rw [told, left, List.append_assoc, sound.draft_flush linked]

theorem Trails.fail (h : Trails heard r draft) (untold : r'.untold = r.untold)
    (failed : r'.progress = .failed) : Trails heard r' draft := by
  obtain ⟨rest, same, -⟩ := h.eq_append
  unfold Trails
  rw [failed]
  dsimp only
  rw [untold]
  exact ⟨rest, same⟩

theorem Trails.of_eq (h : Trails heard r draft) (same : r' = { r with loads := r'.loads }) : Trails heard r' draft := by
  rw [same]
  exact h

theorem Trails.tell {heard' : String} {events : List Event} (h : Trails heard r draft)
    (same : heard' ++ Event.join events = heard ++ r.untold) : Trails heard' { r with events } draft := by
  unfold Trails at h ⊢
  rw [show heard' ++ Render.untold { r with events } = _ from same]
  exact h

/-- A task has its gap in the draft; what is put in for the task comes in place of the gap. -/
theorem Trails.opens {index : Nat} {task : Task} (h : Trails heard r draft) (pending : r.progress = .pending)
    (sound : r.Sound) (found : r.tasks[index]? = some task) : ∃ front back, draft = front ++ .gap task.wait :: back ∧
      (∀ wait, .gap wait ∈ front ++ back → ∃ other ∈ r.tasks.eraseIdx index, other.wait = wait) ∧
      ∀ {r' added}, Inserts { r with tasks := r.tasks.eraseIdx index } r' task.chunk added → r'.progress = r.progress →
        r'.events = r.events → Trails heard r' (front ++ added ++ back) := by
  unfold Trails at h
  rw [pending] at h
  obtain ⟨all, linkedAll, rfl⟩ := h
  -- Without the task, some chunks stand before its gap and some behind; the filling comes between them.
  obtain ⟨sound', spare⟩ := sound.remove found
  obtain ⟨ids, linked⟩ := sound'.linked
  obtain ⟨before, after, rfl⟩ := List.append_of_mem (linked.mem_of_isOpen spare.1)
  obtain ⟨gapped, linkedGap, drafted⟩ := (inserts_task sound found).draft linked
  obtain rfl := linkedAll.unique linkedGap
  let left : Render := { r with tasks := r.tasks.eraseIdx index }
  refine ⟨Draft.ofText (heard ++ r.untold) ++ left.draft (before ++ [task.chunk]), left.draft after, ?_, ?_, ?_⟩
  · rw [drafted, ← List.append_assoc, ← List.append_assoc, List.append_assoc _ [Cell.gap task.wait]]
    rfl
  · intro wait mem
    rw [List.append_assoc, ← draft_append] at mem
    rcases List.mem_append.mp mem with mem | mem
    · obtain ⟨_, -, no⟩ := List.mem_map.mp mem
      cases no
    · exact left.exists_task_of_gap_mem mem
  · intro r' added filled progress events
    obtain ⟨ids', linkedFilled, drafted'⟩ := filled.draft linked
    unfold Trails
    rw [progress, pending]
    have untold : r'.untold = r.untold := by
      unfold Render.untold
      rw [events]
    refine ⟨ids', linkedFilled, ?_⟩
    rw [untold, drafted', ← List.append_assoc, ← List.append_assoc]

/-- What is put in for a task fills its gap. -/
theorem Trails.fill {n index : Nat} {task : Task} {added : Draft} (h : Trails heard r draft)
    (pending : r.progress = .pending) (sound : r.Sound) (found : r.tasks[index]? = some task)
    (waits : task.wait.Pure hosts) (does : Does hosts e (exec n) task.wait added)
    (filled : Inserts { r with tasks := r.tasks.eraseIdx index } r' task.chunk added)
    (progress : r'.progress = r.progress) (events : r'.events = r.events) : ∃ draft', Fills hosts e draft draft' ∧ Trails heard r' draft' := by
  obtain ⟨front, back, rfl, -, opens⟩ := h.opens pending sound found
  exact ⟨_, ⟨front, task.wait, back, added, n, waits, does, rfl, rfl⟩, opens filled progress events⟩

/-! ### Following a draft -/

/-- Some run of the job, where code may write, adds this. -/
def Begins (hosts : Host → Prop) (e : Engine) (job : Job) (start : Draft) : Prop := ∃ n s t, Ready hosts e s ∧
  (job.run (exec n)).run s = .ok (.ok (), t) ∧ Adds s.render t.render start

/-- What has been told stands in front of a draft that the draft of the job becomes. -/
def Tells (hosts : Host → Prop) (e : Engine) (job : Job) (heard : String) (r : Render) : Prop := ∃ start draft,
  Begins hosts e job start ∧ Becomes hosts e start draft ∧ Trails heard r draft

/-- Unless the render has failed, all that it uses is pure. What it tells follows the job, or the job failed at once. -/
structure Follows (hosts : Host → Prop) (e : Engine) (job : Job) (heard : String) (s : Stage) : Prop where
  driven : s.render.Driven
  pure : s.render.progress ≠ .failed → s.Pure hosts e
  tells : Tells hosts e job heard s.render ∨ s.render.progress = .failed ∧ heard ++ s.render.untold = ""

variable {job : Job} {heard' : String}

theorem Follows.tell (h : Follows hosts e job heard s) {events : List Event}
    (same : heard' ++ Event.join events = heard ++ s.render.untold) :
    Follows hosts e job heard' { s with render := { s.render with events } } := by
  refine ⟨h.driven.told events, fun alive => ?_, ?_⟩
  · have pure := h.pure alive
    exact ⟨pure.host, pure.engine, pure.config, pure.loads, pure.tasks⟩
  · rcases h.tells with ⟨start, draft, begins, becomes, trails⟩ | ⟨failed, nothing⟩
    · exact Or.inl ⟨start, draft, begins, becomes, trails.tell same⟩
    · exact Or.inr ⟨failed, same.trans nothing⟩

theorem Follows.wait (h : Follows hosts e job heard s) {host : Host} (there : hosts host) :
    Follows hosts e job heard { s with host } := by
  refine ⟨h.driven, fun alive => ?_, h.tells⟩
  have pure := h.pure alive
  exact ⟨there, pure.engine, pure.config, pure.loads, pure.tasks⟩

variable {n index : Nat} {task : Task} {progressed : Bool} {outcome : Except Error Bool} {render : Renderer} {wait : Wait}

theorem polls_poll : Polls hosts e render wait (poll render wait) := by
  cases wait with
  | text future resume => exact polls_pollText
  | load name context => exact polls_pollTemplate

theorem run_visit_ok (done : (visit render index task).run s = .ok (.ok progressed, t)) :
    ∃ work u, (poll render task.wait).run s = .ok (.ok work, u) ∧ match work with
      | none => progressed = false ∧ t = u
      | some x => progressed = true ∧ (takeUp task.chunk task.wait x).run
          { u with render := { u.render with tasks := u.render.tasks.eraseIdx index } } = .ok (.ok (), t) := by
  obtain ⟨work, u, polled, done⟩ := run_bind_eq_ok_ok.mp done
  refine ⟨work, u, polled, ?_⟩
  cases work with
  | none =>
    cases done
    exact ⟨rfl, rfl⟩
  | some x =>
    obtain ⟨_, _, erased, done⟩ := run_bind_eq_ok_ok.mp done
    cases erased
    obtain ⟨_, _, taken, done⟩ := run_bind_eq_ok_ok.mp done
    cases done
    exact ⟨rfl, taken⟩

/-- Work that ends well fills the gap of its task. -/
theorem Follows.visit (pure : e.Pure hosts) (h : Follows hosts e job heard s) (pending : s.render.progress = .pending)
    (found : s.render.tasks[index]? = some task) (done : (visit (exec n) index task).run s = .ok (.ok progressed, t)) :
    t.Pure hosts e ∧ Tells hosts e job heard t.render := by
  have resting := h.driven.resting (by simp [pending])
  obtain ⟨progress, events, -, -⟩ := (safe_visit (keeps_exec n) resting found).ends done
  obtain ⟨work, u, polled, taken⟩ := run_visit_ok done
  have same := (quiet_poll (keeps_exec n) task.wait s).passes (passes_last polled)
  obtain ⟨pureU, leads⟩ := polls_poll (h.pure (by simp [pending])) polled
  obtain ⟨start, draft, begins, becomes, trails⟩ := h.tells.resolve_right (by simp [pending])
  have trailsU := trails.of_eq same
  cases work with
  | none =>
    obtain ⟨-, rfl⟩ := taken
    exact ⟨pureU, start, draft, begins, becomes, trailsU⟩
  | some x =>
    obtain ⟨-, taken⟩ := taken
    rcases leads x rfl with leads | ⟨error, rfl⟩
    · have foundU : u.render.tasks[index]? = some task := by
        rw [same]
        exact found
      have waits := pureU.tasks task (List.mem_of_getElem? foundU)
      have sound := (resting.of_eq same).sound
      obtain ⟨sound', spare⟩ := sound.remove foundU
      have erased : Stage.Pure hosts e { u with render := { u.render with tasks := u.render.tasks.eraseIdx index } } :=
        ⟨pureU.host, pureU.engine, pureU.config, pureU.loads,
          fun other mem => pureU.tasks other (List.mem_of_mem_eraseIdx mem)⟩
      have writes := (matches_leads pure (agrees_below pure 0) waits leads leads).left
      obtain ⟨pureT, s', t', added, ready, ran, adds, filled⟩ := inserts_takeUp writes erased sound' spare taken
      have progressU : u.render.progress = s.render.progress := by
        rw [same]
      have eventsU : u.render.events = s.render.events := by
        rw [same]
      obtain ⟨draft', fills, trailsT⟩ := trailsU.fill (progressU.trans pending) sound foundU waits
        ⟨x, s', t', leads, ready, ran, adds⟩ filled (progress.trans progressU.symm) (events.trans eventsU.symm)
      exact ⟨pureT, start, draft', begins, becomes.tail fills, trailsT⟩
    · obtain ⟨_, inside, -⟩ := run_takeUp_ok taken
      obtain ⟨_, _, _, _, ran, -⟩ := run_within_ok inside
      cases ran

theorem follows_flush (pure : t.Pure hosts e) (pending : t.render.progress = .pending) (resting : t.render.Resting)
    (tells : Tells hosts e job heard t.render) : Follows hosts e job heard (t.close (.ok ())) := by
  obtain ⟨start, draft, begins, becomes, trails⟩ := tells
  have driven : (t.close (.ok ())).render.Driven := resting.flush pending
  have trails' : Trails heard (t.close (.ok ())).render draft := trails.flush pending resting.sound
  refine ⟨driven, fun _ => ?_, Or.inl ⟨start, draft, begins, becomes, trails'⟩⟩
  show Stage.Pure hosts e { t with render := t.render.flush }
  rw [flush_eq pending]
  exact ⟨pure.host, pure.engine, pure.config, pure.loads, pure.tasks⟩

theorem follows_fail (pending : t.render.progress = .pending) (idle : t.render.writers = [])
    (events : t.render.events = r.events) (told : Tells hosts e job heard r ∨ heard ++ r.untold = "") :
    Follows hosts e job heard (t.close (.error error)) := by
  have driven : (t.close (.error error)).render.Driven := driven_close pending idle fun no => by cases no
  have closed := close_error_eq pending error
  have failed : (t.close (.error error)).render.progress = .failed := by
    rw [closed]
    rfl
  have untold : (t.close (.error error)).render.untold = r.untold := by
    unfold Render.untold
    rw [closed]
    show Event.join (t.render.events ++ [.failed error]) = _
    rw [events, Event.join_append, Event.join_singleton]
    exact String.append_empty
  refine ⟨driven, fun no => absurd failed no, ?_⟩
  rcases told with ⟨start, draft, begins, becomes, trails⟩ | nothing
  · exact Or.inl ⟨start, draft, begins, becomes, trails.fail untold failed⟩
  · exact Or.inr ⟨failed, by rw [untold, nothing]⟩

theorem safe_follows_drive (pure : e.Pure hosts) (steps : Nat) (h : Follows hosts e job heard s) :
    (drive steps).Safe (·.render.Owned) (· = .outOfSteps) s fun _ t => Follows hosts e job heard t := by
  have visited {s t : Stage} {index : Nat} {task : Task} {outcome : Except Error Bool}
      (h : Follows hosts e job heard s) (pending : s.render.progress = .pending)
      (found : s.render.tasks[index]? = some task) (ran : (visit (exec steps) index task).run s = .ok (outcome, t)) :=
    (safe_visit (keeps_exec steps) (h.driven.resting (by simp [pending])) found).ends ran
  refine safe_settle_of (I := Follows hosts e job heard) (fun h => h.driven) (keeps_exec steps)
    (fun h pending found ran => ?still) (fun h pending found ran => ?done) (fun h pending found ran => ?failed)
    steps 0 false h
  case still =>
    obtain ⟨-, -, -, same⟩ := visited h pending found ran
    obtain ⟨pure', tells⟩ := h.visit pure pending found ran
    exact ⟨h.driven.of_eq (same rfl), fun _ => pure', Or.inl tells⟩
  case done =>
    obtain ⟨progress, -, resting, -⟩ := visited h pending found ran
    obtain ⟨pure', tells⟩ := h.visit pure pending found ran
    exact follows_flush pure' (progress.trans pending) resting tells
  case failed =>
    obtain ⟨progress, events, resting, -⟩ := visited h pending found ran
    have tells := h.tells.resolve_right (by simp [pending])
    exact follows_fail (progress.trans pending) resting.idle events (Or.inl tells)

theorem safe_follows_start (pure : e.Pure hosts) (fresh : s.Pure hosts e) {config : Config}
    (begun : s.render = { config }) :
    (Render.start (job.run (exec n))).Safe (·.render.Owned) (· = .outOfSteps) s fun _ t => Follows hosts e job "" t := by
  refine safe_start_of (fun h => h.driven) (keeps_job n job) begun fun outcome t ran confined => ?_
  rw [begun] at confined
  obtain ⟨pending, events, idle, resting⟩ := pending_of_confined confined
  have silent {r : Render} (none : r.events = []) : "" ++ r.untold = "" := by
    unfold Render.untold
    rw [none]
    rfl
  cases outcome with
  | ok _ =>
    obtain ⟨pure', -, -, s', t', ids, ready, done, linked, adds⟩ :=
      adds_root (matches_job pure 0 n n job).left fresh begun ran
    refine follows_flush pure' pending (resting rfl) ⟨_, _, ⟨n, s', t', ready, done, adds⟩, .refl, ?_⟩
    unfold Trails
    rw [pending, silent events]
    exact ⟨ids, linked, rfl⟩
  | error error =>
    have none : s.render.events = [] := by
      rw [begun]
    exact follows_fail pending idle (events.trans none.symm) (Or.inr (silent none))

end Stencil
