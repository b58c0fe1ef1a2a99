import Stencil.Proofs.Render.Driving

/-! Rounds through the work put off. A driver goes through it until a whole round finds nothing to do; then whatever is left
    is blocked, and to look at it once more finds nothing and changes nothing. -/

namespace Stencil

open RenderM Render

variable {render : Renderer} {s t : Stage} {host : Host} {loads : Dict Load} {wait other : Wait}

/-! ### Blocked work -/

namespace Load

variable {cache : Bool} {limit rounds : Nat} {name : String} {answer : Future Loaded} {e : Engine}

theorem advance_of_none (none : answer host = none) :
    advance host cache limit rounds name answer e = (.waiting name answer rounds, e) := by
  cases rounds <;> simp [advance, none]

/-- A load that does not settle is left with a loader that has not answered. -/
theorem advance_waits (unsettled : (advance host cache limit rounds name answer e).1.result? = none) :
    ∃ name' answer' rounds', (advance host cache limit rounds name answer e).1 = .waiting name' answer' rounds' ∧
      answer' host = none := by
  induction rounds generalizing name answer e with
  | zero =>
    cases answered : answer host with
    | none => exact ⟨name, answer, 0, by rw [advance_of_none answered], answered⟩
    | some outcome => cases outcome <;> simp [advance, answered, result?] at unsettled
  | succ rounds ih =>
    cases answered : answer host with
    | none => exact ⟨name, answer, rounds + 1, by rw [advance_of_none answered], answered⟩
    | some outcome =>
      obtain error | _ | _ | pointed := outcome
      · simp [advance, answered, result?] at unsettled
      · simp [advance, answered, result?] at unsettled
      · simp [advance, answered, result?] at unsettled
      · unfold advance at unsettled ⊢
        simp only [answered] at unsettled ⊢
        split at unsettled
        · cases unsettled
        · cases unsettled
        · exact ih unsettled

theorem poll_waits {load : Load} (unsettled : (load.poll host cache limit e).1.result? = none) :
    ∃ name answer rounds, (load.poll host cache limit e).1 = .waiting name answer rounds ∧ answer host = none := by
  cases load with
  | waiting name answer rounds => exact advance_waits unsettled
  | settled result => cases unsettled

end Load

/-- To look at the work finds nothing to do and leaves everything as it is. -/
def Wait.Blocked (host : Host) (loads : Dict Load) : Wait → Prop
  | .text future _ => future host = none
  | .load name _ => Dict.get? name loads = none ∨
    ∃ asked answer rounds, Dict.insert name (.waiting asked answer rounds) loads = loads ∧ answer host = none

/-- To look at blocked work changes nothing. -/
theorem run_poll_of_blocked (blocked : wait.Blocked s.host s.render.loads) :
    (poll render wait).run s = .ok (.ok none, s) := by
  cases wait with
  | text future resume =>
    rw [poll, pollText, run_bind, run_get]
    dsimp only
    rw [show future s.host = none from blocked]
    rfl
  | load name context =>
    suffices polled : (pollLoad name).run s = .ok (.ok none, s) by
      rw [poll, pollTemplate, run_bind_of_ok polled]
      rfl
    rw [pollLoad, run_bind, run_get]
    dsimp only
    rcases blocked with none | ⟨asked, answer, rounds, kept, unanswered⟩
    · rw [none]
      rfl
    · have found : Dict.get? name s.render.loads = some (.waiting asked answer rounds) := by
        rw [← kept, Dict.get?_insert_self]
      rw [found]
      let r := (Load.waiting asked answer rounds).poll s.host s.render.config.cache s.render.config.maxPartialDepth s.engine
      have same : r = (.waiting asked answer rounds, s.engine) := Load.advance_of_none unanswered
      change Except.ok (Except.ok r.1.result?, { s with engine := r.2, render :=
        { s.render with loads := Dict.insert name r.1 s.render.loads } }) = _
      rw [same]
      dsimp only
      rw [kept]
      rfl

/-- Where a load is taken further but does not settle, blocked work stays blocked, and what waits for the load is
    blocked too. -/
theorem Wait.Blocked.insert {name asked : String} {answer : Future Loaded} {rounds : Nat} (unanswered : answer host = none)
    (blocked : other.Blocked host loads) :
    other.Blocked host (Dict.insert name (.waiting asked answer rounds) loads) := by
  cases other with
  | text _ _ => exact blocked
  | load name' _ =>
    by_cases same : name = name'
    · subst same
      exact Or.inr ⟨asked, answer, rounds, Dict.insert_insert_self .., unanswered⟩
    · refine blocked.imp (fun none => ?_) fun ⟨asked', answer', rounds', kept, unanswered'⟩ =>
        ⟨asked', answer', rounds', Dict.insert_insert_of_ne same _ kept, unanswered'⟩
      rwa [Dict.get?_insert_of_ne (Ne.symm same)]

/-- Where a look at work finds nothing to do, the work is blocked from then on, and so is what was blocked before. -/
theorem blocked_of_poll (polled : (poll render wait).run s = .ok (.ok none, t)) :
    t.host = s.host ∧ t.render = { s.render with loads := t.render.loads } ∧ wait.Blocked t.host t.render.loads ∧
      ∀ {other : Wait}, other.Blocked s.host s.render.loads → other.Blocked t.host t.render.loads := by
  cases wait with
  | text future resume =>
    rw [poll, pollText, run_bind, run_get] at polled
    dsimp only at polled
    split at polled
    · next closed =>
      cases polled
      exact ⟨rfl, rfl, closed, id⟩
    · cases polled
    · cases polled
  | load name context =>
    obtain ⟨result, u, polled, rest⟩ := run_bind_eq_ok_ok.mp polled
    obtain _ | _ | _ := result <;> cases rest
    rw [pollLoad, run_bind, run_get] at polled
    dsimp only at polled
    split at polled
    · next none =>
      cases polled
      exact ⟨rfl, rfl, Or.inl none, id⟩
    · next load found =>
      let r := load.poll s.host s.render.config.cache s.render.config.maxPartialDepth s.engine
      change Except.ok (Except.ok r.1.result?, _) = _ at polled
      obtain ⟨unsettled, same⟩ := Prod.mk.inj (Except.ok.inj polled)
      obtain ⟨asked, answer, rounds, waits, unanswered⟩ := Load.poll_waits (Except.ok.inj unsettled)
      subst same
      refine ⟨rfl, rfl, ?_⟩
      change Wait.Blocked s.host (Dict.insert name r.1 s.render.loads) _ ∧
        ∀ {other : Wait}, _ → other.Blocked s.host (Dict.insert name r.1 s.render.loads)
      rw [show r.1 = _ from waits]
      exact ⟨Or.inr ⟨asked, answer, rounds, Dict.insert_insert_self .., unanswered⟩, .insert unanswered⟩

/-! ### Rounds -/

namespace RenderM

theorem ended_fail (s : Stage) (error : Error) : (s.fail error).render.progress ≠ .pending := by
  unfold Stage.fail
  split
  · next ended => exact ended
  · exact nofun

theorem run_settle_of_ended (ended : s.render.progress ≠ .pending) (render : Renderer) (steps index : Nat)
    (progressed : Bool) : (settle render (steps + 1) index progressed).run s = .ok (.ok (), s) := by
  change (if s.render.progress ≠ .pending then pure () else _ : RenderM Unit).run s = _
  rw [if_pos ended]
  rfl

theorem settle_of_ended {steps index : Nat} {progressed : Bool} {o : Except Error Unit}
    (ended : s.render.progress ≠ .pending) (ran : (settle render steps index progressed).run s = .ok (o, t)) : t = s := by
  cases steps with
  | zero => cases ran
  | succ steps =>
    rw [run_settle_of_ended ended] at ran
    cases ran
    rfl

/-- What a step of going through the work put off can do. -/
theorem settle_cases {steps index : Nat} {progressed : Bool} {o : Except Error Unit}
    (ran : (settle render (steps + 1) index progressed).run s = .ok (o, t)) :
    (t = s ∧ (s.render.progress ≠ .pending ∨ progressed = false ∧ s.render.tasks[index]? = none)) ∨
    (progressed = true ∧ (settle render steps 0 false).run s = .ok (o, t)) ∨
    ∃ task, s.render.tasks[index]? = some task ∧
      ((∃ u, (visit render index task).run s = .ok (.ok false, u) ∧
        (settle render steps (index + 1) progressed).run u = .ok (o, t)) ∨
      (∃ u, (visit render index task).run s = .ok (.ok true, u) ∧
        (settle render steps index true).run (u.close (.ok ())) = .ok (o, t)) ∨
      ∃ u error, (visit render index task).run s = .ok (.error error, u) ∧ t = u.fail error) := by
  change (if s.render.progress ≠ .pending then pure () else _ : RenderM Unit).run s = _ at ran
  split at ran
  · next ended =>
    cases ran
    exact Or.inl ⟨rfl, Or.inl ended⟩
  · split at ran
    · next none =>
      cases progressed with
      | true => exact Or.inr (Or.inl ⟨rfl, ran⟩)
      | false =>
        cases ran
        exact Or.inl ⟨rfl, Or.inr ⟨rfl, none⟩⟩
    · next task found =>
      refine Or.inr (Or.inr ⟨task, found, ?_⟩)
      rcases run_bind_eq_ok.mp ran with ⟨_, tried, -⟩ | ⟨outcome, u, tried, rest⟩
      · obtain ⟨_, _, no⟩ := run_attempt_eq_ok.mp tried
        cases no
      · have visited := run_attempt_eq_ok_ok.mp tried
        obtain error | _ | _ := outcome
        · exact Or.inr (Or.inr ⟨u, error, visited, settle_of_ended (ended_fail u error) rest⟩)
        · exact Or.inl ⟨u, visited, rest⟩
        · exact Or.inr (Or.inl ⟨u, visited, rest⟩)

/-- A look at work that finds nothing to do is a poll that finds nothing. -/
theorem poll_of_visit {index : Nat} {task : Task} (visited : (visit render index task).run s = .ok (.ok false, t)) :
    (poll render task.wait).run s = .ok (.ok none, t) := by
  obtain ⟨found, u, polled, rest⟩ := run_bind_eq_ok_ok.mp visited
  cases found with
  | none =>
    cases rest
    exact polled
  | some work =>
    obtain ⟨_, _, -, rest⟩ := run_bind_eq_ok_ok.mp rest
    obtain ⟨_, _, -, rest⟩ := run_bind_eq_ok_ok.mp rest
    cases rest

/-- After all that can be done without waiting, what is left is blocked, and there are fewer tasks than there were
    steps. -/
theorem blocked_settle {steps index : Nat} {progressed : Bool} {o : Except Error Unit}
    (visited : progressed = false → ∀ i < index, ∀ task, s.render.tasks[i]? = some task →
      task.wait.Blocked s.host s.render.loads)
    (ran : (settle render steps index progressed).run s = .ok (o, t)) (pending : t.render.progress = .pending) :
    (∀ task ∈ t.render.tasks, task.wait.Blocked t.host t.render.loads) ∧ t.render.tasks.length < steps + index := by
  induction steps generalizing s index progressed with
  | zero => cases ran
  | succ steps ih =>
    rcases settle_cases ran with ⟨rfl, ended | ⟨round, none⟩⟩ | ⟨-, rest⟩ | ⟨task, found, turn⟩
    · exact absurd pending ended
    · -- A whole round has gone by without work, so all the tasks have been visited in it.
      have all := List.getElem?_eq_none_iff.mp none
      refine ⟨fun task mem => ?_, by omega⟩
      obtain ⟨i, lt, rfl⟩ := List.mem_iff_getElem.mp mem
      exact visited round i (Nat.lt_of_lt_of_le lt all) _ (List.getElem?_eq_getElem lt)
    · obtain ⟨blocked, few⟩ := ih (fun _ _ no => absurd no (Nat.not_lt_zero _)) rest
      exact ⟨blocked, by omega⟩
    rcases turn with ⟨u, visit, rest⟩ | ⟨u, -, rest⟩ | ⟨u, error, -, rfl⟩
    · obtain ⟨-, render, blocked, stays⟩ := blocked_of_poll (poll_of_visit visit)
      obtain ⟨blocked, few⟩ := ih (fun round i lt other at' => by
        rw [render] at at'
        rcases Nat.lt_succ_iff_lt_or_eq.mp lt with lt | rfl
        · exact stays (visited round i lt other at')
        · cases found.symm.trans at'
          exact blocked) rest
      exact ⟨blocked, by omega⟩
    · obtain ⟨blocked, few⟩ := ih (fun no => by cases no) rest
      exact ⟨blocked, by omega⟩
    · exact absurd pending (ended_fail u error)

/-- Where all work is blocked, a round finds nothing to do and changes nothing. -/
theorem run_settle_of_blocked {steps index : Nat} (blocked : ∀ task ∈ s.render.tasks, task.wait.Blocked s.host s.render.loads)
    (enough : s.render.tasks.length < steps + index) (within : index ≤ s.render.tasks.length) :
    (settle render steps index false).run s = .ok (.ok (), s) := by
  induction steps generalizing index with
  | zero => omega
  | succ steps ih =>
    by_cases ended : s.render.progress ≠ .pending
    · exact run_settle_of_ended ended ..
    rw [settle, run_bind_of_ok (run_get s)]
    dsimp only
    rw [if_neg ended]
    cases found : s.render.tasks[index]? with
    | none => rfl
    | some task =>
      have visited : (visit render index task).attempt.run s = .ok (.ok (.ok false), s) := by
        refine run_attempt_eq_ok_ok.mpr ?_
        rw [visit, run_bind_of_ok (run_poll_of_blocked (blocked task (List.mem_of_getElem? found)))]
        rfl
      dsimp only
      rw [run_bind_of_ok visited]
      have lt := (List.getElem?_eq_some_iff.mp found).1
      exact ih (by omega) lt

/-- Starting a render takes in the outcome of its job, whatever it is. -/
theorem ok_of_start {job : RenderM Unit} {outcome : Except Error Unit} (ran : (start job).run s = .ok (outcome, t)) :
    outcome = .ok () := by
  rcases run_bind_eq_ok.mp ran with ⟨_, tried, -⟩ | ⟨_, _, -, closed⟩
  · obtain ⟨_, _, no⟩ := run_attempt_eq_ok.mp tried
    cases no
  · cases closed
    rfl

end RenderM

namespace OutputStream

variable {o o' : OutputStream} {w w' : World} {steps enough : Nat}

/-- All that can be done without waiting has been done in no more than a number of steps. -/
structure Still (enough : Nat) (w : World) (o : OutputStream) : Prop where
  called : o.job = none
  blocked : o.progress = .pending → (∀ task ∈ o.render.tasks, task.wait.Blocked w.host o.render.loads) ∧
    o.render.tasks.length < enough

theorem still_advance (ran : o.advance steps w = .ok (w', o')) : o'.Still steps w' := by
  obtain ⟨⟨outcome, t⟩, worked, same⟩ := bind_eq_ok.mp ran
  cases same
  have drives {s : Stage} (ran : (drive steps).run s = .ok (outcome, t)) (pending : t.render.progress = .pending) :=
    blocked_settle (fun _ _ no => absurd no (Nat.not_lt_zero _)) ran pending
  refine ⟨rfl, ?_⟩
  unfold work at worked
  split at worked
  · exact drives worked
  · rcases run_bind_eq_ok.mp worked with ⟨_, started, -⟩ | ⟨_, u, -, rest⟩
    · cases ok_of_start started
    · exact drives rest

/-- Then nothing changes until the world does. -/
theorem Still.advance (still : o.Still enough w) (le : enough ≤ steps) (pos : 0 < steps) :
    o.advance steps w = .ok (w, o) := by
  have driven : (drive steps).run { w with render := o.render } = .ok (.ok (), { w with render := o.render }) := by
    by_cases pending : o.progress = .pending
    · obtain ⟨blocked, few⟩ := still.blocked pending
      exact run_settle_of_blocked blocked (Nat.lt_of_lt_of_le few le) (Nat.zero_le _)
    · obtain ⟨steps, rfl⟩ := Nat.exists_eq_succ_of_ne_zero (Nat.ne_of_gt pos)
      exact run_settle_of_ended pending ..
  unfold OutputStream.advance work
  rw [still.called]
  dsimp only
  rw [show (do pure (); drive steps : RenderM Unit) = drive steps from rfl, driven, ← still.called]
  rfl

/-- Nothing is done for a render that has ended. -/
theorem advance_of_ended (called : o.job = none) (ended : o.progress ≠ .pending) (enough : 0 < steps) :
    o.advance steps w = .ok (w, o) :=
  Still.advance ⟨called, fun pending => absurd pending ended⟩ (Nat.zero_le steps) enough

end OutputStream

end Stencil
