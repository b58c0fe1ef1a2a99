import Stencil.Proofs.Render.Driving
import Stencil.Proofs.Render.Prompt

/-! Renders that wait. A render waits for parked work, except where a helper went on after work that it had put off failed:
    the chunk kept for that work is never ended, so the render never completes. -/

namespace Stencil

open RenderM

namespace Render

variable {r : Render} {s t : Stage} {render : Renderer} {job : RenderM Unit}

theorem Driven.pending_iff (h : r.Driven) (alive : r.progress ≠ .failed) (tasks : r.tasks = []) :
    r.progress = .pending ↔ r.failed ≠ [] := by
  have count := (h.resting alive).openCount
  have complete := h.complete alive
  rw [tasks, List.length_nil, Nat.zero_add] at count
  rw [count, List.length_eq_zero_iff] at complete
  rw [ne_eq, ← complete]
  cases progress : r.progress with
  | pending => simp
  | complete => simp
  | failed => exact absurd progress alive

/-! ### The first call -/

/-- What starting a render tells: one error, or one text at most and the end, or one text at most while it waits. -/
theorem events_start (hj : Keeps (fun _ => True) job) (config : Config) (begun : s.render = { config })
    {outcome : Except Error Unit} (done : (start job).run s = .ok (outcome, t)) : outcome = .ok () ∧
      ((∃ e, t.render.progress = .failed ∧ t.render.events = [.failed e]) ∨
      (∃ text, t.render.progress = .complete ∧ t.render.events = told text ++ [.finished]) ∨
      ∃ text, t.render.progress = .pending ∧ t.render.events = told text) := by
  obtain ⟨sound, spare⟩ := sound_new config
  rw [← begun] at sound spare
  rcases run_bind_eq_ok.mp done with ⟨e, no, -⟩ | ⟨inner, u, ran, closed⟩
  · obtain ⟨_, _, no⟩ := run_attempt_eq_ok.mp no
    cases no
  · obtain ⟨_, ran, same⟩ := run_attempt_eq_ok.mp ran
    cases same
    have confined := (safe_within hj sound spare).ends ran
    rw [begun] at confined
    obtain ⟨pending, none, -, -⟩ := pending_of_confined confined
    cases closed
    refine ⟨rfl, ?_⟩
    cases inner with
    | ok _ =>
      refine Or.inr ?_
      show (∃ text, u.render.flush.progress = .complete ∧ u.render.flush.events = told text ++ [.finished]) ∨
        ∃ text, u.render.flush.progress = .pending ∧ u.render.flush.events = told text
      rw [flush_eq pending, none]
      dsimp only
      split
      · exact Or.inl ⟨_, rfl, rfl⟩
      · exact Or.inr ⟨_, rfl, List.append_nil _⟩
    | error e =>
      refine Or.inl ⟨e, ?_⟩
      show (u.close (.error e)).render.progress = .failed ∧ (u.close (.error e)).render.events = [.failed e]
      rw [close_error_eq pending]
      exact ⟨rfl, by simp [abandon, none]⟩

theorem drive_idle {steps : Nat} (tasks : s.render.tasks = []) {outcome : Except Error Unit}
    (done : (drive steps).run s = .ok (outcome, t)) : t = s := by
  cases steps with
  | zero => cases done
  | succ steps =>
    unfold drive settle at done
    rw [run_bind_of_ok (run_get s)] at done
    dsimp only at done
    split at done
    · cases done
      rfl
    · rw [tasks, List.getElem?_nil] at done
      cases done
      rfl

end Render

namespace OutputStream

open Render

variable {e : Engine} {job : Job} {listeners : List Listener} {steps : Nat} {w w' : World} {o : OutputStream}
  {progress : Progress}

/-- If no work is ever parked during the first call, it tells one error, or one text at most and the end, or, where failed
    work has left a chunk behind, one text at most. -/
theorem first_call (ran : runUntilStalled steps w { OutputStream.new e job with listeners } = .ok (progress, w', o))
    (prompt : ∀ s, (work steps (.new e job)).Passes { w with render := { config := e.config } } s → s.render.tasks = []) :
    (progress = .pending ↔ progress ≠ .failed ∧ o.render.failed ≠ []) ∧
    ∃ events, o.delivered = events.flatMap (deliveries listeners) ∧
      ((∃ error, progress = .failed ∧ events = [.failed error]) ∨
      (∃ text, progress = .complete ∧ events = told text ++ [.finished]) ∨
      ∃ text, progress = .pending ∧ events = told text) := by
  obtain ⟨⟨v, u⟩, advanced, same⟩ := bind_eq_ok.mp ran
  obtain ⟨⟨outcome, t⟩, done, same'⟩ := bind_eq_ok.mp advanced
  have awaits : Awaits { OutputStream.new e job with listeners } := Or.inl ⟨⟨e.config, rfl⟩, by simp [OutputStream.new]⟩
  have driven := (driven_advance awaits advanced).2
  cases same
  cases same'
  rw [tellAll_eq]
  rcases run_bind_eq_ok.mp done with ⟨_, failed, -⟩ | ⟨_, s, started, driving⟩
  · cases (events_start (keeps_job steps job) e.config rfl failed).1
  · have tasks : s.render.tasks = [] := prompt s (passes_bind started passes_self)
    have told' := (events_start (keeps_job steps job) e.config rfl started).2
    cases drive_idle tasks driving
    refine ⟨⟨fun pending => ?_, fun both => (driven.pending_iff both.1 tasks).mpr both.2⟩, t.render.events,
      rfl, told'⟩
    have alive : t.render.progress ≠ .failed := by
      intro no
      cases pending.symm.trans no
    exact ⟨alive, (driven.pending_iff alive tasks).mp pending⟩

end OutputStream

/-- After a call of the driver a pending render waits for parked work, unless the only thing left is the chunk of work that
    failed while a helper went on. A first call in which every future is done when it is looked at tells one error, or one
    text at most and the end, and never leaves the render pending, with the same exception. -/
theorem pending_waits_unless_failed_work_left {o : OutputStream} (reached : Reached o) (called : o.job = none) :
    ((o.progress = .pending → o.render.tasks ≠ []) ↔
      o.progress = .failed ∨ o.render.tasks ≠ [] ∨ o.render.failed = []) ∧
    ∀ e job listeners steps w w' progress,
      OutputStream.runUntilStalled steps w { OutputStream.new e job with listeners } = .ok (progress, w', o) →
      (∀ s, (OutputStream.work steps (.new e job)).Passes { w with render := { config := e.config } } s →
        s.render.tasks = []) →
      (progress ≠ .pending ↔ progress = .failed ∨ o.render.failed = []) ∧
      ∃ events, o.delivered = events.flatMap (deliveries listeners) ∧
        ((∃ error, progress = .failed ∧ events = [.failed error]) ∨
        (∃ text, progress = .complete ∧ events = Render.told text ++ [.finished]) ∨
        ∃ text, progress = .pending ∧ events = Render.told text) := by
  refine ⟨?_, fun e job listeners steps w w' progress ran prompt => ?_⟩
  · have driven : o.render.Driven := by
      rcases reached.awaits with ⟨-, some⟩ | ⟨-, driven⟩
      · exact absurd called some
      · exact driven
    constructor
    · intro waits
      by_cases alive : o.progress = .failed
      · exact Or.inl alive
      · by_cases tasks : o.render.tasks = []
        · refine Or.inr (Or.inr ?_)
          by_contra failed
          exact waits ((driven.pending_iff alive tasks).mpr failed) tasks
        · exact Or.inr (Or.inl tasks)
    · rintro (failed | tasks | none) pending
      · cases failed.symm.trans pending
      · exact tasks
      · intro tasks
        have alive : o.render.progress ≠ .failed := by
          intro no
          cases no.symm.trans pending
        exact (driven.pending_iff alive tasks).mp pending none
  · obtain ⟨stuck, events⟩ := OutputStream.first_call ran prompt
    refine ⟨?_, events⟩
    rw [ne_eq, stuck, not_and_or, not_not, not_not]

/-- A helper that writes a text which is there at once. -/
def promptText : Helper := fun _ _ _ => .defer (.ready (.ok "x")) .writeText (Program.orFail fun _ => .done)

def promptEngine : Engine := { helpers := [("h", promptText)] }

theorem prompt_promptEngine : promptEngine.Prompt fun _ => True where
  helpers {name helper} found := by
    have same : helper = promptText := by
      simp only [promptEngine, Dict.get?] at found
      split at found
      · exact (Option.some.inj found).symm
      · cases found
    subst same
    intro context bodies params
    refine ⟨fun _ _ => Option.some_ne_none _, fun text o => ?_, fun o => ?_⟩
    · cases o <;> trivial
    · cases o <;> trivial
  functions _ _ _ _ := trivial
  loader no := by cases no

theorem pending_waits_unless_failed_work_left_promptText :
    ∃ o, Reached o ∧ o.job = none ∧ o.progress = .complete ∧ o.render.finished.length = 1 ∧
      ∃ events, o.delivered = events.flatMap (deliveries [⟨0, .sink⟩]) ∧
        ∃ text, events = Render.told text ++ [.finished] := by
  let job : Job := .template ⟨none, [.write "a", .helperTag "h" none [] .empty, .write "b"], []⟩ {}
  let w : World := { engine := promptEngine }
  let stream : OutputStream := { OutputStream.new promptEngine job with listeners := [⟨0, .sink⟩] }
  have seen : (stream.runUntilStalled 9 w).toOption.any (fun r => decide (r.1 = .complete) && r.2.2.job.isNone &&
      decide (r.2.2.progress = .complete) && r.2.2.render.finished.length == 1) = true := by decide +kernel
  obtain ⟨⟨progress, _, o⟩, run, seen⟩ := exists_eq_ok seen
  simp only [Bool.and_eq_true, decide_eq_true_eq, Option.isNone_iff_eq_none, beq_iff_eq] at seen
  obtain ⟨⟨⟨rfl, called⟩, complete⟩, finished⟩ := seen
  have reached : Reached o := .runUntilStalled (.attach ⟨0, .sink⟩ (.new promptEngine job)) run
  obtain ⟨-, first⟩ := pending_waits_unless_failed_work_left reached called
  obtain ⟨-, events, delivered, told⟩ := first _ _ _ _ _ _ _ run fun s pass =>
    prompt_work (fun _ _ _ _ => trivial) ⟨trivial, prompt_promptEngine, rfl, fun found => by cases found⟩ pass
  rcases told with ⟨_, no, -⟩ | ⟨text, -, same⟩ | ⟨_, no, -⟩
  · cases no
  · exact ⟨o, reached, called, complete, finished, events, delivered, text, same⟩
  · cases no

/-- A helper that puts work off which fails at once, and goes on. -/
def recovering : Helper := fun _ _ _ => .defer (.ready (.ok "")) (fun _ => .fail (.ofMessage "boom")) fun _ => .done

/-- The first call for a text, the helper that recovers, and a text. -/
def recoveringRun : Except Halt (Progress × World × OutputStream) :=
  let e : Engine := { helpers := [("h", recovering)] }
  (e.stream (.template ⟨none, [.write "a", .helperTag "h" none [] .empty, .write "b"], []⟩) {}).runUntilStalled 9
    { engine := e }

/-- A render with nothing to wait for is pending for ever. -/
theorem pending_without_parked_work :
    ¬ ∀ o, Reached o → o.job = none → o.progress = .pending → o.render.tasks ≠ [] := by
  intro waits
  have seen : recoveringRun.toOption.any (fun r => r.2.2.job.isNone && decide (r.2.2.progress = .pending) &&
      r.2.2.render.tasks.isEmpty) = true := by decide +kernel
  obtain ⟨⟨_, _, o⟩, run, seen⟩ := exists_eq_ok seen
  simp only [Bool.and_eq_true, decide_eq_true_eq, Option.isNone_iff_eq_none, List.isEmpty_iff] at seen
  obtain ⟨⟨called, pending⟩, tasks⟩ := seen
  exact waits o (.runUntilStalled (.new _ _) run) called pending tasks

end Stencil
