import Stencil.Proofs.Render.Playing
import Stencil.Proofs.Render.Rounds
import Stencil.Proofs.Render.Sharing

/-! The loads of a render that waits. A name that no answer of the loader points to is asked for once: all that miss it wait
    for one load and are given what it settles with. An answer that points to a name asks for it without a look at the
    loads under way. -/

namespace Stencil

/-- The name that the load under a key waits for. -/
def Render.awaited? (r : Render) (key : String) : Option String := (Dict.get? key r.loads).bind Load.awaited?

/-- The load of the name is shared as long as the render does not fail. -/
def Sharing.Until (A : Stage → Prop) (n : String) (s t : Stage) : Prop :=
  Sharing A n s t ∨ ∃ u error, Sharing A n s u ∧ t = u.fail error

/-- The load that is waited for, if it is one, has not settled. -/
def Wait.Unanswered (loads : Dict Load) (wait : Wait) : Prop :=
  ∀ name context, wait = .load name context → ∀ result, Dict.get? name loads ≠ some (.settled result)

theorem Wait.Blocked.unanswered {host : Host} {loads : Dict Load} {wait : Wait} (blocked : wait.Blocked host loads) :
    wait.Unanswered loads := by
  rintro name context rfl result found
  rcases blocked with none | ⟨asked, answer, rounds, kept, -⟩
  · cases none.symm.trans found
  · rw [← kept, Dict.get?_insert_self] at found
    cases found

theorem Stage.silent_fail (s : Stage) (error : Error) : s.engine.Silent (s.fail error).engine := by
  unfold Stage.fail
  split
  · exact .refl _
  · exact Engine.silent_record ..

namespace Sharing

variable {A : Stage → Prop} {n : String} {s t u : Stage}

theorem until_trans (h : Sharing A n s t) (h' : Sharing.Until A n t u) : Sharing.Until A n s u :=
  h'.imp h.trans fun ⟨v, error, sharing, same⟩ => ⟨v, error, h.trans sharing, same⟩

theorem Until.asked_le (h : Sharing.Until A n s t) :
    t.engine.asked.count n + s.engine.asides ≤ s.engine.asked.count n + s.render.misses n + t.engine.asides := by
  obtain sharing | ⟨u, error, sharing, rfl⟩ := h
  · have := sharing.asked_le
    omega
  · have silent := u.silent_fail error
    rw [silent.asked, silent.asides]
    have := sharing.asked_le
    omega

end Sharing

namespace RenderM

open Render

variable {A : Stage → Prop} {n : String} {render : Renderer} {s t : Stage}

theorem orderly_fail (h : s.Orderly n) (error : Error) : (s.fail error).Orderly n := by
  unfold Stage.fail
  split
  · exact h
  · exact ⟨(s.engine.silent_record _ _).avoids h.engine, nofun, nofun⟩

theorem spares_close : Spares A n (close (.ok ())) := by
  refine .modify (fun s => .refl s.engine) (fun s => ?_) fun s task mem => ?_
  · show s.render.flush.loads = s.render.loads
    rw [flush_output]
  · change task ∈ s.render.flush.tasks at mem
    rw [flush_output] at mem
    exact mem

/-- A close and what comes behind it. -/
theorem until_close {x : RenderM Unit} {o : Except Error Unit} (orderly : s.Orderly n)
    (admitted : ∀ u, (close (.ok ()) >>= fun _ => x).Passes s u → A u)
    (rest : (s.close (.ok ())).Orderly n → (∀ u, x.Passes (s.close (.ok ())) u → A u) →
      x.run (s.close (.ok ())) = .ok (o, t) → t.Orderly n ∧ Sharing.Until A n (s.close (.ok ())) t)
    (ran : (close (.ok ()) >>= fun _ => x).run s = .ok (o, t)) : t.Orderly n ∧ Sharing.Until A n s t := by
  obtain ⟨closed, sharing, -⟩ := spares_close.all s orderly trivial (fun u pass => admitted u (passes_bind_left pass)) _
    (s.close (.ok ())) rfl
  obtain ⟨final, sharing'⟩ := rest closed (fun u pass => admitted u (passes_bind rfl pass)) ran
  exact ⟨final, sharing.until_trans sharing'⟩

section

variable (hr : ∀ body context, SharesAll A n (fun _ => True) (render body context))

include hr

theorem until_settle {steps index : Nat} {progressed : Bool} {o : Except Error Unit} (orderly : s.Orderly n)
    (admitted : ∀ u, (settle render steps index progressed).Passes s u → A u)
    (ran : (settle render steps index progressed).run s = .ok (o, t)) : t.Orderly n ∧ Sharing.Until A n s t := by
  induction steps generalizing s index progressed with
  | zero => cases ran
  | succ steps ih =>
    have here := admitted s passes_self
    change ∀ u, (if s.render.progress ≠ .pending then pure () else _ : RenderM Unit).Passes s u → A u at admitted
    change (if s.render.progress ≠ .pending then pure () else _ : RenderM Unit).run s = _ at ran
    by_cases ended : s.render.progress ≠ .pending
    · rw [if_pos ended] at ran
      cases ran
      exact ⟨orderly, Or.inl (.refl here)⟩
    rw [if_neg ended] at ran admitted
    cases found : s.render.tasks[index]? with
    | none =>
      rw [found] at ran admitted
      cases progressed with
      | true => exact ih orderly admitted ran
      | false =>
        cases ran
        exact ⟨orderly, Or.inl (.refl here)⟩
    | some task =>
      rw [found] at ran admitted
      have visits := shares_visit hr index task s orderly (List.mem_of_getElem? found) fun u pass =>
        admitted u (passes_bind_left (passes_attempt.mpr pass))
      rcases run_bind_eq_ok.mp ran with ⟨_, tried, -⟩ | ⟨outcome, u, tried, rest⟩
      · obtain ⟨_, _, no⟩ := run_attempt_eq_ok.mp tried
        cases no
      obtain ⟨after, sharing, -⟩ := visits _ u (run_attempt_eq_ok_ok.mp tried)
      have behind := fun v pass => admitted v (passes_bind tried pass)
      obtain error | _ | _ := outcome
      · obtain rfl := settle_of_ended (ended_fail u error) rest
        exact ⟨orderly_fail after error, Or.inr ⟨u, error, sharing, rfl⟩⟩
      · obtain ⟨final, sharing'⟩ := ih after behind rest
        exact ⟨final, sharing.until_trans sharing'⟩
      · obtain ⟨final, sharing'⟩ := until_close after behind ih rest
        exact ⟨final, sharing.until_trans sharing'⟩

end

/-! ### What is left waiting -/

/-- The work that follows what a load has settled with. -/
def follow (render : Renderer) (context : Context) : Except Error Template → RenderM Unit
  | .ok t => template render t context
  | .error e => throw e

/-- A poll of a load gives the work that follows what the load has settled with. -/
theorem poll_load {name : String} {context : Context} {found : Option (RenderM Unit)}
    (ran : (poll render (.load name context)).run s = .ok (.ok found, t)) :
    found = ((Dict.get? name t.render.loads).bind Load.result?).map (follow render context) ∧
      t.render = { s.render with loads := t.render.loads } ∧
      ∀ key, key ≠ name → Dict.get? key t.render.loads = Dict.get? key s.render.loads := by
  obtain ⟨result, u, polled, rest⟩ := run_bind_eq_ok_ok.mp ran
  have gives : found = result.map (follow render context) ∧ t = u := by
    obtain _ | _ | _ := result <;> cases rest <;> exact ⟨rfl, rfl⟩
  obtain ⟨rfl, rfl⟩ := gives
  rw [pollLoad, run_bind, run_get] at polled
  dsimp only at polled
  split at polled
  · next none =>
    cases polled
    rw [none]
    exact ⟨rfl, rfl, fun _ _ => rfl⟩
  · next load some =>
    cases polled
    refine ⟨?_, rfl, fun key ne => Dict.get?_insert_of_ne ne ..⟩
    show _ = ((Dict.get? name (Dict.insert name _ s.render.loads)).bind _).map _
    rw [Dict.get?_insert_self]
    rfl

/-- After all that can be done without waiting, no work waits for a load that has settled. -/
theorem unanswered_settle {steps : Nat} {o : Except Error Unit}
    (ran : (settle render steps 0 false).run s = .ok (o, t)) (pending : t.render.progress = .pending) :
    ∀ task ∈ t.render.tasks, task.wait.Unanswered t.render.loads :=
  fun task mem => ((blocked_settle (fun _ _ no => absurd no (Nat.not_lt_zero _)) ran pending).1 task mem).unanswered

theorem until_start {job : Job} {steps : Nat} {o : Except Error Unit} (orderly : s.Orderly n)
    (admitted : ∀ u, (start (job.run (exec steps))).Passes s u → A u)
    (ran : (start (job.run (exec steps))).run s = .ok (o, t)) :
    o = .ok () ∧ t.Orderly n ∧ (Sharing A n s t ∨ t.render.progress ≠ .pending ∧ Sharing.Until A n s t) := by
  rcases run_bind_eq_ok.mp ran with ⟨_, tried, -⟩ | ⟨outcome, u, tried, rest⟩
  · obtain ⟨_, _, no⟩ := run_attempt_eq_ok.mp tried
    cases no
  · obtain ⟨after, sharing, -⟩ := (shares_job (shares_exec steps) job).within Chunks.root s orderly trivial
      (fun u pass => admitted u (passes_bind_left (passes_attempt.mpr pass))) _ u (run_attempt_eq_ok_ok.mp tried)
    have behind := fun v pass => admitted v (passes_bind tried pass)
    cases rest
    cases outcome with
    | ok _ =>
      obtain ⟨closed, sharing', -⟩ := spares_close.all u after trivial behind _ (u.close (.ok ())) rfl
      exact ⟨rfl, closed, Or.inl (sharing.trans sharing')⟩
    | error error =>
      exact ⟨rfl, orderly_fail after error, Or.inr ⟨ended_fail u error, Or.inr ⟨u, error, sharing, rfl⟩⟩⟩

end RenderM

namespace OutputStream

open Render RenderM

variable {A : Stage → Prop} {n : String} {w w' : World} {o o' : OutputStream} {steps : Nat} {items : List Item}

/-- The stage from which a stream goes on. -/
def stage (w : World) (o : OutputStream) : Stage := { w with render := o.render }

theorem until_advance (orderly : (stage w o).Orderly n) (through : o.Through A steps w)
    (ran : o.advance steps w = .ok (w', o')) :
    (stage w' o').Orderly n ∧ Sharing.Until A n (stage w o) (stage w' o') ∧ (o'.progress = .pending →
      ∀ task ∈ o'.render.tasks, task.wait.Unanswered o'.render.loads) := by
  obtain ⟨⟨r, t⟩, worked, same⟩ := bind_eq_ok.mp ran
  cases same
  have drives {s : Stage} {r : Except Error Unit} (orderly : s.Orderly n)
      (admitted : ∀ u, (drive steps).Passes s u → A u) (ran : (drive steps).run s = .ok (r, t)) :
      t.Orderly n ∧ Sharing.Until A n s t ∧ (t.render.progress = .pending →
        ∀ task ∈ t.render.tasks, task.wait.Unanswered t.render.loads) := by
    obtain ⟨after, sharing⟩ := until_settle (shares_exec steps) orderly admitted ran
    exact ⟨after, sharing, unanswered_settle ran⟩
  unfold OutputStream.Through OutputStream.Passes at through
  unfold work at worked through
  cases waiting : o.job with
  | none =>
    rw [waiting] at worked through
    exact drives orderly through worked
  | some job =>
    rw [waiting] at worked through
    have passed := fun u pass => through u (passes_bind_left pass)
    rcases run_bind_eq_ok.mp worked with ⟨_, started, -⟩ | ⟨_, u, started, rest⟩
    · cases (until_start orderly passed started).1
    · obtain ⟨-, between, sharing | ⟨ended, sharing⟩⟩ := until_start orderly passed started
      · obtain ⟨after, sharing', unanswered⟩ := drives between (fun v pass => through v (passes_bind started pass)) rest
        exact ⟨after, sharing.until_trans sharing', unanswered⟩
      · obtain rfl := settle_of_ended ended rest
        exact ⟨between, sharing, fun pending => absurd pending ended⟩

theorem orderly_move {m : Move} (others : m.Others fun change => ∀ w, w.engine.Avoids n → (change w).engine.Avoids n)
    (orderly : (stage w o).Orderly n)
    (moved : o.move w m = .ok (items, w', o')) : (stage w' o').Orderly n := by
  rcases m.isCall_or with call | ⟨change, rfl⟩
  · rcases move_of_isCall call o with ⟨-, idle⟩ | ⟨steps, give, goes, same⟩
    · rw [idle] at moved
      cases moved
      exact orderly
    · rw [goes] at moved
      obtain ⟨⟨v, u⟩, advanced, moved⟩ := map_eq_ok.mp moved
      cases moved
      obtain ⟨after, -⟩ := until_advance (A := fun _ => True) orderly (fun _ _ => trivial) advanced
      obtain ⟨events, render⟩ := same u
      refine ⟨after.engine, ?_, ?_⟩
      · show ∀ {key load}, Dict.get? key (give u).2.render.loads = some load → _
        rw [render]
        exact after.loads
      · show ∀ task ∈ (give u).2.render.tasks, task.wait.Attended n (give u).2.render.loads
        rw [render]
        exact after.tasks
  · cases moved
    exact ⟨others w orderly.engine, orderly.loads, orderly.tasks⟩

end OutputStream

open OutputStream

/-- While a render runs, the loader is called with a name that none of its answers points to only where the render at work
    has no load of the name, and the load then begun is the only one. So a driver call calls it once at most, and not at all
    where there is a load, but for the renders on the side that begin, of which each has loads of its own. No other load
    waits for that name, what the load has settled with stays, work that missed the name waits only as long as the load
    does, and is given what it settles with. -/
theorem misses_share_load {A : Stage → Prop} {n : String} {w : World} (avoids : w.engine.Avoids n) (job : Job)
    (listeners : List Listener) {moves : List Move}
    (others : ∀ m ∈ moves, m.Others fun change => ∀ w, w.engine.Avoids n → (change w).engine.Avoids n)
    {items : List Item} {w₁ w₂ : World} {o₁ o₂ : OutputStream}
    (played : play w { OutputStream.new w.engine job with listeners } moves = .ok (items, w₁, o₁)) {steps : Nat}
    (through : o₁.Through A steps w₁) (advanced : o₁.advance steps w₁ = .ok (w₂, o₂)) :
    Sharing.Until A n (stage w₁ o₁) (stage w₂ o₂) ∧
    w₂.engine.asked.count n + w₁.engine.asides ≤
      w₁.engine.asked.count n + o₁.render.misses n + w₂.engine.asides ∧
    (∀ key, o₂.render.awaited? key = some n → key = n) ∧
    (∀ result, Dict.get? n o₁.render.loads = some (.settled result) →
      o₂.progress = .failed ∨ Dict.get? n o₂.render.loads = some (.settled result)) ∧
    (o₂.progress = .pending → ∀ task ∈ o₂.render.tasks, ∀ context, task.wait = .load n context →
      ∃ name answer rounds, Dict.get? n o₂.render.loads = some (.waiting name answer rounds)) ∧
    ∀ render context s t found, (Render.poll render (.load n context)).run s = .ok (.ok found, t) →
      found = ((Dict.get? n t.render.loads).bind Load.result?).map (RenderM.follow render context) := by
  have begins : (stage w { OutputStream.new w.engine job with listeners }).Orderly n := ⟨avoids, nofun, nofun⟩
  have orderly : (stage w₁ o₁).Orderly n := play_keeps (P := Move.Others _) orderly_move others begins played
  obtain ⟨after, sharing, unanswered⟩ := until_advance orderly through advanced
  refine ⟨sharing, sharing.asked_le, fun key awaits => ?_, fun result settled => ?_, fun pending task mem context same => ?_,
    fun _ _ _ _ _ polled => (RenderM.poll_load polled).1⟩
  · obtain ⟨load, found, waits⟩ := Option.bind_eq_some_iff.mp awaits
    have avoids := after.loads found
    cases load with
    | settled _ => cases waits
    | waiting name _ _ =>
      cases waits
      exact avoids.1 rfl
  · rcases sharing with sharing | ⟨u, error, sharing, final⟩
    · exact Or.inr (sharing.settled settled)
    · have here := sharing.settled settled
      have render : o₂.render = (u.fail error).render := congrArg Stage.render final
      by_cases ended : u.render.progress ≠ .pending
      · rw [Stage.fail, if_pos ended] at render
        exact Or.inr (render ▸ here)
      · rw [Stage.fail, if_neg ended] at render
        exact Or.inl (congrArg Render.progress render)
  · have some := after.tasks task mem context same
    obtain ⟨load, found⟩ := Option.isSome_iff_exists.mp some
    cases load with
    | waiting name answer rounds => exact ⟨name, answer, rounds, found⟩
    | settled result => exact absurd found (unanswered pending task mem n context same result)

/-- An engine whose loader answers one name with another, and all others with the text of a gate. -/
def pointingEngine : Engine where
  helpers := []
  loader := some ⟨fun _ name host =>
    if name = "a" then some (.ok (.redirect "c")) else (Future.gate "g" host).map (·.map .source)⟩

/-- The output of partials one after the other. -/
def partialsStream (names : List String) : OutputStream :=
  .new pointingEngine (.template ⟨none, names.map fun name => .partialTag (.static name) none [], []⟩ {})

/-- A call, and another once the gate is open. -/
def sharingMoves : List Move := [.runUntilStalled 9, .others fun w => { w with host := w.host.openGate "g" (.ok "ab") }]

/-- Two partials of one name wait for one load. -/
theorem misses_share_load_sharingMoves : ∃ w₁ o₁ w₂ o₂,
    play { engine := pointingEngine } (partialsStream ["p", "a", "p"]) sharingMoves = .ok ([], w₁, o₁) ∧
    o₁.advance 9 w₁ = .ok (w₂, o₂) ∧ o₁.render.tasks.length = 3 ∧ o₁.render.awaited? "p" = some "p" ∧
    Sharing.Until ((o₁.work 9).Passes (stage w₁ o₁)) "p" (stage w₁ o₁) (stage w₂ o₂) ∧ w₂.engine.asked = ["p", "a", "c"] ∧
    o₂.render.events = [.data "ab", .data "ab", .data "ab", .finished] := by
  have avoids : pointingEngine.Avoids "p" := by
    intro loader set asked name host points
    cases set
    dsimp only at points
    split at points
    · simp at points
    · cases gate : Future.gate "g" host with
      | none =>
        rw [gate] at points
        cases points
      | some outcome =>
        rw [gate] at points
        cases outcome <;> cases points
  have others : ∀ m ∈ sharingMoves, m.Others fun change => ∀ w, w.engine.Avoids "p" → (change w).engine.Avoids "p" := by
    simp only [sharingMoves, List.forall_mem_cons]
    exact ⟨trivial, fun _ h => h, nofun⟩
  have seen : (play { engine := pointingEngine } (partialsStream ["p", "a", "p"]) sharingMoves).toOption.any (fun r =>
      decide (r.1 = []) && decide (r.2.2.render.tasks.length = 3) && decide (r.2.2.render.awaited? "p" = some "p") &&
      (r.2.2.advance 9 r.2.1).toOption.any (fun r => decide (r.1.engine.asked = ["p", "a", "c"]) &&
        decide (r.2.render.events = [.data "ab", .data "ab", .data "ab", .finished]))) = true := by decide +kernel
  obtain ⟨⟨items, w₁, o₁⟩, played, seen⟩ := exists_eq_ok seen
  simp only [Bool.and_eq_true, decide_eq_true_eq] at seen
  obtain ⟨⟨⟨rfl, tasks⟩, awaits⟩, seen⟩ := seen
  obtain ⟨⟨w₂, o₂⟩, advanced, seen⟩ := exists_eq_ok seen
  simp only [Bool.and_eq_true, decide_eq_true_eq] at seen
  obtain ⟨sharing, -⟩ := misses_share_load avoids _ [] others played (fun _ => id) advanced
  exact ⟨w₁, o₁, w₂, o₂, played, advanced, tasks, awaits, sharing, seen.1, seen.2⟩

/-- An answer that points to a name makes a load under way wait for it, and a partial of that name makes another: the loader
    is called twice before it answers. -/
theorem two_loads_of_one_name : ¬ ∀ (e : Engine) (t : Template) (context : Context) (steps : Nat) (w : World)
    (o : OutputStream), (OutputStream.new e (.template t context)).advance steps { engine := e } = .ok (w, o) →
    ∀ name key key', o.render.awaited? key = some name → o.render.awaited? key' = some name → key = key' := by
  intro once
  have seen : ((partialsStream ["a", "c"]).advance 9 { engine := pointingEngine }).toOption.any (fun r =>
      decide (r.2.render.awaited? "a" = some "c") && decide (r.2.render.awaited? "c" = some "c")) = true := by
    decide +kernel
  obtain ⟨⟨w, o⟩, advanced, seen⟩ := exists_eq_ok seen
  simp only [Bool.and_eq_true, decide_eq_true_eq] at seen
  exact absurd (once _ _ _ _ w o advanced "c" "a" "c" seen.1 seen.2) (by decide)

end Stencil
