import Stencil.Proofs.Render.Events
import Stencil.Proofs.Render.Overlooking
import Stencil.Proofs.Render.Playing

/-! A render by an engine that does not keep templates and has a loader gives the same whatever templates are there, and
    leaves them as they are. -/

namespace Stencil

/-- The world with other templates in its engine. -/
def World.stock (w : World) (templates : Dict Template) : World := { w with engine := w.engine.stock templates }

/-- What other code does to a world makes no use of the templates, but may change them. It keeps no templates for
    renders. -/
structure World.Overlooking (change : World → World) : Prop where
  stock (w : World) (d : Dict Template) : w.engine.Uncached → ∃ d', change (w.stock d) = (change w).stock d'
  uncached (w : World) : w.engine.Uncached → (change w).engine.Uncached

namespace OutputStream

open RenderM

variable {w w' : World} {o o' : OutputStream}

/-- A stream in a world that holds no templates for it. -/
def Uncached (w : World) (o : OutputStream) : Prop := { w with render := o.render : Stage }.Uncached

theorem uncached_new (h : w.engine.Uncached) (job : Job) (listeners : List Listener) :
    Uncached w { OutputStream.new w.engine job with listeners } :=
  ⟨h, h.cache, fun _ no => nomatch no⟩

theorem overlooks_work (steps : Nat) (o : OutputStream) : Overlooks (fun _ => True) (o.work steps) := by
  unfold work
  split
  · exact overlooks_drive steps
  · next job _ => exact (overlooks_start steps job).bind fun _ _ => overlooks_drive steps

theorem advance_stock (uncached : Uncached w o) (steps : Nat) (d : Dict Template) :
    o.advance steps (w.stock d) = (o.advance steps w).map fun (w', o') => (w'.stock d, o') := by
  have same := (overlooks_work steps o).stock d uncached
  unfold advance
  rw [show ({ w.stock d with render := o.render } : Stage) = Stage.stock { w with render := o.render } d from rfl, same]
  cases (o.work steps).run { w with render := o.render } <;> rfl

theorem advance_uncached (uncached : Uncached w o) {steps : Nat} (ran : o.advance steps w = .ok (w', o')) :
    Uncached w' o' ∧ w'.engine.templates = w.engine.templates := by
  obtain ⟨⟨_, s⟩, worked, same⟩ := bind_eq_ok.mp ran
  cases same
  obtain ⟨after, templates, -⟩ := (overlooks_work steps o).leaves uncached worked
  exact ⟨after, templates⟩

/-! ### Moves -/

variable {moves : List Move} {items : List Item}

/-- A call goes the same way whatever templates the engine holds. -/
theorem move_stock (uncached : Uncached w o) {m : Move} (call : m.IsCall) (d : Dict Template) :
    o.move (w.stock d) m = (o.move w m).map fun (items, w', o') => (items, w'.stock d, o') := by
  rcases move_of_isCall call o with ⟨-, idle⟩ | ⟨steps, give, goes, -⟩
  · rw [idle, idle]
    rfl
  · rw [goes, goes, advance_stock uncached]
    cases o.advance steps w <;> rfl

/-- A call leaves the templates there. -/
theorem move_uncached (uncached : Uncached w o) {m : Move} (call : m.IsCall) (ran : o.move w m = .ok (items, w', o')) :
    Uncached w' o' ∧ w'.engine.templates = w.engine.templates := by
  rcases move_of_isCall call o with ⟨-, idle⟩ | ⟨steps, give, goes, same⟩
  · rw [idle] at ran
    cases ran
    exact ⟨uncached, rfl⟩
  · rw [goes] at ran
    obtain ⟨⟨v, u⟩, advanced, ran⟩ := map_eq_ok.mp ran
    cases ran
    obtain ⟨after, templates⟩ := advance_uncached uncached advanced
    obtain ⟨events, render⟩ := same u
    refine ⟨⟨after.engine, ?_, ?_⟩, templates⟩
    · show (give u).2.render.config.cache = false
      rw [render]
      exact after.cache
    · show ∀ task ∈ (give u).2.render.tasks, task.wait.Aloof
      rw [render]
      exact after.tasks

theorem uncached_of_move {m : Move} (others : m.Others World.Overlooking) (h : Uncached w o)
    (moved : o.move w m = .ok (items, w', o')) : Uncached w' o' := by
  rcases m.isCall_or with call | ⟨change, rfl⟩
  · exact (move_uncached h call moved).1
  · cases moved
    exact ⟨others.uncached w h.engine, h.cache, h.tasks⟩

/-- Moves go the same way whatever templates the engine holds. -/
theorem play_stock (uncached : Uncached w o) (others : ∀ m ∈ moves, m.Others World.Overlooking) (d : Dict Template) :
    ∃ d', play (w.stock d) o moves = (play w o moves).map fun (items, w', o') => (items, w'.stock d', o') := by
  induction moves generalizing w o d with
  | nil => exact ⟨d, rfl⟩
  | cons m moves ih =>
    have rest := fun m mem => others m (List.mem_cons_of_mem _ mem)
    -- A call leaves the templates as they are, other code may leave others.
    have first : ∃ d', o.move (w.stock d) m = (o.move w m).map fun (items, w', o') => (items, w'.stock d', o') := by
      rcases m.isCall_or with call | ⟨change, rfl⟩
      · exact ⟨d, move_stock uncached call d⟩
      · obtain ⟨d', same⟩ := (others _ List.mem_cons_self).stock w d uncached.engine
        exact ⟨d', congrArg (fun w => Except.ok ([], w, o)) same⟩
    obtain ⟨d₁, first⟩ := first
    cases moved : o.move w m with
    | error reason =>
      refine ⟨d, ?_⟩
      unfold play
      rw [first, moved]
      rfl
    | ok r =>
      obtain ⟨items, w₁, o₁⟩ := r
      have after := uncached_of_move (others _ List.mem_cons_self) uncached moved
      obtain ⟨d', goesOn⟩ := ih after rest d₁
      refine ⟨d', ?_⟩
      unfold play
      rw [first, moved]
      show (do let (rest, w, o) ← play (w₁.stock d₁) o₁ moves; pure (items ++ rest, w, o)) = _
      rw [goesOn]
      show _ = Except.map _ (do let (rest, w, o) ← play w₁ o₁ moves; pure (items ++ rest, w, o))
      cases play w₁ o₁ moves <;> rfl

end OutputStream

open OutputStream

/-- A render by an engine that does not keep templates and has a loader goes the same way whatever templates the engine
    holds: it ends or waits alike, gives the same items, tells the listeners the same, asks the loader the same and leaves
    all else in the world alike. No call of its driver changes the templates. -/
theorem templates_unseen {w : World} (uncached : w.engine.Uncached) (job : Job) (listeners : List Listener)
    {moves : List Move} (others : ∀ m ∈ moves, m.Others World.Overlooking) :
    (∀ d, ∃ d', play (w.stock d) { OutputStream.new (w.stock d).engine job with listeners } moves =
      (play w { OutputStream.new w.engine job with listeners } moves).map fun (items, w', o) => (items, w'.stock d', o)) ∧
    ∀ items w₁ o₁, play w { OutputStream.new w.engine job with listeners } moves = .ok (items, w₁, o₁) →
      ∀ m, m.IsCall → ∀ more w₂ o₂, o₁.move w₁ m = .ok (more, w₂, o₂) → w₂.engine.templates = w₁.engine.templates := by
  have new := uncached_new uncached job listeners
  refine ⟨fun d => play_stock new others d, fun items w₁ o₁ played m call more w₂ o₂ moved => ?_⟩
  exact (move_uncached (play_keeps uncached_of_move others new played) call moved).2

/-- An engine that does not keep templates. Its loader answers one name with another, and all others with the text of a
    gate. -/
def reloadingEngine : Engine where
  config := { cache := false }
  helpers := []
  loader := some ⟨fun _ name host =>
    if name = "u" then some (.ok (.redirect "t")) else (Future.gate "g" host).map (·.map .source)⟩

/-- The load of a name waits for the gate, which other code opens. -/
def reloadingMoves : List Move :=
  [.runUntilStalled 9, .others fun w => { w with host := w.host.openGate "g" (.ok "ab") }, .runUntilStalled 9]

def reloadingStream : OutputStream :=
  { OutputStream.new reloadingEngine (.named "u" {}) with listeners := [⟨0, .sink⟩] }

/-- Templates that are there under both names are not rendered. -/
theorem templates_unseen_reloadingMoves : ∃ (d : Dict Template) (w₁ w₂ : World) (o : OutputStream),
    (Dict.get? "t" d).isSome = true ∧ (Dict.get? "u" d).isSome = true ∧
    play { engine := reloadingEngine } reloadingStream reloadingMoves = .ok ([], w₁, o) ∧
    play { engine := { reloadingEngine with templates := d } } reloadingStream reloadingMoves = .ok ([], w₂, o) ∧
    o.heardBy ⟨0, .sink⟩ = [.data "ab", .finished] ∧ w₁.engine.asked = ["u", "t"] ∧ w₂.engine.asked = ["u", "t"] := by
  have uncached : reloadingEngine.Uncached := ⟨rfl, rfl, nofun, fun _ _ _ _ => trivial⟩
  have others : ∀ m ∈ reloadingMoves, m.Others World.Overlooking := by
    simp only [reloadingMoves, List.forall_mem_cons]
    exact ⟨trivial, ⟨fun _ d _ => ⟨d, rfl⟩, fun _ h => h⟩, trivial, fun _ no => nomatch no⟩
  have seen : (play { engine := reloadingEngine } reloadingStream reloadingMoves).toOption.any (fun r =>
      decide (r.1 = []) && decide (r.2.2.heardBy ⟨0, .sink⟩ = [.data "ab", .finished]) &&
      decide (r.2.1.engine.asked = ["u", "t"])) = true := by decide +kernel
  obtain ⟨⟨items, w₁, o⟩, played, seen⟩ := exists_eq_ok seen
  simp only [Bool.and_eq_true, decide_eq_true_eq] at seen
  obtain ⟨⟨rfl, heard⟩, asked⟩ := seen
  let kept : Template := ⟨none, [.write "kept"], []⟩
  have unseen := templates_unseen (w := { engine := reloadingEngine }) uncached (.named "u" {}) [⟨0, .sink⟩] others
  obtain ⟨d', same⟩ := unseen.1 [("t", kept), ("u", kept)]
  refine ⟨[("t", kept), ("u", kept)], w₁, w₁.stock d', o, rfl, rfl, played, ?_, heard, asked, asked⟩
  exact same.trans (congrArg _ played)

end Stencil
