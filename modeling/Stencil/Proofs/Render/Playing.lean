import Stencil.Proofs.Render.Driving

/-! What happens to a stream: its driver calls it, and between two calls other code does something to the world. -/

namespace Stencil

/-- A call of the driver, with the steps it is given, or a change of the world by other code. -/
inductive Move where
  | runUntilStalled (steps : Nat)
  | pollNext (steps : Nat)
  | others (change : World → World)

namespace Move

/-- Whether the driver calls. -/
def IsCall : Move → Prop
  | .runUntilStalled _ | .pollNext _ => True
  | .others _ => False

/-- What other code does has a property. -/
def Others (P : (World → World) → Prop) : Move → Prop
  | .others change => P change
  | .runUntilStalled _ | .pollNext _ => True

theorem isCall_or (m : Move) : m.IsCall ∨ ∃ change, m = .others change := by
  cases m with
  | others change => exact Or.inr ⟨change, rfl⟩
  | runUntilStalled steps => exact Or.inl trivial
  | pollNext steps => exact Or.inl trivial

end Move

namespace OutputStream

/-- The item that a poll of a stream that has advanced gives. -/
def take (o : OutputStream) : Item × OutputStream :=
  match o.nextEvent with
  | some (.data text, o) => (.text text, o)
  | some (.failed error, o) => (.failed error, { o with exhausted := true })
  | some (.finished, o) => (.finished, { o with exhausted := true })
  | none => if o.progress = .pending then (.pending, o) else (.finished, { o with exhausted := true })

variable {w : World} {o : OutputStream} {steps : Nat}

theorem pollNext_of_exhausted (h : o.exhausted = true) : o.pollNext steps w = .ok (.finished, w, o) := if_pos h

theorem pollNext_eq_take (h : o.exhausted = false) :
    o.pollNext steps w = (o.advance steps w).map fun (w, o) => (o.take.1, w, o.take.2) := by
  unfold pollNext
  rw [if_neg (Bool.eq_false_iff.mp h)]
  cases o.advance steps w with
  | error reason => rfl
  | ok r =>
    obtain ⟨w, u⟩ := r
    dsimp only [bind, Except.bind, Except.map, take]
    cases u.nextEvent with
    | none =>
      dsimp only
      split <;> rfl
    | some next =>
      obtain ⟨event, _⟩ := next
      cases event <;> rfl

/-- What is taken is taken from the events. -/
theorem take_render (o : OutputStream) : ∃ events, o.take.2.render = { o.render with events } := by
  unfold take nextEvent
  cases o.render.events with
  | nil =>
    dsimp only
    split <;> exact ⟨_, rfl⟩
  | cons event rest => cases event <;> exact ⟨rest, rfl⟩

/-- One move, with the items that it gives. -/
def move (w : World) (o : OutputStream) : Move → Except Halt (List Item × World × OutputStream)
  | .runUntilStalled steps => do
    let (_, w, o) ← o.runUntilStalled steps w
    pure ([], w, o)
  | .pollNext steps => do
    let (item, w, o) ← o.pollNext steps w
    pure ([item], w, o)
  | .others change => pure ([], change w, o)

/-- Moves one after the other, with all the items that they give. -/
def play : (w : World) → (o : OutputStream) → List Move → Except Halt (List Item × World × OutputStream)
  | w, o, [] => pure ([], w, o)
  | w, o, m :: moves => do
    let (first, w, o) ← o.move w m
    let (rest, w, o) ← play w o moves
    pure (first ++ rest, w, o)

/-- A call of a stream that is exhausted does nothing; any other advances the stream and then hands out some of the
    events. -/
theorem move_of_isCall {m : Move} (call : m.IsCall) (o : OutputStream) :
    (o.exhausted = true ∧ ∀ w, o.move w m = .ok ([.finished], w, o)) ∨
      ∃ (steps : Nat) (give : OutputStream → List Item × OutputStream),
        (∀ w, o.move w m = (o.advance steps w).map fun (w, u) => ((give u).1, w, (give u).2)) ∧
        ∀ u, ∃ events, (give u).2.render = { u.render with events } := by
  cases m with
  | others change => exact call.elim
  | runUntilStalled steps =>
    refine Or.inr ⟨steps, fun u => ([], u.tellAll), fun w => ?_, fun u => ⟨[], ?_⟩⟩
    · dsimp only [move, runUntilStalled, bind, Except.bind]
      cases o.advance steps w <;> rfl
    · show u.tellAll.render = _
      rw [tellAll_eq]
  | pollNext steps =>
    cases exhausted : o.exhausted with
    | true =>
      refine Or.inl ⟨rfl, fun w => ?_⟩
      dsimp only [move]
      rw [pollNext_of_exhausted exhausted]
      rfl
    | false =>
      refine Or.inr ⟨steps, fun u => ([u.take.1], u.take.2), fun w => ?_, take_render⟩
      dsimp only [move]
      rw [pollNext_eq_take exhausted]
      cases o.advance steps w <;> rfl

/-- What every move keeps, moves one after the other keep. -/
theorem play_keeps {I : World → OutputStream → Prop} {P : Move → Prop}
    (keeps : ∀ {w o m items w' o'}, P m → I w o → o.move w m = .ok (items, w', o') → I w' o') {w w' : World}
    {o o' : OutputStream} {moves : List Move} {items : List Item} (all : ∀ m ∈ moves, P m) (begins : I w o)
    (played : play w o moves = .ok (items, w', o')) : I w' o' := by
  induction moves generalizing w o items with
  | nil =>
    cases played
    exact begins
  | cons m moves ih =>
    unfold play at played
    obtain ⟨⟨first, w₁, o₁⟩, moved, played⟩ := bind_eq_ok.mp played
    obtain ⟨⟨rest, w₂, o₂⟩, played, same⟩ := bind_eq_ok.mp played
    cases same
    exact ih (fun m mem => all m (List.mem_cons_of_mem _ mem)) (keeps (all m List.mem_cons_self) begins moved) played

end OutputStream
end Stencil
