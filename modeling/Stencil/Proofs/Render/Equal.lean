import Stencil.Proofs.Render.Chunks
import Stencil.Proofs.Render.Congruence

/-! Code that does the same to every stage. Text that is written in pieces is text that is written at once. -/

namespace Stencil
namespace RenderM

variable {α β γ δ : Type} {R : α → β → Prop} {Q : γ → δ → Prop}

/-- The runs stop for the same reason, or end at the same stage, with one error or with related results. -/
inductive Results (R : α → β → Prop) :
    Except Halt (Except Error α × Stage) → Except Halt (Except Error β × Stage) → Prop
  | halt (reason : Halt) : Results R (.error reason) (.error reason)
  | error (e : Error) (t : Stage) : Results R (.ok (.error e, t)) (.ok (.error e, t))
  | ok {a : α} {b : β} (t : Stage) : R a b → Results R (.ok (.ok a, t)) (.ok (.ok b, t))

/-- From every stage the runs have the same end. -/
def Likewise (R : α → β → Prop) (x : RenderM α) (y : RenderM β) : Prop := ∀ s, Results R (x.run s) (y.run s)

namespace Likewise

theorem refl (x : RenderM α) : Likewise Eq x x := by
  intro s
  cases x.run s with
  | error reason => exact .halt reason
  | ok r =>
    obtain ⟨e | a, t⟩ := r
    · exact .error e t
    · exact .ok t rfl

theorem bind {x : RenderM α} {y : RenderM β} {f : α → RenderM γ} {g : β → RenderM δ} (h : Likewise R x y)
    (hf : ∀ a b, R a b → Likewise Q (f a) (g b)) : Likewise Q (x >>= f) (y >>= g) := by
  intro s
  have ends := h s
  rw [run_bind, run_bind]
  generalize x.run s = r, y.run s = r' at *
  cases ends with
  | halt reason => exact .halt reason
  | error e t => exact .error e t
  | ok t related => exact hf _ _ related t

theorem attempt {x : RenderM α} {y : RenderM β} (h : Likewise R x y) :
    Likewise (Outcomes R) x.attempt y.attempt := by
  intro s
  have ends := h s
  rw [run_attempt, run_attempt]
  generalize x.run s = r, y.run s = r' at *
  cases ends with
  | halt reason => exact .halt reason
  | error e t => exact .ok t (Or.inr ⟨e, rfl, rfl⟩)
  | ok t related => exact .ok t (Or.inl ⟨_, _, rfl, rfl, related⟩)

theorem mono {R' : α → β → Prop} {x : RenderM α} {y : RenderM β} (h : Likewise R x y) (imp : ∀ a b, R a b → R' a b) :
    Likewise R' x y := by
  intro s
  have ends := h s
  generalize x.run s = r, y.run s = r' at *
  cases ends with
  | halt reason => exact .halt reason
  | error e t => exact .error e t
  | ok t related => exact .ok t (imp _ _ related)

end Likewise

def running : Congruence where
  rel := Likewise
  refl := .refl
  pure related s := .ok s related
  throw _ e s := .error e s
  bind := .bind
  attempt := .attempt
  mono := .mono

/-- The two pieces of code do the same. -/
def Equal (x y : RenderM α) : Prop := running.Same (fun _ => True) x y

variable {x y z : RenderM α}

theorem equal_iff : Equal x y ↔ ∀ s, x.run s = y.run s := by
  constructor
  · intro h s
    generalize left : x.run s = r
    generalize right : y.run s = r'
    have ends := h s
    rw [left, right] at ends
    cases ends with
    | halt => rfl
    | error => rfl
    | ok t same => rw [same.1]
  · intro h s
    rw [h s]
    exact ((Congruence.self (C := running) y) s)

namespace Equal

theorem trans (h : Equal x y) (h' : Equal y z) : Equal x z :=
  equal_iff.mpr fun s => (equal_iff.mp h s).trans (equal_iff.mp h' s)

theorem symm (h : Equal x y) : Equal y x :=
  equal_iff.mpr fun s => (equal_iff.mp h s).symm

theorem refl (x : RenderM α) : Equal x x := Congruence.self x

theorem bind {f g : α → RenderM β} (h : Equal x y) (hf : ∀ a, Equal (f a) (g a)) : Equal (x >>= f) (y >>= g) :=
  Congruence.Same.bind h fun a _ => hf a

theorem bind_pure (x : RenderM Unit) : Equal (x >>= fun _ => pure ()) x := by
  refine equal_iff.mpr fun s => ?_
  rw [run_bind]
  cases x.run s with
  | error reason => rfl
  | ok r =>
    obtain ⟨e | _, t⟩ := r <;> rfl

theorem assoc (x : RenderM α) (f : α → RenderM β) (g : β → RenderM γ) :
    Equal (x >>= f >>= g) (x >>= fun a => f a >>= g) := by
  refine equal_iff.mpr fun s => ?_
  rw [run_bind, run_bind, run_bind]
  cases x.run s with
  | error reason => rfl
  | ok r =>
    obtain ⟨e | a, t⟩ := r
    · rfl
    · exact (run_bind ..).symm

end Equal

/-! ### Text -/

theorem run_write_of_ne {text : String} (full : text.isEmpty = false) (s : Stage) : (write text).run s =
    match s.render.writers with
    | [] => .error (.violation (.protocol "no chunk is being written"))
    | id :: _ =>
      match s.render.chunks.write id text with
      | .error e => .error (.violation e)
      | .ok chunks => .ok (.ok (), { s with render := { s.render with chunks } }) := by
  unfold write
  rw [if_neg (by simp [full]), run_bind_of_ok (run_get s), run_bind]
  unfold writer
  rw [run_bind_of_ok (run_get s)]
  cases s.render.writers with
  | nil => rfl
  | cons id rest =>
    dsimp only [run_pure]
    rw [run_bind]
    cases s.render.chunks.write id text <;> rfl

theorem write_empty : write "" = pure () := rfl

theorem write_append (a b : String) : Equal (write (a ++ b)) (write a >>= fun _ => write b) := by
  refine equal_iff.mpr fun s => ?_
  rcases Bool.eq_false_or_eq_true a.isEmpty with empty | full
  · rw [String.isEmpty_iff.mp empty, String.empty_append, write_empty, run_bind, run_pure]
  rcases Bool.eq_false_or_eq_true b.isEmpty with empty | full'
  · rw [String.isEmpty_iff.mp empty, String.append_empty, write_empty]
    exact (equal_iff.mp (.bind_pure (write a)) s).symm
  have long : (a ++ b).isEmpty = false := by
    rw [String.isEmpty_eq_false_iff] at full ⊢
    simp [full]
  rw [run_bind, run_write_of_ne full, run_write_of_ne long]
  cases writing : s.render.writers with
  | nil => rfl
  | cons id rest =>
    dsimp only
    rw [Chunks.write_append]
    cases s.render.chunks.write id a with
    | error e => rfl
    | ok chunks =>
      dsimp only
      rw [run_write_of_ne full', writing]
      rfl

/-! ### Text on the side -/

/-- The stage of a render on the side that has written this text so far. -/
def side (s : Stage) (engine : Engine) (text : String) : Stage :=
  { s with engine, render :=
    { config := s.engine.config, chunks := ⟨#[{ text }], some Chunks.root⟩, writers := [Chunks.root] } }

theorem run_write_side (s : Stage) (engine : Engine) (before text : String) :
    (write text).run (side s engine before) = .ok (.ok (), side s engine (before ++ text)) := by
  by_cases empty : text = ""
  · rw [empty, String.append_empty]
    rfl
  · rw [run_write_of_ne (by simp [empty])]
    rfl

/-- What code writes on the side is the text that it gives. -/
theorem run_toText_of_side {x : RenderM Unit} {s : Stage} {engine : Engine} {text : String}
    (ran : x.run (side s (s.engine.read (.aside s.engine.config.cache s.engine.config.maxPartialDepth)) "") =
      .ok (.ok (), side s engine text)) (template : Option String) :
    (toText template x).run s = .ok (.ok text, { s with engine }) := by
  change x.run { s with
    engine := s.engine.read (.aside s.engine.config.cache s.engine.config.maxPartialDepth)
    render := { config := s.engine.config, writers := [Chunks.root] } } = _ at ran
  unfold toText within enter modifyRender
  rw [run_bind_of_ok (run_get s), run_bind_of_ok (run_get s), run_bind_of_ok (run_modify ..), run_bind, run_attempt,
    run_bind, run_bind_of_ok (run_modify ..), run_bind, run_attempt, ran]
  show Except.ok (Except.ok (text ++ ""), ({ s with engine } : Stage)) = _
  rw [String.append_empty]

end RenderM
end Stencil
