import Stencil.Proofs.Render.Congruence
import Stencil.Proofs.Render.Passage

/-! More steps change nothing but that a run goes on where fewer steps stop it. -/

namespace Stencil
namespace RenderM

open Render

variable {α β γ δ : Type} {R : α → β → Prop} {Q : γ → δ → Prop} {V : α → Prop} {s t : Stage}

/-- The second code does what the first does, with related results, and may go on where the first is out of steps. -/
inductive Extends (R : α → β → Prop) : RenderM α → RenderM β → Prop
  | ok {a : α} {b : β} : R a b → Extends R (done (.ok a)) (done (.ok b))
  | error (e : Error) : Extends R (done (.error e)) (done (.error e))
  | halt (reason : Halt) : Extends R (halt reason) (halt reason)
  | more (y : RenderM β) : Extends R (halt .outOfSteps) y
  | look {x : Stage → RenderM α} {y : Stage → RenderM β} : (∀ s, Extends R (x s) (y s)) → Extends R (look x) (look y)
  | move {x : RenderM α} {y : RenderM β} (u : Stage) : Extends R x y → Extends R (move u x) (move u y)

namespace Extends

theorem passes {x : RenderM α} {y : RenderM β} (h : Extends R x y) (pass : x.Passes s t) : y.Passes s t := by
  induction h generalizing s with
  | ok => exact pass
  | error => exact pass
  | halt => exact pass
  | more y =>
    cases pass
    exact passes_self
  | look _ ih => exact ih s pass
  | move u _ ih => exact pass.imp_right ih

theorem passes_iff {x : RenderM α} {y : RenderM β} (h : Extends R x y) (enough : x.run s ≠ .error .outOfSteps) :
    x.Passes s t ↔ y.Passes s t := by
  induction h generalizing s with
  | ok => exact Iff.rfl
  | error => exact Iff.rfl
  | halt => exact Iff.rfl
  | more y => exact absurd rfl enough
  | look _ ih => exact ih s enough
  | move u _ ih => exact or_congr_right (ih enough)

theorem run_eq {x y : RenderM α} (h : Extends (fun a b => a = b ∧ V a) x y) (enough : x.run s ≠ .error .outOfSteps) :
    y.run s = x.run s := by
  induction h generalizing s with
  | ok same => rw [same.1]
  | error => rfl
  | halt => rfl
  | more y => exact absurd rfl enough
  | look _ ih => exact ih s enough
  | move u _ ih => exact ih enough

theorem refl (x : RenderM α) : Extends Eq x x := by
  induction x with
  | done outcome =>
    cases outcome with
    | ok a => exact .ok rfl
    | error e => exact .error e
  | halt reason => exact .halt reason
  | look _ ih => exact .look ih
  | move u _ ih => exact .move u ih

theorem mono {R' : α → β → Prop} {x : RenderM α} {y : RenderM β} (h : Extends R x y) (imp : ∀ a b, R a b → R' a b) :
    Extends R' x y := by
  induction h with
  | ok related => exact .ok (imp _ _ related)
  | error e => exact .error e
  | halt reason => exact .halt reason
  | more y => exact .more y
  | look _ ih => exact .look ih
  | move u _ ih => exact .move u ih

theorem bind {x : RenderM α} {y : RenderM β} {f : α → RenderM γ} {g : β → RenderM δ} (h : Extends R x y)
    (hf : ∀ a b, R a b → Extends Q (f a) (g b)) : Extends Q (x >>= f) (y >>= g) := by
  show Extends Q (x.bind f) (y.bind g)
  induction h with
  | ok related => exact hf _ _ related
  | error e => exact .error e
  | halt reason => exact .halt reason
  | more y => exact .more _
  | look _ ih => exact .look ih
  | move u _ ih => exact .move u ih

theorem attempt {x : RenderM α} {y : RenderM β} (h : Extends R x y) : Extends (Outcomes R) x.attempt y.attempt := by
  induction h with
  | ok related => exact .ok (Or.inl ⟨_, _, rfl, rfl, related⟩)
  | error e => exact .ok (Or.inr ⟨e, rfl, rfl⟩)
  | halt reason => exact .halt reason
  | more y => exact .more _
  | look _ ih => exact .look ih
  | move u _ ih => exact .move u ih

end Extends

def extending : Congruence where
  rel := Extends
  refl := .refl
  pure := .ok
  throw _ := .error
  bind := .bind
  attempt := .attempt
  mono := .mono

/-- The second code may go on where the first is out of steps, and their results, which have a property, are the same. -/
abbrev Grows (V : α → Prop) (x y : RenderM α) : Prop := extending.Same V x y

/-! ### Rendering -/

variable {render render' : Renderer}

theorem grows_exec {n m : Nat} (le : n ≤ m) (body : Body) (context : Context) :
    Grows (fun _ => True) (exec n body context) (exec m body context) := by
  induction n generalizing m body context with
  | zero => exact Extends.more _
  | succ n ih =>
    obtain ⟨m, rfl⟩ := Nat.exists_eq_succ_of_ne_zero (Nat.ne_zero_of_lt le)
    exact extending.whole.steps (ih (Nat.le_of_succ_le_succ le)) body context

theorem grows_settle (hr : ∀ body context, Grows (fun _ => True) (render body context) (render' body context))
    {n m : Nat} (le : n ≤ m) (index : Nat) (progressed : Bool) :
    Grows (fun _ => True) (settle render n index progressed) (settle render' m index progressed) := by
  induction n generalizing m index progressed with
  | zero => exact Extends.more _
  | succ n ih =>
    obtain ⟨m, rfl⟩ := Nat.exists_eq_succ_of_ne_zero (Nat.ne_zero_of_lt le)
    exact Congruence.settle_succ hr (ih (Nat.le_of_succ_le_succ le)) index progressed

end RenderM

open RenderM Render

theorem grows_work (o : OutputStream) {n m : Nat} (le : n ≤ m) : Grows (fun _ => True) (o.work n) (o.work m) := by
  have drives : Grows (fun _ => True) (drive n) (drive m) := grows_settle (grows_exec le) le 0 false
  unfold OutputStream.work
  cases o.job with
  | none => exact drives
  | some job => exact (Congruence.start (grows_exec le) job).bind fun _ _ => drives

namespace OutputStream

variable {o : OutputStream} {n m : Nat} {w : World}

/-- A call that is given enough steps does the same with more. -/
theorem advance_of_le (le : n ≤ m) {r : World × OutputStream} (ran : o.advance n w = .ok r) : o.advance m w = .ok r := by
  have same (enough : (o.work n).run { w with render := o.render } ≠ .error .outOfSteps) :=
    Extends.run_eq (grows_work o le) enough
  unfold advance at ran ⊢
  rw [same]
  · exact ran
  · intro no
    rw [no] at ran
    cases ran

end OutputStream
end Stencil
