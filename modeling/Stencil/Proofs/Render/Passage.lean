import Stencil.Render.Code

/-! The stages that code comes through. Code is safe from a stage if every stage it comes through has a property, it halts
    for some reasons only, and where it ends something holds. -/

namespace Stencil
namespace RenderM

variable {α β : Type} {I : Stage → Prop} {H : Halt → Prop} {s t : Stage} {x : RenderM α} {f : α → RenderM β}

/-- Run from `s`, the code comes through `t`. -/
def Passes : RenderM α → Stage → Stage → Prop
  | done _, s, t => t = s
  | halt _, s, t => t = s
  | look next, s, t => (next s).Passes s t
  | move u next, s, t => t = s ∨ next.Passes u t

/-- The stages on the way have `I`, the halts `H`, and at the end there is `Q`. -/
def Safe (I : Stage → Prop) (H : Halt → Prop) : RenderM α → Stage → (Except Error α → Stage → Prop) → Prop
  | done outcome, s, Q => I s ∧ Q outcome s
  | halt reason, s, _ => I s ∧ H reason
  | look next, s, Q => (next s).Safe I H s Q
  | move u next, s, Q => I s ∧ next.Safe I H u Q

namespace Safe

theorem passes {Q : Except Error α → Stage → Prop} (h : x.Safe I H s Q) (pass : x.Passes s t) : I t := by
  induction x generalizing s with
  | done outcome =>
    cases pass
    exact h.1
  | halt reason =>
    cases pass
    exact h.1
  | look next ih => exact ih s h pass
  | move u next ih =>
    rcases pass with rfl | pass
    · exact h.1
    · exact ih h.2 pass

theorem halts {Q : Except Error α → Stage → Prop} {reason : Halt} (h : x.Safe I H s Q)
    (stop : x.run s = .error reason) : H reason := by
  induction x generalizing s with
  | done outcome => cases stop
  | halt reason' =>
    cases stop
    exact h.2
  | look next ih => exact ih s h stop
  | move u next ih => exact ih h.2 stop

theorem ends {Q : Except Error α → Stage → Prop} {outcome : Except Error α} (h : x.Safe I H s Q)
    (done : x.run s = .ok (outcome, t)) : Q outcome t := by
  induction x generalizing s with
  | done outcome' =>
    cases done
    exact h.2
  | halt reason => cases done
  | look next ih => exact ih s h done
  | move u next ih => exact ih h.2 done

theorem mono {Q Q' : Except Error α → Stage → Prop} (h : x.Safe I H s Q) (imp : ∀ o t, I t → Q o t → Q' o t) :
    x.Safe I H s Q' := by
  induction x generalizing s with
  | done outcome => exact ⟨h.1, imp _ _ h.1 h.2⟩
  | halt reason => exact h
  | look next ih => exact ih s h
  | move u next ih => exact ⟨h.1, ih h.2⟩

/-- The end is one that the run comes to. -/
theorem mono_run {Q Q' : Except Error α → Stage → Prop} (h : x.Safe I H s Q)
    (imp : ∀ o t, x.run s = .ok (o, t) → I t → Q o t → Q' o t) : x.Safe I H s Q' := by
  induction x generalizing s with
  | done outcome => exact ⟨h.1, imp _ _ rfl h.1 h.2⟩
  | halt reason => exact h
  | look next ih => exact ih s h imp
  | move u next ih => exact ⟨h.1, ih h.2 imp⟩

theorem weaken {J : Stage → Prop} {K : Halt → Prop} {Q : Except Error α → Stage → Prop} (h : x.Safe I H s Q)
    (imp : ∀ t, I t → J t) (impH : ∀ reason, H reason → K reason) : x.Safe J K s Q := by
  induction x generalizing s with
  | done outcome => exact ⟨imp _ h.1, h.2⟩
  | halt reason => exact ⟨imp _ h.1, impH _ h.2⟩
  | look next ih => exact ih s h
  | move u next ih => exact ⟨imp _ h.1, ih h.2⟩

theorem bind {Q : Except Error β → Stage → Prop} (h : x.Safe I H s fun o t =>
    match o with
    | .ok a => (f a).Safe I H t Q
    | .error e => Q (.error e) t) : (x >>= f).Safe I H s Q := by
  show (x.bind f).Safe I H s Q
  induction x generalizing s with
  | done outcome =>
    cases outcome with
    | ok a => exact h.2
    | error e => exact h
  | halt reason => exact h
  | look next ih => exact ih s h
  | move u next ih => exact ⟨h.1, ih h.2⟩

theorem attempt {Q : Except Error (Except Error α) → Stage → Prop} (h : x.Safe I H s fun o t => Q (.ok o) t) :
    x.attempt.Safe I H s Q := by
  induction x generalizing s with
  | done outcome => exact h
  | halt reason => exact h
  | look next ih => exact ih s h
  | move u next ih => exact ⟨h.1, ih h.2⟩

theorem pure {Q : Except Error α → Stage → Prop} {a : α} (here : I s) (h : Q (.ok a) s) :
    (pure a : RenderM α).Safe I H s Q := ⟨here, h⟩

theorem throw {Q : Except Error α → Stage → Prop} {e : Error} (here : I s) (h : Q (.error e) s) :
    (throw e : RenderM α).Safe I H s Q := ⟨here, h⟩

theorem get {Q : Except Error Stage → Stage → Prop} (here : I s) (h : Q (.ok s) s) :
    (get : RenderM Stage).Safe I H s Q := ⟨here, h⟩

theorem modify {Q : Except Error Unit → Stage → Prop} {g : Stage → Stage} (here : I s) (after : I (g s))
    (h : Q (.ok ()) (g s)) : (modify g : RenderM Unit).Safe I H s Q := ⟨here, after, h⟩

theorem modifyRender {Q : Except Error Unit → Stage → Prop} {g : Render → Render} (here : I s)
    (after : I { s with render := g s.render }) (h : Q (.ok ()) { s with render := g s.render }) :
    (modifyRender g).Safe I H s Q := ⟨here, after, h⟩

theorem mapError {Q : Except Error α → Stage → Prop} {g : Error → Error}
    (h : x.Safe I H s fun o t => Q (o.mapError g) t) : (mapError g x).Safe I H s Q := by
  refine bind (attempt (h.mono fun o t here end' => ?_))
  cases o with
  | ok a => exact ⟨here, end'⟩
  | error e => exact ⟨here, end'⟩

end Safe

theorem passes_self : x.Passes s s := by
  induction x generalizing s with
  | done outcome => exact rfl
  | halt reason => exact rfl
  | look next ih => exact ih s
  | move u next ih => exact Or.inl rfl

theorem passes_last {outcome : Except Error α} (done : x.run s = .ok (outcome, t)) : x.Passes s t := by
  induction x generalizing s with
  | done outcome' =>
    cases done
    exact rfl
  | halt reason => cases done
  | look next ih => exact ih s done
  | move u next ih => exact Or.inr (ih done)

theorem passes_bind_left (pass : x.Passes s t) : (x >>= f).Passes s t := by
  show (x.bind f).Passes s t
  induction x generalizing s with
  | done outcome =>
    cases pass
    exact passes_self
  | halt reason => exact pass
  | look next ih => exact ih s pass
  | move v next ih => exact pass.imp_right ih

theorem passes_attempt : x.attempt.Passes s t ↔ x.Passes s t := by
  induction x generalizing s with
  | done outcome => exact Iff.rfl
  | halt reason => exact Iff.rfl
  | look next ih => exact ih s
  | move v next ih => exact or_congr_right ih

theorem passes_bind {u : Stage} {a : α} (done : x.run s = .ok (.ok a, u)) (pass : (f a).Passes u t) :
    (x >>= f).Passes s t := by
  show (x.bind f).Passes s t
  induction x generalizing s with
  | done outcome =>
    cases done
    exact pass
  | halt reason => cases done
  | look next ih => exact ih s done
  | move v next ih => exact Or.inr (ih done)

end RenderM
end Stencil
