import Stencil.Render.State

/-! Code that renders, as what it does to a stage one after the other, so that every stage it passes through can be
    spoken of. -/

namespace Stencil

/-- What code does: it looks at the stage and changes it until it ends or stops the run. An error leaves what was done
    before it, and running code may recover from it. -/
inductive RenderM (α : Type) where
  | done (outcome : Except Error α)
  /-- Stops the run. -/
  | halt (reason : Halt)
  | look (next : Stage → RenderM α)
  | move (s : Stage) (next : RenderM α)

namespace RenderM

variable {α β : Type}

/-- Runs code from a stage. -/
def run : RenderM α → Stage → Except Halt (Except Error α × Stage)
  | done outcome, s => .ok (outcome, s)
  | halt reason, _ => .error reason
  | look next, s => (next s).run s
  | move s next, _ => next.run s

/-- Goes on with the result of code. -/
protected def bind : RenderM α → (α → RenderM β) → RenderM β
  | done (.ok a), f => f a
  | done (.error e), _ => done (.error e)
  | halt reason, _ => halt reason
  | look next, f => look fun s => (next s).bind f
  | move s next, f => move s (next.bind f)

/-- The outcome of code, whether it fails or not. -/
def attempt : RenderM α → RenderM (Except Error α)
  | done outcome => done (.ok outcome)
  | halt reason => halt reason
  | look next => look fun s => (next s).attempt
  | move s next => move s next.attempt

instance : Monad RenderM where
  pure a := done (.ok a)
  bind := RenderM.bind

instance : MonadStateOf Stage RenderM where
  get := look fun s => done (.ok s)
  set s := move s (done (.ok ()))
  modifyGet f := look fun s => move (f s).2 (done (.ok (f s).1))

instance : MonadExceptOf Error RenderM where
  throw e := done (.error e)
  tryCatch x handle := x.attempt.bind fun
    | .ok a => done (.ok a)
    | .error e => handle e

section

variable (s : Stage)

@[simp] theorem run_pure (a : α) : (pure a : RenderM α).run s = .ok (.ok a, s) := rfl

@[simp] theorem run_throw (e : Error) : (throw e : RenderM α).run s = .ok (.error e, s) := rfl

@[simp] theorem run_halt (reason : Halt) : (halt reason : RenderM α).run s = .error reason := rfl

@[simp] theorem run_get : (get : RenderM Stage).run s = .ok (.ok s, s) := rfl

@[simp] theorem run_modify (f : Stage → Stage) : (modify f : RenderM Unit).run s = .ok (.ok (), f s) := rfl

theorem run_bind (x : RenderM α) (f : α → RenderM β) :
    (x >>= f).run s = match x.run s with
      | .error reason => .error reason
      | .ok (.error e, t) => .ok (.error e, t)
      | .ok (.ok a, t) => (f a).run t := by
  show (x.bind f).run s = _
  induction x generalizing s with
  | done outcome => cases outcome <;> rfl
  | halt _ => rfl
  | look _ ih => exact ih s s
  | move t _ ih => exact ih t

theorem run_attempt (x : RenderM α) : x.attempt.run s = (x.run s).map fun (outcome, t) => (.ok outcome, t) := by
  induction x generalizing s with
  | done _ => rfl
  | halt _ => rfl
  | look _ ih => exact ih s s
  | move t _ ih => exact ih t

end

theorem run_bind_eq_ok {x : RenderM α} {f : α → RenderM β} {s t : Stage} {outcome : Except Error β} :
    (x >>= f).run s = .ok (outcome, t) ↔
      (∃ e, x.run s = .ok (.error e, t) ∧ outcome = .error e) ∨
        ∃ a u, x.run s = .ok (.ok a, u) ∧ (f a).run u = .ok (outcome, t) := by
  rw [run_bind]
  cases h : x.run s with
  | error _ => simp
  | ok r =>
    obtain ⟨e | a, u⟩ := r
    · constructor
      · intro same
        cases same
        exact Or.inl ⟨e, rfl, rfl⟩
      · rintro (⟨_, same, rfl⟩ | ⟨_, _, same, -⟩)
        · cases same
          rfl
        · cases same
    · constructor
      · exact fun next => Or.inr ⟨a, u, rfl, next⟩
      · rintro (⟨_, same, -⟩ | ⟨_, _, same, next⟩)
        · cases same
        · cases same
          exact next

/-- Code that goes on ends well if both its parts do. -/
theorem run_bind_eq_ok_ok {x : RenderM α} {f : α → RenderM β} {s t : Stage} {b : β} :
    (x >>= f).run s = .ok (.ok b, t) ↔ ∃ a u, x.run s = .ok (.ok a, u) ∧ (f a).run u = .ok (.ok b, t) := by
  rw [run_bind_eq_ok]
  constructor
  · rintro (⟨_, _, no⟩ | next)
    · cases no
    · exact next
  · exact Or.inr

theorem run_bind_of_ok {x : RenderM α} {f : α → RenderM β} {s t : Stage} {a : α} (h : x.run s = .ok (.ok a, t)) :
    (x >>= f).run s = (f a).run t := by
  rw [run_bind, h]

theorem run_bind_of_halt {x : RenderM α} {f : α → RenderM β} {s : Stage} {reason : Halt}
    (h : x.run s = .error reason) : (x >>= f).run s = .error reason := by
  rw [run_bind, h]

theorem run_attempt_of_halt {x : RenderM α} {s : Stage} {reason : Halt} (h : x.run s = .error reason) :
    x.attempt.run s = .error reason := by
  rw [run_attempt, h]
  rfl

theorem run_attempt_eq_ok {x : RenderM α} {s t : Stage} {outcome : Except Error (Except Error α)} :
    x.attempt.run s = .ok (outcome, t) ↔ ∃ inner, x.run s = .ok (inner, t) ∧ outcome = .ok inner := by
  rw [run_attempt]
  cases x.run s with
  | error _ => simp [Except.map]
  | ok r =>
    obtain ⟨inner, u⟩ := r
    constructor
    · intro same
      cases same
      exact ⟨inner, rfl, rfl⟩
    · rintro ⟨_, same, rfl⟩
      cases same
      rfl

theorem run_attempt_eq_ok_ok {x : RenderM α} {s t : Stage} {outcome : Except Error α} :
    x.attempt.run s = .ok (.ok outcome, t) ↔ x.run s = .ok (outcome, t) := by
  rw [run_attempt_eq_ok]
  constructor
  · rintro ⟨_, ran, same⟩
    cases same
    exact ran
  · exact fun ran => ⟨outcome, ran, rfl⟩

theorem bind_assoc {γ : Type} (x : RenderM α) (f : α → RenderM β) (g : β → RenderM γ) :
    x >>= f >>= g = x >>= fun a => f a >>= g := by
  show (x.bind f).bind g = x.bind fun a => (f a).bind g
  induction x with
  | done outcome => cases outcome <;> rfl
  | halt reason => rfl
  | look next ih => exact congrArg look (funext ih)
  | move s next ih => exact congrArg (move s) ih

/-- Code that throws where the code before it throws, need not catch anything. -/
theorem attempt_bind_of_throw {x : RenderM α} {f : Except Error α → RenderM β} (throws : ∀ e, f (.error e) = throw e) :
    x.attempt >>= f = x >>= fun a => f (.ok a) := by
  show x.attempt.bind f = x.bind fun a => f (.ok a)
  induction x with
  | done outcome =>
    cases outcome with
    | ok a => rfl
    | error e => exact throws e
  | halt reason => rfl
  | look next ih => exact congrArg look (funext ih)
  | move u next ih => exact congrArg (move u) ih

theorem run_ofExcept_eq_ok_ok {outcome : Except Error α} {s t : Stage} {a : α} :
    (ofExcept outcome : RenderM α).run s = .ok (.ok a, t) ↔ outcome = .ok a ∧ t = s := by
  constructor
  · intro ran
    cases outcome <;> cases ran
    exact ⟨rfl, rfl⟩
  · rintro ⟨rfl, rfl⟩
    rfl

/-- The outcome of a use of chunks, which running code always has a right to. -/
def rightful : Except Error α → RenderM α
  | .ok a => pure a
  | .error e => halt (.violation e)

/-- Changes the errors of code. -/
def mapError (f : Error → Error) (x : RenderM α) : RenderM α := do
  ofExcept ((← attempt x).mapError f)

theorem run_mapError_eq_ok {x : RenderM α} {g : Error → Error} {s t : Stage} {o : Except Error α} :
    (mapError g x).run s = .ok (o, t) ↔ ∃ inner, x.run s = .ok (inner, t) ∧ o = inner.mapError g := by
  constructor
  · intro ran
    rcases run_bind_eq_ok.mp ran with ⟨_, no, -⟩ | ⟨inner, u, ran, thrown⟩
    · obtain ⟨_, _, no⟩ := run_attempt_eq_ok.mp no
      cases no
    · refine ⟨inner, ?_⟩
      have ran := run_attempt_eq_ok_ok.mp ran
      cases inner <;> cases thrown <;> exact ⟨ran, rfl⟩
  · rintro ⟨inner, ran, rfl⟩
    unfold mapError
    rw [run_bind_of_ok (run_attempt_eq_ok_ok.mpr ran)]
    cases inner <;> rfl

theorem run_mapError_eq_ok_ok {x : RenderM α} {g : Error → Error} {s t : Stage} {a : α} :
    (mapError g x).run s = .ok (.ok a, t) ↔ x.run s = .ok (.ok a, t) := by
  rw [run_mapError_eq_ok]
  constructor
  · rintro ⟨inner, ran, same⟩
    cases inner with
    | error e => cases same
    | ok b =>
      cases same
      exact ran
  · exact fun ran => ⟨.ok a, ran, rfl⟩

/-- Changes the render. -/
def modifyRender (f : Render → Render) : RenderM Unit :=
  modify fun s => { s with render := f s.render }

/-- Changes the engine. -/
def modifyEngine (f : Engine → Engine) : RenderM Unit :=
  modify fun s => { s with engine := f s.engine }

/-- Uses the engine. -/
def withEngine (f : Engine → α × Engine) : RenderM α := do
  let (a, engine) := f (← get).engine
  modifyEngine fun _ => engine
  pure a

/-- Captures a record, if records are captured. -/
def record (level : LogLevel) (message : String) : RenderM Unit :=
  modifyEngine (·.record level message)

/-- Notes a call. -/
def called (call : Call) : RenderM Unit :=
  modifyEngine (·.called call)

end RenderM
end Stencil
