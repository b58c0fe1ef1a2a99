import Stencil.Proofs.Render.Coupling

/-! Relations of two pieces of code that are built up with them. What is put together in the same way from related parts is
    related, so a relation of ways to render bodies goes through all of rendering. -/

namespace Stencil

open RenderM Render

/-- The outcomes are the same error, or results that are related. -/
def Outcomes {α β : Type} (R : α → β → Prop) (o : Except Error α) (p : Except Error β) : Prop :=
  (∃ a b, o = .ok a ∧ p = .ok b ∧ R a b) ∨ ∃ e, o = .error e ∧ p = .error e

/-- A relation of pieces of code with related results. -/
structure Congruence where
  rel {α β : Type} : (α → β → Prop) → RenderM α → RenderM β → Prop
  protected refl {α : Type} (x : RenderM α) : rel Eq x x
  protected pure {α β : Type} {R : α → β → Prop} {a : α} {b : β} : R a b → rel R (pure a) (pure b)
  protected throw {α β : Type} (R : α → β → Prop) (e : Error) : rel R (throw e) (throw e)
  protected bind {α β γ δ : Type} {R : α → β → Prop} {Q : γ → δ → Prop} {x : RenderM α} {y : RenderM β}
    {f : α → RenderM γ} {g : β → RenderM δ} : rel R x y → (∀ a b, R a b → rel Q (f a) (g b)) → rel Q (x >>= f) (y >>= g)
  protected attempt {α β : Type} {R : α → β → Prop} {x : RenderM α} {y : RenderM β} : rel R x y →
    rel (Outcomes R) (attempt x) (attempt y)
  protected mono {α β : Type} {R R' : α → β → Prop} {x : RenderM α} {y : RenderM β} : rel R x y →
    (∀ a b, R a b → R' a b) → rel R' x y

namespace Congruence

variable (C : Congruence) {α β : Type} {V : α → Prop} {x y : RenderM α}

/-- The results are the same and have a property. -/
def Same (V : α → Prop) (x y : RenderM α) : Prop := C.rel (fun a b => a = b ∧ V a) x y

/-- Two polls find the same, and the work they find is related. -/
def Polls (x y : RenderM (Option (RenderM Unit))) : Prop := C.rel (Option.Rel (C.Same fun _ => True)) x y

variable {C}

theorem self (x : RenderM α) : C.Same (fun _ => True) x x := C.mono (C.refl x) fun _ _ same => ⟨same, trivial⟩

namespace Same

theorem bind {W : β → Prop} {f g : α → RenderM β} (h : C.Same V x y) (hf : ∀ a, V a → C.Same W (f a) (g a)) :
    C.Same W (x >>= f) (y >>= g) := by
  refine C.bind h ?_
  rintro a _ ⟨rfl, ok⟩
  exact hf a ok

theorem refl_bind {x : RenderM β} {f g : β → RenderM α} (hf : ∀ a, C.Same V (f a) (g a)) :
    C.Same V (x >>= f) (x >>= g) :=
  (self x).bind fun a _ => hf a

theorem mono {W : α → Prop} (h : C.Same V x y) (imp : ∀ a, V a → W a) : C.Same W x y :=
  C.mono h fun _ _ same => ⟨same.1, imp _ same.2⟩

theorem attempt (h : C.Same V x y) : C.Same (fun _ => True) (attempt x) (attempt y) := by
  refine C.mono (C.attempt h) ?_
  rintro _ _ (⟨a, _, rfl, rfl, rfl, -⟩ | ⟨e, rfl, rfl⟩)
  · exact ⟨rfl, trivial⟩
  · exact ⟨rfl, trivial⟩

theorem mapError (h : C.Same V x y) (g : Error → Error) : C.Same V (mapError g x) (mapError g y) := by
  refine C.bind (C.attempt h) ?_
  rintro _ _ (⟨a, _, rfl, rfl, rfl, ok⟩ | ⟨e, rfl, rfl⟩)
  · exact C.pure ⟨rfl, ok⟩
  · exact C.throw _ _

section

variable {x y : RenderM Unit} (h : C.Same (fun _ => True) x y)

include h

theorem within (id : ChunkId) : C.Same (fun _ => True) (within id x) (within id y) :=
  refl_bind fun _ => (attempt h).bind fun _ _ => self _

theorem takeUp (id : ChunkId) (wait : Wait) : C.Same (fun _ => True) (takeUp id wait x) (takeUp id wait y) :=
  refl_bind fun _ => (attempt (h.within id)).bind fun _ _ => self _

theorem toText (template : Option String) : C.Same (fun _ => True) (toText template x) (toText template y) := by
  refine refl_bind fun s => refl_bind fun s' => refl_bind fun _ => ?_
  exact (attempt ((h.within _).bind fun _ _ => self _)).bind fun _ _ => self _

end

end Same

namespace Polls

theorem putOff {x y : RenderM (Option (RenderM Unit))} (wait : Wait) (h : C.Polls x y) :
    C.Same (fun _ => True) (putOff wait x) (putOff wait y) := by
  refine .refl_bind fun id => .refl_bind fun _ => C.bind h ?_
  rintro _ _ (works | none)
  · exact Same.takeUp works id wait
  · exact self _

theorem text (future : Future String) {work work' : String → RenderM Unit}
    (h : ∀ text, C.Same (fun _ => True) (work text) (work' text)) :
    C.Polls (pollText future work) (pollText future work') := by
  refine C.bind (C.refl get) ?_
  rintro s _ rfl
  cases future s.host with
  | none => exact C.pure .none
  | some outcome =>
    cases outcome with
    | error e => exact C.pure (.some (self _))
    | ok text => exact C.pure (.some (h text))

theorem template (name : String) {work work' : Template → RenderM Unit}
    (h : ∀ t, C.Same (fun _ => True) (work t) (work' t)) : C.Polls (pollTemplate name work) (pollTemplate name work') := by
  refine C.bind (C.refl (pollLoad name)) ?_
  rintro result _ rfl
  cases result with
  | none => exact C.pure .none
  | some outcome =>
    cases outcome with
    | error e => exact C.pure (.some (self _))
    | ok t => exact C.pure (.some (h t))

end Polls

variable (C)

def coupling : Coupling .any where
  rel := C.Same
  helper _ := True
  limit _ := True
  fills _ := True
  pure h := C.pure ⟨rfl, h⟩
  throw _ := C.throw _
  bind := .bind
  mapError g h := h.mapError g
  write _ := self _
  filter _ _ := self _
  record _ _ := self _
  called _ := self _
  toText template h := h.toText template
  helper? _ := (self _).mono fun _ _ _ _ => trivial
  callable _ := self _
  filled _ := self _
  depthLimit := self _

def whole : C.coupling.Whole where
  polls := C.Polls
  mono := .mono
  attempt := .attempt
  helper _ := trivial
  kept? _ := self _
  startLoad _ _ := self _
  perform _ := self _
  pollText := .text
  pollTemplate := .template
  putOff wait polls := Polls.putOff wait polls

variable {C} {render render' : Renderer}
  (hr : ∀ body context, C.Same (fun _ => True) (render body context) (render' body context))

include hr

theorem visit (index : Nat) (task : Task) :
    C.Same (fun _ => True) (visit render index task) (visit render' index task) := by
  refine C.bind (C.whole.poll hr task.wait) ?_
  rintro _ _ (works | none)
  · exact Same.refl_bind fun _ => (Same.takeUp works _ _).bind fun _ _ => self _
  · exact self _

/-- A step of going through the work put off. -/
theorem settle_succ {n m : Nat} (next : ∀ index progressed, C.Same (fun _ => True) (settle render n index progressed)
    (settle render' m index progressed)) (index : Nat) (progressed : Bool) :
    C.Same (fun _ => True) (settle render (n + 1) index progressed) (settle render' (m + 1) index progressed) :=
  Coupling.settle_succ (C := C.coupling) (fun _ => .refl_bind) (fun index task => (visit hr index task).attempt)
    (fun _ => self _) next index progressed

/-- The job of a render, its outcome taken in. -/
theorem start (job : Job) : C.Same (fun _ => True) (start (job.run render)) (start (job.run render')) :=
  (Same.within (C.whole.job hr job) _).attempt.bind fun _ _ => self _

end Congruence
end Stencil
