import Stencil.Proofs.Engine.Twins
import Stencil.Proofs.Render.Steps

/-! Code that runs while other code replaces the settings of the engine, whenever the code looks at the stage. Two such runs
    of one piece of code go the same way until they have read different settings. Calls are mild if they leave what may be
    read as it was; two runs amid mild calls go the same way to the end. -/

namespace Stencil

/-- The renders differ at most in settings that no render reads. -/
def Render.Twin (r r' : Render) : Prop :=
  ∃ config, r' = { r with config } ∧ config.cache = r.config.cache ∧ config.maxPartialDepth = r.config.maxPartialDepth

structure World.Twin (mild : Prop) (w w' : World) : Prop where
  engine : w.engine.Twin mild w'.engine
  host : w'.host = w.host

structure Stage.Twin (mild : Prop) (s s' : Stage) : Prop extends World.Twin mild s.toWorld s'.toWorld where
  render : s.render.Twin s'.render

def World.setConfig (w : World) (config : Config) : World :=
  { w with engine := w.engine.setConfig config }

def Stage.setConfig (s : Stage) (config : Config) : Stage :=
  { s with engine := s.engine.setConfig config }

variable {mild : Prop}

namespace Render

variable {r r' : Render}

theorem Twin.refl (r : Render) : r.Twin r := ⟨r.config, rfl, rfl, rfl⟩

/-- A change that has no eye for the settings. -/
theorem Twin.modify (h : r.Twin r') {f : Render → Render}
    (blind : ∀ (r : Render) config, f { r with config } = { f r with config })
    (still : ∀ r, (f r).config = r.config) : (f r).Twin (f r') := by
  obtain ⟨config, rfl, cache, depth⟩ := h
  exact ⟨config, blind r config, by rw [still, cache], by rw [still, depth]⟩

end Render

namespace Stage.Twin

variable {s s' : Stage}

theorem setConfig (h : s.Twin mild s') {config config' : Config} (like : mild → s.engine.config.Like config)
    (like' : mild → s'.engine.config.Like config') : (s.setConfig config).Twin mild (s'.setConfig config') :=
  ⟨⟨h.engine.setConfig like like', h.host⟩, h.render⟩

end Stage.Twin

namespace RenderM

open Render

variable {α β : Type} {x y : RenderM α} {f : α → RenderM β} {s s' t t' u : Stage}

/-- The code runs from a stage to an end while other code calls `setConfig`, with mild calls only or with any. -/
def Amid (mild : Prop) : RenderM α → Stage → Except Error α → Stage → Prop
  | done outcome, s, o, t => o = outcome ∧ t = s
  | halt _, _, _, _ => False
  | look next, s, o, t => ∃ config, (mild → s.engine.config.Like config) ∧
    (next (s.setConfig config)).Amid mild (s.setConfig config) o t
  | move u next, _, o, t => next.Amid mild u o t

/-- A run that no call comes between. -/
theorem amid_of_run {o : Except Error α} (ran : x.run s = .ok (o, t)) : x.Amid mild s o t := by
  induction x generalizing s with
  | done outcome =>
    cases ran
    exact ⟨rfl, rfl⟩
  | halt reason => cases ran
  | look next ih => exact ⟨s.engine.config, fun _ => .refl _, ih s ran⟩
  | move u next ih => exact ih ran

theorem amid_bind {o : Except Error β} : (x >>= f).Amid mild s o t ↔ (∃ e, x.Amid mild s (.error e) t ∧ o = .error e) ∨
    ∃ a u, x.Amid mild s (.ok a) u ∧ (f a).Amid mild u o t := by
  show (x.bind f).Amid mild s o t ↔ _
  induction x generalizing s with
  | done outcome =>
    cases outcome with
    | ok a =>
      constructor
      · exact fun next => Or.inr ⟨a, s, ⟨rfl, rfl⟩, next⟩
      · rintro (⟨_, ⟨no, -⟩, -⟩ | ⟨_, _, ⟨same, rfl⟩, next⟩)
        · cases no
        · cases same
          exact next
    | error e =>
      constructor
      · rintro ⟨rfl, rfl⟩
        exact Or.inl ⟨e, ⟨rfl, rfl⟩, rfl⟩
      · rintro (⟨_, ⟨same, rfl⟩, rfl⟩ | ⟨_, _, ⟨no, -⟩, -⟩)
        · cases same
          exact ⟨rfl, rfl⟩
        · cases no
  | halt reason => exact ⟨False.elim, by rintro (⟨_, no, -⟩ | ⟨_, _, no, -⟩) <;> exact no⟩
  | look next ih =>
    constructor
    · rintro ⟨config, like, ran⟩
      exact ((ih _).mp ran).imp (fun ⟨e, ran, same⟩ => ⟨e, ⟨config, like, ran⟩, same⟩)
        fun ⟨a, u, ran, rest⟩ => ⟨a, u, ⟨config, like, ran⟩, rest⟩
    · rintro (⟨e, ⟨config, like, ran⟩, same⟩ | ⟨a, u, ⟨config, like, ran⟩, rest⟩)
      · exact ⟨config, like, (ih _).mpr (Or.inl ⟨e, ran, same⟩)⟩
      · exact ⟨config, like, (ih _).mpr (Or.inr ⟨a, u, ran, rest⟩)⟩
  | move u next ih => exact ih

theorem amid_attempt {o : Except Error (Except Error α)} :
    x.attempt.Amid mild s o t ↔ ∃ inner, x.Amid mild s inner t ∧ o = .ok inner := by
  induction x generalizing s with
  | done outcome =>
    constructor
    · rintro ⟨rfl, rfl⟩
      exact ⟨outcome, ⟨rfl, rfl⟩, rfl⟩
    · rintro ⟨_, ⟨rfl, rfl⟩, rfl⟩
      exact ⟨rfl, rfl⟩
  | halt reason => exact ⟨False.elim, fun ⟨_, no, _⟩ => no⟩
  | look next ih =>
    constructor
    · rintro ⟨config, like, ran⟩
      obtain ⟨inner, ran, same⟩ := (ih _).mp ran
      exact ⟨inner, ⟨config, like, ran⟩, same⟩
    · rintro ⟨inner, ⟨config, like, ran⟩, same⟩
      exact ⟨config, like, (ih _).mpr ⟨inner, ran, same⟩⟩
  | move u next ih => exact ih

theorem amid_of_grows {V : α → Prop} {o : Except Error α} (h : Grows V x y) (ran : x.Amid mild s o t) :
    y.Amid mild s o t := by
  change Extends _ x y at h
  induction h generalizing s with
  | ok same =>
    rw [← same.1]
    exact ran
  | error => exact ran
  | halt => exact ran
  | more y => exact ran.elim
  | look _ ih =>
    obtain ⟨config, like, ran⟩ := ran
    exact ⟨config, like, ih _ ran⟩
  | move u _ ih => exact ih ran

/-- Two runs of the code from twin stages end in the same way and at twin stages, unless they have read
    different settings on the way. Readings are not forgotten, and the results have a property. -/
structure Blind (mild : Prop) (V : α → Prop) (x : RenderM α) : Prop where
  reads {s t : Stage} {o : Except Error α} : x.Amid mild s o t →
    s.engine.readings <+: t.engine.readings ∧ ∀ a, o = .ok a → V a
  agrees {s s' t t' : Stage} {o o' : Except Error α} : s.Twin mild s' → x.Amid mild s o t → x.Amid mild s' o' t' →
    (o' = o ∧ t.Twin mild t') ∨ (¬ mild ∧ Parted t.engine.readings t'.engine.readings)

namespace Blind

variable {V : α → Prop} {W : β → Prop}

theorem pure {a : α} (h : V a) : Blind mild V (pure a) where
  reads := by
    rintro s t _ ⟨rfl, rfl⟩
    exact ⟨List.prefix_rfl, fun b same => by cases same; exact h⟩
  agrees := by
    rintro s s' _ _ _ _ twin ⟨rfl, rfl⟩ ⟨rfl, rfl⟩
    exact Or.inl ⟨rfl, twin⟩

theorem throw (V : α → Prop) (e : Error) : Blind mild V (throw e) where
  reads := by
    rintro s t _ ⟨rfl, rfl⟩
    exact ⟨List.prefix_rfl, fun _ no => by cases no⟩
  agrees := by
    rintro s s' _ _ _ _ twin ⟨rfl, rfl⟩ ⟨rfl, rfl⟩
    exact Or.inl ⟨rfl, twin⟩

theorem halt (V : α → Prop) (reason : Halt) : Blind mild V (halt reason) where
  reads no := no.elim
  agrees _ no := no.elim

theorem ofExcept (outcome : Except Error α) : Blind mild (fun _ => True) (ofExcept outcome) := by
  cases outcome with
  | ok a => exact pure trivial
  | error e => exact throw _ e

theorem mono {V' : α → Prop} (h : Blind mild V x) (imp : ∀ a, V a → V' a) : Blind mild V' x where
  reads ran := (h.reads ran).imp_right fun results a same => imp a (results a same)
  agrees := h.agrees

theorem bind (hx : Blind mild V x) (hf : ∀ a, V a → Blind mild W (f a)) : Blind mild W (x >>= f) where
  reads ran := by
    rcases amid_bind.mp ran with ⟨e, first, rfl⟩ | ⟨a, u, first, rest⟩
    · exact ⟨(hx.reads first).1, fun _ no => by cases no⟩
    · obtain ⟨more, results⟩ := hx.reads first
      exact ((hf a (results a rfl)).reads rest).imp_left more.trans
  agrees {s s' t t' o o'} twin ran ran' := by
    -- What runs behind `x` only adds to the readings, so runs that have parted stay so.
    have behind {s t : Stage} {o : Except Error β} (ran : (x >>= f).Amid mild s o t) :
        ∃ (first : Except Error α) (u : Stage), x.Amid mild s first u ∧ u.engine.readings <+: t.engine.readings ∧
          ((∃ e, first = .error e ∧ o = .error e ∧ u = t) ∨
            ∃ a, V a ∧ first = .ok a ∧ (f a).Amid mild u o t) := by
      rcases amid_bind.mp ran with ⟨e, first, rfl⟩ | ⟨a, u, first, rest⟩
      · exact ⟨_, t, first, List.prefix_rfl, Or.inl ⟨e, rfl, rfl, rfl⟩⟩
      · have ok := (hx.reads first).2 a rfl
        exact ⟨_, u, first, ((hf a ok).reads rest).1, Or.inr ⟨a, ok, rfl, rest⟩⟩
    obtain ⟨first, u, ran, more, rest⟩ := behind ran
    obtain ⟨first', u', ran', more', rest'⟩ := behind ran'
    rcases hx.agrees twin ran ran' with ⟨rfl, twin⟩ | ⟨harsh, parted⟩
    · rcases rest with ⟨e, rfl, rfl, rfl⟩ | ⟨a, ok, rfl, rest⟩
      · rcases rest' with ⟨e', same, rfl, rfl⟩ | ⟨_, _, no, _⟩
        · cases same
          exact Or.inl ⟨rfl, twin⟩
        · cases no
      · rcases rest' with ⟨_, no, _⟩ | ⟨a', _, same, rest'⟩
        · cases no
        · cases same
          exact (hf a ok).agrees twin rest rest'
    · exact Or.inr ⟨harsh, parted.mono more more'⟩

theorem attempt (h : Blind mild V x) : Blind mild (fun _ => True) (attempt x) where
  reads ran := by
    obtain ⟨_, inner, rfl⟩ := amid_attempt.mp ran
    exact ⟨(h.reads inner).1, fun _ _ => trivial⟩
  agrees twin ran ran' := by
    obtain ⟨_, inner, rfl⟩ := amid_attempt.mp ran
    obtain ⟨_, inner', rfl⟩ := amid_attempt.mp ran'
    exact (h.agrees twin inner inner').imp_left fun same => ⟨congrArg Except.ok same.1, same.2⟩

theorem mapError (h : Blind mild V x) (g : Error → Error) : Blind mild V (mapError g x) where
  reads ran := by
    rcases amid_bind.mp ran with ⟨_, tried, rfl⟩ | ⟨outcome, u, tried, rest⟩
    · obtain ⟨_, _, no⟩ := amid_attempt.mp tried
      cases no
    · obtain ⟨_, inner, same⟩ := amid_attempt.mp tried
      cases same
      obtain ⟨more, results⟩ := h.reads inner
      cases outcome with
      | ok a =>
        obtain ⟨rfl, rfl⟩ := rest
        exact ⟨more, results⟩
      | error e =>
        obtain ⟨rfl, rfl⟩ := rest
        exact ⟨more, fun _ no => by cases no⟩
  agrees := (h.attempt.bind fun outcome _ => ofExcept _).agrees

theorem get_bind {f : Stage → RenderM β} (same : ∀ s s', s.Twin mild s' → f s' = f s) (hf : ∀ s, Blind mild W (f s)) :
    Blind mild W (get >>= f) where
  reads := by
    rintro s t o ⟨config, -, ran⟩
    change (f (s.setConfig config)).Amid mild (s.setConfig config) o t at ran
    have more := (hf _).reads ran
    exact more
  agrees := by
    rintro s s' t t' o o' twin ⟨config, like, ran⟩ ⟨config', like', ran'⟩
    change (f (s.setConfig config)).Amid mild (s.setConfig config) o t at ran
    change (f (s'.setConfig config')).Amid mild (s'.setConfig config') o' t' at ran'
    have twin := twin.setConfig like like'
    rw [same _ _ twin] at ran'
    exact (hf _).agrees twin ran ran'

theorem modify {g : Stage → Stage} (twin : ∀ s s', s.Twin mild s' → (g s).Twin mild (g s'))
    (reads : ∀ s, s.engine.readings <+: (g s).engine.readings) : Blind mild (fun _ => True) (modify g) where
  reads := by
    rintro s t o ⟨config, -, rfl, rfl⟩
    exact ⟨reads (s.setConfig config), fun _ _ => trivial⟩
  agrees := by
    rintro s s' t t' o o' h ⟨config, like, rfl, rfl⟩ ⟨config', like', rfl, rfl⟩
    exact Or.inl ⟨rfl, twin _ _ (h.setConfig like like')⟩

theorem modifyRender {g : Render → Render} (twin : ∀ r r', r.Twin r' → (g r).Twin (g r')) :
    Blind mild (fun _ => True) (modifyRender g) :=
  modify (fun _ _ h => ⟨h.toTwin, twin _ _ h.render⟩) fun _ => List.prefix_rfl

/-- A change of the render that has no eye for the settings. -/
theorem modifyOutput {g : Render → Render} (blind : ∀ (r : Render) config, g { r with config } = { g r with config })
    (still : ∀ r, (g r).config = r.config) : Blind mild (fun _ => True) (RenderM.modifyRender g) :=
  modifyRender fun _ _ h => h.modify blind still

theorem modifyEngine {g : Engine → Engine} (twin : ∀ e e', e.Twin mild e' → (g e).Twin mild (g e'))
    (reads : ∀ e, e.readings <+: (g e).readings) : Blind mild (fun _ => True) (modifyEngine g) :=
  modify (fun _ _ h => ⟨⟨twin _ _ h.engine, h.host⟩, h.render⟩) fun s => reads s.engine

theorem withEngine {g : Engine → α × Engine} (h : Engine.Blind mild g) : Blind mild (fun _ => True) (withEngine g) where
  reads := by
    rintro s t o ⟨config, -, config', -, rfl, rfl⟩
    exact ⟨h.reads (s.setConfig config).engine, fun _ _ => trivial⟩
  agrees := by
    rintro s s' t t' o o' twin ⟨config, like, _, -, rfl, rfl⟩ ⟨config', like', _, -, rfl, rfl⟩
    have twin := twin.setConfig like like'
    exact (h.agrees twin.engine).imp_left fun ⟨same, engines⟩ =>
      ⟨congrArg Except.ok same, ⟨engines, twin.host⟩, twin.render⟩

theorem record (level : LogLevel) (message : String) : Blind mild (fun _ => True) (record level message) :=
  modifyEngine (fun _ _ h => h.record level message) fun e =>
    e.readings_record level message ▸ List.prefix_rfl

/-! ### Output -/

/-- A look at the host, and at the render but for its settings. -/
theorem look_bind {f : Stage → RenderM β}
    (same : ∀ (s : Stage) engine config, f { s with engine, render := { s.render with config } } = f s)
    (hf : ∀ s, Blind mild W (f s)) : Blind mild W (get >>= f) := by
  refine get_bind (fun s s' h => ?_) hf
  obtain ⟨⟨engine, host⟩, render⟩ := s'
  obtain ⟨⟨_, rfl⟩, config, rfl, -⟩ := h
  exact same s engine config

theorem writer : Blind mild (fun _ => True) writer := by
  refine look_bind (fun _ _ _ => rfl) fun s => ?_
  split
  · exact pure trivial
  · exact halt ..

theorem rightful (outcome : Except Error α) : Blind mild (fun _ => True) (rightful outcome) := by
  cases outcome with
  | ok a => exact pure trivial
  | error e => exact halt ..

theorem write (text : String) : Blind mild (fun _ => True) (write text) := by
  unfold RenderM.write
  split
  · exact pure trivial
  · refine look_bind (fun _ _ _ => rfl) fun r => writer.bind fun id _ => (rightful _).bind fun chunks _ => ?_
    exact modifyOutput (fun _ _ => rfl) fun _ => rfl

theorem reserve : Blind mild (fun _ => True) reserve := by
  refine writer.bind fun id _ => look_bind (fun _ _ _ => rfl) fun r => (rightful _).bind fun _ _ => ?_
  exact bind (W := fun _ => True) (modifyOutput (fun _ _ => rfl) fun _ => rfl) fun _ _ => pure trivial

theorem finish : Blind mild (fun _ => True) finish := by
  refine look_bind (fun _ _ _ => rfl) fun r => writer.bind fun id _ => (rightful _).bind fun chunks _ => ?_
  exact modifyOutput (fun _ _ => rfl) fun _ => rfl

theorem note (entry : Entry) : Blind mild (fun _ => True) (note entry) := modifyOutput (fun _ _ => rfl) fun _ => rfl

section

variable {x : RenderM Unit} (hx : Blind mild (fun _ => True) x)

include hx

theorem within (chunk : ChunkId) : Blind mild (fun _ => True) (within chunk x) := by
  refine bind (modifyOutput (fun _ _ => rfl) fun _ => rfl) fun _ _ => hx.attempt.bind fun outcome _ => ?_
  cases outcome with
  | ok _ => exact finish
  | error e => exact bind (modifyOutput (fun _ _ => rfl) fun _ => rfl) fun _ _ => throw _ e

theorem takeUp (chunk : ChunkId) (wait : Wait) : Blind mild (fun _ => True) (takeUp chunk wait x) := by
  refine (note _).bind fun _ _ => (hx.within chunk).attempt.bind fun outcome _ => ?_
  cases outcome with
  | ok _ => exact note _
  | error e => exact (note _).bind fun _ _ => throw _ e

/-- A render on the side reads the settings when it begins, and leaves the render around it as it was. -/
theorem toText (template : Option String) : Blind mild (fun _ => True) (toText template x) := by
  let side : RenderM String := do
    RenderM.within Chunks.root x
    let side := (← get).render
    if side.tasks.isEmpty then Pure.pure side.chunks.flush.1 else MonadExcept.throw (notSynchronous template)
  have blind : Blind mild (fun _ => True) side := by
    refine (hx.within _).bind fun _ _ => look_bind (fun _ _ _ => rfl) fun s => ?_
    dsimp only
    split
    · exact pure trivial
    · exact throw ..
  let begun (s : Stage) (now config : Config) : Stage :=
    { s with engine := (s.engine.setConfig now).read (.aside config.cache config.maxPartialDepth), render := { config } }
  -- The render on the side begins at `begun`, then the run is back in the render around it.
  have parts {s t : Stage} {o : Except Error String} (ran : (RenderM.toText template x).Amid mild s o t) :
      ∃ now config v back, (mild → s.engine.config.Like now) ∧ (mild → s.engine.config.Like config) ∧
        side.Amid mild (begun s now config) o v ∧ (mild → v.engine.config.Like back) ∧
        t = { v.setConfig back with render := s.render } := by
    obtain ⟨first, like₁, config, like₂, now, like₃, ran⟩ := ran
    change (side.attempt >>= fun outcome => RenderM.modifyRender (fun _ => s.render) >>= fun _ =>
      MonadExcept.ofExcept outcome).Amid mild (begun s now config) o t at ran
    rcases amid_bind.mp ran with ⟨_, tried, -⟩ | ⟨outcome, v, tried, back, like₄, rest⟩
    · obtain ⟨_, _, no⟩ := amid_attempt.mp tried
      cases no
    · obtain ⟨_, inner, same⟩ := amid_attempt.mp tried
      cases same
      have like (m : mild) : s.engine.config.Like config := (like₁ m).trans (like₂ m)
      refine ⟨now, config, v, back, fun m => (like m).trans (like₃ m), like, ?_⟩
      cases outcome with
      | ok text =>
        obtain ⟨rfl, rfl⟩ := rest
        exact ⟨inner, like₄, rfl⟩
      | error e =>
        obtain ⟨rfl, rfl⟩ := rest
        exact ⟨inner, like₄, rfl⟩
  constructor
  · intro s t o ran
    obtain ⟨now, config, v, back, -, -, inner, -, rfl⟩ := parts ran
    exact ⟨(List.prefix_append _ _).trans (blind.reads inner).1, fun _ _ => trivial⟩
  · intro s s' t t' o o' twin ran ran'
    obtain ⟨now, config, v, back, like, close, inner, likeB, rfl⟩ := parts ran
    obtain ⟨now', config', v', back', like', close', inner', likeB', rfl⟩ := parts ran'
    have more := (blind.reads inner).1
    have more' := (blind.reads inner').1
    by_cases same : config'.cache = config.cache ∧ config'.maxPartialDepth = config.maxPartialDepth
    · have begins : (begun s now config).Twin mild (begun s' now' config') := by
        refine ⟨⟨?_, twin.host⟩, config', rfl, same⟩
        dsimp only [begun]
        rw [same.1, same.2]
        exact (twin.engine.setConfig like like').read _
      rcases blind.agrees begins inner inner' with ⟨same, ends⟩ | parted
      · exact Or.inl ⟨same, (ends.setConfig likeB likeB').toTwin, twin.render⟩
      · exact Or.inr parted
    · have parted : Parted (s.engine.readings ++ [.aside config.cache config.maxPartialDepth])
          (s.engine.readings ++ [.aside config'.cache config'.maxPartialDepth]) := by
        refine .of_ne (fun no => ?_) _
        obtain ⟨cache, depth⟩ := Reading.aside.inj no
        exact same ⟨cache.symm, depth.symm⟩
      refine Or.inr ⟨fun m => ?_, parted.mono more ?_⟩
      · have like := (twin.engine.like m).between (close m) (close' m)
        exact same ⟨like.cache, like.maxPartialDepth⟩
      · rw [← twin.engine.readings]
        exact more'

end

/-! ### Engine and work put off -/

theorem helper? (name : String) : Blind mild (fun _ => True) (helper? name) := by
  refine get_bind (fun s s' h => ?_) fun _ => pure trivial
  obtain ⟨_, _, same, -⟩ := h.engine
  rw [same]

theorem callable (id : FunctionId) : Blind mild (fun _ => True) (callable id) := by
  refine get_bind (fun s s' h => ?_) fun _ => pure trivial
  obtain ⟨_, _, same, -⟩ := h.engine
  rw [same]

theorem depthLimit : Blind mild (fun _ => True) depthLimit := by
  refine get_bind (fun s s' h => ?_) fun _ => pure trivial
  obtain ⟨_, same, -, depth⟩ := h.render
  rw [same, ← depth]

theorem kept? (name : String) : Blind mild (fun _ => True) (kept? name) := by
  refine get_bind (fun s s' h => ?_) fun _ => pure trivial
  obtain ⟨_, _, same, -⟩ := h.engine
  obtain ⟨_, same', cache, -⟩ := h.render
  rw [same, same', ← cache]
  rfl

theorem startLoad (name : String) (template : Option String) : Blind mild (fun _ => True) (startLoad name template) := by
  refine look_bind (fun _ _ _ => rfl) fun s => ?_
  split
  · exact pure trivial
  · refine get_bind (fun s s' h => ?_) fun s => ?_
    · obtain ⟨_, _, same, -⟩ := h.engine
      rw [same]
    · split
      · exact (record _ _).bind fun _ _ => throw _ _
      · next loader _ =>
        refine (record _ _).bind fun _ _ => (withEngine (Engine.blind_ask loader name)).bind fun answer _ => ?_
        refine modifyRender fun r r' h => ?_
        obtain ⟨config, rfl, cache, depth⟩ := h
        exact ⟨config, by rw [depth], cache, depth⟩

theorem pollLoad (name : String) : Blind mild (fun _ => True) (pollLoad name) := by
  refine get_bind (fun s s' h => ?_) fun s => ?_
  · obtain ⟨_, same, cache, depth⟩ := h.render
    rw [same, h.host, ← cache, ← depth]
  · split
    · exact pure trivial
    · next load _ =>
      refine (withEngine (Load.blind_poll ..)).bind fun load _ => ?_
      exact bind (modifyOutput (fun _ _ => rfl) fun _ => rfl) fun _ _ => pure trivial

/-- What a poll finds to do is blind as well. -/
abbrev Polls (mild : Prop) (x : RenderM (Option (RenderM Unit))) : Prop :=
  Blind mild (fun found => ∀ work, found = some work → Blind mild (fun _ => True) work) x

theorem pollText (future : Future String) {work : String → RenderM Unit}
    (hw : ∀ text, Blind mild (fun _ => True) (work text)) : Polls mild (pollText future work) := by
  refine look_bind (fun _ _ _ => rfl) fun s => ?_
  split
  · exact pure fun _ no => by cases no
  · exact pure fun _ same => by cases same; exact throw ..
  · exact pure fun _ same => by cases same; exact hw _

theorem pollTemplate (name : String) {work : Template → RenderM Unit}
    (hw : ∀ t, Blind mild (fun _ => True) (work t)) : Polls mild (pollTemplate name work) := by
  refine (pollLoad name).bind fun result _ => ?_
  split
  · exact pure fun _ no => by cases no
  · exact pure fun _ same => by cases same; exact throw ..
  · exact pure fun _ same => by cases same; exact hw _

theorem putOff (wait : Wait) {poll : RenderM (Option (RenderM Unit))} (hp : Polls mild poll) :
    Blind mild (fun _ => True) (putOff wait poll) := by
  refine reserve.bind fun reserved _ => (note _).bind fun _ _ => hp.bind fun found works => ?_
  cases found with
  | none => exact modifyOutput (fun _ _ => rfl) fun _ => rfl
  | some work => exact (works work rfl).takeUp reserved wait

theorem perform (action : Action) : Blind mild (fun _ => True) (perform action) := by
  have changes (g : Engine → Engine)
      (blind : ∀ (e : Engine) config log, g { e with config, log } = { g e with config, log })
      (still : ∀ e, (g e).config = e.config ∧ (g e).readings = e.readings) :
      Blind mild (fun _ => True) (RenderM.modifyEngine g) := by
    refine modifyEngine (fun e e' h => ?_) fun e => (still e).2 ▸ List.prefix_rfl
    obtain ⟨config, log, rfl, close⟩ := h
    exact ⟨config, log, blind e config log, fun m => (still e).1 ▸ close m⟩
  have kept (name : String) : Blind mild (fun _ => True) (do Pure.pure ((← get).engine.getTemplate name)) := by
    refine get_bind (fun s s' h => ?_) fun s => pure trivial
    obtain ⟨_, _, same, -⟩ := h.engine
    rw [same]
    rfl
  cases action with
  | setConfig config =>
    refine bind (modifyEngine (fun e e' h => ?_) fun _ => List.prefix_rfl) fun _ _ => pure trivial
    obtain ⟨_, log, rfl, -⟩ := h
    exact ⟨config, log, rfl, fun _ => .refl _⟩
  | addTemplate name source =>
    refine (withEngine (Engine.blind_addTemplate name source)).bind fun outcome _ => ?_
    exact (ofExcept outcome).bind fun _ _ => pure trivial
  | getTemplate name => exact kept name
  | renameTemplate name newName =>
    refine (changes (·.renameTemplate name newName) (fun e config log => ?_) fun e => ?_).bind fun _ _ => kept name
    · dsimp only [Engine.renameTemplate, Engine.getTemplate]
      cases Dict.get? name e.templates <;> rfl
    · dsimp only [Engine.renameTemplate]
      cases e.getTemplate name <;> exact ⟨rfl, rfl⟩
  | removeTemplate name =>
    refine get_bind (fun s s' h => ?_) fun s =>
      (changes (·.removeTemplate name) (fun _ _ _ => rfl) fun _ => ⟨rfl, rfl⟩).bind fun _ _ => pure trivial
    obtain ⟨_, _, same, -⟩ := h.engine
    rw [same]
    rfl
  | clearTemplates =>
    exact (changes (·.clearTemplates) (fun _ _ _ => rfl) fun _ => ⟨rfl, rfl⟩).bind fun _ _ => pure trivial
  | openGate gate outcome =>
    refine bind (W := fun _ => True) (modify (fun s s' h => ⟨⟨h.engine, ?_⟩, h.render⟩) fun _ => List.prefix_rfl)
      fun _ _ => pure trivial
    dsimp only
    rw [h.host]

end Blind

/-! ### Rendering -/

def blinding (mild : Prop) : Coupling .any where
  rel V x _ := Blind mild V x
  helper _ := True
  limit _ := True
  fills _ := True
  pure := .pure
  throw := .throw
  bind := .bind
  mapError g h := h.mapError g
  write := .write
  filter filters value := .withEngine (Engine.blind_applyFilters filters value)
  record := .record
  called call := .modifyEngine (fun _ _ h => h.called call) fun _ => List.prefix_rfl
  toText template h := h.toText template
  helper? name := (Blind.helper? name).mono fun _ _ _ _ => trivial
  callable _ := .callable _
  filled _ := .note _
  depthLimit := .depthLimit

def blindingWhole (mild : Prop) : (blinding mild).Whole where
  polls x _ := Blind.Polls mild x
  mono := .mono
  attempt := .attempt
  helper _ := trivial
  kept? := .kept?
  startLoad := .startLoad
  perform := .perform
  pollText future _ _ := Blind.pollText future
  pollTemplate name _ _ := Blind.pollTemplate name
  putOff wait polls := Blind.putOff wait polls

/-- A relation of one side relates a renderer to itself. -/
theorem blind_self {render : Renderer} (hr : ∀ body context, Blind mild (fun _ => True) (render body context))
    (body : Body) (context : Context) :
    (blinding mild).rel (fun _ => True) (render body context) (render body context) :=
  hr body context

theorem blind_exec (nesting : Nat) (body : Body) (context : Context) :
    Blind mild (fun _ => True) (exec nesting body context) := by
  induction nesting generalizing body context with
  | zero => exact .halt ..
  | succ nesting ih => exact (blindingWhole mild).steps (blind_self ih) body context

theorem blind_close (outcome : Except Error Unit) : Blind mild (fun _ => True) (close outcome) := by
  refine .modify (fun s s' h => ?_) fun s => ?_
  · obtain ⟨config, render, cache, depth⟩ := h.render
    cases outcome with
    | ok _ =>
      refine ⟨h.toTwin, h.render.modify (f := Render.flush) (fun r config => ?_) fun r => ?_⟩
      · unfold Render.flush
        dsimp only
        split
        · rfl
        · split <;> rfl
      · unfold Render.flush
        dsimp only
        split
        · rfl
        · split <;> rfl
    | error e =>
      dsimp only [Stage.close]
      unfold Stage.fail
      rw [render]
      split
      · exact h
      · exact ⟨⟨h.engine.record .error e.message, h.host⟩, config, rfl, cache, depth⟩
  · cases outcome with
    | ok _ => exact List.prefix_rfl
    | error e =>
      dsimp only [Stage.close]
      unfold Stage.fail
      split
      · exact List.prefix_rfl
      · exact s.engine.readings_record .error e.message ▸ List.prefix_rfl

theorem blind_settle {render : Renderer} (hr : ∀ body context, Blind mild (fun _ => True) (render body context))
    (steps index : Nat) (progressed : Bool) : Blind mild (fun _ => True) (settle render steps index progressed) := by
  have visits (index : Nat) (task : Task) : Blind mild (fun _ => True) (visit render index task) := by
    have polls : Blind.Polls mild (poll render task.wait) := (blindingWhole mild).poll (blind_self hr) task.wait
    refine polls.bind fun found works => ?_
    cases found with
    | none => exact .pure trivial
    | some work =>
      refine .bind (.modifyOutput (fun _ _ => rfl) fun _ => rfl) fun _ _ => ?_
      exact ((works work rfl).takeUp task.chunk task.wait).bind fun _ _ => .pure trivial
  have ahead {f g : Stage → RenderM Unit} (same : ∀ s t, t.render.progress = s.render.progress →
      t.render.tasks = s.render.tasks → f t = f s ∧ g t = g s) (hf : ∀ s, Blind mild (fun _ => True) (f s)) :
      Blind mild (fun _ => True) (get >>= f) :=
    Blind.look_bind (fun s _ _ => (same s _ rfl rfl).1) hf
  induction steps generalizing index progressed with
  | zero => exact .halt ..
  | succ steps ih =>
    have next (index : Nat) (progressed : Bool) : (blinding mild).rel (fun _ => True)
      (settle render steps index progressed) (settle render steps index progressed) := ih index progressed
    exact Coupling.settle_succ ahead (fun index task => (visits index task).attempt) blind_close next index progressed

theorem blind_work (o : OutputStream) (steps : Nat) : Blind mild (fun _ => True) (o.work steps) := by
  have drives : Blind mild (fun _ => True) (drive steps) := blind_settle (blind_exec steps) steps 0 false
  unfold OutputStream.work
  cases o.job with
  | none => exact drives
  | some job =>
    have jobs : Blind mild (fun _ => True) (job.run (exec steps)) :=
      (blindingWhole mild).job (blind_self (blind_exec steps)) job
    exact ((jobs.within _).attempt.bind fun outcome _ => blind_close outcome).bind fun _ _ => drives

end RenderM
end Stencil
