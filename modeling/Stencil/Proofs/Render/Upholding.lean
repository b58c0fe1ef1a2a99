import Stencil.Proofs.Engine.Loads
import Stencil.Proofs.Render.Passage
import Stencil.Render.Writing

/-! Code that upholds a property of stages, as long as it comes through stages of some kind only, and the results and errors
    that it ends with. What holds of the pieces of rendering whatever the property is collected here. -/

namespace Stencil

/-- The stage in which a render on the side begins. -/
def Stage.onSide (s : Stage) : Stage :=
  { s with engine := s.engine.read (.aside s.engine.config.cache s.engine.config.maxPartialDepth),
           render := { config := s.engine.config } }

/-- What an action makes of the engine. -/
def Action.onEngine : Action → Engine → Engine
  | .setConfig config, e => e.setConfig config
  | .addTemplate name source, e => (e.addTemplate name source).2
  | .getTemplate _, e => e
  | .renameTemplate name newName, e => e.renameTemplate name newName
  | .removeTemplate name, e => e.removeTemplate name
  | .clearTemplates, e => e.clearTemplates
  | .openGate _ _, e => e

/-- What an action makes of the host. -/
def Action.onHost : Action → Host → Host
  | .openGate gate outcome, host => host.openGate gate outcome
  | _, host => host

theorem Action.same_onEngine (action : Action) (e : Engine) : e.Same (action.onEngine e) := by
  cases action with
  | addTemplate name source => exact e.same_addTemplate name source
  | renameTemplate name newName => exact e.same_renameTemplate name newName
  | setConfig | getTemplate | removeTemplate | clearTemplates | openGate => exact ⟨rfl, rfl, rfl⟩

namespace RenderM

variable {α β : Type} {A I : Stage → Prop} {H : Halt → Prop}

/-- The result is of the one kind, or the error of the other. -/
def Outcome (V : α → Prop) (Q : Error → Prop) : Except Error α → Prop
  | .ok a => V a
  | .error e => Q e

/-- From a stage with `I` the code comes through such stages only, halts for the reasons `H` only, and ends with results and
    errors of some kind only, if all the stages on the way are of the kind `A`. -/
def Admits (A I : Stage → Prop) (H : Halt → Prop) (V : α → Prop) (Q : Error → Prop) (x : RenderM α) : Prop :=
  ∀ s : Stage, I s → (∀ t, x.Passes s t → A t) → x.Safe I H s fun o _ => Outcome V Q o

/-- Any error may come of the code. -/
def Upholds (A I : Stage → Prop) (H : Halt → Prop) (V : α → Prop) (x : RenderM α) : Prop := ∀ s : Stage, I s →
  (∀ t, x.Passes s t → A t) → x.Safe I H s fun o _ => ∀ a, o = .ok a → V a

/-- A property that use of the output keeps, and that a render on the side begins with and leaves behind. -/
structure Steady (I : Stage → Prop) (H : Halt → Prop) : Prop where
  violation (e : Error) : H (.violation e)
  output {s : Stage} (chunks : Chunks) (writers : List ChunkId) : I s →
    I { s with render := { s.render with chunks, writers } }
  side {s t : Stage} (reading : Reading) : I s → I t →
    I { t with engine := t.engine.read reading, render := { config := s.engine.config } }
  back {s t : Stage} : I s → I t → I { t with render := s.render }

namespace Admits

variable {V : α → Prop} {W : β → Prop} {Q R : Error → Prop} {x : RenderM α}

theorem pure {a : α} (h : V a) : Admits A I H V Q (pure a) := fun _ here _ => ⟨here, h⟩

theorem throw {e : Error} (h : Q e) : Admits A I H V Q (throw e) := fun _ here _ => ⟨here, h⟩

theorem halt {reason : Halt} (h : H reason) : Admits A I H V Q (halt reason) := fun _ here _ => ⟨here, h⟩

theorem bind {x : RenderM β} {f : β → RenderM α} (hx : Admits A I H W Q x)
    (hf : ∀ a, W a → Admits A I H V Q (f a)) : Admits A I H V Q (x >>= f) := by
  intro s here admitted
  refine Safe.bind ((hx s here fun t pass => admitted t (passes_bind_left pass)).mono_run fun o t ran there ends => ?_)
  cases o with
  | ok a => exact hf a ends t there fun u pass => admitted u (passes_bind ran pass)
  | error e => exact ends

theorem get_bind {f : Stage → RenderM α} (h : ∀ s, I s → A s → Admits A I H V Q (f s)) :
    Admits A I H V Q (get >>= f) := fun s here admitted => h s here (admitted s passes_self) s here admitted

theorem mono {U : α → Prop} (hx : Admits A I H V Q x) (imp : ∀ a, V a → U a) : Admits A I H U Q x :=
  fun s here admitted => (hx s here admitted).mono fun o _ _ ends => by
    cases o with
    | ok a => exact imp a ends
    | error e => exact ends

/-- The errors are those that runs from a stage of the kind fail with. -/
theorem mono_error (hx : Admits A I H V Q x) (imp : ∀ s t e, A s → x.run s = .ok (.error e, t) → Q e → R e) :
    Admits A I H V R x := fun s here admitted => (hx s here admitted).mono_run fun o t ran _ ends => by
  cases o with
  | ok a => exact ends
  | error e => exact imp s t e (admitted s passes_self) ran ends

/-- The results are those of runs from a stage of the kind to another. -/
theorem ran (hx : Admits A I H V Q x) :
    Admits A I H (fun a => V a ∧ ∃ s t, A s ∧ A t ∧ x.run s = .ok (.ok a, t)) Q x :=
  fun s here admitted => (hx s here admitted).mono_run fun o t ran _ ends => by
    cases o with
    | ok a => exact ⟨ends, s, t, admitted s passes_self, admitted t (passes_last ran), ran⟩
    | error e => exact ends

theorem attempt (hx : Admits A I H V Q x) : Admits A I H (Outcome V Q) R (attempt x) := fun s here admitted =>
  Safe.attempt ((hx s here fun t pass => admitted t (passes_attempt.mpr pass)).mono fun _ _ _ ends => ends)

theorem ofExcept {outcome : Except Error α} (h : Outcome V Q outcome) : Admits A I H V Q (ofExcept outcome) := by
  cases outcome with
  | ok a => exact pure h
  | error e => exact throw h

theorem mapError {g : Error → Error} (hx : Admits A I H V Q x) (imp : ∀ e, Q e → R (g e)) :
    Admits A I H V R (mapError g x) := by
  refine hx.attempt.bind fun o ends => ofExcept ?_
  cases o with
  | ok a => exact ends
  | error e => exact imp e ends

theorem modify {g : Stage → Stage} (after : ∀ s, I s → I (g s)) : Admits A I H (fun _ => True) Q (modify g) :=
  fun s here _ => Safe.modify here (after s here) trivial

theorem withEngine {g : Engine → α × Engine} (after : ∀ s, I s → I { s with engine := (g s.engine).2 })
    (results : ∀ s, I s → A s → V (g s.engine).1) : Admits A I H V Q (withEngine g) := fun s here admitted =>
  ⟨here, after s here, results s here (admitted s passes_self)⟩

/-- An action fails with the errors of the templates that it adds only. -/
theorem perform {action : Action}
    (after : ∀ s, I s → I { s with engine := action.onEngine s.engine, host := action.onHost s.host })
    (failed : ∀ {e : Engine} {name source : String} {error : Error},
      (e.addTemplate name source).1 = .error error → Q error) : Admits A I H (fun _ => True) Q (perform action) := by
  cases action with
  | addTemplate name source =>
    have adds : Admits A I H (Outcome (fun _ => True) Q) Q (RenderM.withEngine (·.addTemplate name source)) := by
      refine withEngine after fun s _ _ => ?_
      cases added : (s.engine.addTemplate name source).1 with
      | ok t => trivial
      | error error => exact failed added
    exact adds.bind fun outcome ends => (ofExcept ends).bind fun _ _ => pure trivial
  | getTemplate name => exact get_bind fun _ _ _ => pure trivial
  | renameTemplate name newName => exact (modify after).bind fun _ _ => get_bind fun _ _ _ => pure trivial
  | removeTemplate name => exact get_bind fun _ _ _ => (modify after).bind fun _ _ => pure trivial
  | setConfig | clearTemplates | openGate => exact (modify after).bind fun _ _ => pure trivial

section

variable (steady : Steady I H)

include steady

theorem writer : Admits A I H (fun _ => True) Q writer := by
  refine get_bind fun s _ _ => ?_
  split
  · exact pure trivial
  · exact halt (steady.violation _)

theorem rightful (outcome : Except Error α) : Admits A I H (fun _ => True) Q (rightful outcome) := by
  cases outcome with
  | ok a => exact pure trivial
  | error e => exact halt (steady.violation e)

theorem write (text : String) : Admits A I H (fun _ => True) Q (write text) := by
  unfold RenderM.write
  split
  · exact pure trivial
  · refine get_bind fun s _ _ => (writer steady).bind fun id _ => (rightful steady _).bind fun cs _ => ?_
    exact modify fun t there => steady.output cs t.render.writers there

theorem reserve : Admits A I H (fun _ => True) Q reserve := by
  refine (writer steady).bind fun id _ => get_bind fun s _ _ => (rightful steady _).bind fun made _ => ?_
  have moves : Admits A I H (fun _ => True) Q
      (modifyRender fun r => { r with chunks := made.2, writers := made.1 :: r.writers.tail }) :=
    modify fun _ there => steady.output _ _ there
  exact moves.bind fun _ _ => pure trivial

theorem within {x : RenderM Unit} (id : ChunkId) (hx : Admits A I H (fun _ => True) Q x) :
    Admits A I H (fun _ => True) Q (within id x) := by
  have enters : Admits A I H (fun _ => True) Q (enter id) := modify fun s => steady.output s.render.chunks _
  have leaves : Admits A I H (fun _ => True) Q leave := modify fun s => steady.output s.render.chunks _
  refine enters.bind fun _ _ => hx.attempt.bind fun o ends => ?_
  cases o with
  | ok _ =>
    refine get_bind fun s _ _ => (writer steady).bind fun id _ => (rightful steady _).bind fun cs _ => ?_
    exact modify fun _ there => steady.output _ _ there
  | error e => exact leaves.bind fun _ _ => throw ends

/-- Work is left on the side where the run of the code there leaves some. -/
theorem toText {x : RenderM Unit} {template : Option String} (hx : Admits A I H (fun _ => True) Q x)
    (puts : ∀ s u, A s → (RenderM.within Chunks.root x).run s.onSide = .ok (.ok (), u) → u.render.tasks ≠ [] →
      Q (notSynchronous template)) : Admits A I H (fun _ => True) Q (toText template x) := by
  intro s here admitted
  have known := admitted s passes_self
  have begun : I s.onSide := steady.side _ here here
  refine Safe.bind (Safe.get here (Safe.bind (Safe.get here (Safe.bind (Safe.modify here begun ?_)))))
  have passed {t : Stage} (pass : (RenderM.within Chunks.root x).Passes s.onSide t) : A t :=
    admitted t (passes_bind (u := s) rfl (passes_bind (u := s) rfl (passes_bind (u := s.onSide) rfl
      (passes_bind_left (passes_attempt.mpr (passes_bind_left pass))))))
  have side : (do
      RenderM.within Chunks.root x
      let side := (← get).render
      if side.tasks.isEmpty then Pure.pure side.chunks.flush.1 else MonadExcept.throw (notSynchronous template)).Safe I H
        s.onSide fun o _ => Outcome (fun _ => True) Q o := by
    refine Safe.bind ((within steady _ hx s.onSide begun fun _ => passed).mono_run fun o u ran there ends => ?_)
    cases o with
    | error e => exact ends
    | ok _ =>
      refine Safe.bind (Safe.get there ?_)
      dsimp only
      split
      · exact Safe.pure there trivial
      · next left => exact Safe.throw there (puts s u known ran fun no => left (List.isEmpty_iff.mpr no))
  refine Safe.bind (Safe.attempt (side.mono fun o u there ends => ?_))
  refine Safe.bind (Safe.modifyRender there (steady.back here there) ?_)
  cases o with
  | ok text => exact Safe.pure (steady.back here there) trivial
  | error e => exact Safe.throw (steady.back here there) ends

section

variable (noted : ∀ {s : Stage} (entry : Entry), I s →
  I { s with render := { s.render with journal := entry :: s.render.journal } })

include noted

theorem takeUp {x : RenderM Unit} (id : ChunkId) (wait : Wait) (hx : Admits A I H (fun _ => True) Q x) :
    Admits A I H (fun _ => True) Q (takeUp id wait x) := by
  have notes (entry : Entry) : Admits A I H (fun _ => True) Q (note entry) := modify fun _ here => noted entry here
  refine (notes _).bind fun _ _ => (within steady id hx).attempt.bind fun o ends => ?_
  cases o with
  | ok _ => exact notes _
  | error e => exact (notes _).bind fun _ _ => throw ends

/-- Work is put off if its wait may be parked, or done at once. -/
theorem putOff {wait : Wait} {poll : RenderM (Option (RenderM Unit))}
    (parks : ∀ {s : Stage} (id : ChunkId), I s →
      I { s with render := { s.render with tasks := s.render.tasks ++ [⟨id, wait⟩] } })
    (polls : Admits A I H (fun found => ∀ work, found = some work → Admits A I H (fun _ => True) Q work) Q poll) :
    Admits A I H (fun _ => True) Q (putOff wait poll) := by
  refine (reserve steady).bind fun id _ => (modify fun _ here => noted _ here).bind fun _ _ => ?_
  refine polls.bind fun found works => ?_
  cases found with
  | none => exact modify fun _ here => parks id here
  | some work => exact takeUp steady noted id wait (works work rfl)

end

end

end Admits

variable {V : α → Prop} {W : β → Prop} {x : RenderM α}

theorem upholds_iff : Upholds A I H V x ↔ Admits A I H V (fun _ => True) x := by
  refine forall₃_congr fun s _ _ =>
    ⟨fun h => h.mono fun o _ _ results => ?_, fun h => h.mono fun o _ _ ends a same => ?_⟩
  · cases o with
    | ok a => exact results a rfl
    | error e => trivial
  · subst same
    exact ends

namespace Upholds

/-- What needs no kind of stages holds through stages of any kind. -/
theorem restrict (hx : Upholds (fun _ => True) I H V x) : Upholds A I H V x :=
  fun s here _ => hx s here fun _ _ => trivial

theorem pure {a : α} (h : V a) : Upholds A I H V (pure a) := upholds_iff.mpr (.pure h)

theorem throw (e : Error) : Upholds A I H V (throw e) := upholds_iff.mpr (.throw trivial)

theorem halt {reason : Halt} (h : H reason) : Upholds A I H V (halt reason) := upholds_iff.mpr (.halt h)

theorem bind {x : RenderM β} {f : β → RenderM α} (hx : Upholds A I H W x) (hf : ∀ a, W a → Upholds A I H V (f a)) :
    Upholds A I H V (x >>= f) :=
  upholds_iff.mpr ((upholds_iff.mp hx).bind fun a ha => upholds_iff.mp (hf a ha))

theorem get_bind {f : Stage → RenderM α} (h : ∀ s, I s → Upholds A I H V (f s)) : Upholds A I H V (get >>= f) :=
  upholds_iff.mpr (.get_bind fun s here _ => upholds_iff.mp (h s here))

/-- The stage that is looked at is of the kind. -/
theorem look_bind {f : Stage → RenderM α} (h : ∀ s, I s → A s → Upholds A I H V (f s)) :
    Upholds A I H V (get >>= f) := upholds_iff.mpr (.get_bind fun s here known => upholds_iff.mp (h s here known))

theorem mono {W : α → Prop} (hx : Upholds A I H V x) (imp : ∀ a, V a → W a) : Upholds A I H W x :=
  upholds_iff.mpr ((upholds_iff.mp hx).mono imp)

/-- The results are those of runs from a stage of the kind to another. -/
theorem ran (hx : Upholds A I H V x) :
    Upholds A I H (fun a => V a ∧ ∃ s t, A s ∧ A t ∧ x.run s = .ok (.ok a, t)) x :=
  upholds_iff.mpr (upholds_iff.mp hx).ran

theorem attempt (hx : Upholds A I H V x) : Upholds A I H (fun _ => True) (attempt x) :=
  upholds_iff.mpr ((upholds_iff.mp hx).attempt.mono fun _ _ => trivial)

theorem mapError (hx : Upholds A I H V x) (g : Error → Error) : Upholds A I H V (mapError g x) :=
  upholds_iff.mpr ((upholds_iff.mp hx).mapError fun _ _ => trivial)

theorem modify {g : Stage → Stage} (after : ∀ s, I s → I (g s)) : Upholds A I H (fun _ => True) (modify g) :=
  upholds_iff.mpr (.modify after)

theorem withEngine {g : Engine → α × Engine} (after : ∀ s, I s → I { s with engine := (g s.engine).2 }) :
    Upholds A I H (fun _ => True) (withEngine g) := upholds_iff.mpr (.withEngine after fun _ _ _ => trivial)

theorem perform {action : Action}
    (after : ∀ s, I s → I { s with engine := action.onEngine s.engine, host := action.onHost s.host }) :
    Upholds A I H (fun _ => True) (perform action) := upholds_iff.mpr (.perform after fun _ => trivial)

/-- A load begins with a call of the loader, and waits. -/
theorem startLoad {name : String} {template : Option String}
    (recorded : ∀ {s : Stage} level message, I s → I { s with engine := s.engine.record level message })
    (asked : ∀ {s : Stage} {loader : Loader}, I s → s.engine.loader = some loader →
      let asked := s.engine.ask loader name
      I { s with engine := asked.2 } ∧ ∀ {t : Stage} rounds, I t → I { t with
        render := { t.render with loads := Dict.insert name (.waiting name asked.1 rounds) t.render.loads } }) :
    Upholds A I H (fun _ => True) (startLoad name template) := by
  intro s here _
  refine Safe.bind (Safe.get here ?_)
  dsimp only
  split
  · exact Safe.pure here fun _ _ => trivial
  · refine Safe.bind (Safe.get here ?_)
    dsimp only
    split
    · exact ⟨here, recorded .error _ here, nofun⟩
    · next loader set =>
      have there := recorded .debug ("Loading template `" ++ name ++ "`") here
      obtain ⟨engine, begins⟩ := asked there ((s.engine.same_record ..).loader.trans set)
      exact ⟨here, there, engine, begins _ engine, fun _ _ => trivial⟩

/-- A load is polled with the engine, and put back. -/
theorem pollLoad {name : String}
    (polled : ∀ {s : Stage} {load : Load}, I s → Dict.get? name s.render.loads = some load →
      let polled := load.poll s.host s.render.config.cache s.render.config.maxPartialDepth s.engine
      I { s with engine := polled.2 } ∧ ∀ {t : Stage}, I t → I { t with
        render := { t.render with loads := Dict.insert name polled.1 t.render.loads } }) :
    Upholds A I H (fun _ => True) (pollLoad name) := by
  intro s here _
  refine Safe.bind (Safe.get here ?_)
  dsimp only
  split
  · exact Safe.pure here fun _ _ => trivial
  · next load found =>
    obtain ⟨engine, goesBack⟩ := polled here found
    exact ⟨here, engine, goesBack engine, fun _ _ => trivial⟩

section

variable (steady : Steady I H)

include steady

theorem write (text : String) : Upholds A I H (fun _ => True) (write text) := upholds_iff.mpr (.write steady text)

theorem within {x : RenderM Unit} (id : ChunkId) (hx : Upholds A I H (fun _ => True) x) :
    Upholds A I H (fun _ => True) (within id x) := upholds_iff.mpr (.within steady id (upholds_iff.mp hx))

theorem toText {x : RenderM Unit} (template : Option String) (hx : Upholds A I H (fun _ => True) x) :
    Upholds A I H (fun _ => True) (toText template x) :=
  upholds_iff.mpr (.toText steady (upholds_iff.mp hx) fun _ _ _ _ _ => trivial)

theorem takeUp (noted : ∀ {s : Stage} (entry : Entry), I s →
    I { s with render := { s.render with journal := entry :: s.render.journal } }) {x : RenderM Unit} (id : ChunkId)
    (wait : Wait) (hx : Upholds A I H (fun _ => True) x) : Upholds A I H (fun _ => True) (takeUp id wait x) :=
  upholds_iff.mpr (.takeUp steady noted id wait (upholds_iff.mp hx))

theorem safe_reserve {s : Stage} (here : I s) : reserve.Safe I H s fun _ t => t.render.loads = s.render.loads := by
  unfold reserve RenderM.writer
  refine Safe.bind (Safe.bind (Safe.get here ?_))
  dsimp only
  split
  · refine Safe.pure here (Safe.bind (Safe.get here (Safe.bind ?_)))
    cases s.render.chunks.insertAfter _ with
    | error e => exact ⟨here, steady.violation e⟩
    | ok made =>
      have there := steady.output made.2 (made.1 :: s.render.writers.tail) here
      exact Safe.pure here (Safe.bind (Safe.modifyRender here there (Safe.pure there rfl)))
  · exact ⟨here, steady.violation _⟩

end

end Upholds

end RenderM
end Stencil
