import Stencil.Proofs.Engine.Pointers
import Stencil.Proofs.Render.Coupling
import Stencil.Proofs.Render.Upholding

/-! What becomes of the load of one name while code runs. All that miss the name share one load, which is begun by one call
    of the loader. So the calls of the loader are counted: one for a render without a load of the name, and one for each
    render on the side that begins. -/

namespace Stencil

/-- From one stage to another, what becomes of the load of a name in the render at work. All stages between are of a
    kind. -/
inductive Sharing (A : Stage → Prop) (n : String) : Stage → Stage → Prop where
  /-- Nothing, and the loader is not called with the name. -/
  | rest {s t : Stage} : A s → A t → s.engine.Spared n t.engine →
    Dict.get? n t.render.loads = Dict.get? n s.render.loads → Sharing A n s t
  /-- It begins, as there was none: the loader is called. -/
  | call {s t : Stage} {loader : Loader} (rounds : Nat) : A s → A t → s.engine.loader = some loader →
    Dict.get? n s.render.loads = none → t.engine.asked = s.engine.asked ++ [n] → t.engine.asides = s.engine.asides →
    Dict.get? n t.render.loads = some (.waiting n (loader.load s.engine.asked n) rounds) → Sharing A n s t
  /-- It goes as far as the host allows, without a call of the loader with the name. -/
  | answer {s t : Stage} {load : Load} : A s → A t → Dict.get? n s.render.loads = some load →
    s.engine.Spared n t.engine → Dict.get? n t.render.loads =
      some (load.poll s.host s.render.config.cache s.render.config.maxPartialDepth s.engine).1 → Sharing A n s t
  /-- A render on the side begins without loads and shares those of its own. -/
  | aside {s t : Stage} : A s → A { t with render := s.render } → Sharing A n s.onSide t →
    Sharing A n s { t with render := s.render }
  | trans {s t u : Stage} : Sharing A n s t → Sharing A n t u → Sharing A n s u

/-- What waits for the load of the name finds one among the loads. -/
def Wait.Attended (n : String) (loads : Dict Load) (wait : Wait) : Prop :=
  ∀ context, wait = .load n context → (Dict.get? n loads).isSome = true

/-- Nothing points the loads of the render to the name, and what waits for the name has a load. -/
structure Stage.Orderly (n : String) (s : Stage) : Prop where
  engine : s.engine.Avoids n
  loads {key : String} {load : Load} : Dict.get? key s.render.loads = some load → load.Avoids n key
  tasks : ∀ task ∈ s.render.tasks, task.wait.Attended n s.render.loads

theorem Dict.isSome_get?_insert {α : Type} {key other : String} {value : α} {d : Dict α}
    (h : (Dict.get? key d).isSome = true) : (Dict.get? key (Dict.insert other value d)).isSome = true :=
  Dict.contains_insert.mpr (.inr h)

/-- A load comes to the loads of an orderly stage, or goes on there. -/
theorem Stage.Orderly.insert {n name : String} {s : Stage} (h : s.Orderly n) {engine : Engine} {load : Load}
    (he : engine.Avoids n) (hl : load.Avoids n name) :
    Stage.Orderly n { s with engine, render := { s.render with loads := Dict.insert name load s.render.loads } } :=
  ⟨he, loads_insert (P := fun key load => load.Avoids n key) hl h.loads,
    fun task mem context same => Dict.isSome_get?_insert (h.tasks task mem context same)⟩

/-- The calls of the loader that the render may still make with the name: one, as long as it has no load of it. -/
def Render.misses (n : String) (r : Render) : Nat := if (Dict.get? n r.loads).isSome then 0 else 1

namespace Sharing

variable {A : Stage → Prop} {n : String} {s t : Stage}

theorem refl (here : A s) : Sharing A n s s := .rest here here (.refl n _) rfl

/-- The loader is called with the name where the render at work misses it, and in renders on the side. -/
theorem asked_le (h : Sharing A n s t) : t.engine.asked.count n + t.render.misses n + s.engine.asides ≤
    s.engine.asked.count n + s.render.misses n + t.engine.asides := by
  unfold Render.misses
  induction h with
  | rest _ _ spared same => exact Nat.le_of_eq (by rw [spared.asked, spared.asides, same])
  | call _ _ _ _ none asked asides some =>
    simp [asked, asides, none, some, List.count_append]
  | answer _ _ found spared after => simp [spared.asked, spared.asides, found, after]
  | @aside s t _ _ _ ih =>
    have begun : s.onSide.engine.asides = s.engine.asides + 1 := Engine.asides_read ..
    rw [begun] at ih
    change _ ≤ s.engine.asked.count n + 1 + t.engine.asides at ih
    dsimp only
    omega
  | trans _ _ ih ih' => omega

/-- What a load has settled with, it stays settled with. -/
theorem settled (h : Sharing A n s t) {result : Except Error Template}
    (found : Dict.get? n s.render.loads = some (.settled result)) : Dict.get? n t.render.loads = some (.settled result) := by
  induction h with
  | rest _ _ _ same => rw [same, found]
  | call _ _ _ _ none => cases none.symm.trans found
  | answer _ _ found' _ after =>
    cases found'.symm.trans found
    exact after
  | aside => exact found
  | trans _ _ ih ih' => exact ih' (ih found)

end Sharing

namespace RenderM

open Render

variable {α β : Type} {A : Stage → Prop} {n : String} {P : Stage → Prop} {Q : α → Stage → Prop} {R : β → Stage → Prop}

/-- From an orderly stage with `P` the code goes to an orderly one and shares the load of the name, and where it ends well
    there is `Q`, if all the stages on the way are of a kind. -/
def Shares (A : Stage → Prop) (n : String) (P : Stage → Prop) (x : RenderM α) (Q : α → Stage → Prop) : Prop :=
  ∀ s, s.Orderly n → P s → (∀ u, x.Passes s u → A u) → ∀ o t, x.run s = .ok (o, t) →
    t.Orderly n ∧ Sharing A n s t ∧ ∀ a, o = .ok a → Q a t

/-- The code shares the load of the name from every stage. -/
abbrev SharesAll (A : Stage → Prop) (n : String) (V : α → Prop) (x : RenderM α) : Prop :=
  Shares A n (fun _ => True) x fun a _ => V a

namespace Shares

theorem pure {a : α} (h : ∀ s, P s → Q a s) : Shares A n P (pure a) Q := by
  intro s orderly here admitted o t ran
  cases ran
  exact ⟨orderly, .refl (admitted s passes_self), fun _ same => by cases same; exact h s here⟩

theorem throw (P : Stage → Prop) (Q : α → Stage → Prop) (e : Error) : Shares A n P (throw e) Q := by
  intro s orderly _ admitted o t ran
  cases ran
  exact ⟨orderly, .refl (admitted s passes_self), fun _ no => by cases no⟩

theorem halt (P : Stage → Prop) (Q : α → Stage → Prop) (reason : Halt) : Shares A n P (halt reason) Q :=
  fun _ _ _ _ _ _ no => by cases no

theorem weaken {P' : Stage → Prop} {Q' : α → Stage → Prop} {x : RenderM α} (h : Shares A n P x Q) (pre : ∀ s, P' s → P s)
    (post : ∀ a s, Q a s → Q' a s) : Shares A n P' x Q' := by
  intro s orderly here admitted o t ran
  obtain ⟨after, sharing, results⟩ := h s orderly (pre s here) admitted o t ran
  exact ⟨after, sharing, fun a same => post a t (results a same)⟩

theorem bind {x : RenderM α} {f : α → RenderM β} (hx : Shares A n P x Q) (hf : ∀ a, Shares A n (Q a) (f a) R) :
    Shares A n P (x >>= f) R := by
  intro s orderly here admitted o t ran
  have hx := hx s orderly here fun u pass => admitted u (passes_bind_left pass)
  rcases run_bind_eq_ok.mp ran with ⟨e, first, rfl⟩ | ⟨a, u, first, rest⟩
  · obtain ⟨after, sharing, -⟩ := hx _ t first
    exact ⟨after, sharing, fun _ no => by cases no⟩
  · obtain ⟨between, sharing, results⟩ := hx _ u first
    obtain ⟨after, sharing', results'⟩ :=
      hf a u between (results a rfl) (fun v pass => admitted v (passes_bind first pass)) o t rest
    exact ⟨after, sharing.trans sharing', results'⟩

theorem attempt {x : RenderM α} (h : Shares A n P x fun _ _ => True) : Shares A n P (attempt x) fun _ _ => True := by
  intro s orderly here admitted o t ran
  obtain ⟨_, inner, -⟩ := run_attempt_eq_ok.mp ran
  obtain ⟨after, sharing, -⟩ := h s orderly here (fun u pass => admitted u (passes_attempt.mpr pass)) _ t inner
  exact ⟨after, sharing, fun _ _ => trivial⟩

theorem mapError {x : RenderM α} (g : Error → Error) (h : Shares A n P x Q) : Shares A n P (mapError g x) Q := by
  intro s orderly here admitted o t ran
  obtain ⟨inner, inside, rfl⟩ := run_mapError_eq_ok.mp ran
  have passed (u : Stage) (pass : x.Passes s u) : A u := admitted u (passes_bind_left (passes_attempt.mpr pass))
  obtain ⟨after, sharing, results⟩ := h s orderly here passed _ t inside
  cases inner with
  | ok a => exact ⟨after, sharing, results⟩
  | error e => exact ⟨after, sharing, fun _ no => by cases no⟩

theorem get_bind {f : Stage → RenderM α} (h : ∀ s, Shares A n (fun t => t = s ∧ P t) (f s) Q) :
    Shares A n P (get >>= f) Q := fun s orderly here => h s s orderly ⟨rfl, here⟩

/-- Code that goes on from any stage it looks at. -/
theorem look {f : Stage → RenderM α} (h : ∀ s, Shares A n P (f s) Q) : Shares A n P (get >>= f) Q :=
  get_bind fun s => (h s).weaken (fun _ here => here.2) fun _ _ => id

end Shares

/-- The code has nothing to do with loads. -/
def Spares (A : Stage → Prop) (n : String) (x : RenderM α) : Prop :=
  ∀ loads, Shares A n (·.render.loads = loads) x fun _ t => t.render.loads = loads

namespace Spares

theorem keeps {x : RenderM α} (h : Spares A n x) (L : Dict Load → Prop) :
    Shares A n (fun s => L s.render.loads) x fun _ t => L t.render.loads := by
  intro s orderly here admitted o t ran
  obtain ⟨after, sharing, results⟩ := h s.render.loads s orderly rfl admitted o t ran
  refine ⟨after, sharing, fun a same => ?_⟩
  have kept : t.render.loads = s.render.loads := results a same
  show L t.render.loads
  rw [kept]
  exact here

theorem all {x : RenderM α} (h : Spares A n x) : SharesAll A n (fun _ => True) x := h.keeps fun _ => True

theorem pure (a : α) : Spares A n (pure a) := fun _ => .pure fun _ => id

theorem throw (e : Error) : Spares A n (throw e : RenderM α) := fun _ => .throw _ _ e

theorem halt (reason : Halt) : Spares A n (halt reason : RenderM α) := fun _ => .halt _ _ reason

theorem bind {x : RenderM α} {f : α → RenderM β} (hx : Spares A n x) (hf : ∀ a, Spares A n (f a)) : Spares A n (x >>= f) :=
  fun loads => (hx loads).bind fun a => hf a loads

theorem look {f : Stage → RenderM α} (h : ∀ s, Spares A n (f s)) : Spares A n (get >>= f) :=
  fun loads => .look fun s => h s loads

theorem modify {g : Stage → Stage} (engine : ∀ s : Stage, s.engine.Silent (g s).engine)
    (loads : ∀ s, (g s).render.loads = s.render.loads)
    (tasks : ∀ s, ∀ task ∈ (g s).render.tasks, task ∈ s.render.tasks) : Spares A n (modify g) := by
  intro l s orderly here admitted o t ran
  have there := admitted t (passes_last ran)
  cases ran
  refine ⟨⟨(engine s).avoids orderly.engine, ?_, ?_⟩,
    .rest (admitted s passes_self) there ((engine s).spared n) ?_, fun _ _ => ?_⟩
  · rw [loads]
    exact orderly.loads
  · intro task mem
    rw [loads]
    exact orderly.tasks task (tasks s task mem)
  · rw [loads]
  · exact (loads s).trans here

theorem modifyRender {g : Render → Render} (loads : ∀ r, (g r).loads = r.loads)
    (tasks : ∀ r, ∀ task ∈ (g r).tasks, task ∈ r.tasks) : Spares A n (modifyRender g) :=
  modify (fun s => .refl s.engine) (fun s => loads s.render) fun s => tasks s.render

theorem modifyEngine {g : Engine → Engine} (h : ∀ e : Engine, e.Silent (g e)) : Spares A n (modifyEngine g) :=
  modify (fun s => h s.engine) (fun _ => rfl) fun _ _ mem => mem

theorem withEngine {g : Engine → α × Engine} (h : ∀ e : Engine, e.Silent (g e).2) : Spares A n (withEngine g) := by
  intro l s orderly here admitted o t ran
  have there := admitted t (passes_last ran)
  cases ran
  have silent := h s.engine
  exact ⟨⟨silent.avoids orderly.engine, orderly.loads, orderly.tasks⟩,
    .rest (admitted s passes_self) there (silent.spared n) rfl, fun _ _ => here⟩

theorem record (level : LogLevel) (message : String) : Spares A n (record level message) :=
  modifyEngine fun e => e.silent_record level message

theorem note (entry : Entry) : Spares A n (note entry) := modifyRender (fun _ => rfl) fun _ _ mem => mem

theorem writer : Spares A n writer := by
  refine look fun s => ?_
  split
  · exact pure _
  · exact halt _

theorem rightful (outcome : Except Error α) : Spares A n (rightful outcome) := by
  cases outcome with
  | ok a => exact pure a
  | error e => exact halt _

theorem write (text : String) : Spares A n (write text) := by
  unfold RenderM.write
  split
  · exact pure _
  · refine look fun s => writer.bind fun id => (rightful _).bind fun chunks => ?_
    exact modifyRender (fun _ => rfl) fun _ _ mem => mem

theorem reserve : Spares A n reserve := by
  refine writer.bind fun id => look fun s => (rightful _).bind fun _ => ?_
  exact bind (modifyRender (fun _ => rfl) fun _ _ mem => mem) fun _ => pure _

theorem finish : Spares A n finish := by
  refine look fun s => writer.bind fun id => (rightful _).bind fun chunks => ?_
  exact modifyRender (fun _ => rfl) fun _ _ mem => mem

theorem perform (action : Action) : Spares A n (perform action) := by
  cases action with
  | setConfig config => exact bind (modifyEngine fun _ => ⟨rfl, rfl, rfl⟩) fun _ => pure _
  | addTemplate name source =>
    refine bind (withEngine fun e => e.silent_addTemplate name source) fun outcome => ?_
    cases outcome with
    | ok t => exact pure (some t)
    | error e => exact throw e
  | getTemplate name => exact look fun _ => pure _
  | renameTemplate name newName =>
    exact bind (modifyEngine fun e => e.silent_renameTemplate name newName) fun _ => look fun _ => pure _
  | removeTemplate name => exact look fun _ => bind (modifyEngine fun _ => ⟨rfl, rfl, rfl⟩) fun _ => pure _
  | clearTemplates => exact bind (modifyEngine fun _ => ⟨rfl, rfl, rfl⟩) fun _ => pure _
  | openGate gate outcome =>
    exact bind (modify (fun s => .refl s.engine) (fun _ => rfl) fun _ _ mem => mem) fun _ => pure _

end Spares

namespace Shares

section

variable {x : RenderM Unit} (hx : SharesAll A n (fun _ => True) x)

include hx

theorem within (chunk : ChunkId) : SharesAll A n (fun _ => True) (within chunk x) := by
  have enters : Spares A n (enter chunk) := .modifyRender (fun _ => rfl) fun _ _ mem => mem
  have leaves : Spares A n leave := .modifyRender (fun _ => rfl) fun _ _ mem => mem
  refine enters.all.bind fun _ => hx.attempt.bind fun outcome => ?_
  cases outcome with
  | ok _ => exact Spares.finish.all
  | error e => exact leaves.all.bind fun _ => throw _ _ e

theorem takeUp (chunk : ChunkId) (wait : Wait) : SharesAll A n (fun _ => True) (takeUp chunk wait x) := by
  refine (Spares.note _).all.bind fun _ => (within hx chunk).attempt.bind fun outcome => ?_
  cases outcome with
  | ok _ => exact (Spares.note _).all
  | error e => exact (Spares.note _).all.bind fun _ => throw _ _ e

/-- A render on the side has loads of its own, and the render around it keeps those it has. -/
theorem toText (template : Option String) : SharesAll A n (fun _ => True) (toText template x) := by
  have side : SharesAll A n (fun _ => True) (do
      RenderM.within Chunks.root x
      let side := (← get).render
      if side.tasks.isEmpty then Pure.pure side.chunks.flush.1 else MonadExcept.throw (notSynchronous template)) := by
    refine (within hx _).bind fun _ => look fun s => ?_
    dsimp only
    split
    · exact pure fun _ _ => trivial
    · exact throw _ _ _
  intro s orderly _ admitted o t ran
  have here := admitted s passes_self
  have there := admitted t (passes_last ran)
  have begins : s.onSide.Orderly n := ⟨orderly.engine, nofun, nofun⟩
  have passed (u : Stage) (pass : RenderM.Passes (do
      RenderM.within Chunks.root x
      let side := (← get).render
      if side.tasks.isEmpty then Pure.pure side.chunks.flush.1 else MonadExcept.throw (notSynchronous template))
      s.onSide u) : A u :=
    admitted u (passes_bind (u := s) rfl (passes_bind (u := s) rfl (passes_bind (u := s.onSide) rfl
      (passes_bind_left (passes_attempt.mpr pass)))))
  rcases run_bind_eq_ok.mp (show (RenderM.attempt _ >>= _).run s.onSide = .ok (o, t) from ran) with
    ⟨e, tried, -⟩ | ⟨outcome, u, tried, rest⟩
  · obtain ⟨_, _, no⟩ := run_attempt_eq_ok.mp tried
    cases no
  · obtain ⟨after, sharing, -⟩ := side s.onSide begins trivial passed _ u (run_attempt_eq_ok_ok.mp tried)
    have same : t = { u with render := s.render } := by
      cases outcome <;> cases rest <;> rfl
    subst same
    exact ⟨⟨after.engine, orderly.loads, orderly.tasks⟩, .aside here there sharing, fun _ _ => trivial⟩

end

/-! ### Loads -/

theorem startLoad (name : String) (template : Option String) :
    Shares A n (fun _ => True) (startLoad name template) fun _ t => (Dict.get? name t.render.loads).isSome = true := by
  refine get_bind fun s => ?_
  split
  · next started =>
    refine pure fun t here => ?_
    rw [here.1]
    exact started
  · next absent =>
    have none : Dict.get? name s.render.loads = none := Option.not_isSome_iff_eq_none.mp absent
    refine get_bind fun s' => ?_
    split
    · exact ((Spares.record _ _).all.weaken (fun _ _ => trivial) fun _ _ => id).bind fun _ => throw _ _ _
    · next loader set =>
      -- The call and the entry among the loads are two moves, and nothing comes between them.
      intro t orderly ⟨same, here⟩ admitted o u ran
      have there := admitted u (passes_last ran)
      cases ran
      subst same
      have silent := t.engine.silent_record .debug ("Loading template `" ++ name ++ "`")
      have avoids := (silent.avoids orderly.engine) loader (silent.loader.trans set)
      refine ⟨orderly.insert (silent.avoids orderly.engine) ⟨id, avoids _ _⟩, ?_, fun _ _ => ?_⟩
      · by_cases own : name = n
        · subst own
          refine .call (t.render.config.maxPartialDepth + 1) (admitted t passes_self) there set (here.1 ▸ none)
            (congrArg (· ++ [name]) silent.asked) silent.asides ?_
          rw [← silent.asked]
          exact Dict.get?_insert_self ..
        · exact .rest (admitted t passes_self) there
            ⟨(Engine.count_ask loader own).trans (congrArg _ silent.asked), silent.asides⟩
            (Dict.get?_insert_of_ne (Ne.symm own) ..)
      · show (Dict.get? name (Dict.insert name _ t.render.loads)).isSome = true
        rw [Dict.get?_insert_self]
        rfl

/-- A poll takes the load of its name further and lets the others be. -/
theorem pollLoad (name : String) {L : Dict Load → Prop}
    (kept : ∀ {loads load}, L loads → L (Dict.insert name load loads)) :
    Shares A n (fun s => L s.render.loads) (pollLoad name) fun _ t => L t.render.loads := by
  refine get_bind fun s => ?_
  split
  · exact pure fun t here => here.2
  · next load found =>
    intro t orderly ⟨same, here⟩ admitted o u ran
    have there := admitted u (passes_last ran)
    cases ran
    subst same
    obtain ⟨after, engine, spared⟩ := Load.avoids_poll t.host t.render.config.cache t.render.config.maxPartialDepth
      orderly.engine (orderly.loads found)
    refine ⟨orderly.insert engine after, ?_, fun _ _ => kept here⟩
    by_cases own : name = n
    · subst own
      exact .answer (admitted t passes_self) there found spared (Dict.get?_insert_self ..)
    · exact .rest (admitted t passes_self) there spared (Dict.get?_insert_of_ne (Ne.symm own) ..)

/-- A poll on behalf of a wait, and the work that it finds. -/
def Polls (A : Stage → Prop) (n : String) (wait : Wait) (x : RenderM (Option (RenderM Unit))) : Prop :=
  Shares A n (fun s => wait.Attended n s.render.loads) x fun found t =>
    wait.Attended n t.render.loads ∧ ∀ work, found = some work → SharesAll A n (fun _ => True) work

theorem pollText {w : Wait} (future : Future String) {work : String → RenderM Unit}
    (h : ∀ text, SharesAll A n (fun _ => True) (work text)) : Polls A n w (pollText future work) := by
  refine get_bind fun s => ?_
  split
  · exact pure fun _ here => ⟨here.2, fun _ no => by cases no⟩
  · exact pure fun _ here => ⟨here.2, fun _ same => by cases same; exact throw _ _ _⟩
  · exact pure fun _ here => ⟨here.2, fun _ same => by cases same; exact h _⟩

theorem pollTemplate {w : Wait} (name : String) {work : Template → RenderM Unit}
    (h : ∀ t, SharesAll A n (fun _ => True) (work t)) : Polls A n w (pollTemplate name work) := by
  have attended {loads : Dict Load} {load : Load} (here : w.Attended n loads) :
      w.Attended n (Dict.insert name load loads) := fun context same => Dict.isSome_get?_insert (here context same)
  refine (pollLoad (L := fun loads => w.Attended n loads) name attended).bind fun result => ?_
  split
  · exact pure fun _ here => ⟨here, fun _ no => by cases no⟩
  · exact pure fun _ here => ⟨here, fun _ same => by cases same; exact throw _ _ _⟩
  · exact pure fun _ here => ⟨here, fun _ same => by cases same; exact h _⟩

theorem putOff {wait : Wait} {x : RenderM (Option (RenderM Unit))} (h : Polls A n wait x) :
    Shares A n (fun s => wait.Attended n s.render.loads) (putOff wait x) fun _ _ => True := by
  refine (Spares.reserve.keeps fun loads => wait.Attended n loads).bind fun id => ?_
  refine ((Spares.note _).keeps fun loads => wait.Attended n loads).bind fun _ => h.bind fun found => ?_
  intro s orderly ⟨attended, works⟩ admitted o t ran
  cases found with
  | none =>
    have there := admitted t (passes_last ran)
    cases ran
    refine ⟨⟨orderly.engine, orderly.loads, fun task mem => ?_⟩,
      .rest (admitted s passes_self) there (.refl n _) rfl, fun _ _ => trivial⟩
    rcases List.mem_append.mp mem with mem | mem
    · exact orderly.tasks task mem
    · cases List.mem_singleton.mp mem
      exact attended
  | some work => exact takeUp (works work rfl) id wait s orderly trivial admitted o t ran

end Shares

/-! ### Rendering -/

/-- Sharing the load of a name, as a relation that rendering respects. -/
def sharing (A : Stage → Prop) (n : String) : Coupling .any where
  rel V x _ := SharesAll A n V x
  helper _ := True
  limit _ := True
  fills _ := True
  pure h := .pure fun _ _ => h
  throw _ e := .throw _ _ e
  bind hx hf := Shares.bind hx fun a => fun s orderly results => hf a results s orderly trivial
  mapError := .mapError
  write text := (Spares.write text).all
  filter filters value := (Spares.withEngine (Engine.silent_applyFilters filters value)).all
  record level message := (Spares.record level message).all
  called call := Spares.all (x := called call) (.modifyEngine fun _ => ⟨rfl, rfl, rfl⟩)
  toText template h := h.toText template
  helper? _ := .look fun _ => .pure fun _ _ _ _ => trivial
  callable _ := .look fun _ => .pure fun _ _ => trivial
  filled _ := ((Spares.note _).all).weaken (fun _ => id) fun _ _ _ => trivial
  depthLimit := .look fun _ => .pure fun _ _ => trivial

section

variable {render : Renderer} (hr : ∀ body context, SharesAll A n (fun _ => True) (render body context))

include hr

theorem shares_program (program : Program) : SharesAll A n (fun _ => True) (program.run render) := by
  induction program with
  | finish reply => exact .pure fun _ _ => trivial
  | fail error => exact .throw _ _ error
  | write text next ih => exact (Spares.write text).all.attempt.bind fun o => ih o
  | render body context next ih => exact (hr body context).attempt.bind fun o => ih o
  | renderToString body context next ih => exact ((hr body context).toText _).attempt.bind fun o => ih o
  | defer future resume next ihResume ih =>
    have polls := Shares.pollText (w := .text future resume) future fun text =>
      (ihResume text).bind fun _ => Shares.pure (a := ()) (Q := fun _ _ => True) fun _ _ => trivial
    exact ((Shares.putOff polls).weaken (fun _ _ => nofun) fun _ _ => id).attempt.bind fun o => ih o
  | act action next ih => exact (Spares.perform action).all.attempt.bind fun o => ih o

theorem shares_template (t : Template) (context : Context) : SharesAll A n (fun _ => True) (template render t context) :=
  @Coupling.template .any (sharing A n) render render context t fun _ _ _ => hr _ _

theorem shares_named (name : String) (context : Context) : SharesAll A n (fun _ => True) (named render name context) := by
  refine Shares.bind (Q := fun _ _ => True) (.look fun s => .pure fun _ _ => trivial) fun found => ?_
  cases found with
  | some t => exact shares_template hr t context
  | none =>
    have misses := Shares.putOff (Shares.pollTemplate (w := .load name context) name fun t => shares_template hr t context)
    refine (Shares.startLoad name _).bind fun _ => misses.weaken (fun s started => ?_) fun _ _ => id
    intro _ same
    cases same
    exact started

theorem shares_poll (wait : Wait) : Shares.Polls A n wait (Render.poll render wait) := by
  cases wait with
  | text future resume =>
    exact .pollText future fun text => (shares_program hr _).bind fun _ => .pure fun _ _ => trivial
  | load name context => exact .pollTemplate name fun t => shares_template hr t context

theorem shares_job (job : Job) : SharesAll A n (fun _ => True) (job.run render) := by
  cases job with
  | named name context => exact shares_named hr name context
  | template t context => exact shares_template hr t context
  | fail error => exact .throw _ _ error

theorem shares_visit (index : Nat) (task : Task) :
    Shares A n (task ∈ ·.render.tasks) (visit render index task) fun _ _ => True := by
  intro s orderly mem
  refine Shares.bind (P := fun s => task.wait.Attended n s.render.loads) (shares_poll hr task.wait) (fun found => ?_) s
    orderly (orderly.tasks task mem)
  intro s orderly ⟨_, works⟩
  cases found with
  | none => exact Shares.pure (P := fun _ => True) (fun _ _ => trivial) s orderly trivial
  | some work =>
    have removes : Spares A n (modifyRender fun r => { r with tasks := r.tasks.eraseIdx index }) :=
      .modifyRender (fun _ => rfl) fun _ _ mem => List.mem_of_mem_eraseIdx mem
    refine (removes.all.bind fun _ => ?_) s orderly trivial
    exact ((works work rfl).takeUp _ _).bind fun _ => .pure fun _ _ => trivial

end

theorem shares_exec (nesting : Nat) (body : Body) (context : Context) :
    SharesAll A n (fun _ => True) (exec nesting body context) := by
  induction nesting generalizing body context with
  | zero => exact .halt _ _ _
  | succ nesting ih =>
    have renders : (sharing A n).Renders (exec nesting) (exec nesting) fun _ => True :=
      { body := fun _ _ => ih _ _
        program := fun _ _ _ _ => (shares_program ih _).weaken (fun _ => id) fun reply _ _ => by cases reply <;> trivial
        named := fun name _ _ => shares_named ih name _ }
    exact Coupling.forM (C := sharing A n) fun step _ =>
      renders.step step.inside_all trivial fun _ _ _ _ _ _ => ih _ _

end RenderM
end Stencil
