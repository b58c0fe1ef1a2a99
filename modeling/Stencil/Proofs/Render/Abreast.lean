import Stencil.Proofs.Engine.Sources
import Stencil.Proofs.Render.Additions
import Stencil.Proofs.Render.Labels
import Stencil.Proofs.Render.Misses

/-! Two runs of the same code, where loaders answer at once. Whatever each engine has kept, both runs stop, fail or go on
    alike, park the same work, and add the same to their outputs. -/

namespace Stencil

variable {α β : Type} {sources : Sources} {e : Engine} {s t u v s' t' s'' t'' : Stage} {id : ChunkId}

/-! ### Results of two runs -/

/-- Both runs stop for one reason, fail with one error in related worlds, or end well with one result and related stages. -/
inductive Abreast (W : World → World → Prop) (P : α → Stage → Stage → Prop) :
    Except Halt (Except Error α × Stage) → Except Halt (Except Error α × Stage) → Prop
  | halt (reason : Halt) : Abreast W P (.error reason) (.error reason)
  | fail {error : Error} {s t : Stage} : W s.toWorld t.toWorld →
    Abreast W P (.ok (.error error, s)) (.ok (.error error, t))
  | done {a : α} {s t : Stage} : P a s t → Abreast W P (.ok (.ok a, s)) (.ok (.ok a, t))

/-- A run ends as another does that it goes through: where that fails, the world is left as it is. -/
abbrev Echoes (P : Stage → Stage → Prop) (r r' : Except Halt (Except Error Unit × Stage)) : Prop :=
  Abreast (fun w w' => w' = w) (fun _ => P) r r'

namespace Abreast

open RenderM

variable {W : World → World → Prop} {P P' : α → Stage → Stage → Prop} {Q : β → Stage → Stage → Prop}
  {r r' : Except Halt (Except Error α × Stage)}

theorem mono (h : Abreast W P r r') (imp : ∀ a s t, P a s t → P' a s t) : Abreast W P' r r' := by
  cases h with
  | halt reason => exact .halt reason
  | fail worlds => exact .fail worlds
  | done related => exact .done (imp _ _ _ related)

theorem bind {x y : RenderM α} {f g : α → RenderM β} (h : Abreast W P (x.run s) (y.run t))
    (next : ∀ a s' t', P a s' t' → Abreast W Q ((f a).run s') ((g a).run t')) :
    Abreast W Q ((x >>= f).run s) ((y >>= g).run t) := by
  rw [run_bind, run_bind]
  revert h
  generalize x.run s = r
  generalize y.run t = r'
  intro h
  cases h with
  | halt reason => exact .halt reason
  | fail worlds => exact .fail worlds
  | done related => exact next _ _ _ related

theorem mapError {x : RenderM α} (g : Error → Error) (h : Abreast W P (x.run s) (x.run t)) :
    Abreast W P ((RenderM.mapError g x).run s) ((RenderM.mapError g x).run t) := by
  unfold RenderM.mapError
  rw [run_bind, run_bind, run_attempt, run_attempt]
  revert h
  generalize x.run s = r
  generalize x.run t = r'
  intro h
  cases h with
  | halt reason => exact .halt reason
  | fail worlds => exact .fail worlds
  | done related => exact .done related

theorem of_left {a : α} (h : Abreast W P r r') (ran : r = .ok (.ok a, s)) : ∃ t, P a s t := by
  cases h with
  | done related =>
    cases ran
    exact ⟨_, related⟩
  | halt _ | fail _ => cases ran

theorem of_right {a : α} (h : Abreast W P r r') (ran : r' = .ok (.ok a, t)) : ∃ s, P a s t := by
  cases h with
  | done related =>
    cases ran
    exact ⟨_, related⟩
  | halt _ | fail _ => cases ran

theorem with_runs (h : Abreast W P r r') :
    Abreast W (fun a s t => P a s t ∧ r = .ok (.ok a, s) ∧ r' = .ok (.ok a, t)) r r' := by
  cases h with
  | halt reason => exact .halt reason
  | fail worlds => exact .fail worlds
  | done related => exact .done ⟨related, rfl, rfl⟩

theorem attempt {x y : RenderM α} (h : Abreast W P (x.run s) (y.run t)) :
    Abreast (fun _ _ => False) (fun o u v => x.run s = .ok (o, u) ∧ y.run t = .ok (o, v) ∧
        (∀ error, o = .error error → W u.toWorld v.toWorld) ∧ ∀ a, o = .ok a → P a u v)
      ((attempt x).run s) ((attempt y).run t) := by
  rw [run_attempt, run_attempt]
  generalize x.run s = r at h ⊢
  generalize y.run t = r' at h ⊢
  cases h with
  | halt reason => exact .halt reason
  | fail worlds => exact .done ⟨rfl, rfl, fun _ _ => worlds, nofun⟩
  | done related => exact .done ⟨rfl, rfl, nofun, fun a same => by cases same; exact related⟩

/-- What two runs do side by side, the runs do that go through them. -/
theorem echo {inner inner' outer outer' : Except Halt (Except Error Unit × Stage)} {L R : Stage → Stage → Prop}
    {P P' : Unit → Stage → Stage → Prop} (h : Abreast W P inner inner') (left : Echoes L inner outer)
    (right : Echoes R inner' outer') (imp : ∀ s t s' t', P () s t → L s s' → R t t' → P' () s' t') :
    Abreast W P' outer outer' := by
  cases h with
  | halt reason =>
    cases left
    cases right
    exact .halt reason
  | fail worlds =>
    cases left with | fail same =>
    cases right with | fail same' =>
    refine .fail ?_
    rw [same, same']
    exact worlds
  | done related =>
    cases left with | done l =>
    cases right with | done r =>
    exact .done (imp _ _ _ _ related l r)

end Abreast

/-! ### Code in a chunk of its own -/

/-- The stage in which code writes to another chunk, to come back later. -/
def Stage.entered (id : ChunkId) (s : Stage) : Stage :=
  { s with render := { s.render with writers := id :: s.render.writers } }

/-- The stage in which work put off is done. -/
def Stage.takenUp (id : ChunkId) (wait : Wait) (s : Stage) : Stage :=
  .entered id { s with render := { s.render with journal := .taken wait :: s.render.journal } }

/-- The stage in which a text is rendered on the side. -/
def Stage.aside (reading : Reading) (s : Stage) : Stage :=
  .entered Chunks.root { s with engine := s.engine.read reading, render := { config := s.engine.config } }

namespace RenderM

open Render

variable {x : RenderM Unit} {wait : Wait}

theorem run_finish {last : ChunkId} {rest : List ChunkId} {cs : Chunks} (writing : s.render.writers = last :: rest)
    (done : s.render.chunks.finish last = .ok cs) : finish.run s =
      .ok (.ok (), { s with render := { s.render with chunks := cs, writers := s.render.writers.tail } }) := by
  unfold finish
  rw [run_bind_of_ok (run_get s), run_bind_of_ok (run_writer_of_cons writing), done]
  rfl

theorem echoes_within (keeps : ∀ {u}, x.run (s.entered id) = .ok (.ok (), u) → Kept (s.entered id).render u.render) :
    Echoes (fun u v => Kept (s.entered id).render u.render ∧ ∃ last cs, u.render.writers = last :: s.render.writers ∧
        u.render.chunks.finish last = .ok cs ∧
        v = { u with render := { u.render with chunks := cs, writers := u.render.writers.tail } })
      (x.run (s.entered id)) ((within id x).run s) := by
  change Abreast _ _ _ (RenderM.run (attempt x >>= _) (s.entered id))
  rw [run_bind, run_attempt]
  cases ran : x.run (s.entered id) with
  | error reason => exact .halt reason
  | ok r =>
    obtain ⟨o, u⟩ := r
    cases o with
    | error error => exact .fail rfl
    | ok _ =>
      have kept := keeps ran
      obtain ⟨last, rest, writing⟩ := List.exists_cons_of_ne_nil kept.writing
      obtain ⟨cs, done⟩ := (kept.sound.isOpen_writer writing).exists_finish
      have behind : rest = s.render.writers := by
        have same := kept.behind
        rw [writing] at same
        exact same
      show Abreast _ _ _ (finish.run u)
      rw [run_finish writing done]
      exact .done ⟨kept, last, cs, behind ▸ writing, done, rfl⟩

/-- Work that ran from `s₁` to `u` in a chunk kept for it has ended there, which leads from `s` to `v`: what it added has
    been put in at the chunk. -/
structure Finishes (id : ChunkId) (s₁ s u v : Stage) : Prop where
  same : ∃ chunks writers journal, v = { u with render := { u.render with chunks, writers, journal } }
  sound : v.render.Sound
  inserts {label : ChunkId → Wait} {added : Draft} : Adds (s₁.render.labelled label) (u.render.labelled label) added →
    Inserts (s.render.labelled label) (v.render.labelled label) id added

theorem echoes_takeUp (keeps : ∀ {u}, x.run (s.takenUp id wait) = .ok (.ok (), u) →
    Kept (s.takenUp id wait).render u.render) :
    Echoes (Finishes id (s.takenUp id wait) s) (x.run (s.takenUp id wait)) ((takeUp id wait x).run s) := by
  let noted : Stage := { s with render := { s.render with journal := .taken wait :: s.render.journal } }
  have inner := echoes_within (s := noted) keeps
  change Abreast _ _ _ (RenderM.run (attempt (within id x) >>= _) noted)
  rw [run_bind, run_attempt]
  change Abreast _ _ (x.run (s.takenUp id wait)) _ at inner
  revert inner
  generalize (within id x).run noted = outer
  generalize x.run (s.takenUp id wait) = run
  intro inner
  cases inner with
  | halt reason => exact .halt reason
  | fail same => exact .fail same
  | done ended =>
    obtain ⟨kept, last, cs, writing, finished, rfl⟩ := ended
    have after := kept.sound.finish writing finished
    refine .done ⟨⟨_, _, _, rfl⟩, ⟨after.owned, after.linked⟩, fun {label added} adds => ?_⟩
    exact inserts_of_adds (r := noted.render.labelled label) adds finished

/-- Work that is put off is parked, or done at once in the chunk that was being written, while the code goes on in a new
    one. -/
theorem run_putOff_of_writers (sound : s.render.Sound) {rest : List ChunkId} (writing : s.render.writers = id :: rest)
    (wait : Wait) (poll : RenderM (Option (RenderM Unit))) : ∃ new chunks,
      s.render.chunks.insertAfter id = .ok (new, chunks) ∧
      ∀ {found u}, poll.run { s with render := { s.render with
          chunks, writers := new :: s.render.writers.tail, journal := .deferred wait :: s.render.journal } } =
            .ok (.ok found, u) →
        (putOff wait poll).run s = (found.elim (park id wait) (takeUp id wait)).run u := by
  obtain ⟨new, cs, made, reserved⟩ := run_reserve sound writing
  refine ⟨new, cs, made, fun {found u} polled => ?_⟩
  unfold putOff
  rw [run_bind_of_ok reserved]
  show RenderM.run (poll >>= _) { s with render := { s.render with
    chunks := cs, writers := new :: s.render.writers.tail, journal := .deferred wait :: s.render.journal } } = _
  rw [run_bind_of_ok polled]
  cases found <;> rfl

/-- Work that is put off is parked, or done at once in the chunk kept for it. -/
theorem run_putOff (sound : s.render.Sound) (writing : s.render.writers ≠ []) (wait : Wait)
    (poll : RenderM (Option (RenderM Unit))) : ∃ id chunks writers,
      (∀ loads, Reserves s.render
        { s.render with chunks, writers, journal := .deferred wait :: s.render.journal, loads } id) ∧
      ∀ {found u}, poll.run { s with render := { s.render with
          chunks, writers, journal := .deferred wait :: s.render.journal } } = .ok (.ok found, u) →
        (putOff wait poll).run s = (found.elim (park id wait) (takeUp id wait)).run u := by
  obtain ⟨id, rest, writing⟩ := List.exists_cons_of_ne_nil writing
  obtain ⟨new, cs, made, done⟩ := run_putOff_of_writers sound writing wait poll
  exact ⟨id, cs, _, fun loads => reserves sound writing made rfl rfl rfl rfl, done⟩

/-- What becomes of a text rendered on the side, from what becomes of the code that writes it. -/
inductive Aside (template : Option String) (side : Stage) (outer : Render) :
    Except Halt (Except Error Unit × Stage) → Except Halt (Except Error String × Stage) → Prop
  | halt (reason : Halt) : Aside template side outer (.error reason) (.error reason)
  | fail (error : Error) (u : Stage) :
    Aside template side outer (.ok (.error error, u)) (.ok (.error error, { u with render := outer }))
  | parked {u : Stage} : u.render.tasks ≠ [] → Aside template side outer (.ok (.ok (), u))
    (.ok (.error (notSynchronous template), { u with render := outer }))
  | text {u : Stage} {text : String} : u.render.tasks = [] →
    (∀ {added}, Adds side.render u.render added → added = Draft.ofText text) →
    Aside template side outer (.ok (.ok (), u)) (.ok (.ok text, { u with render := outer }))

theorem aside_toText (template : Option String) (s : Stage) : ∃ reading,
    (∀ {u}, x.run (s.aside reading) = .ok (.ok (), u) → Kept (s.aside reading).render u.render) →
      Aside template (s.aside reading) s.render (x.run (s.aside reading)) ((toText template x).run s) := by
  let reading : Reading := .aside s.engine.config.cache s.engine.config.maxPartialDepth
  refine ⟨reading, fun keeps => ?_⟩
  let begun : Stage := { s with engine := s.engine.read reading, render := { config := s.engine.config } }
  have inner := echoes_within (s := begun) keeps
  show Aside template (s.aside reading) s.render (x.run (begun.entered Chunks.root)) (RenderM.run (attempt _ >>= _) begun)
  rw [run_bind, run_attempt, run_bind]
  change Echoes _ (x.run (begun.entered Chunks.root)) _ at inner
  revert inner
  generalize (within Chunks.root x).run begun = outer
  generalize x.run (begun.entered Chunks.root) = run
  intro inner
  cases inner with
  | halt reason => exact .halt reason
  | @fail error u v same =>
    obtain ⟨world, render⟩ := v
    cases same
    exact .fail error u
  | @done _ u v ended =>
    obtain ⟨kept, last, cs, writing, finished, rfl⟩ := ended
    dsimp only
    rw [run_bind, run_get]
    dsimp only
    by_cases tasks : u.render.tasks = []
    · rw [if_pos (List.isEmpty_iff.mpr tasks)]
      refine .text tasks fun {added} adds => ?_
      obtain ⟨ids, linked, rfl⟩ := draft_root adds finished
      have ended := openCount_root kept finished writing tasks adds.failed
      exact (kept.sound.finish writing finished).draft_eq_flush ended linked
    · rw [if_neg fun none => tasks (List.isEmpty_iff.mp none)]
      exact .parked tasks

end RenderM

/-! ### Stages side by side -/

/-- The engine is stocked, and the loads of the render have settled. -/
structure Stage.Stocked (sources : Sources) (e : Engine) (s : Stage) : Prop where
  engine : e.Stocked sources s.engine
  depth : s.render.config.maxPartialDepth = e.config.maxPartialDepth
  loads {name : String} {load : Load} : Dict.get? name s.render.loads = some load →
    load = .settled (e.loaded sources name)

/-- The engines are stocked, whatever each of them holds, around one host. -/
structure Peers (sources : Sources) (e : Engine) (w w' : World) : Prop where
  left : e.Stocked sources w.engine
  right : e.Stocked sources w'.engine
  host : w'.host = w.host

/-- The wait is for a text, and what follows it is pure. -/
def Wait.Candid : Wait → Prop
  | .text _ resume => ∀ text, (resume text).Pure fun _ => False
  | .load _ _ => False

/-- In both stages work waits for the same texts, around one host. -/
structure Beside (sources : Sources) (e : Engine) (s t : Stage) : Prop where
  left : s.Stocked sources e
  right : t.Stocked sources e
  host : t.host = s.host
  parked : t.render.parked = s.render.parked
  candid {wait : Wait} : wait ∈ s.render.parked → wait.Candid

/-- Both runs have gone on where they may write, have parked work, and have added the same: whatever chunks are labelled
    with, as long as parked work has the same labels in both. -/
structure Alongside (r q r' q' : Render) : Prop where
  left : Render.Kept r r'
  right : Render.Kept q q'
  more : r.tasks <+: r'.tasks
  more' : q.tasks <+: q'.tasks
  adds {label label' : ChunkId → Wait} : (q'.labelled label').parked = (r'.labelled label).parked →
    ∃ added, Render.Adds (r.labelled label) (r'.labelled label) added ∧
      Render.Adds (q.labelled label') (q'.labelled label') added

/-- Code may write here. -/
structure Render.Writable (r : Render) : Prop where
  sound : r.Sound
  writing : r.writers ≠ []

theorem Render.Kept.writable {r r' : Render} (h : Kept r r') : r'.Writable := ⟨h.sound, h.writing⟩

theorem Beside.peers (h : Beside sources e s t) : Peers sources e s.toWorld t.toWorld :=
  ⟨h.left.engine, h.right.engine, h.host⟩

theorem Beside.length_eq (h : Beside sources e s t) : t.render.tasks.length = s.render.tasks.length := by
  have same := congrArg List.length h.parked
  unfold Render.parked at same
  rwa [List.length_map, List.length_map] at same

/-- Side by side are stages whose engines are stocked, around one host, with renders like those of stages side by side. -/
theorem Beside.of_renders (beside : Beside sources e s t) {w w' : World} {r q : Render} (peers : Peers sources e w w')
    (same : r.config = s.render.config ∧ r.tasks = s.render.tasks ∧ r.loads = s.render.loads)
    (same' : q.config = t.render.config ∧ q.tasks = t.render.tasks ∧ q.loads = t.render.loads) :
    Beside sources e { w with render := r } { w' with render := q } := by
  obtain ⟨config, tasks, loads⟩ := same
  obtain ⟨config', tasks', loads'⟩ := same'
  refine ⟨⟨peers.left, config ▸ beside.left.depth, loads ▸ beside.left.loads⟩,
    ⟨peers.right, config' ▸ beside.right.depth, loads' ▸ beside.right.loads⟩, peers.host, ?_, ?_⟩
  · unfold Render.parked
    rw [tasks, tasks']
    exact beside.parked
  · unfold Render.parked
    rw [tasks]
    exact beside.candid

theorem writable_takenUp {wait : Wait} (sound : s.render.Sound) (spare : s.render.Spare id) :
    (s.takenUp id wait).render.Writable :=
  ⟨⟨(sound.enter spare).owned, (sound.enter spare).linked⟩, List.cons_ne_nil _ _⟩

namespace Alongside

open Render

variable {r q r' q' r'' q'' : Render}

theorem refl (left : r.Writable) (right : q.Writable) : Alongside r q r q where
  left := .refl left.sound left.writing
  right := .refl right.sound right.writing
  more := List.prefix_rfl
  more' := List.prefix_rfl
  adds {label label'} _ :=
    ⟨[], .refl (left.sound.labelled label) left.writing, .refl (right.sound.labelled label') right.writing⟩

theorem trans (length : q'.tasks.length = r'.tasks.length) (h : Alongside r q r' q') (h' : Alongside r' q' r'' q'') :
    Alongside r q r'' q'' where
  left := h.left.trans h'.left
  right := h.right.trans h'.right
  more := h.more.trans h'.more
  more' := h.more'.trans h'.more'
  adds {label label'} labels := by
    obtain ⟨added, left, right⟩ := h.adds (labels_of_front h'.more h'.more' length labels)
    obtain ⟨added', left', right'⟩ := h'.adds labels
    exact ⟨added ++ added', left.trans left', right.trans right'⟩

end Alongside

/-- Where code may write, a text is added, in any render with these chunks and writers. -/
theorem RenderM.run_write_adds (h : s.render.Writable) (text : String) : ∃ cs,
    (write text).run s = .ok (.ok (), { s with render := { s.render with chunks := cs } }) ∧
      Render.Kept s.render { s.render with chunks := cs } ∧ ∀ {r : Render}, r.Sound → r.chunks = s.render.chunks →
        r.writers = s.render.writers → Render.Adds r { r with chunks := cs } (Draft.ofText text) := by
  have keeps := Keeps.write text s h.sound h.writing
  by_cases empty : text.isEmpty = true
  · have ran : (write text).run s = .ok (.ok (), s) := by
      rw [write, if_pos empty]
      rfl
    obtain rfl := String.isEmpty_iff.mp empty
    refine ⟨s.render.chunks, ran, (keeps.ends ran).1, fun {r} sound chunks writers => ?_⟩
    exact .of_eq sound (writers ▸ h.writing) chunks.symm rfl rfl rfl
  · obtain ⟨id, rest, writing⟩ := List.exists_cons_of_ne_nil h.writing
    obtain ⟨cs, done⟩ := (h.sound.isOpen_writer writing).exists_write text
    have ran : (write text).run s = .ok (.ok (), { s with render := { s.render with chunks := cs } }) := by
      rw [write, if_neg empty, run_bind_of_ok (run_get s), run_bind_of_ok (run_writer_of_cons writing), done]
      rfl
    refine ⟨cs, ran, (keeps.ends ran).1, fun {r} sound chunks writers => ?_⟩
    exact Render.adds_write sound (writers.trans writing) (chunks ▸ done)

theorem RenderM.run_write (h : s.render.Writable) (text : String) : ∃ cs,
    (write text).run s = .ok (.ok (), { s with render := { s.render with chunks := cs } }) ∧
      Render.Kept s.render { s.render with chunks := cs } ∧ ∀ label,
        Render.Adds (s.render.labelled label) (Render.labelled label { s.render with chunks := cs })
          (Draft.ofText text) := by
  obtain ⟨cs, ran, kept, adds⟩ := run_write_adds h text
  exact ⟨cs, ran, kept, fun label => adds (h.sound.labelled label) rfl rfl⟩

/-- From stages side by side the code runs abreast; its results have a property. -/
def Evenly (sources : Sources) (e : Engine) (V : α → Prop) (x : RenderM α) : Prop := ∀ ⦃s t : Stage⦄,
  s.render.Writable → t.render.Writable → Beside sources e s t →
    Abreast (Peers sources e) (fun a s' t' => V a ∧ Beside sources e s' t' ∧
      Alongside s.render t.render s'.render t'.render) (x.run s) (x.run t)

namespace Evenly

open RenderM Render

variable {V : α → Prop} {W : β → Prop} {x : RenderM α} {y : RenderM Unit}

theorem pure {a : α} (h : V a) : Evenly sources e V (pure a) := fun _ _ left right beside =>
  .done ⟨h, beside, .refl left right⟩

theorem throw (V : α → Prop) (error : Error) : Evenly sources e V (throw error) := fun _ _ _ _ beside =>
  .fail beside.peers

theorem bind {f : α → RenderM β} (hx : Evenly sources e V x) (hf : ∀ a, V a → Evenly sources e W (f a)) :
    Evenly sources e W (x >>= f) := fun _ _ left right beside =>
  (hx left right beside).bind fun a _ _ h =>
    (hf a h.1 h.2.2.left.writable h.2.2.right.writable h.2.1).mono fun _ _ _ h' =>
      ⟨h'.1, h'.2.1, h.2.2.trans h.2.1.length_eq h'.2.2⟩

theorem mono {V' : α → Prop} (hx : Evenly sources e V x) (imp : ∀ a, V a → V' a) : Evenly sources e V' x :=
  fun _ _ left right beside => (hx left right beside).mono fun a _ _ h => ⟨imp a h.1, h.2⟩

theorem mapError (g : Error → Error) (hx : Evenly sources e V x) : Evenly sources e V (mapError g x) :=
  fun _ _ left right beside => (hx left right beside).mapError g

/-- Code that hands the errors of the code before it on. -/
theorem attempt_bind {f : Except Error α → RenderM β} (hx : Evenly sources e V x)
    (throws : ∀ error, f (.error error) = MonadExcept.throw error) (hf : ∀ a, V a → Evenly sources e W (f (.ok a))) :
    Evenly sources e W (attempt x >>= f) := by
  rw [attempt_bind_of_throw throws]
  exact hx.bind hf

/-- Code that leaves the render alone, uses each engine alike, and leaves it stocked. -/
theorem still (h : ∀ ⦃s t : Stage⦄, Beside sources e s t → ∃ o w w', x.run s = .ok (o, { w with render := s.render }) ∧
    x.run t = .ok (o, { w' with render := t.render }) ∧ Peers sources e w w' ∧ ∀ a, o = .ok a → V a) :
    Evenly sources e V x := by
  intro s t left right beside
  obtain ⟨o, w, w', first, second, peers, value⟩ := h beside
  rw [first, second]
  cases o with
  | error error => exact .fail peers
  | ok a =>
    exact .done ⟨value a rfl, beside.of_renders peers ⟨rfl, rfl, rfl⟩ ⟨rfl, rfl, rfl⟩, .refl left right⟩

theorem withEngine {g : Engine → α × Engine}
    (stocked : ∀ {e'}, e.Stocked sources e' → e.Stocked sources (g e').2)
    (same : ∀ {e' e''}, e.Stocked sources e' → e.Stocked sources e'' → (g e'').1 = (g e').1) :
    Evenly sources e (fun _ => True) (withEngine g) := .still fun s t beside => by
  refine ⟨.ok (g s.engine).1, { s.toWorld with engine := (g s.engine).2 }, { t.toWorld with engine := (g t.engine).2 },
    rfl, ?_, ⟨stocked beside.left.engine, stocked beside.right.engine, beside.host⟩, fun _ _ => trivial⟩
  rw [← same beside.left.engine beside.right.engine]
  rfl

theorem modifyEngine {g : Engine → Engine} (stocked : ∀ {e'}, e.Stocked sources e' → e.Stocked sources (g e')) :
    Evenly sources e (fun _ => True) (modifyEngine g) := .still fun s t beside =>
  ⟨.ok (), { s.toWorld with engine := g s.engine }, { t.toWorld with engine := g t.engine }, rfl, rfl,
    ⟨stocked beside.left.engine, stocked beside.right.engine, beside.host⟩, fun _ _ => trivial⟩

/-- Code that looks at what is the same in both stages. -/
theorem look {value : Stage → α} (same : ∀ {s t}, Beside sources e s t → value t = value s)
    (h : ∀ {s}, s.Stocked sources e → V (value s)) : Evenly sources e V (get >>= fun s => Pure.pure (value s)) :=
  .still fun s t beside => by
    refine ⟨.ok (value s), s.toWorld, t.toWorld, rfl, ?_, beside.peers, fun a found => ?_⟩
    · rw [← same beside]
      rfl
    · cases found
      exact h beside.left

theorem write (text : String) : Evenly sources e (fun _ => True) (write text) := by
  intro s t left right beside
  obtain ⟨cs, ran, kept, adds⟩ := run_write left text
  obtain ⟨cs', ran', kept', adds'⟩ := run_write right text
  rw [ran, ran']
  exact .done ⟨trivial, beside.of_renders beside.peers ⟨rfl, rfl, rfl⟩ ⟨rfl, rfl, rfl⟩, kept, kept', List.prefix_rfl,
    List.prefix_rfl, fun _ => ⟨_, adds _, adds' _⟩⟩

theorem filled (fillings : Nat) : Evenly sources e (fun _ => True) (note (.filled fillings)) := by
  intro s t left right beside
  have kept {s : Stage} (writable : s.render.Writable) := ((Keeps.filled fillings _ writable.sound writable.writing).ends
    (s := s) rfl).1
  refine .done ⟨trivial, beside.of_renders beside.peers ⟨rfl, rfl, rfl⟩ ⟨rfl, rfl, rfl⟩, kept left, kept right,
    List.prefix_rfl, List.prefix_rfl, fun {label label'} _ => ?_⟩
  exact ⟨[], .of_eq (left.sound.labelled label) left.writing rfl rfl rfl rfl,
    .of_eq (right.sound.labelled label') right.writing rfl rfl rfl rfl⟩

/-- A render on the side begins alike beside stages that are side by side. -/
theorem beside_aside (beside : Beside sources e s t) (reading reading' : Reading) :
    Beside sources e (s.aside reading) (t.aside reading') where
  left := ⟨beside.left.engine.read reading, beside.left.engine.depth, nofun⟩
  right := ⟨beside.right.engine.read reading', beside.right.engine.depth, nofun⟩
  host := beside.host
  parked := rfl
  candid := nofun

theorem writable_aside (s : Stage) (reading : Reading) : (s.aside reading).render.Writable :=
  ⟨(sound_new s.engine.config).1.enter (sound_new s.engine.config).2, List.cons_ne_nil _ _⟩

theorem toText (template : Option String) (hy : Evenly sources e (fun _ => True) y) :
    Evenly sources e (fun _ => True) (toText template y) := by
  intro s t left right beside
  obtain ⟨reading, aside⟩ := aside_toText (x := y) template s
  obtain ⟨reading', aside'⟩ := aside_toText (x := y) template t
  have sides := hy (writable_aside s reading) (writable_aside t reading') (beside_aside beside reading reading')
  have aside := aside fun ran => (sides.of_left ran).elim fun _ h => h.2.2.left
  have aside' := aside' fun ran => (sides.of_right ran).elim fun _ h => h.2.2.right
  revert sides aside aside'
  generalize y.run (s.aside reading) = run
  generalize y.run (t.aside reading') = run'
  generalize (RenderM.toText template y).run s = whole
  generalize (RenderM.toText template y).run t = whole'
  intro sides aside aside'
  cases sides with
  | halt reason =>
    cases aside
    cases aside'
    exact .halt reason
  | fail peers =>
    cases aside
    cases aside'
    exact .fail peers
  | @done _ u v related =>
    obtain ⟨-, beside', alongside⟩ := related
    have length := beside'.length_eq
    have peers := beside'.peers
    cases aside with
    | parked some =>
      cases aside' with
      | parked some' => exact .fail peers
      | text none' => exact absurd (List.length_eq_zero_iff.mp (length ▸ List.length_eq_zero_iff.mpr none')) some
    | text none adds =>
      cases aside' with
      | parked some' => exact absurd (List.length_eq_zero_iff.mp (length.trans (List.length_eq_zero_iff.mpr none))) some'
      | text none' adds' =>
        -- Where no work is left there is nothing to label, and what both have added is text.
        have labels := labels_of_length beside'.length_eq (.load "" {})
        obtain ⟨added, one, other⟩ := alongside.adds labels
        rw [labelled_of_no_task none, labelled_of_no_task rfl] at one
        rw [labelled_of_no_task none', labelled_of_no_task rfl] at other
        cases Draft.ofText_injective ((adds one).symm.trans (adds' other))
        exact .done ⟨trivial, beside.of_renders peers ⟨rfl, rfl, rfl⟩ ⟨rfl, rfl, rfl⟩, .refl left right⟩

end Evenly

end Stencil
