import Stencil.Proofs.Render.Abreast
import Stencil.Proofs.Render.Loading

/-! Stages alike. Around both renders there is the same world, and they began with the same settings; what stands in
    their chunks, is parked or has begun before is each one's own. Runs of the same code are compared by the texts that
    they add to the outputs. -/

namespace Stencil

variable {base : Dict Load} {s t s' t' s'' t'' : Stage} {id new : ChunkId} {rest : List ChunkId} {cs : Chunks}
  {text text' : String}

/-! ### Texts added to the output -/

namespace Render

variable {r r' r'' q : Render}

/-- The render with an empty journal, at which rendering never looks. -/
def hushed (r : Render) : Render := { r with journal := [] }

/-- Where the code writes, a text has been added; the journal may tell of failures. -/
def Gains (r r' : Render) (text : String) : Prop := Adds r.hushed r'.hushed (Draft.ofText text)

theorem Sound.hushed (h : r.Sound) : r.hushed.Sound := ⟨h.owned, h.linked⟩

theorem Gains.of_eq (h : r.Writable) (chunks : r'.chunks = r.chunks) (writers : r'.writers = r.writers)
    (tasks : r'.tasks = r.tasks) : r.Gains r' "" := Adds.of_eq h.sound.hushed h.writing chunks writers tasks rfl

theorem Gains.trans (h : r.Gains r' text) (h' : r'.Gains r'' text') : r.Gains r'' (text ++ text') := by
  unfold Gains
  rw [Draft.ofText_append]
  exact Adds.trans h h'

theorem Gains.unique (h : r.Gains r' text) (h' : r.Gains r' text') : text' = text :=
  Draft.ofText_injective (Adds.unique h h')

/-- What is put in at a chunk, while the code goes on in a new one directly behind, is added where the code stands. -/
theorem gains_of_inserts (h : r.Writable) (writing : r.writers = id :: rest)
    (made : r.chunks.insertAfter id = .ok (new, cs)) (chunks : q.chunks = cs)
    (writers : q.writers = new :: r.writers.tail) (tasks : q.tasks = r.tasks)
    (inserts : Inserts q.hushed r'.hushed id (Draft.ofText text)) : r.Gains r' text := by
  obtain ⟨before, id', after, rest', stands⟩ := h.sound.hushed.exists_stands (r := r.hushed) h.writing
  have same := stands.writers
  change r.writers = _ at same
  rw [writing, List.cons.injEq] at same
  obtain ⟨rfl, rfl⟩ := same
  obtain ⟨stands', empty, adds⟩ : Stands q.hushed (before ++ [id]) new after rest ∧ q.hushed.pieces new = [] ∧
      Adds r.hushed q.hushed [] := adds_reserve h.sound.hushed stands made chunks writers tasks rfl
  exact adds.trans (inserts.adds stands' empty)

end Render

/-! ### Stages alike -/

/-- Code has run from here: it calls the same code, and what has begun or is parked is still there. -/
structure Stage.Later (s s' : Stage) : Prop where
  same : s.engine.Same s'.engine
  begun {name : String} : Dict.contains name s.render.loads = true → Dict.contains name s'.render.loads = true
  parked : s.render.tasks <+: s'.render.tasks

/-- The world is the same around both renders, and so are the settings that they began with. In the second some loads
    have begun before, if there is a loader at all; the others are those of the first. -/
structure Stage.Akin (base : Dict Load) (s t : Stage) : Prop where
  world : t.toWorld = s.toWorld
  cache : t.render.config.cache = s.render.config.cache
  maxPartialDepth : t.render.config.maxPartialDepth = s.render.config.maxPartialDepth
  loads (name : String) : Dict.get? name t.render.loads = (Dict.get? name s.render.loads).or (Dict.get? name base)
  loader : s.engine.loader = none → base = []

/-- No load of this render is one of those that have begun elsewhere. -/
def Stage.Fresh (base : Dict Load) (s : Stage) : Prop :=
  ∀ name, Dict.contains name s.render.loads = true → Dict.get? name base = none

/-- Two runs have come to stages akin, the second has parked nothing, and both have added the same text. -/
structure Carried (base : Dict Load) (s t s' t' : Stage) : Prop where
  akin : s'.Akin base t'
  tasks : t'.render.tasks = t.render.tasks
  gains : ∃ text, s.render.Gains s'.render text ∧ t.render.Gains t'.render text

namespace Stage

theorem Later.refl (s : Stage) : s.Later s := ⟨.refl _, id, List.prefix_rfl⟩

theorem Later.trans (h : s.Later s') (h' : s'.Later s'') : s.Later s'' :=
  ⟨h.same.trans h'.same, fun there => h'.begun (h.begun there), h.parked.trans h'.parked⟩

theorem Later.of_render (same : s.engine.Same s'.engine) (loads : s'.render.loads = s.render.loads)
    (tasks : s'.render.tasks = s.render.tasks) : s.Later s' :=
  ⟨same, fun there => by rw [loads]; exact there, tasks ▸ List.prefix_rfl⟩

/-- A run that has parked nothing in the end has parked nothing on the way. -/
theorem Later.tasks_eq (h : s.Later s') (h' : s'.Later s'') (none : s''.render.tasks = s.render.tasks) :
    s'.render.tasks = s.render.tasks ∧ s''.render.tasks = s'.render.tasks := by
  have back : s'.render.tasks <+: s.render.tasks := none ▸ h'.parked
  have same := (h.parked.eq_of_length_le back.length_le).symm
  exact ⟨same, none.trans same.symm⟩

theorem Later.fresh (h : s.Later s') (fresh : s'.Fresh base) : s.Fresh base := fun name there =>
  fresh name (h.begun there)

theorem Akin.of_render (h : s.Akin base t) (world : t'.toWorld = s'.toWorld) (same : s.engine.Same s'.engine)
    (config : s'.render.config = s.render.config) (config' : t'.render.config = t.render.config)
    (loads : s'.render.loads = s.render.loads) (loads' : t'.render.loads = t.render.loads) : s'.Akin base t' where
  world := world
  cache := by rw [config, config', h.cache]
  maxPartialDepth := by rw [config, config', h.maxPartialDepth]
  loads name := by rw [loads, loads', h.loads]
  loader none := h.loader (same.loader ▸ none)

theorem Later.withLoad {engine : Engine} (same : s.engine.Same engine) (name : String) (load : Load) :
    s.Later (s.withLoad engine name load) := ⟨same, fun there => Dict.contains_insert.mpr (.inr there), List.prefix_rfl⟩

theorem Akin.withLoad (h : s.Akin base t) {engine : Engine} (same : s.engine.Same engine) (name : String) (load : Load) :
    Akin base (s.withLoad engine name load) (t.withLoad engine name load) where
  world := congrArg (fun w : World => { w with engine }) h.world
  cache := h.cache
  maxPartialDepth := h.maxPartialDepth
  loads other := by
    dsimp only [Stage.withLoad]
    by_cases here : other = name
    · rw [here, Dict.get?_insert_self, Dict.get?_insert_self, Option.some_or]
    · rw [Dict.get?_insert_of_ne here, Dict.get?_insert_of_ne here, h.loads]
  loader none := h.loader (same.loader ▸ none)

end Stage

namespace Carried

theorem refl (akin : s.Akin base t) (left : s.render.Writable) (right : t.render.Writable) : Carried base s t s t :=
  ⟨akin, rfl, "", .of_eq left rfl rfl rfl, .of_eq right rfl rfl rfl⟩

theorem trans (h : Carried base s t s' t') (h' : Carried base s' t' s'' t'') : Carried base s t s'' t'' := by
  obtain ⟨text, left, right⟩ := h.gains
  obtain ⟨text', left', right'⟩ := h'.gains
  exact ⟨h'.akin, h'.tasks.trans h.tasks, text ++ text', left.trans left', right.trans right'⟩

end Carried

end Stencil
