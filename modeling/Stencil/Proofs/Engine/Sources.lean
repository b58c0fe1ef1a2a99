import Stencil.Proofs.Render.Purity

/-! Loaders that answer at once. A name always leads to one source, so what loading a name gives is known beforehand; an
    engine that keeps templates holds, under the names it has loaded, just that. -/

namespace Stencil

/-- What a loader finds under each name: a source or an error. -/
abbrev Sources := String → Except Error String

/-- The helper is pure, whatever becomes of the futures that it waits for. -/
abbrev Helper.Candid (helper : Helper) : Prop := helper.Pure fun _ => False

/-- The loader answers every name at once with its source, and what the engine calls is pure. -/
structure Engine.Answers (sources : Sources) (e : Engine) : Prop where
  loader : ∃ loader, e.loader = some loader ∧
    ∀ asked name host, loader.load asked name host = some ((sources name).map .source)
  helpers {name : String} {helper : Helper} : Dict.get? name e.helpers = some helper → helper.Candid
  functions (id : FunctionId) : (e.functions id).Candid

/-- What loading a name gives. -/
def Engine.loaded (sources : Sources) (e : Engine) (name : String) : Except Error Template := do
  e.compile (← sources name) (some name)

/-- The engine `e'` is `e` after some use: it may keep templates or not, and holds only templates that loads gave. -/
structure Engine.Stocked (sources : Sources) (e e' : Engine) : Prop where
  same : Same e e'
  filters : e'.filters = e.filters
  config : e'.config = { e.config with cache := e'.config.cache }
  kept {name : String} {t : Template} : Dict.get? name e'.templates = some t → e.loaded sources name = .ok t

variable {sources : Sources} {e e' : Engine} {name text : String} {t : Template} {cache : Bool} {host : Host}

namespace Engine

theorem loaded_of_ok (source : sources name = .ok text) : e.loaded sources name = e.compile text (some name) := by
  unfold loaded
  rw [source]
  rfl

theorem loaded_of_error {error : Error} (source : sources name = .error error) :
    e.loaded sources name = .error error := by
  unfold loaded
  rw [source]
  rfl

namespace Stocked

theorem depth (h : Stocked sources e e') : e'.config.maxPartialDepth = e.config.maxPartialDepth := by
  rw [h.config]

theorem compile_eq (h : Stocked sources e e') (source : String) (name : Option String) :
    e'.compile source name = e.compile source name := by
  unfold compile
  rw [h.config]

theorem noted (h : Stocked sources e e') (log : List LogRecord) (asked : List String) (readings : List Reading)
    (calls : List Call) : Stocked sources e { e' with log, asked, readings, calls } :=
  ⟨⟨h.same.helpers, h.same.functions, h.same.loader⟩, h.filters, h.config, h.kept⟩

theorem record (h : Stocked sources e e') (level : LogLevel) (message : String) :
    Stocked sources e (e'.record level message) := by
  rw [record_eq]
  exact h.noted ..

theorem read (h : Stocked sources e e') (reading : Reading) : Stocked sources e (e'.read reading) := h.noted ..

theorem called (h : Stocked sources e e') (call : Call) : Stocked sources e (e'.called call) := h.noted ..

theorem ask (h : Stocked sources e e') (loader : Loader) (name : String) : Stocked sources e (e'.ask loader name).2 :=
  h.noted ..

theorem applyFilters (h : Stocked sources e e') (filters : List String) (value : Value) :
    Stocked sources e (applyFilters filters value e').2 := by
  rw [applyFilters_eq]
  exact h.noted ..

theorem lookup (h : Stocked sources e e') (found : e'.lookup name cache = some t) : e.loaded sources name = .ok t := by
  unfold Engine.lookup at found
  split at found
  · exact h.kept found
  · cases found

theorem keep (h : Stocked sources e e') (named : t.name = some name) (loads : e.loaded sources name = .ok t) :
    Stocked sources e (e'.keep t) := by
  unfold Engine.keep
  rw [named]
  dsimp only
  split
  · refine ⟨⟨h.same.helpers, h.same.functions, h.same.loader⟩, h.filters, h.config, fun {other u} found => ?_⟩
    by_cases same : other = name
    · subst same
      cases (Dict.get?_insert_self ..).symm.trans found
      exact loads
    · exact h.kept ((Dict.get?_insert_of_ne same ..).symm.trans found)
  · exact h

/-- A source that is loaded compiles to what loading its name gives, and may be kept. -/
theorem addTemplate (h : Stocked sources e e') (source : sources name = .ok text) :
    (e'.addTemplate name text).1 = e.loaded sources name ∧ Stocked sources e (e'.addTemplate name text).2 := by
  have loads := loaded_of_ok (e := e) source
  unfold Engine.addTemplate
  rw [h.compile_eq, loads]
  cases compiled : e.compile text (some name) with
  | ok t => exact ⟨rfl, ((h.read _).read _).keep (name_of_compile compiled) (loads.trans compiled)⟩
  | error error => exact ⟨rfl, h.read _⟩

end Stocked
end Engine

/-- A load whose answer is there settles in one poll. -/
theorem Load.poll_stocked (h : e.Stocked sources e') {answer : Future Loaded} {limit rounds : Nat}
    (found : answer host = some ((sources name).map .source)) :
    ∃ e'', (Load.waiting name answer (rounds + 1)).poll host cache limit e' =
      (.settled (e.loaded sources name), e'') ∧ e.Stocked sources e'' := by
  unfold poll
  dsimp only
  unfold advance
  rw [found]
  cases source : sources name with
  | error error => exact ⟨e', by rw [Engine.loaded_of_error source]; rfl, h⟩
  | ok text =>
    obtain ⟨same, stocked⟩ := h.addTemplate source
    exact ⟨_, by rw [← same]; rfl, stocked⟩

end Stencil
