import Stencil.Proofs.Engine.Loads

/-! Where templates are not kept and a loader is set, no look-up finds a template in the engine and no load leaves one
    there. So what uses the engine commutes with putting other templates into it. -/

namespace Stencil

/-- The steps leave the engine and the host alone. -/
def Program.Aloof : Program → Prop
  | .finish _ | .fail _ => True
  | .write _ next | .render _ _ next => ∀ o, (next o).Aloof
  | .renderToString _ _ next => ∀ o, (next o).Aloof
  | .defer _ resume next => (∀ text, (resume text).Aloof) ∧ ∀ o, (next o).Aloof
  | .act _ _ => False

def Helper.Aloof (helper : Helper) : Prop := ∀ context bodies params, (helper context bodies params).Aloof

/-- Templates are not kept, a loader is set, and what the engine calls leaves it alone. -/
structure Engine.Uncached (e : Engine) : Prop where
  cache : e.config.cache = false
  loader : e.loader.isSome = true
  helpers {name : String} {helper : Helper} : Dict.get? name e.helpers = some helper → helper.Aloof
  functions (id : FunctionId) : (e.functions id).Aloof

/-- The engine with other templates. -/
def Engine.stock (e : Engine) (templates : Dict Template) : Engine := { e with templates }

namespace Engine

variable {α : Type} {e e' : Engine}

theorem Uncached.stock (h : e.Uncached) (d : Dict Template) : (e.stock d).Uncached :=
  ⟨h.cache, h.loader, h.helpers, h.functions⟩

theorem Uncached.lookup (h : e.Uncached) (name : String) : e.lookup name false = none := by
  unfold Engine.lookup
  rw [Bool.false_or, Option.isNone_eq_false_iff.mpr h.loader]
  rfl

/-- The engine has been used, and nothing that matters where templates are not kept has changed. -/
structure Leaves (e e' : Engine) : Prop where
  same : Same e e'
  config : e'.config = e.config
  templates : e'.templates = e.templates

theorem Leaves.refl (e : Engine) : e.Leaves e := ⟨.refl e, rfl, rfl⟩

theorem Leaves.trans {e'' : Engine} (h : e.Leaves e') (h' : e'.Leaves e'') : e.Leaves e'' :=
  ⟨h.same.trans h'.same, h'.config.trans h.config, h'.templates.trans h.templates⟩

theorem Leaves.uncached (h : e.Leaves e') (uncached : e.Uncached) : e'.Uncached where
  cache := by rw [h.config, uncached.cache]
  loader := by rw [h.same.loader, uncached.loader]
  helpers found := uncached.helpers (h.same.helpers ▸ found)
  functions id := by
    rw [h.same.functions]
    exact uncached.functions id

/-- A use of an engine that keeps nothing overlooks the templates in it, and leaves them there. -/
structure Overlooks (g : Engine → α × Engine) : Prop where
  stock (e : Engine) (d : Dict Template) : e.Uncached → g (e.stock d) = ((g e).1, (g e).2.stock d)
  leaves (e : Engine) : e.Uncached → e.Leaves (g e).2

theorem stock_record (e : Engine) (d : Dict Template) (level : LogLevel) (message : String) :
    (e.stock d).record level message = (e.record level message).stock d := by
  unfold record stock
  dsimp only
  split <;> rfl

theorem leaves_record (e : Engine) (level : LogLevel) (message : String) : e.Leaves (e.record level message) := by
  rw [record_eq]
  exact ⟨⟨rfl, rfl, rfl⟩, rfl, rfl⟩

theorem stock_applyFilters (filters : List String) (value : Value) (e : Engine) (d : Dict Template) :
    applyFilters filters value (e.stock d) = ((applyFilters filters value e).1, (applyFilters filters value e).2.stock d) := by
  induction filters generalizing value e with
  | nil => rfl
  | cons name rest ih =>
    have same : (e.stock d).filters = e.filters := rfl
    rw [applyFilters, applyFilters, same]
    cases Dict.get? name e.filters with
    | none =>
      dsimp only
      rw [stock_record]
      exact ih ..
    | some filter =>
      dsimp only
      cases filter value with
      | ok left => exact ih left (e.called _)
      | error error => rfl

theorem overlooks_applyFilters (filters : List String) (value : Value) : Overlooks (applyFilters filters value) where
  stock e d _ := stock_applyFilters filters value e d
  leaves e _ := by
    rw [applyFilters_eq]
    exact ⟨⟨rfl, rfl, rfl⟩, rfl, rfl⟩

theorem overlooks_ask (loader : Loader) (name : String) : Overlooks (·.ask loader name) where
  stock _ _ _ := rfl
  leaves _ _ := ⟨⟨rfl, rfl, rfl⟩, rfl, rfl⟩

theorem keep_of_uncached (h : e.config.cache = false) (t : Template) : e.keep t = e := by
  unfold keep
  split
  · rw [h]
    rfl
  · rfl

/-- A source that is loaded is compiled, but not kept. -/
theorem overlooks_addTemplate (name source : String) : Overlooks (·.addTemplate name source) where
  stock e d h := by
    have same : (e.stock d).compile source (some name) = e.compile source (some name) := rfl
    unfold addTemplate
    dsimp only
    rw [same]
    cases e.compile source (some name) with
    | error error => rfl
    | ok t =>
      dsimp only
      rw [keep_of_uncached (by exact h.cache), keep_of_uncached (by exact h.cache)]
      rfl
  leaves e h := by
    unfold addTemplate
    dsimp only
    split
    · rw [keep_of_uncached (by exact h.cache)]
      exact ⟨⟨rfl, rfl, rfl⟩, rfl, rfl⟩
    · exact ⟨⟨rfl, rfl, rfl⟩, rfl, rfl⟩

end Engine

namespace Load

open Engine

theorem overlooks_advance (host : Host) (limit rounds : Nat) (name : String) (answer : Future Loaded) :
    Overlooks (advance host false limit rounds name answer) := by
  suffices both : ∀ e : Engine, e.Uncached → ∀ d, advance host false limit rounds name answer (e.stock d) =
      ((advance host false limit rounds name answer e).1, (advance host false limit rounds name answer e).2.stock d) ∧
      e.Leaves (advance host false limit rounds name answer e).2 from
    ⟨fun e d h => (both e h d).1, fun e h => (both e h []).2⟩
  intro e uncached d
  induction rounds generalizing name answer e with
  | zero =>
    unfold advance
    cases answer host with
    | none => exact ⟨rfl, .refl e⟩
    | some outcome => cases outcome <;> exact ⟨rfl, .refl e⟩
  | succ rounds ih =>
    unfold advance
    cases answer host with
    | none => exact ⟨rfl, .refl e⟩
    | some outcome =>
      cases outcome with
      | error error => exact ⟨rfl, .refl e⟩
      | ok loaded =>
        cases loaded with
        | source text =>
          have source := overlooks_addTemplate name text
          dsimp only
          rw [source.stock e d uncached]
          exact ⟨rfl, source.leaves e uncached⟩
        | template t => exact ⟨rfl, .refl e⟩
        | redirect other =>
          have loaders : (e.stock d).loader = e.loader := rfl
          dsimp only
          rw [uncached.lookup, (uncached.stock d).lookup, loaders]
          cases e.loader with
          | none => exact ⟨rfl, .refl e⟩
          | some loader =>
            dsimp only
            rw [stock_record]
            have recorded := e.leaves_record .debug ("Redirecting `" ++ name ++ "` to `" ++ other ++ "`")
            have asked := recorded.trans ((overlooks_ask loader other).leaves _ (recorded.uncached uncached))
            obtain ⟨same, leaves⟩ := ih other _ _ (asked.uncached uncached)
            exact ⟨same, asked.trans leaves⟩

theorem overlooks_poll (host : Host) (limit : Nat) (load : Load) : Overlooks (load.poll host false limit) := by
  cases load with
  | waiting name answer rounds => exact overlooks_advance host limit rounds name answer
  | settled result => exact ⟨fun _ _ _ => rfl, fun e _ => .refl e⟩

end Load

end Stencil
