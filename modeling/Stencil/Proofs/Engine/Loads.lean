import Stencil.Engine.Load

/-! What the use of an engine leaves as it is, and what holds of every load. -/

namespace Stencil

/-- Two engines call the same code. -/
structure Engine.Same (e e' : Engine) : Prop where
  helpers : e'.helpers = e.helpers
  functions : e'.functions = e.functions
  loader : e'.loader = e.loader

namespace Engine

variable {e e' e'' : Engine}

theorem record_eq (e : Engine) (level : LogLevel) (message : String) :
    e.record level message = { e with log := (e.record level message).log } := by
  unfold record
  split <;> rfl

theorem applyFilters_eq (filters : List String) (value : Value) (e : Engine) :
    (applyFilters filters value e).2 =
      { e with log := (applyFilters filters value e).2.log, calls := (applyFilters filters value e).2.calls } := by
  induction filters generalizing value e with
  | nil => rfl
  | cons name rest ih =>
    unfold applyFilters
    split
    · rw [ih, record_eq e]
    · split
      · exact ih ..
      · rfl

/-- What filters make of a value, the log has no part in. -/
theorem applyFilters_congr (filters : List String) (value : Value) (same : e'.filters = e.filters) :
    (applyFilters filters value e').1 = (applyFilters filters value e).1 := by
  induction filters generalizing value e e' with
  | nil => rfl
  | cons name rest ih =>
    unfold applyFilters
    rw [same]
    split
    · refine ih value ?_
      rw [record_eq e, record_eq e']
      exact same
    · split
      · exact ih _ same
      · rfl

/-- Which filters are given which values, the log has no part in. -/
theorem calls_applyFilters_congr (filters : List String) (value : Value) (same : e'.filters = e.filters)
    (before : e'.calls = e.calls) : (applyFilters filters value e').2.calls = (applyFilters filters value e).2.calls := by
  induction filters generalizing value e e' with
  | nil => exact before
  | cons name rest ih =>
    unfold applyFilters
    rw [same]
    split
    · rw [record_eq e, record_eq e']
      exact ih value same before
    · have noted : (e'.called (.filter name value)).calls = (e.called (.filter name value)).calls := by
        unfold called
        rw [before]
      dsimp only
      split
      · exact ih _ same noted
      · exact noted

theorem Same.refl (e : Engine) : Same e e := ⟨rfl, rfl, rfl⟩

theorem Same.trans (h : Same e e') (h' : Same e' e'') : Same e e'' :=
  ⟨h'.helpers.trans h.helpers, h'.functions.trans h.functions, h'.loader.trans h.loader⟩

theorem same_record (e : Engine) (level : LogLevel) (message : String) : Same e (e.record level message) := by
  rw [record_eq]
  exact ⟨rfl, rfl, rfl⟩

theorem same_applyFilters (filters : List String) (value : Value) (e : Engine) :
    Same e (applyFilters filters value e).2 := by
  rw [applyFilters_eq]
  exact ⟨rfl, rfl, rfl⟩

theorem same_keep (e : Engine) (t : Template) : Same e (e.keep t) := by
  unfold keep
  split
  · split
    · exact ⟨rfl, rfl, rfl⟩
    · exact .refl e
  · exact .refl e

theorem same_read (e : Engine) (reading : Reading) : Same e (e.read reading) := ⟨rfl, rfl, rfl⟩

theorem same_addTemplate (e : Engine) (name source : String) : Same e (e.addTemplate name source).2 := by
  unfold addTemplate
  dsimp only
  split
  · exact ((same_read e _).trans (same_read _ _)).trans (same_keep ..)
  · exact same_read e _

theorem config_keep (e : Engine) (t : Template) : (e.keep t).config = e.config := by
  unfold keep
  split
  · split <;> rfl
  · rfl

theorem config_addTemplate (e : Engine) (name source : String) : (e.addTemplate name source).2.config = e.config := by
  unfold addTemplate
  dsimp only
  split
  · rw [config_keep]
    rfl
  · rfl

/-- A template that is renamed changes the templates only. -/
theorem renameTemplate_eq (e : Engine) (name newName : String) :
    ∃ templates, e.renameTemplate name newName = { e with templates } := by
  unfold renameTemplate
  split
  · exact ⟨_, rfl⟩
  · exact ⟨e.templates, rfl⟩

theorem same_renameTemplate (e : Engine) (name newName : String) : Same e (e.renameTemplate name newName) := by
  obtain ⟨templates, renamed⟩ := e.renameTemplate_eq name newName
  rw [renamed]
  exact ⟨rfl, rfl, rfl⟩

theorem same_ask (e : Engine) (loader : Loader) (name : String) : Same e (e.ask loader name).2 := ⟨rfl, rfl, rfl⟩

/-- The engine calls helpers of a kind. -/
structure CallsOnly (calls : Helper → Prop) (e : Engine) : Prop where
  helpers {name : String} {helper : Helper} : Dict.get? name e.helpers = some helper → calls helper
  functions (id : FunctionId) : calls (e.functions id)

theorem CallsOnly.of_same {calls : Helper → Prop} (h : e.CallsOnly calls) (same : e.Same e') : e'.CallsOnly calls where
  helpers found := h.helpers (same.helpers ▸ found)
  functions id := same.functions ▸ h.functions id

end Engine

theorem loads_insert {P : String → Load → Prop} {loads : Dict Load} {name : String} {load : Load} (h : P name load)
    (hl : ∀ {name load}, Dict.get? name loads = some load → P name load) {other : String} {load' : Load}
    (found : Dict.get? other (Dict.insert name load loads) = some load') : P other load' := by
  by_cases same : other = name
  · subst same
    rw [Dict.get?_insert_self] at found
    cases found
    exact h
  · rw [Dict.get?_insert_of_ne same] at found
    exact hl found

namespace Load

variable {e : Engine} {host : Host} {cache : Bool} {limit rounds : Nat} {name other : String} {answer : Future Loaded}

/-- What is true of a load that ends or waits, and stays true when a redirect is followed, is true of all loads. -/
theorem advance_induct {P : String → Future Loaded → Engine → Load × Engine → Prop}
    (waiting : ∀ name answer e rounds, answer host = none → P name answer e (.waiting name answer rounds, e))
    (error : ∀ name answer e error, P name answer e (.settled (.error error), e))
    (source : ∀ name answer e text, answer host = some (.ok (.source text)) →
      P name answer e (.settled (e.addTemplate name text).1, (e.addTemplate name text).2))
    (template : ∀ name answer e t, answer host = some (.ok (.template t)) → P name answer e (.settled (.ok t), e))
    (kept : ∀ name answer e other t, answer host = some (.ok (.redirect other)) → e.lookup other cache = some t →
      P name answer e (.settled (.ok t), e))
    (ask : ∀ name answer e other loader result, answer host = some (.ok (.redirect other)) →
      e.lookup other cache = none → e.loader = some loader →
      P other (((e.record .debug ("Redirecting `" ++ name ++ "` to `" ++ other ++ "`")).ask loader other).1)
        (((e.record .debug ("Redirecting `" ++ name ++ "` to `" ++ other ++ "`")).ask loader other).2) result →
      P name answer e result) :
    P name answer e (advance host cache limit rounds name answer e) := by
  induction rounds generalizing name answer e with
  | zero =>
    unfold advance
    cases found : answer host with
    | none => exact waiting _ _ _ _ found
    | some outcome => cases outcome <;> exact error ..
  | succ rounds ih =>
    unfold advance
    cases found : answer host with
    | none => exact waiting _ _ _ _ found
    | some outcome =>
      cases outcome with
      | error e => exact error ..
      | ok loaded =>
        cases loaded with
        | source text => exact source _ _ _ _ found
        | template t => exact template _ _ _ _ found
        | redirect other =>
          dsimp only
          cases look : e.lookup other cache with
          | some t => exact kept _ _ _ _ _ found look
          | none =>
            cases some : e.loader with
            | none => exact error ..
            | some loader => exact ask _ _ _ _ _ _ found look some ih

theorem same_advance : e.Same (advance host cache limit rounds name answer e).2 := by
  refine advance_induct (P := fun _ _ e result => e.Same result.2) (fun _ _ e _ _ => .refl e) (fun _ _ e _ => .refl e)
    (fun _ _ e _ _ => e.same_addTemplate ..) (fun _ _ e _ _ => .refl e) (fun _ _ e _ _ _ _ => .refl e) ?_
  intro name answer e other loader result _ _ _ same
  exact ((e.same_record _ _).trans (Engine.same_ask ..)).trans same

theorem same_poll (load : Load) : e.Same (load.poll host cache limit e).2 := by
  cases load with
  | waiting name answer rounds => exact same_advance
  | settled result => exact .refl e

end Load
end Stencil
