import Stencil.Render.Writing

/-! Runs that start loads and take them further, and polls, as what they do to the stage. -/

namespace Stencil

variable {s : Stage}

/-- A load of the render has found the template under the name. -/
def Stage.Found (s : Stage) (name : String) (t : Template) : Prop :=
  Dict.get? name s.render.loads = some (.settled (.ok t))

/-- What the render finds under the name is this template: it is kept there, or a load has found it. -/
def Stage.Answers (s : Stage) (name : String) (t : Template) : Prop :=
  s.engine.lookup name s.render.config.cache = some t ∨ s.Found name t

/-- The stage after the engine was used for a load. -/
def Stage.withLoad (s : Stage) (engine : Engine) (name : String) (load : Load) : Stage :=
  { s with engine, render := { s.render with loads := Dict.insert name load s.render.loads } }

/-- A load that is settled with a template has found it. -/
theorem Stage.found_withLoad {engine : Engine} {name : String} {load : Load} {t : Template}
    (settled : load.result? = some (.ok t)) : (s.withLoad engine name load).Found name t := by
  cases load with
  | waiting => cases settled
  | settled result =>
    cases settled
    exact Dict.get?_insert_self ..

namespace RenderM

theorem run_startLoad_of_contains {name : String} {template : Option String}
    (begun : Dict.contains name s.render.loads = true) : (startLoad name template).run s = .ok (.ok (), s) := by
  unfold startLoad
  rw [run_bind_of_ok (run_get s), if_pos begun]
  rfl

theorem run_startLoad_of_loader_none {name : String} {template : Option String}
    (new : Dict.get? name s.render.loads = none) (none : s.engine.loader = none) :
    (startLoad name template).run s = .ok (.error (.templateNotFound name template),
      { s with engine := s.engine.record .error ("Template Not Found: " ++ name) }) := by
  have out : ¬ Dict.contains name s.render.loads = true := by simp [Dict.contains, new]
  unfold startLoad
  rw [run_bind_of_ok (run_get s), if_neg out, run_bind_of_ok (run_get s), none]
  rfl

theorem run_startLoad_of_loader {name : String} {template : Option String} {loader : Loader}
    (new : Dict.get? name s.render.loads = none) (some : s.engine.loader = some loader) :
    (startLoad name template).run s = .ok (.ok (), s.withLoad
      ((s.engine.record .debug ("Loading template `" ++ name ++ "`")).ask loader name).2 name
      (.begin s.render.config.maxPartialDepth name
        ((s.engine.record .debug ("Loading template `" ++ name ++ "`")).ask loader name).1)) := by
  have out : ¬ Dict.contains name s.render.loads = true := by simp [Dict.contains, new]
  unfold startLoad
  rw [run_bind_of_ok (run_get s), if_neg out, run_bind_of_ok (run_get s), some]
  rfl

theorem run_pollText (future : Future String) (work : String → RenderM Unit) (s : Stage) :
    (pollText future work).run s = .ok (.ok ((future s.host).map fun outcome => ofExcept outcome >>= work), s) := by
  unfold pollText
  rw [run_bind, run_get]
  dsimp only
  cases future s.host with
  | none => rfl
  | some outcome => cases outcome <;> rfl

theorem run_pollTemplate_of_none {name : String} {work : Template → RenderM Unit}
    (out : Dict.get? name s.render.loads = none) : (pollTemplate name work).run s = .ok (.ok none, s) := by
  unfold pollTemplate pollLoad
  rw [run_bind, run_bind_of_ok (run_get s), out]
  rfl

theorem run_pollTemplate_of_some {name : String} {load : Load} (work : Template → RenderM Unit)
    (begun : Dict.get? name s.render.loads = some load) : (pollTemplate name work).run s =
      let polled := load.poll s.host s.render.config.cache s.render.config.maxPartialDepth s.engine
      .ok (.ok (polled.1.result?.map fun outcome => ofExcept outcome >>= work), s.withLoad polled.2 name polled.1) := by
  have loaded : (pollLoad name).run s =
      let polled := load.poll s.host s.render.config.cache s.render.config.maxPartialDepth s.engine
      .ok (.ok polled.1.result?, s.withLoad polled.2 name polled.1) := by
    unfold pollLoad
    rw [run_bind_of_ok (run_get s), begun]
    rfl
  unfold pollTemplate
  rw [run_bind_of_ok loaded]
  dsimp only
  cases Load.result? _ with
  | none => rfl
  | some outcome => cases outcome <;> rfl

/-- The result of a load that is polled is the one that it is then settled with, if it is settled. -/
theorem run_pollLoad_ok {name : String} {result : Option (Except Error Template)} {t : Stage}
    (ran : (pollLoad name).run s = .ok (.ok result, t)) :
    result = (Dict.get? name t.render.loads).bind Load.result? := by
  unfold pollLoad at ran
  rw [run_bind_of_ok (run_get s)] at ran
  cases begun : Dict.get? name s.render.loads with
  | none =>
    rw [begun] at ran
    cases ran
    rw [begun]
    rfl
  | some load =>
    rw [begun] at ran
    cases ran
    show _ = (Dict.get? name (Dict.insert name _ s.render.loads)).bind _
    rw [Dict.get?_insert_self]
    rfl

/-- A template that a poll gives is one that the load has found. -/
theorem found_of_pollLoad {name : String} {u : Template} {t : Stage}
    (ran : (pollLoad name).run s = .ok (.ok (some (.ok u)), t)) : t.Found name u := by
  obtain ⟨load, found, result⟩ := Option.bind_eq_some_iff.mp (run_pollLoad_ok ran).symm
  cases load with
  | waiting => cases result
  | settled outcome =>
    cases result
    exact found

end RenderM
end Stencil
