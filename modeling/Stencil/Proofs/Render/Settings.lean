import Stencil.Proofs.Render.Amid
import Stencil.Proofs.Render.Events
import Stencil.Proofs.Render.Playing

/-! What calls of `setConfig` by other code change in a render that runs. The render keeps its own settings, but sources are
    compiled and kept, and renders on the side begin, under the settings of the moment. So two runs that differ in such
    calls only give the same output and keep the same templates as long as those readings are the same, and a call that
    comes between can make a difference. -/

namespace Stencil

open RenderM

/-- What other code does to the world, which has no eye for the settings and the log and forgets no reading. -/
structure Change where
  run : World → World
  twin {mild : Prop} {w w' : World} : w.Twin mild w' → (run w).Twin mild (run w')
  reads (w : World) : w.engine.readings <+: (run w).engine.readings

/-- What happens to a stream: it is driven by one call or the other, or other code does something. -/
inductive Turn where
  | runUntilStalled
  | pollNext
  | change (change : Change)

namespace OutputStream

variable {mild : Prop} {w w' w₁ w₂ : World} {o o' o₁ o₂ : OutputStream} {steps : Nat}

/-- The streams differ at most in settings that no render reads. -/
structure Twin (o o' : OutputStream) : Prop where
  rest : o' = { o with render := o'.render }
  render : o.render.Twin o'.render

/-- The stream does all that can be done without waiting while other code calls `setConfig`, with mild calls only or
    with any. -/
def Advances (mild : Prop) (w : World) (o : OutputStream) (w' : World) (o' : OutputStream) : Prop :=
  ∃ steps outcome s, (o.work steps).Amid mild { w with render := o.render } outcome s ∧ w' = s.toWorld ∧
    o' = { o with render := s.render, job := none }

/-- A turn, with the items that it gives. -/
inductive Takes (mild : Prop) (w : World) (o : OutputStream) : Turn → List Item → World → OutputStream → Prop
  | runUntilStalled {w' : World} {u : OutputStream} : o.Advances mild w w' u → Takes mild w o .runUntilStalled [] w' u.tellAll
  | stopped : o.exhausted = true → Takes mild w o .pollNext [.finished] w o
  | pollNext {w' : World} {u : OutputStream} : o.exhausted = false → o.Advances mild w w' u →
    Takes mild w o .pollNext [u.take.1] w' u.take.2
  | change (change : Change) : Takes mild w o (.change change) [] (change.run w) o

/-- Turns one after the other, with the items that they give. Other code calls `setConfig` before each turn and in it. -/
def Plays (mild : Prop) : World → OutputStream → List Turn → List Item → World → OutputStream → Prop
  | w, o, [], items, w', o' => items = [] ∧ w' = w ∧ o' = o
  | w, o, turn :: turns, items, w', o' => ∃ config first rest w₁ o₁, (mild → w.engine.config.Like config) ∧
    Takes mild (w.setConfig config) o turn first w₁ o₁ ∧ Plays mild w₁ o₁ turns rest w' o' ∧ items = first ++ rest

theorem advances_of_advance (ran : o.advance steps w = .ok (w', o')) : o.Advances mild w w' o' := by
  obtain ⟨⟨outcome, s⟩, run, same⟩ := bind_eq_ok.mp ran
  cases same
  exact ⟨steps, outcome, s, amid_of_run run, rfl, rfl⟩

/-- A call that nothing comes between is a turn. -/
theorem takes_of_runUntilStalled {progress : Progress} (ran : o.runUntilStalled steps w = .ok (progress, w', o')) :
    Takes mild w o .runUntilStalled [] w' o' := by
  obtain ⟨u, advanced, rfl⟩ := runUntilStalled_ok ran
  exact .runUntilStalled (advances_of_advance advanced)

namespace Twin

theorem refl (o : OutputStream) : o.Twin o := ⟨rfl, .refl _⟩

theorem tellAll (h : o.Twin o') : o.tellAll.Twin o'.tellAll := by
  obtain ⟨rest, config, render, close⟩ := h
  rw [tellAll_eq, tellAll_eq, rest, render]
  exact ⟨rfl, config, rfl, close⟩

theorem progress (h : o.Twin o') : o'.progress = o.progress := by
  obtain ⟨_, _, render, -⟩ := h
  unfold OutputStream.progress
  rw [render]

theorem nextEvent (h : o.Twin o') : (o.nextEvent = none ∧ o'.nextEvent = none) ∨ ∃ event u u',
    o.nextEvent = some (event, u) ∧ o'.nextEvent = some (event, u') ∧ u.Twin u' := by
  obtain ⟨rest, config, render, close⟩ := h
  rw [render] at rest
  subst rest
  unfold OutputStream.nextEvent
  dsimp only
  cases o.render.events with
  | nil => exact Or.inl ⟨rfl, rfl⟩
  | cons event rest => exact Or.inr ⟨event, _, _, rfl, rfl, rfl, config, rfl, close⟩

theorem exhaust (h : o.Twin o') : Twin { o with exhausted := true } { o' with exhausted := true } := by
  obtain ⟨rest, render⟩ := h
  exact ⟨by rw [rest], render⟩

theorem take (h : o.Twin o') : o'.take.1 = o.take.1 ∧ o.take.2.Twin o'.take.2 := by
  unfold OutputStream.take
  rcases h.nextEvent with ⟨none, none'⟩ | ⟨event, u, u', some, some', twin⟩
  · rw [none, none', h.progress]
    dsimp only
    split
    · exact ⟨rfl, h⟩
    · exact ⟨rfl, h.exhaust⟩
  · rw [some, some']
    cases event with
    | data text => exact ⟨rfl, twin⟩
    | finished => exact ⟨rfl, twin.exhaust⟩
    | failed error => exact ⟨rfl, twin.exhaust⟩

end Twin

theorem reads_advances (h : o.Advances mild w w' o') : w.engine.readings <+: w'.engine.readings := by
  obtain ⟨steps, outcome, s, ran, rfl, -⟩ := h
  exact ((blind_work o steps).reads ran).1

theorem agrees_advances (worlds : w.Twin mild w') (streams : o.Twin o') (first : o.Advances mild w w₁ o₁)
    (second : o'.Advances mild w' w₂ o₂) : (w₁.Twin mild w₂ ∧ o₁.Twin o₂) ∨
      (¬ mild ∧ Parted w₁.engine.readings w₂.engine.readings) := by
  obtain ⟨n, outcome, s, ran, rfl, rfl⟩ := first
  obtain ⟨m, outcome', s', ran', rfl, rfl⟩ := second
  obtain ⟨rest, render⟩ := streams
  have same : o'.work m = o.work m := by
    rw [rest]
    rfl
  rw [same] at ran'
  -- More steps change nothing, so both runs are runs of one piece of code.
  have long := amid_of_grows (grows_work o (Nat.le_max_left n m)) ran
  have long' := amid_of_grows (grows_work o (Nat.le_max_right n m)) ran'
  refine ((blind_work o _).agrees ⟨worlds, render⟩ long long').imp_left fun ⟨_, twin⟩ => ⟨twin.toTwin, ?_, twin.render⟩
  rw [rest]

theorem reads_takes {turn : Turn} {items : List Item} (h : Takes mild w o turn items w' o') :
    w.engine.readings <+: w'.engine.readings := by
  cases h with
  | runUntilStalled advances => exact reads_advances advances
  | stopped => exact List.prefix_rfl
  | pollNext _ advances => exact reads_advances advances
  | change change => exact change.reads w

theorem agrees_takes {turn : Turn} {items items' : List Item} (worlds : w.Twin mild w') (streams : o.Twin o')
    (first : Takes mild w o turn items w₁ o₁) (second : Takes mild w' o' turn items' w₂ o₂) :
    (items' = items ∧ w₁.Twin mild w₂ ∧ o₁.Twin o₂) ∨ (¬ mild ∧ Parted w₁.engine.readings w₂.engine.readings) := by
  have exhausted : o'.exhausted = o.exhausted := by rw [streams.rest]
  cases first with
  | runUntilStalled advances =>
    cases second with
    | runUntilStalled advances' =>
      exact (agrees_advances worlds streams advances advances').imp_left fun ⟨worlds, streams⟩ =>
        ⟨rfl, worlds, streams.tellAll⟩
  | stopped ended =>
    cases second with
    | stopped => exact Or.inl ⟨rfl, worlds, streams⟩
    | pollNext live => cases ended.symm.trans (exhausted.symm.trans live)
  | pollNext live advances =>
    cases second with
    | stopped ended => cases ended.symm.trans (exhausted.trans live)
    | pollNext _ advances' =>
      refine (agrees_advances worlds streams advances advances').imp_left fun ⟨worlds, streams⟩ => ?_
      exact ⟨by rw [streams.take.1], worlds, streams.take.2⟩
  | change change =>
    cases second with
    | change => exact Or.inl ⟨rfl, change.twin worlds, streams⟩

theorem reads_plays {turns : List Turn} {items : List Item} (h : Plays mild w o turns items w' o') :
    w.engine.readings <+: w'.engine.readings := by
  induction turns generalizing w o items with
  | nil =>
    obtain ⟨-, rfl, -⟩ := h
    exact List.prefix_rfl
  | cons turn turns ih =>
    obtain ⟨config, _, _, w₁, o₁, -, takes, plays, -⟩ := h
    have now := reads_takes takes
    exact List.IsPrefix.trans now (ih plays)

/-- Two runs go the same way, or have read different settings and calls that are not mild. -/
theorem agrees_plays {turns : List Turn} {items items' : List Item} (worlds : w.Twin mild w') (streams : o.Twin o')
    (first : Plays mild w o turns items w₁ o₁) (second : Plays mild w' o' turns items' w₂ o₂) :
    (items' = items ∧ w₁.Twin mild w₂ ∧ o₁.Twin o₂) ∨ (¬ mild ∧ Parted w₁.engine.readings w₂.engine.readings) := by
  induction turns generalizing w w' o o' items items' with
  | nil =>
    obtain ⟨rfl, rfl, rfl⟩ := first
    obtain ⟨rfl, rfl, rfl⟩ := second
    exact Or.inl ⟨rfl, worlds, streams⟩
  | cons turn turns ih =>
    obtain ⟨config, now, rest, v, u, like, takes, plays, rfl⟩ := first
    obtain ⟨config', now', rest', v', u', like', takes', plays', rfl⟩ := second
    have begins : (w.setConfig config).Twin mild (w'.setConfig config') :=
      ⟨worlds.engine.setConfig like like', worlds.host⟩
    rcases agrees_takes begins streams takes takes' with ⟨rfl, worlds, streams⟩ | ⟨harsh, parted⟩
    · exact (ih worlds streams plays plays').imp_left fun ⟨same, twin⟩ => ⟨by rw [same], twin⟩
    · exact Or.inr ⟨harsh, parted.mono (reads_plays plays) (reads_plays plays')⟩

end OutputStream

open OutputStream

/-- Two runs of a stream that differ only in calls of `setConfig` by other code, made at any moments, give the same items,
    tell the listeners the same, stand at the same progress and leave the same templates kept, if every source that was
    compiled found the same answer to whether line breaks are kept, every template compiled the same answer to whether it is
    kept, and every render on the side began with templates kept or not and partials limited as in the other run. Calls
    that leave these three settings as they are do so. -/
theorem output_same_of_readings_same {mild : Prop} {turns : List Turn} {w w₁ w₂ : World} {o o₁ o₂ : OutputStream}
    {items₁ items₂ : List Item} (first : Plays mild w o turns items₁ w₁ o₁) (second : Plays mild w o turns items₂ w₂ o₂)
    (fair : mild ∨ w₂.engine.readings = w₁.engine.readings) :
    items₂ = items₁ ∧ o₂.delivered = o₁.delivered ∧ o₂.progress = o₁.progress ∧
      w₂.engine.templates = w₁.engine.templates ∧ w₂.engine.readings = w₁.engine.readings := by
  rcases agrees_plays ⟨.refl _, rfl⟩ (.refl o) first second with ⟨items, worlds, streams⟩ | ⟨harsh, parted⟩
  · obtain ⟨_, _, engine, -⟩ := worlds.engine
    have rest := streams.rest
    refine ⟨items, ?_, ?_, ?_, worlds.engine.readings⟩
    · rw [rest]
    · exact streams.progress
    · rw [engine]
  · exact absurd (fair.resolve_left harsh).symm parted.ne

/-- Opens a gate with a source of two lines. -/
def opening : Change where
  run w := { w with host := w.host.openGate "g" (.ok "a\nb") }
  twin h := ⟨h.engine, congrArg (Host.openGate · "g" (.ok "a\nb")) h.host⟩
  reads _ := List.prefix_rfl

/-- An engine whose loader answers every name with the text of a gate, to be compiled. -/
def gateLoaderEngine : Engine :=
  { loader := some ⟨fun _ _ host => (Future.gate "g" host).map (·.map .source)⟩ }

/-- The stream of a template that loads a partial, heard by one listener. -/
def partialStream : OutputStream :=
  (gateLoaderEngine.stream (.template ⟨none, [.partialTag (.static "p") none []], []⟩) {}).attach ⟨0, .sink⟩

/-- After a call, and a call once the gate is open and other code has called `setConfig`. -/
def lateSettingsRun (config : Config) : Except Halt (World × OutputStream) := do
  let (_, w, o) ← partialStream.runUntilStalled 9 { engine := gateLoaderEngine }
  let (_, w, o) ← o.runUntilStalled 9 ((opening.run w).setConfig config)
  pure (w, o)

theorem plays_lateSettingsRun {config : Config} {w : World} {o : OutputStream} (run : lateSettingsRun config = .ok (w, o)) :
    Plays False { engine := gateLoaderEngine } partialStream [.runUntilStalled, .change opening, .runUntilStalled] [] w o := by
  unfold lateSettingsRun at run
  obtain ⟨⟨_, w₁, o₁⟩, first, run⟩ := bind_eq_ok.mp run
  obtain ⟨⟨_, w₂, o₂⟩, second, run⟩ := bind_eq_ok.mp run
  cases run
  refine ⟨gateLoaderEngine.config, [], [], w₁, o₁, False.elim, takes_of_runUntilStalled first, ?_, rfl⟩
  refine ⟨w₁.engine.config, [], [], opening.run w₁, o₁, False.elim, .change opening, ?_, rfl⟩
  exact ⟨config, [], [], w, o, False.elim, takes_of_runUntilStalled second, ⟨rfl, rfl, rfl⟩, rfl⟩

/-- Whether records are captured and how deep partials may nest, the load of a source does not read. -/
theorem output_same_of_readings_same_lateSettings : ∃ w₁ o₁ w₂ o₂, lateSettingsRun {} = .ok (w₁, o₁) ∧
    lateSettingsRun { debug := true, maxPartialDepth := 0 } = .ok (w₂, o₂) ∧
    w₁.engine.readings = [.whitespace false, .cache true] ∧ o₁.heardBy ⟨0, .sink⟩ = [.data "ab", .finished] ∧
    o₂.delivered = o₁.delivered ∧ w₂.engine.templates = w₁.engine.templates := by
  have seen₁ : (lateSettingsRun {}).toOption.any (fun r => decide (r.1.engine.readings = [.whitespace false, .cache true]) &&
      decide (r.2.heardBy ⟨0, .sink⟩ = [.data "ab", .finished])) = true := by decide +kernel
  have seen₂ : (lateSettingsRun { debug := true, maxPartialDepth := 0 }).toOption.any (fun r =>
      decide (r.1.engine.readings = [.whitespace false, .cache true])) = true := by decide +kernel
  obtain ⟨⟨w₁, o₁⟩, run₁, seen₁⟩ := exists_eq_ok seen₁
  obtain ⟨⟨w₂, o₂⟩, run₂, seen₂⟩ := exists_eq_ok seen₂
  simp only [Bool.and_eq_true, decide_eq_true_eq] at seen₁ seen₂
  obtain ⟨-, delivered, -, templates, -⟩ := output_same_of_readings_same (plays_lateSettingsRun run₁)
    (plays_lateSettingsRun run₂) (Or.inr (seen₂.trans seen₁.1.symm))
  exact ⟨w₁, o₁, w₂, o₂, run₁, run₂, seen₁.1, seen₁.2, delivered, templates⟩

/-- A call of `setConfig` by other code while a load is under way changes what a render tells that began before. -/
theorem late_settings_heard : ¬ ∀ (e : Engine) (subject : Subject) (context : Context) (listener : Listener)
    (turns : List Turn) (items₁ items₂ : List Item) (w₁ w₂ : World) (o₁ o₂ : OutputStream),
    Plays False { engine := e } ((e.stream subject context).attach listener) turns items₁ w₁ o₁ →
    Plays False { engine := e } ((e.stream subject context).attach listener) turns items₂ w₂ o₂ →
    o₂.delivered = o₁.delivered ∧ w₂.engine.templates = w₁.engine.templates := by
  intro same
  have seen₁ : (lateSettingsRun {}).toOption.any (fun r => decide (r.2.heardBy ⟨0, .sink⟩ = [.data "ab", .finished])) =
      true := by decide +kernel
  have seen₂ : (lateSettingsRun { whitespace := true }).toOption.any (fun r =>
      decide (r.2.heardBy ⟨0, .sink⟩ = [.data "a\nb", .finished])) = true := by decide +kernel
  obtain ⟨⟨w₁, o₁⟩, run₁, seen₁⟩ := exists_eq_ok seen₁
  obtain ⟨⟨w₂, o₂⟩, run₂, seen₂⟩ := exists_eq_ok seen₂
  obtain ⟨delivered, -⟩ := same _ _ _ _ _ _ _ _ _ _ _ (plays_lateSettingsRun run₁) (plays_lateSettingsRun run₂)
  have heard : o₂.heardBy ⟨0, .sink⟩ = o₁.heardBy ⟨0, .sink⟩ := by
    unfold OutputStream.heardBy
    rw [delivered]
  rw [of_decide_eq_true seen₁, of_decide_eq_true seen₂] at heard
  exact absurd heard (by decide)

end Stencil
