import Stencil.Proofs.Engine.Loads

/-! Engines that differ in their settings. What is done with them gives the same until different settings are read. -/

namespace Stencil

/-- The settings agree in all that is ever read for more than the log. -/
structure Config.Like (c c' : Config) : Prop where
  whitespace : c'.whitespace = c.whitespace
  cache : c'.cache = c.cache
  maxPartialDepth : c'.maxPartialDepth = c.maxPartialDepth

/-- The engines differ in the settings and the log only, in the settings little if the calls are mild. -/
def Engine.Twin (mild : Prop) (e e' : Engine) : Prop :=
  ∃ config log, e' = { e with config, log } ∧ (mild → e.config.Like config)

/-- The lists agree up to a place where they hold different readings. -/
def Parted (l l' : List Reading) : Prop := ∃ common a b rest rest', l = common ++ a :: rest ∧ l' = common ++ b :: rest' ∧
  a ≠ b

variable {mild : Prop}

namespace Parted

variable {l l' m m' : List Reading}

theorem of_ne {a b : Reading} (ne : a ≠ b) (l : List Reading) : Parted (l ++ [a]) (l ++ [b]) :=
  ⟨l, a, b, [], [], rfl, rfl, ne⟩

theorem mono (h : Parted l l') (more : l <+: m) (more' : l' <+: m') : Parted m m' := by
  obtain ⟨common, a, b, rest, rest', rfl, rfl, ne⟩ := h
  obtain ⟨_, rfl⟩ := more
  obtain ⟨_, rfl⟩ := more'
  exact ⟨common, a, b, _, _, by rw [List.append_assoc]; rfl, by rw [List.append_assoc]; rfl, ne⟩

theorem ne (h : Parted l l') : l ≠ l' := by
  rintro rfl
  obtain ⟨common, a, b, rest, rest', rfl, same, ne⟩ := h
  exact ne (List.cons.inj (List.append_cancel_left same)).1

end Parted

theorem Config.Like.refl (c : Config) : c.Like c := ⟨rfl, rfl, rfl⟩

theorem Config.Like.trans {c c' c'' : Config} (h : c.Like c') (h' : c'.Like c'') : c.Like c'' :=
  ⟨h'.whitespace.trans h.whitespace, h'.cache.trans h.cache, h'.maxPartialDepth.trans h.maxPartialDepth⟩

theorem Config.Like.between {c c' d d' : Config} (h : c.Like c') (left : c.Like d) (right : c'.Like d') : d.Like d' :=
  ⟨by rw [right.whitespace, h.whitespace, left.whitespace], by rw [right.cache, h.cache, left.cache],
    by rw [right.maxPartialDepth, h.maxPartialDepth, left.maxPartialDepth]⟩

/-! ### Engines -/

namespace Engine

variable {α : Type} {e e' : Engine}

theorem Twin.refl (e : Engine) : e.Twin mild e := ⟨e.config, e.log, rfl, fun _ => .refl _⟩

theorem Twin.setConfig (h : e.Twin mild e') {config config' : Config}
    (like : mild → e.config.Like config) (like' : mild → e'.config.Like config') :
    (e.setConfig config).Twin mild (e'.setConfig config') := by
  obtain ⟨_, log, rfl, close⟩ := h
  exact ⟨config', log, rfl, fun mild => (close mild).between (like mild) (like' mild)⟩

theorem Twin.read (h : e.Twin mild e') (reading : Reading) : (e.read reading).Twin mild (e'.read reading) := by
  obtain ⟨config, log, rfl, close⟩ := h
  exact ⟨config, log, rfl, close⟩

theorem Twin.called (h : e.Twin mild e') (call : Call) : (e.called call).Twin mild (e'.called call) := by
  obtain ⟨config, log, rfl, close⟩ := h
  exact ⟨config, log, rfl, close⟩

theorem Twin.readings (h : e.Twin mild e') : e'.readings = e.readings := by
  obtain ⟨_, _, rfl, -⟩ := h
  rfl

theorem Twin.like (h : e.Twin mild e') (m : mild) : e.config.Like e'.config := by
  obtain ⟨_, _, rfl, close⟩ := h
  exact close m

theorem Twin.record (h : e.Twin mild e') (level : LogLevel) (message : String) :
    (e.record level message).Twin mild (e'.record level message) := by
  obtain ⟨config, log, rfl, close⟩ := h
  rw [record_eq, record_eq { e with config, log }]
  exact ⟨config, _, rfl, close⟩

theorem readings_record (e : Engine) (level : LogLevel) (message : String) :
    (e.record level message).readings = e.readings := by
  rw [record_eq]

theorem readings_keep (e : Engine) (t : Template) : (e.keep t).readings = e.readings := by
  unfold keep
  split
  · split <;> rfl
  · rfl

/-- A use of twin engines gives the same and leaves them twin, unless it reads different settings. -/
structure Blind (mild : Prop) (g : Engine → α × Engine) : Prop where
  reads (e : Engine) : e.readings <+: (g e).2.readings
  agrees {e e' : Engine} : e.Twin mild e' → ((g e').1 = (g e).1 ∧ (g e).2.Twin mild (g e').2) ∨
    (¬ mild ∧ Parted (g e).2.readings (g e').2.readings)

theorem blind_applyFilters (filters : List String) (value : Value) : Blind mild (applyFilters filters value) where
  reads e := by
    have same : (applyFilters filters value e).2.readings = e.readings := by rw [applyFilters_eq]
    exact same ▸ List.prefix_rfl
  agrees {e e'} h := by
    obtain ⟨config, log, rfl, close⟩ := h
    have calls : (applyFilters filters value { e with config, log }).2.calls = (applyFilters filters value e).2.calls :=
      calls_applyFilters_congr filters value rfl rfl
    obtain ⟨log', calls', used⟩ : ∃ log calls, (applyFilters filters value e).2 = { e with log, calls } :=
      ⟨_, _, applyFilters_eq ..⟩
    have after := applyFilters_eq filters value { e with config, log }
    rw [calls, used] at after
    rw [used]
    exact Or.inl ⟨applyFilters_congr _ _ rfl, config, _, after, close⟩

theorem Twin.ask (h : e.Twin mild e') (loader : Loader) (name : String) :
    (e'.ask loader name).1 = (e.ask loader name).1 ∧ (e.ask loader name).2.Twin mild (e'.ask loader name).2 := by
  obtain ⟨config, log, rfl, close⟩ := h
  exact ⟨rfl, config, log, rfl, close⟩

theorem blind_ask (loader : Loader) (name : String) : Blind mild (·.ask loader name) where
  reads _ := List.prefix_rfl
  agrees h := Or.inl (h.ask loader name)

theorem readings_addTemplate (e : Engine) (name source : String) :
    e.readings ++ [.whitespace e.config.whitespace] <+: (e.addTemplate name source).2.readings := by
  unfold addTemplate
  dsimp only
  split
  · rw [readings_keep]
    exact List.prefix_append _ [_]
  · exact List.prefix_rfl

/-- A source is compiled as the line breaks are kept, and kept as templates are. -/
theorem blind_addTemplate (name source : String) : Blind mild (·.addTemplate name source) where
  reads e := (List.prefix_append _ _).trans (e.readings_addTemplate name source)
  agrees {e e'} h := by
    obtain ⟨config, log, rfl, close⟩ := h
    by_cases whitespace : config.whitespace = e.config.whitespace
    · have compiled : ({ e with config, log } : Engine).compile source (some name) = e.compile source (some name) := by
        unfold compile
        rw [whitespace]
      unfold addTemplate
      rw [compiled]
      cases e.compile source (some name) with
      | error error => exact Or.inl ⟨rfl, config, log, by rw [whitespace]; rfl, close⟩
      | ok t =>
        dsimp only
        by_cases cache : config.cache = e.config.cache
        · refine Or.inl ⟨rfl, config, log, ?_, fun mild => ?_⟩
          · unfold keep read
            dsimp only
            rw [whitespace, cache]
            split
            · split <;> rfl
            · rfl
          · rw [config_keep]
            exact close mild
        · refine Or.inr ⟨fun mild => cache (close mild).cache, ?_⟩
          rw [readings_keep, readings_keep]
          unfold read
          dsimp only
          rw [whitespace]
          exact .of_ne (fun same => cache (Reading.cache.inj same).symm) _
    · refine Or.inr ⟨fun mild => whitespace (close mild).whitespace, ?_⟩
      exact (Parted.of_ne (fun same => whitespace (Reading.whitespace.inj same).symm) _).mono
        (e.readings_addTemplate name source) (readings_addTemplate { e with config, log } name source)

end Engine

namespace Load

theorem blind_advance (host : Host) (cache : Bool) (limit rounds : Nat) (name : String) (answer : Future Loaded) :
    Engine.Blind mild (advance host cache limit rounds name answer) where
  reads e := by
    refine advance_induct (P := fun _ _ e result => e.readings <+: result.2.readings) (fun _ _ _ _ _ => List.prefix_rfl)
      (fun _ _ _ _ => List.prefix_rfl) (fun name _ e text _ => (List.prefix_append _ _).trans (e.readings_addTemplate name text))
      (fun _ _ _ _ _ => List.prefix_rfl) (fun _ _ _ _ _ _ _ => List.prefix_rfl) fun _ _ e _ _ _ _ _ _ more => ?_
    rwa [Engine.ask, Engine.readings_record] at more
  agrees {e e'} h := by
    induction rounds generalizing name answer e e' with
    | zero =>
      unfold advance
      cases answer host with
      | none => exact Or.inl ⟨rfl, h⟩
      | some outcome => cases outcome <;> exact Or.inl ⟨rfl, h⟩
    | succ rounds ih =>
      unfold advance
      cases answer host with
      | none => exact Or.inl ⟨rfl, h⟩
      | some outcome =>
        cases outcome with
        | error error => exact Or.inl ⟨rfl, h⟩
        | ok loaded =>
          cases loaded with
          | source text =>
            refine ((Engine.blind_addTemplate name text).agrees h).imp_left fun same => ?_
            exact ⟨congrArg settled same.1, same.2⟩
          | template t => exact Or.inl ⟨rfl, h⟩
          | redirect other =>
            have kept : e'.lookup other cache = e.lookup other cache ∧ e'.loader = e.loader := by
              obtain ⟨config, log, rfl, -⟩ := h
              exact ⟨rfl, rfl⟩
            dsimp only
            rw [kept.1, kept.2]
            cases e.lookup other cache with
            | some t => exact Or.inl ⟨rfl, h⟩
            | none =>
              cases e.loader with
              | none => exact Or.inl ⟨rfl, h⟩
              | some loader =>
                have logged := h.record .debug ("Redirecting `" ++ name ++ "` to `" ++ other ++ "`")
                obtain ⟨same, twin⟩ := logged.ask loader other
                dsimp only
                rw [same]
                exact ih other _ twin

theorem blind_poll (host : Host) (cache : Bool) (limit : Nat) (load : Load) :
    Engine.Blind mild (load.poll host cache limit) := by
  cases load with
  | waiting name answer rounds => exact blind_advance host cache limit rounds name answer
  | settled result => exact ⟨fun _ => List.prefix_rfl, fun h => Or.inl ⟨rfl, h⟩⟩

end Load

end Stencil
