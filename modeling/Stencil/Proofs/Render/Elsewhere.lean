import Stencil.Proofs.Render.Akin
import Stencil.Proofs.Render.Loading

/-! The same code elsewhere. Code that parks no work writes the same text at any place of any render that began with the
    same settings, as long as it begins no load that has begun there already. -/

namespace Stencil

variable {α β : Type} {base : Dict Load} {s t u v s' t' : Stage} {id : ChunkId}

namespace RenderM

open Render

/-- What the code does at one stage, where it parks nothing and begins no load of those that have begun elsewhere, it does
    at a stage akin. -/
structure Portable (V : α → Prop) (x : RenderM α) : Prop where
  keeps : Keeps V x
  later {s s' : Stage} {o : Except Error α} : s.render.Writable → x.run s = .ok (o, s') → s.Later s'
  carries {base : Dict Load} {s t s' : Stage} {o : Except Error α} : s.Akin base t → s.render.Writable →
    t.render.Writable → x.run s = .ok (o, s') → s'.render.tasks = s.render.tasks → s'.Fresh base →
    ∃ t', x.run t = .ok (o, t') ∧ Carried base s t s' t'

theorem Keeps.writable {V : α → Prop} {x : RenderM α} (keeps : Keeps V x) (h : s.render.Writable)
    {o : Except Error α} (ran : x.run s = .ok (o, s')) : s'.render.Writable :=
  ((keeps s h.sound h.writing).ends ran).1.writable

namespace Portable

variable {V : α → Prop} {W : β → Prop} {x : RenderM α} {y : RenderM Unit}

/-- Code that leaves the render alone, loads and journal included, and looks at no more of it than its settings. -/
theorem of_world (keeps : Keeps V x) (h : ∀ {s s' o}, x.run s = .ok (o, s') → ∃ w : World, s.engine.Same w.engine ∧
    ∀ t : Stage, t.toWorld = s.toWorld → t.render.config.cache = s.render.config.cache →
      t.render.config.maxPartialDepth = s.render.config.maxPartialDepth →
      x.run t = .ok (o, { w with render := t.render })) : Portable V x where
  keeps := keeps
  later {s s' o} _ ran := by
    obtain ⟨w, same, runs⟩ := h ran
    cases ran.symm.trans (runs s rfl rfl rfl)
    exact .of_render same rfl rfl
  carries {base s t s' o} akin left right ran _ _ := by
    obtain ⟨w, same, runs⟩ := h ran
    cases ran.symm.trans (runs s rfl rfl rfl)
    exact ⟨_, runs t akin.world akin.cache akin.maxPartialDepth, akin.of_render rfl same rfl rfl rfl rfl, rfl,
      "", .of_eq left rfl rfl rfl, .of_eq right rfl rfl rfl⟩

theorem pure {a : α} (h : V a) : Portable V (pure a) := .of_world (.pure h) fun {s s' o} ran => by
  cases ran
  exact ⟨s.toWorld, .refl _, fun t world _ _ => by rw [← world]; rfl⟩

theorem throw (V : α → Prop) (e : Error) : Portable V (throw e) := .of_world (.throw e) fun {s s' o} ran => by
  cases ran
  exact ⟨s.toWorld, .refl _, fun t world _ _ => by rw [← world]; rfl⟩

theorem bind {x : RenderM β} {f : β → RenderM α} (hx : Portable W x) (hf : ∀ b, W b → Portable V (f b)) :
    Portable V (x >>= f) where
  keeps := hx.keeps.bind fun b value => (hf b value).keeps
  later {s s' o} writable ran := by
    rcases run_bind_eq_ok.mp ran with ⟨e, failed, rfl⟩ | ⟨b, u, first, second⟩
    · exact hx.later writable failed
    · have value := ((hx.keeps s writable.sound writable.writing).ends first).2 b rfl
      exact (hx.later writable first).trans ((hf b value).later (hx.keeps.writable writable first) second)
  carries {base s t s' o} akin left right ran tasks fresh := by
    rcases run_bind_eq_ok.mp ran with ⟨e, failed, rfl⟩ | ⟨b, u, first, second⟩
    · obtain ⟨t', ran', carried⟩ := hx.carries akin left right failed tasks fresh
      exact ⟨t', run_bind_eq_ok.mpr (.inl ⟨e, ran', rfl⟩), carried⟩
    · have value := ((hx.keeps s left.sound left.writing).ends first).2 b rfl
      have left' := hx.keeps.writable left first
      -- Tasks and loads are only added to, so what holds of them in the end holds between the two.
      have later := (hf b value).later left' second
      obtain ⟨before, behind⟩ := (hx.later left first).tasks_eq later tasks
      obtain ⟨u', ran', carried⟩ := hx.carries akin left right first before (later.fresh fresh)
      obtain ⟨t', ran'', carried'⟩ := (hf b value).carries carried.akin left' (hx.keeps.writable right ran') second behind
        fresh
      exact ⟨t', (run_bind_of_ok ran').trans ran'', carried.trans carried'⟩

theorem mono {V' : α → Prop} (hx : Portable V x) (imp : ∀ a, V a → V' a) : Portable V' x :=
  ⟨hx.keeps.mono imp, hx.later, hx.carries⟩

theorem attempt (hx : Portable V x) : Portable (fun _ => True) (attempt x) where
  keeps := hx.keeps.attempt
  later writable ran := by
    obtain ⟨_, inside, -⟩ := run_attempt_eq_ok.mp ran
    exact hx.later writable inside
  carries akin left right ran tasks fresh := by
    obtain ⟨_, inside, rfl⟩ := run_attempt_eq_ok.mp ran
    obtain ⟨t', inside', carried⟩ := hx.carries akin left right inside tasks fresh
    exact ⟨t', run_attempt_eq_ok_ok.mpr inside', carried⟩

theorem mapError (g : Error → Error) (hx : Portable V x) : Portable V (mapError g x) where
  keeps := hx.keeps.mapError g
  later writable ran := by
    obtain ⟨_, inside, -⟩ := run_mapError_eq_ok.mp ran
    exact hx.later writable inside
  carries akin left right ran tasks fresh := by
    obtain ⟨inner, inside, rfl⟩ := run_mapError_eq_ok.mp ran
    obtain ⟨t', inside', carried⟩ := hx.carries akin left right inside tasks fresh
    exact ⟨t', run_mapError_eq_ok.mpr ⟨inner, inside', rfl⟩, carried⟩

theorem write (text : String) : Portable (fun _ => True) (write text) where
  keeps := .write text
  later writable ran := by
    obtain ⟨cs, done, -⟩ := run_write_adds writable text
    cases ran.symm.trans done
    exact .of_render (.refl _) rfl rfl
  carries akin left right ran _ _ := by
    obtain ⟨cs, done, -, adds⟩ := run_write_adds left text
    obtain ⟨cs', done', -, adds'⟩ := run_write_adds right text
    cases ran.symm.trans done
    exact ⟨_, done', akin.of_render akin.world (.refl _) rfl rfl rfl rfl, rfl, text,
      adds left.sound.hushed rfl rfl, adds' right.sound.hushed rfl rfl⟩

theorem filled (fillings : Nat) : Portable (fun _ => True) (note (.filled fillings)) where
  keeps := .filled fillings
  later _ ran := by
    cases ran
    exact .of_render (.refl _) rfl rfl
  carries akin left right ran _ _ := by
    cases ran
    exact ⟨_, rfl, akin.of_render akin.world (.refl _) rfl rfl rfl rfl, rfl, "", .of_eq left rfl rfl rfl,
      .of_eq right rfl rfl rfl⟩

/-! ### Code that uses the world around the render -/

theorem withEngine {g : Engine → α × Engine} (same : ∀ e, Engine.Same e (g e).2) :
    Portable (fun _ => True) (withEngine g) := .of_world (Quiet.withEngine g).keeps_any fun {s s' o} ran => by
  cases ran
  refine ⟨{ s.toWorld with engine := (g s.engine).2 }, same _, fun t world _ _ => ?_⟩
  rw [← world]
  rfl

theorem modifyWorld {g : World → World} (same : ∀ w, Engine.Same w.engine (g w).engine) :
    Portable (fun _ => True) (modify fun s : Stage => { g s.toWorld with render := s.render }) := by
  have quiet : Quiet (fun _ => True) (modify fun s : Stage => { g s.toWorld with render := s.render }) :=
    fun _ => ⟨rfl, rfl, trivial⟩
  refine .of_world quiet.keeps_any fun {s s' o} ran => ?_
  cases ran
  refine ⟨g s.toWorld, same _, fun t world _ _ => ?_⟩
  rw [← world]
  rfl

theorem modifyEngine {g : Engine → Engine} (same : ∀ e, Engine.Same e (g e)) :
    Portable (fun _ => True) (modifyEngine g) := modifyWorld (g := fun w => { w with engine := g w.engine }) fun _ => same _

/-- Code that looks at the world and the settings of the render. -/
theorem look (value : World → Config → α) (h : ∀ s : Stage, V (value s.toWorld s.render.config))
    (blind : ∀ w {c c' : Config}, c'.cache = c.cache → c'.maxPartialDepth = c.maxPartialDepth → value w c' = value w c) :
    Portable V (get >>= fun s => Pure.pure (value s.toWorld s.render.config)) := by
  have quiet : Quiet (fun o => ∀ a, o = .ok a → V a) (get >>= fun s => Pure.pure (value s.toWorld s.render.config)) :=
    Quiet.get_bind fun s => Quiet.pure fun _ same => by cases same; exact h s
  refine .of_world quiet.keeps fun {s s' o} ran => ?_
  cases ran
  refine ⟨s.toWorld, .refl _, fun t world cache depth => ?_⟩
  rw [run_bind_of_ok (run_get t), run_pure, world, blind _ cache depth, ← world]

theorem get_bind {f : World → RenderM α} (hf : ∀ w, Portable V (f w)) : Portable V (get >>= fun s => f s.toWorld) where
  keeps s sound writing := (hf s.toWorld).keeps s sound writing
  later {s s' o} writable ran := (hf s.toWorld).later writable ran
  carries {base s t s' o} akin left right ran tasks fresh := by
    obtain ⟨t', ran', carried⟩ := (hf s.toWorld).carries akin left right ran tasks fresh
    refine ⟨t', ?_, carried⟩
    rw [run_bind_of_ok (run_get t), akin.world]
    exact ran'

theorem perform (action : Action) : Portable (fun _ => True) (perform action) := by
  cases action with
  | setConfig config =>
    refine (modifyEngine (g := (·.setConfig config)) fun _ => ⟨rfl, rfl, rfl⟩).bind fun _ _ => ?_
    exact pure trivial
  | addTemplate name source =>
    refine (withEngine fun e => e.same_addTemplate name source).bind fun outcome _ => ?_
    cases outcome with
    | ok t => exact pure trivial
    | error e => exact throw _ e
  | getTemplate name => exact look (fun w _ => w.engine.getTemplate name) (fun _ => trivial) fun _ _ _ _ _ => rfl
  | renameTemplate name newName =>
    refine (modifyEngine fun e => e.same_renameTemplate name newName).bind fun _ _ => ?_
    exact look (fun w _ => w.engine.getTemplate name) (fun _ => trivial) fun _ _ _ _ _ => rfl
  | removeTemplate name =>
    refine get_bind (f := fun w => do
      RenderM.modifyEngine (·.removeTemplate name)
      Pure.pure (w.engine.getTemplate name)) fun w => ?_
    refine (modifyEngine (g := (·.removeTemplate name)) fun _ => ⟨rfl, rfl, rfl⟩).bind fun _ _ => ?_
    exact pure trivial
  | clearTemplates =>
    refine (modifyEngine (g := (·.clearTemplates)) fun _ => ⟨rfl, rfl, rfl⟩).bind fun _ _ => ?_
    exact pure trivial
  | openGate gate outcome =>
    refine (modifyWorld (g := fun w => { w with host := w.host.openGate gate outcome }) fun _ => .refl _).bind fun _ _ => ?_
    exact pure trivial

end Portable

/-! ### Texts rendered on the side -/

/-- A text rendered on the side depends on nothing of the render around it, and changes nothing there. -/
theorem run_toText_of_world {template : Option String} {x : RenderM Unit} {o : Except Error String}
    (world : t.toWorld = s.toWorld) (ran : (toText template x).run s = .ok (o, s')) :
    (toText template x).run t = .ok (o, { s' with render := t.render }) := by
  let begun (w : World) : Stage :=
    { engine := w.engine.read (.aside w.engine.config.cache w.engine.config.maxPartialDepth), host := w.host,
      render := { config := w.engine.config } }
  change RenderM.run (RenderM.attempt _ >>= _) (begun s.toWorld) = _ at ran
  change RenderM.run (RenderM.attempt _ >>= _) (begun t.toWorld) = _
  rw [world]
  rcases run_bind_eq_ok.mp ran with ⟨_, no, -⟩ | ⟨outcome, u, inside, back⟩
  · obtain ⟨_, _, no⟩ := run_attempt_eq_ok.mp no
    cases no
  · rw [run_bind_of_ok inside]
    cases outcome <;> cases back <;> rfl

theorem Portable.toText {y : RenderM Unit} (template : Option String) (hy : Portable (fun _ => True) y) :
    Portable (fun _ => True) (toText template y) := .of_world (hy.keeps.toText template) fun {s s' o} ran => by
  obtain ⟨reading, aside⟩ := aside_toText (x := y) template s
  have writable := Evenly.writable_aside s reading
  have aside := aside fun inside => ((hy.keeps _ writable.sound writable.writing).ends inside).1
  have same : s.engine.Same s'.engine := by
    rw [ran] at aside
    generalize inside : y.run (s.aside reading) = run at aside
    cases aside with
    | fail _ _ | parked _ | text _ _ =>
      exact (Engine.same_read s.engine reading).trans (hy.later writable inside).same
  exact ⟨s'.toWorld, same, fun t world _ _ => run_toText_of_world world ran⟩

/-! ### Loads -/

theorem Portable.startLoad (name : String) (template : Option String) :
    Portable (fun _ => True) (startLoad name template) where
  keeps := (Quiet.startLoad name template).keeps_any
  later {s s' o} _ ran := by
    cases begun : Dict.get? name s.render.loads with
    | some load =>
      cases ran.symm.trans (run_startLoad_of_contains (Option.isSome_iff_exists.mpr ⟨load, begun⟩))
      exact .refl s
    | none =>
      cases has : s.engine.loader with
      | none =>
        cases ran.symm.trans (run_startLoad_of_loader_none begun has)
        exact .of_render (s.engine.same_record _ _) rfl rfl
      | some loader =>
        cases ran.symm.trans (run_startLoad_of_loader begun has)
        exact .withLoad ((s.engine.same_record _ _).trans (Engine.same_ask ..)) ..
  carries {base s t s' o} akin left right ran _ fresh := by
    have engine : t.engine = s.engine := congrArg World.engine akin.world
    have elsewhere := akin.loads name
    cases begun : Dict.get? name s.render.loads with
    | some load =>
      cases ran.symm.trans (run_startLoad_of_contains (Option.isSome_iff_exists.mpr ⟨load, begun⟩))
      rw [begun] at elsewhere
      exact ⟨t, run_startLoad_of_contains (Option.isSome_iff_exists.mpr ⟨load, elsewhere⟩), .refl akin left right⟩
    | none =>
      rw [begun, Option.none_or] at elsewhere
      cases has : s.engine.loader with
      | none =>
        cases ran.symm.trans (run_startLoad_of_loader_none begun has)
        rw [akin.loader has, Dict.get?_nil] at elsewhere
        refine ⟨_, run_startLoad_of_loader_none elsewhere (engine ▸ has), ?_, rfl, "", .of_eq left rfl rfl rfl,
          .of_eq right rfl rfl rfl⟩
        refine akin.of_render ?_ (s.engine.same_record _ _) rfl rfl rfl rfl
        rw [← akin.world]
      | some loader =>
        cases ran.symm.trans (run_startLoad_of_loader begun has)
        rw [fresh name (Dict.contains_insert.mpr (.inl rfl))] at elsewhere
        have ran' : (RenderM.startLoad name template).run t = _ := run_startLoad_of_loader elsewhere (engine ▸ has)
        rw [engine, akin.maxPartialDepth] at ran'
        exact ⟨_, ran', akin.withLoad ((s.engine.same_record _ _).trans (Engine.same_ask ..)) .., rfl, "",
          .of_eq left rfl rfl rfl, .of_eq right rfl rfl rfl⟩

/-! ### Work put off -/

/-- A poll that leaves the render alone. The work that it finds it also finds at a stage akin, and the work is portable. -/
structure Polled (x : RenderM (Option (RenderM Unit))) : Prop where
  quiet : Quiet (∃ found, · = .ok found ∧ ∀ work, found = some work → Portable (fun _ => True) work) x
  later {s s' : Stage} {o : Except Error (Option (RenderM Unit))} : x.run s = .ok (o, s') → s.Later s'
  carries {base : Dict Load} {s t s' : Stage} {work : RenderM Unit} : s.Akin base t →
    x.run s = .ok (.ok (some work), s') → ∃ t', x.run t = .ok (.ok (some work), t') ∧ s'.Akin base t'

theorem polled_pollText (future : Future String) {work : String → RenderM Unit}
    (hw : ∀ text, Portable (fun _ => True) (work text)) : Polled (pollText future work) where
  quiet := Quiet.pollText hw (Portable.throw _)
  later {s s' o} ran := by
    cases ran.symm.trans (run_pollText future work s)
    exact .refl s
  carries {base s t s' found} akin ran := by
    rw [run_pollText, Except.ok.injEq, Prod.mk.injEq, Except.ok.injEq] at ran
    obtain ⟨there, rfl⟩ := ran
    exact ⟨t, by rw [run_pollText, congrArg World.host akin.world, there], akin⟩

theorem polled_pollTemplate (name : String) {work : Template → RenderM Unit}
    (hw : ∀ t, Portable (fun _ => True) (work t)) : Polled (pollTemplate name work) where
  quiet := Quiet.pollTemplate hw (Portable.throw _)
  later {s s' o} ran := by
    cases begun : Dict.get? name s.render.loads with
    | none =>
      cases ran.symm.trans (run_pollTemplate_of_none begun)
      exact .refl s
    | some load =>
      cases ran.symm.trans (run_pollTemplate_of_some work begun)
      exact .withLoad load.same_poll ..
  carries {base s t s' found} akin ran := by
    cases begun : Dict.get? name s.render.loads with
    | none => cases ran.symm.trans (run_pollTemplate_of_none begun)
    | some load =>
      have elsewhere := akin.loads name
      rw [begun, Option.some_or] at elsewhere
      rw [run_pollTemplate_of_some work begun, Except.ok.injEq, Prod.mk.injEq, Except.ok.injEq] at ran
      obtain ⟨there, rfl⟩ := ran
      have ran' := run_pollTemplate_of_some work elsewhere
      rw [congrArg World.engine akin.world, congrArg World.host akin.world, akin.cache, akin.maxPartialDepth] at ran'
      dsimp only at ran'
      rw [there] at ran'
      exact ⟨_, ran', akin.withLoad load.same_poll ..⟩

theorem Polled.exists_run {x : RenderM (Option (RenderM Unit))} (hx : Polled x) (s : Stage) : ∃ found u,
    x.run s = .ok (.ok found, u) ∧ u.render = { s.render with loads := u.render.loads } ∧
      ∀ work, found = some work → Portable (fun _ => True) work := by
  cases ran : x.run s with
  | error reason => exact ((hx.quiet s).halts ran).elim
  | ok r =>
    obtain ⟨o, u⟩ := r
    obtain ⟨found, rfl, works⟩ := (hx.quiet s).ends ran
    exact ⟨found, u, rfl, (hx.quiet s).passes (passes_last ran), works⟩

/-- Work that ran from `s₁` to `u` in a chunk kept for it has ended, well or not, which leads from `s` to `v`: what it added
    has been put in at the chunk. -/
structure Concludes (id : ChunkId) (s₁ s u v : Stage) : Prop where
  same : ∃ chunks journal, v = { u with render := { u.render with chunks, writers := u.render.writers.tail, journal } }
  inserts {added : Draft} : Adds s₁.render.hushed u.render.hushed added →
    Inserts s.render.hushed v.render.hushed id added

theorem run_takeUp {V : Unit → Prop} {x : RenderM Unit} {wait : Wait} {o : Except Error Unit} (keeps : Keeps V x)
    (h : (s.takenUp id wait).render.Writable) (ran : x.run (s.takenUp id wait) = .ok (o, u)) :
    ∃ v, (takeUp id wait x).run s = .ok (o, v) ∧ Concludes id (s.takenUp id wait) s u v := by
  let noted : Stage := { s with render := { s.render with journal := .taken wait :: s.render.journal } }
  cases o with
  | ok _ =>
    obtain ⟨kept, -⟩ := (keeps _ h.sound h.writing).ends ran
    obtain ⟨last, rest, writing⟩ := List.exists_cons_of_ne_nil kept.writing
    obtain ⟨cs, done⟩ := (kept.sound.isOpen_writer writing).exists_finish
    have inside : (within id x).run noted =
        .ok (.ok (), { u with render := { u.render with chunks := cs, writers := u.render.writers.tail } }) := by
      show RenderM.run (RenderM.attempt x >>= _) (s.takenUp id wait) = _
      rw [run_bind_of_ok (run_attempt_eq_ok_ok.mpr ran)]
      exact run_finish writing done
    refine ⟨_, ?_, ⟨cs, .finished wait :: u.render.journal, rfl⟩,
      fun {added} adds => inserts_of_adds (r := s.render.hushed) adds done⟩
    show RenderM.run (RenderM.attempt (within id x) >>= _) noted = _
    rw [run_bind_of_ok (run_attempt_eq_ok_ok.mpr inside)]
    rfl
  | error e =>
    have inside : (within id x).run noted =
        .ok (.error e, { u with render := { u.render with writers := u.render.writers.tail } }) := by
      show RenderM.run (RenderM.attempt x >>= _) (s.takenUp id wait) = _
      rw [run_bind_of_ok (run_attempt_eq_ok_ok.mpr ran)]
      rfl
    refine ⟨_, ?_, ⟨u.render.chunks, .failed wait :: u.render.journal, rfl⟩,
      fun {added} adds => inserts_of_adds_left (r := s.render.hushed) adds⟩
    show RenderM.run (RenderM.attempt (within id x) >>= _) noted = _
    rw [run_bind_of_ok (run_attempt_eq_ok_ok.mpr inside)]
    rfl

/-- Work that is taken up and ends has run in the chunk kept for it. -/
theorem takeUp_inv {V : Unit → Prop} {x : RenderM Unit} {wait : Wait} {o : Except Error Unit} (keeps : Keeps V x)
    (h : (s.takenUp id wait).render.Writable) (ran : (takeUp id wait x).run s = .ok (o, v)) :
    ∃ u, x.run (s.takenUp id wait) = .ok (o, u) ∧ Concludes id (s.takenUp id wait) s u v := by
  cases inside : x.run (s.takenUp id wait) with
  | error reason =>
    let noted : Stage := { s with render := { s.render with journal := .taken wait :: s.render.journal } }
    have halts : (within id x).run noted = .error reason := by
      show RenderM.run (RenderM.attempt x >>= _) (s.takenUp id wait) = _
      exact run_bind_of_halt (run_attempt_of_halt inside)
    have halts' : (takeUp id wait x).run s = .error reason := by
      show RenderM.run (RenderM.attempt (within id x) >>= _) noted = _
      exact run_bind_of_halt (run_attempt_of_halt halts)
    cases halts'.symm.trans ran
  | ok r =>
    obtain ⟨v', taken, concludes⟩ := run_takeUp keeps h inside
    cases taken.symm.trans ran
    exact ⟨r.2, rfl, concludes⟩

/-- The code has kept its chunk for work put off, and gone on in a new one behind it. -/
structure GoesBehind (wait : Wait) (id : ChunkId) (s s₁ : Stage) : Prop where
  writing : ∃ rest, s.render.writers = id :: rest
  made : ∃ new cs, s.render.chunks.insertAfter id = .ok (new, cs) ∧ s₁ = { s with render := { s.render with
    chunks := cs, writers := new :: s.render.writers.tail, journal := .deferred wait :: s.render.journal } }

namespace GoesBehind

variable {wait : Wait} {s₁ t₁ : Stage} {id' : ChunkId} {text : String} (h : GoesBehind wait id s s₁)

include h

theorem later : s.Later s₁ := by
  obtain ⟨new, cs, -, rfl⟩ := h.made
  exact .of_render (.refl _) rfl rfl

theorem akin (h' : GoesBehind wait id' t t₁) (akin : s.Akin base t) : s₁.Akin base t₁ := by
  obtain ⟨new, cs, -, rfl⟩ := h.made
  obtain ⟨new', cs', -, rfl⟩ := h'.made
  exact akin.of_render akin.world (.refl _) rfl rfl rfl rfl

theorem tasks_eq (same : u.render = { s₁.render with loads := u.render.loads }) : u.render.tasks = s.render.tasks := by
  obtain ⟨new, cs, -, rfl⟩ := h.made
  rw [same]

theorem writable (writable : s.render.Writable) (same : u.render = { s₁.render with loads := u.render.loads }) :
    (u.takenUp id wait).render.Writable := by
  obtain ⟨rest, writing⟩ := h.writing
  obtain ⟨new, cs, made, rfl⟩ := h.made
  have reserves : Reserves s.render u.render id := reserves writable.sound writing made (by rw [same]) (by rw [same])
    (by rw [same]) (by rw [same]; rfl)
  exact writable_takenUp reserves.sound reserves.spare

/-- What the work adds in the chunk kept for it, is added where the code stood. -/
theorem gains (writable : s.render.Writable) (same : u.render = { s₁.render with loads := u.render.loads })
    (concludes : Concludes id (u.takenUp id wait) u v s') (gains : (u.takenUp id wait).render.Gains v.render text) :
    s.render.Gains s'.render text := by
  obtain ⟨rest, writing⟩ := h.writing
  obtain ⟨new, cs, made, rfl⟩ := h.made
  exact gains_of_inserts writable writing made (by rw [same]) (by rw [same]) (by rw [same]) (concludes.inserts gains)

end GoesBehind

theorem exists_goesBehind (h : s.render.Writable) (wait : Wait) (x : RenderM (Option (RenderM Unit))) :
    ∃ id s₁, GoesBehind wait id s s₁ ∧ ∀ {found u}, x.run s₁ = .ok (.ok found, u) →
      (putOff wait x).run s = (found.elim (park id wait) (takeUp id wait)).run u := by
  obtain ⟨id, rest, writing⟩ := List.exists_cons_of_ne_nil h.writing
  obtain ⟨new, cs, made, done⟩ := run_putOff_of_writers h.sound writing wait x
  exact ⟨id, _, ⟨⟨rest, writing⟩, new, cs, made, rfl⟩, done⟩

/-- Work put off has been parked, or it was taken up and has ended. -/
theorem putOff_inv {x : RenderM (Option (RenderM Unit))} (hx : Polled x) (h : s.render.Writable) {wait : Wait}
    {o : Except Error Unit} (ran : (putOff wait x).run s = .ok (o, s')) : ∃ id s₁ found u,
      GoesBehind wait id s s₁ ∧ x.run s₁ = .ok (.ok found, u) ∧
      u.render = { s₁.render with loads := u.render.loads } ∧
      match found with
      | none => s' = { u with render := { u.render with tasks := u.render.tasks ++ [⟨id, wait⟩] } }
      | some work => Portable (fun _ => True) work ∧
        ∃ v, work.run (u.takenUp id wait) = .ok (o, v) ∧ Concludes id (u.takenUp id wait) u v s' := by
  obtain ⟨id, s₁, behind, done⟩ := exists_goesBehind h wait x
  obtain ⟨found, u, polled, same, works⟩ := hx.exists_run s₁
  refine ⟨id, s₁, found, u, behind, polled, same, ?_⟩
  have ran := (done polled).symm.trans ran
  cases found with
  | none =>
    cases ran
    rfl
  | some work =>
    have portable := works work rfl
    exact ⟨portable, takeUp_inv portable.keeps (behind.writable h same) ran⟩

theorem Portable.putOff (wait : Wait) {x : RenderM (Option (RenderM Unit))} (hx : Polled x) :
    Portable (fun _ => True) (putOff wait x) where
  keeps := Keeps.putOff fun s => (hx.quiet s).mono fun _ _ _ ⟨found, same, works⟩ =>
    ⟨found, same, fun work is => (works work is).keeps⟩
  later {s s' o} h ran := by
    obtain ⟨id, s₁, found, u, behind, polled, same, ends⟩ := putOff_inv hx h ran
    have looked : s.Later u := behind.later.trans (hx.later polled)
    cases found with
    | none =>
      cases ends
      exact looked.trans ⟨.refl _, fun there => there, List.prefix_append ..⟩
    | some work =>
      obtain ⟨portable, v, inside, concludes⟩ := ends
      obtain ⟨_, _, rfl⟩ := concludes.same
      have entered : u.Later (u.takenUp id wait) := .of_render (.refl _) rfl rfl
      have done := portable.later (behind.writable h same) inside
      exact (looked.trans (entered.trans done)).trans (.of_render (.refl _) rfl rfl)
  carries {base s t s' o} akin left right ran tasks fresh := by
    obtain ⟨id, s₁, found, u, behind, polled, same, ends⟩ := putOff_inv hx left ran
    have before := behind.tasks_eq same
    cases found with
    | none =>
      cases ends
      simp [before] at tasks
    | some work =>
      obtain ⟨portable, v, inside, concludes⟩ := ends
      -- Each render keeps a chunk of its own for the work, and the work is the same.
      obtain ⟨id', t₁, behind', done'⟩ := exists_goesBehind right wait x
      obtain ⟨u', polled', akin'⟩ := hx.carries (behind.akin behind' akin) polled
      have same' : u'.render = { t₁.render with loads := u'.render.loads } := (hx.quiet _).passes (passes_last polled')
      have before' : u'.render.tasks = t.render.tasks := behind'.tasks_eq same'
      have entered : Stage.Akin base (u.takenUp id wait) (u'.takenUp id' wait) :=
        akin'.of_render akin'.world (.refl _) rfl rfl rfl rfl
      obtain ⟨chunks, journal, rfl⟩ := concludes.same
      obtain ⟨v', inside', carried⟩ := portable.carries entered (behind.writable left same) (behind'.writable right same')
        inside (tasks.trans before.symm) fresh
      obtain ⟨t', taken, concludes'⟩ := run_takeUp portable.keeps (behind'.writable right same') inside'
      obtain ⟨chunks', journal', rfl⟩ := concludes'.same
      obtain ⟨text, gains, gains'⟩ := carried.gains
      exact ⟨_, (done' polled').trans taken, carried.akin.of_render carried.akin.world (.refl _) rfl rfl rfl rfl,
        carried.tasks.trans before', text, behind.gains left same concludes gains,
        behind'.gains right same' concludes' gains'⟩

/-! ### Rendering -/

def porting : Coupling .any where
  rel V x _ := Portable V x
  helper _ := True
  limit _ := True
  fills _ := True
  pure := .pure
  throw := .throw
  bind := .bind
  mapError := .mapError
  write := .write
  filter filters value := .withEngine fun e => e.same_applyFilters filters value
  record level message := .modifyEngine fun e => e.same_record level message
  called _ := .modifyEngine fun _ => ⟨rfl, rfl, rfl⟩
  toText := .toText
  helper? name := .look (fun w _ => Dict.get? name w.engine.helpers) (fun _ _ _ => trivial) fun _ _ _ _ _ => rfl
  callable {id} _ := .look (fun w _ => w.engine.functions id) (fun _ => trivial) fun _ _ _ _ _ => rfl
  filled := .filled
  depthLimit := .look (fun _ c => c.maxPartialDepth) (fun _ => trivial) fun _ _ _ _ same => same

def portingWhole : porting.Whole where
  polls x _ := Polled x
  mono := .mono
  attempt := .attempt
  helper _ := trivial
  kept? name := .look (fun w c => w.engine.lookup name c.cache) (fun _ => trivial) fun w _ _ same _ => by rw [same]
  startLoad := .startLoad
  perform := .perform
  pollText future _ _ hw := polled_pollText future hw
  pollTemplate name _ _ hw := polled_pollTemplate name hw
  putOff wait := .putOff wait

theorem porting_self {render : Renderer} (hr : ∀ body context, Portable (fun _ => True) (render body context))
    (body : Body) (context : Context) : porting.rel (fun _ => True) (render body context) (render body context) :=
  hr body context

theorem portable_exec (nesting : Nat) (body : Body) (context : Context) :
    Portable (fun _ => True) (exec nesting body context) := by
  induction nesting generalizing body context with
  | zero => exact ⟨keeps_exec 0 body context, nofun, nofun⟩
  | succ nesting ih => exact portingWhole.steps (porting_self ih) body context

end RenderM
end Stencil
