import Stencil.Proofs.Render.Elsewhere
import Stencil.Proofs.Render.Stalls

/-! Texts rendered on the side. The text that comes back is all that the body would write at the place itself, unless a
    chunk inside was left open behind which text stands: the flush hands out what stands before it, and nothing is said
    of the rest. -/

namespace Stencil

open RenderM Render

variable {s t : Stage} {nesting : Nat} {body : Body} {context : Context} {side r : Render} {ids : List ChunkId}
  {text whole : String} {o : Except Error String}

/-! ### What stands in the chunks -/

namespace Render

/-- Where no work is parked, the draft is the text in the chunks. -/
theorem draft_of_no_task (none : r.tasks = []) (ids : List ChunkId) :
    r.draft ids = Draft.ofText (String.join (ids.map r.chunks.textAt)) := by
  induction ids with
  | nil => rfl
  | cons id ids ih =>
    have here : r.pieces id = Draft.ofText (r.chunks.textAt id) :=
      pieces_of_no_task fun task mem => by rw [none] at mem; cases mem
    rw [draft_cons, here, ih, List.map_cons, String.join_cons, Draft.ofText_append]

/-- A flush takes the text off the front, and leaves the rest in the chunks. -/
theorem join_flush (h : r.Sound) (linked : r.chunks.Linked ids) (none : r.tasks = []) :
    String.join (ids.map r.chunks.textAt) = r.chunks.flush.1 ++ String.join (ids.map r.chunks.flush.2.textAt) := by
  have split := h.draft_flush linked
  rw [draft_of_no_task none, draft_of_no_task (r := { r with chunks := r.chunks.flush.2 }) none,
    ← Draft.ofText_append] at split
  exact Draft.ofText_injective split

theorem join_eq_flush (h : r.Sound) (linked : r.chunks.Linked ids) (none : r.tasks = [])
    (ended : r.chunks.openCount = 0) : String.join (ids.map r.chunks.textAt) = r.chunks.flush.1 := by
  have whole := h.draft_eq_flush ended linked
  rw [draft_of_no_task none] at whole
  exact Draft.ofText_injective whole

end Render

theorem Chunks.Linked.join_eq_empty {cs : Chunks} (linked : cs.Linked ids) :
    String.join (ids.map cs.textAt) = "" ↔ ∀ id, cs.textAt id = "" := by
  have joined : String.join (ids.map cs.textAt) = "" ↔ ∀ id ∈ ids, cs.textAt id = "" := by
    clear linked
    induction ids with
    | nil => simp
    | cons id ids ih => rw [List.map_cons, String.join_cons, String.append_eq_empty_iff, ih, List.forall_mem_cons]
  rw [joined]
  refine ⟨fun empty id => ?_, fun empty id _ => empty id⟩
  by_cases mem : id ∈ ids
  · exact empty id mem
  · unfold textAt
    rw [Array.getElem?_eq_none (Nat.le_of_not_lt fun lt => mem (linked.mem_iff.mpr lt))]
    rfl

/-! ### The render on the side -/

/-- The stage in which the body is rendered on the side, or could be rendered in another render instead: the settings
    have been read. -/
def Stage.sideways (s : Stage) (r : Render) : Stage := { s with engine := s.engine.readAside, render := r }

/-- A body rendered from `s` on the side has left this render there and the world of `t`; nothing is parked, and this is
    all the text in its chunks. -/
structure Side (nesting : Nat) (body : Body) (context : Context) (s t : Stage) (side : Render) (whole : String) :
    Prop where
  run : (within Chunks.root (exec nesting body context)).run (s.sideways { config := s.engine.config }) =
    .ok (.ok (), { t with render := side })
  parked : side.tasks = []
  whole : ∃ ids, side.chunks.Linked ids ∧ whole = String.join (ids.map side.chunks.textAt)

/-- A render in which the body could write instead: it began with the settings of the moment, and has begun no load that
    the render on the side begins. -/
structure Place (s : Stage) (side r : Render) : Prop where
  writable : r.Writable
  cache : r.config.cache = s.engine.config.cache
  maxPartialDepth : r.config.maxPartialDepth = s.engine.config.maxPartialDepth
  loader : s.engine.loader = none → r.loads = []
  fresh {name : String} : Dict.contains name side.loads = true → Dict.get? name r.loads = none

/-- Whatever comes of a render on the side, the render around it is as it was. -/
theorem render_toText {x : RenderM Unit} {template : Option String} (ran : (toText template x).run s = .ok (o, t)) :
    t.render = s.render := by
  have again := run_toText_of_world (t := s) rfl ran
  rw [ran, Except.ok.injEq, Prod.mk.injEq] at again
  rw [again.2]

namespace Side

variable (h : Side nesting body context s t side whole)

include h

/-- The body has run in the first chunk of the new render, and the chunk that it left off in has ended. -/
theorem inside : ∃ v last rest cs,
    (exec nesting body context).run (.entered Chunks.root (s.sideways { config := s.engine.config })) = .ok (.ok (), v) ∧
    Kept { config := s.engine.config, writers := [Chunks.root] } v.render ∧ v.render.writers = last :: rest ∧
    v.render.chunks.finish last = .ok cs ∧ v.toWorld = t.toWorld ∧
    side = { v.render with chunks := cs, writers := v.render.writers.tail } := by
  obtain ⟨v, last, rest, cs, ran, writing, finished, same⟩ := run_within_ok h.run
  obtain ⟨sound, spare⟩ := sound_new s.engine.config
  have kept := ((keeps_exec nesting body context _ (sound.enter spare) (List.cons_ne_nil _ _)).ends ran).1
  exact ⟨v, last, rest, cs, ran, kept, writing, finished, (congrArg Stage.toWorld same).symm, congrArg Stage.render same⟩

theorem sound : side.Sound := by
  obtain ⟨v, last, rest, cs, -, kept, writing, finished, -, rfl⟩ := h.inside
  exact kept.sound.finish writing finished

/-- The flush gives the whole text exactly if no text is left in the chunks. -/
theorem flush_eq_whole : side.chunks.flush.1 = whole ↔ ∀ id, side.chunks.flush.2.textAt id = "" := by
  obtain ⟨ids, linked, rfl⟩ := h.whole
  rw [join_flush h.sound linked h.parked, ← linked.flush.1.join_eq_empty, eq_comm, String.append_eq_left_iff]

/-- Where no work put off has failed, nothing is left. -/
theorem flush_eq_whole_of_failed (none : side.failed = []) : side.chunks.flush.1 = whole := by
  obtain ⟨ids, linked, rfl⟩ := h.whole
  have ended : side.chunks.openCount = 0 := by
    have parked := h.parked
    obtain ⟨v, last, rest, cs, -, kept, writing, finished, -, rfl⟩ := h.inside
    exact openCount_root kept finished writing parked none
  exact (join_eq_flush h.sound linked h.parked ended).symm

/-- At a place in another render the body adds the whole text, and changes the world alike. -/
theorem exists_place (place : Place s side r) : ∃ r',
    (exec nesting body context).run (s.sideways r) = .ok (.ok (), { t with render := r' }) ∧ r.Gains r' whole ∧
      r'.tasks = r.tasks ∧ r'.events = r.events ∧ r'.progress = r.progress := by
  obtain ⟨v, last, rest, cs, ran, kept, writing, finished, world, rfl⟩ := h.inside
  have portable := portable_exec nesting body context
  have akin : Stage.Akin r.loads (.entered Chunks.root (s.sideways { config := s.engine.config })) (s.sideways r) :=
    ⟨rfl, place.cache, place.maxPartialDepth, fun name => Option.none_or.symm, place.loader⟩
  obtain ⟨sound, spare⟩ := sound_new s.engine.config
  obtain ⟨t', ran', carried⟩ := portable.carries akin ⟨sound.enter spare, List.cons_ne_nil _ _⟩ place.writable ran
    h.parked fun name => place.fresh
  have kept' := ((portable.keeps _ place.writable.sound place.writable.writing).ends ran').1
  obtain ⟨text, gains, gains'⟩ := carried.gains
  let bare : Render := { v.render.hushed with chunks := cs, writers := v.render.writers.tail }
  obtain ⟨ids, linked, drafted⟩ : ∃ ids, cs.Linked ids ∧ bare.draft ids = Draft.ofText text := draft_root gains finished
  obtain ⟨ids', linked', whole'⟩ := h.whole
  obtain rfl := linked.unique linked'
  have same : text = whole := by
    rw [draft_of_no_task (r := bare) h.parked] at drafted
    rw [whole', ← Draft.ofText_injective drafted]
  refine ⟨t'.render, ?_, same ▸ gains', carried.tasks, kept'.alike.events, kept'.alike.progress⟩
  rw [ran', ← world, ← carried.akin.world]

end Side

/-- A text rendered on the side is what the flush gives there. -/
theorem exists_side (ran : (toText context.templateName (exec nesting body context)).run s = .ok (.ok text, t)) :
    ∃ side whole, Side nesting body context s t side whole ∧ text = side.chunks.flush.1 := by
  obtain ⟨u, inside, parked, rfl, rfl⟩ := run_toText_ok ran
  obtain ⟨sound, spare⟩ := sound_new s.engine.config
  obtain ⟨ids, linked⟩ := ((safe_within (keeps_exec nesting body context) sound spare).ends inside).sound.linked
  exact ⟨u.render, _, ⟨inside, parked, ids, linked, rfl⟩, rfl⟩

/-- Whatever comes of a text rendered on the side, the render around it is as it was. A text that comes back is what the
    body adds at the place itself, where the settings are those of the moment and none of its loads has begun before, if
    and only if the flush has left no text in the chunks on the side, which is so where no work put off has failed. -/
theorem side_text_whole_iff_nothing_left {nesting : Nat} {body : Body} {context : Context} {s t : Stage}
    {outcome : Except Error String}
    (ran : (toText context.templateName (exec nesting body context)).run s = .ok (outcome, t)) :
    t.render = s.render ∧ ∀ text, outcome = .ok text → ∃ side whole, Side nesting body context s t side whole ∧
      (text = whole ↔ ∀ id, side.chunks.flush.2.textAt id = "") ∧ (side.failed = [] → text = whole) ∧
      ∀ r, Place s side r → ∃ r',
        (exec nesting body context).run (s.sideways r) = .ok (.ok (), { t with render := r' }) ∧ r.Gains r' whole ∧
          r'.tasks = r.tasks ∧ r'.events = r.events ∧ r'.progress = r.progress := by
  refine ⟨render_toText ran, ?_⟩
  rintro text rfl
  obtain ⟨side, whole, h, rfl⟩ := exists_side ran
  exact ⟨side, whole, h, h.flush_eq_whole, h.flush_eq_whole_of_failed, fun r => h.exists_place⟩

/-- A text, what a helper has to give, and a text. -/
def sidelong : Body := [.write "a", .helperTag "h" none [] .empty, .write "b"]

/-- A render that begins, with an engine. -/
def beginning (e : Engine) : Stage := { engine := e, render := { config := e.config, writers := [Chunks.root] } }

theorem writable_beginning (e : Engine) : (beginning e).render.Writable :=
  ⟨(sound_new e.config).1.enter (sound_new e.config).2, List.cons_ne_nil _ _⟩

theorem side_text_whole_iff_nothing_left_promptText : ∃ t r',
    (toText none (exec 9 sidelong {})).run (beginning promptEngine) = .ok (.ok "axb", t) ∧
    t.render = (beginning promptEngine).render ∧
    (exec 9 sidelong {}).run ((beginning promptEngine).sideways (beginning promptEngine).render) =
      .ok (.ok (), { t with render := r' }) ∧ (beginning promptEngine).render.Gains r' "axb" := by
  have seen : ((toText none (exec 9 sidelong {})).run (beginning promptEngine)).toOption.any
      (fun r => r.1.toOption == some "axb") = true := by decide +kernel
  obtain ⟨⟨outcome, t⟩, ran, seen⟩ := exists_eq_ok seen
  obtain rfl : outcome = .ok "axb" := by
    cases outcome with
    | ok text =>
      obtain rfl : text = "axb" := by simpa [Except.toOption] using seen
      rfl
    | error e => cases seen
  change (toText (Context.templateName {}) _).run _ = _ at ran
  obtain ⟨back, ends⟩ := side_text_whole_iff_nothing_left ran
  obtain ⟨side, whole, h, -, ended, places⟩ := ends "axb" rfl
  have unfailed : side.failed = [] := by
    have seen' : ((within Chunks.root (exec 9 sidelong {})).run ((beginning promptEngine).sideways
        { config := promptEngine.config })).toOption.any (·.2.render.failed.isEmpty) = true := by decide +kernel
    obtain ⟨_, inside, none⟩ := exists_eq_ok seen'
    cases h.run.symm.trans inside
    exact List.isEmpty_iff.mp none
  obtain ⟨r', ran', gains, -⟩ := places (beginning promptEngine).render
    ⟨writable_beginning _, rfl, rfl, fun _ => rfl, fun _ => rfl⟩
  exact ⟨t, r', ran, back, ran', ended unfailed ▸ gains⟩

/-- A text may come back that lacks what the body adds at a place under the same settings, in a render that has begun no
    load. -/
theorem side_text_not_whole : ¬ ∀ nesting body context s t text,
    (toText (Context.templateName context) (exec nesting body context)).run s = .ok (.ok text, t) →
    ∀ r : Render, r.Writable → r.config = s.engine.config → r.loads = [] → ∃ r',
      (exec nesting body context).run (s.sideways r) = .ok (.ok (), { t with render := r' }) ∧ r.Gains r' text := by
  intro claim
  let s : Stage := beginning { helpers := [("h", recovering)] }
  have seen : ((toText none (exec 9 sidelong {})).run s).toOption.any (·.1.toOption.isSome) = true := by decide +kernel
  obtain ⟨⟨outcome, t⟩, ran, seen⟩ := exists_eq_ok seen
  cases outcome with
  | error e => cases seen
  | ok text =>
    change (toText (Context.templateName {}) _).run _ = _ at ran
    obtain ⟨side, whole, h, rfl⟩ := exists_side ran
    obtain ⟨r', ran', gains⟩ := claim 9 sidelong {} s t _ ran s.render (writable_beginning _) rfl rfl
    obtain ⟨r'', ran'', gains', -⟩ := h.exists_place (r := s.render)
      ⟨writable_beginning _, rfl, rfl, fun _ => rfl, fun _ => rfl⟩
    cases ran'.symm.trans ran''
    have left : side.chunks.flush.2.textAt 0 = "a" := by
      have seen' : ((within Chunks.root (exec 9 sidelong {})).run (s.sideways { config := s.engine.config })).toOption.any
          (·.2.render.chunks.flush.2.textAt 0 == "a") = true := by decide +kernel
      obtain ⟨_, inside, here⟩ := exists_eq_ok seen'
      cases h.run.symm.trans inside
      exact eq_of_beq here
    exact absurd (left.symm.trans (h.flush_eq_whole.mp (gains'.unique gains) 0)) (by decide)

end Stencil
