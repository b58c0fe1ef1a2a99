import Stencil.Proofs.Render.Driving

/-! What listeners hear of a render, whoever drives it: pieces of text that are not empty, then the end or the error, once.
    Each call queues some events behind those that wait and tells some from the front, so every listener hears the events
    of its kind in the order in which they were queued. -/

namespace Stencil

open RenderM Render

variable {r r' r'' : Render} {s : Stage} {events told more more' : List Event} {o o' o'' : OutputStream}
  {w w' : World} {steps : Nat} {l : Listener}

/-! ### The events of a render -/

namespace Progress

/-- What comes last of a render that has come so far. -/
def Closes : Progress → List Event → Prop
  | .pending, last => last = []
  | .complete, last => last = [.finished]
  | .failed, last => ∃ error, last = [.failed error]

/-- All events of a render that has come so far: texts that are not empty, then the end or the error. -/
def Script (p : Progress) (events : List Event) : Prop :=
  ∃ (texts : List String) (last : List Event), (∀ text ∈ texts, text ≠ "") ∧ p.Closes last ∧
    events = texts.map .data ++ last

theorem Script.texts (h : pending.Script events) :
    ∃ texts : List String, (∀ text ∈ texts, text ≠ "") ∧ events = texts.map .data := by
  obtain ⟨texts, _, full, rfl, same⟩ := h
  exact ⟨texts, full, same.trans (List.append_nil _)⟩

theorem Closes.eq_nil_or_singleton {p : Progress} (h : p.Closes events) : events = [] ∨ ∃ event, events = [event] := by
  cases p with
  | pending => exact Or.inl h
  | complete => exact Or.inr ⟨_, h⟩
  | failed =>
    obtain ⟨error, rfl⟩ := h
    exact Or.inr ⟨_, rfl⟩

/-- Nothing comes behind an event that is no text. -/
theorem Script.nothing_more {p : Progress} {event : Event} (h : p.Script (told ++ more)) (mem : event ∈ told)
    (last : ∀ text, event ≠ .data text) : more = [] := by
  obtain ⟨texts, ending, -, closes, same⟩ := h
  have outside : event ∉ texts.map Event.data := fun mem => by
    obtain ⟨text, -, rfl⟩ := List.mem_map.mp mem
    exact last text rfl
  rcases List.append_eq_append_iff.mp same with ⟨behind, texts', -⟩ | ⟨front, rfl, ending'⟩
  · exact absurd (texts' ▸ List.mem_append_left _ mem) outside
  · have mem' : event ∈ front := (List.mem_append.mp mem).resolve_left outside
    obtain ⟨first, rest, rfl⟩ := List.exists_cons_of_ne_nil (List.ne_nil_of_mem mem')
    rcases closes.eq_nil_or_singleton with rfl | ⟨only, rfl⟩
    · cases ending'
    · rw [List.cons_append, List.cons.injEq] at ending'
      exact (List.append_eq_nil_iff.mp ending'.2.symm).2

end Progress

/-- A render goes on from another: events are queued behind those that wait, and none once it has ended. -/
structure Render.Goes (r r' : Render) : Prop where
  script {told : List Event} : r.progress.Script (told ++ r.events) → r'.progress.Script (told ++ r'.events)
  queued : r.events <+: r'.events
  ended : r.progress ≠ .pending → r'.progress = r.progress ∧ r'.events = r.events

namespace Render

theorem Goes.of_eq (progress : r'.progress = r.progress) (events : r'.events = r.events) : r.Goes r' := by
  refine ⟨fun h => ?_, ?_, fun _ => ⟨progress, events⟩⟩
  · rw [progress, events]
    exact h
  · exact events ▸ List.prefix_rfl

theorem Goes.trans (h : r.Goes r') (h' : r'.Goes r'') : r.Goes r'' := by
  refine ⟨fun told => h'.script (h.script told), h.queued.trans h'.queued, fun ended => ?_⟩
  obtain ⟨progress, events⟩ := h.ended ended
  obtain ⟨progress', events'⟩ := h'.ended (progress ▸ ended)
  exact ⟨progress'.trans progress, events'.trans events⟩

/-- One flush tells no empty text. -/
theorem told_eq_map (text : String) :
    ∃ pieces : List String, (∀ piece ∈ pieces, piece ≠ "") ∧ Render.told text = pieces.map .data := by
  unfold Render.told
  split
  · exact ⟨[], by simp, rfl⟩
  · next full => exact ⟨[text], by simpa using full, rfl⟩

theorem goes_flush (pending : r.progress = .pending) : r.Goes r.flush := by
  rw [flush_eq pending]
  refine ⟨fun {before} h => ?_, ⟨_, (List.append_assoc ..).symm⟩, fun no => absurd pending no⟩
  rw [pending] at h
  obtain ⟨texts, full, same⟩ := h.texts
  obtain ⟨pieces, full', same'⟩ := told_eq_map r.chunks.flush.1
  refine ⟨texts ++ pieces, if r.chunks.flush.2.isFlushed then [.finished] else [], ?_, ?_, ?_⟩
  · exact fun text mem => (List.mem_append.mp mem).elim (full text) (full' text)
  · dsimp only
    split <;> rfl
  · dsimp only
    rw [List.map_append, ← same, ← same', List.append_assoc, List.append_assoc, List.append_assoc]

theorem goes_abandon (pending : r.progress = .pending) (error : Error) : r.Goes (r.abandon error) := by
  refine ⟨fun h => ?_, List.prefix_append .., fun no => absurd pending no⟩
  rw [pending] at h
  obtain ⟨texts, full, same⟩ := h.texts
  refine ⟨texts, _, full, ⟨error, rfl⟩, ?_⟩
  rw [← same, List.append_assoc]
  rfl

/-- The outcome of a piece of work queues at most one text and the end, or one error. -/
theorem goes_close (pending : s.render.progress = .pending) (outcome : Except Error Unit) :
    s.render.Goes (s.close outcome).render := by
  cases outcome with
  | ok _ => exact goes_flush pending
  | error error =>
    rw [close_error_eq pending]
    exact goes_abandon pending error

end Render

/-! ### Calls -/

namespace OutputStream

/-- A call does not touch what waits or has been told, it queues more. -/
theorem goes_advance (h : o.Awaits) (ran : o.advance steps w = .ok (w', o')) :
    o.render.Goes o'.render ∧ o' = { o with render := o'.render, job := none } := by
  obtain ⟨⟨outcome, t⟩, run, same⟩ := bind_eq_ok.mp ran
  cases same
  refine ⟨?_, rfl⟩
  have driving {s : Stage} (driven : s.render.Driven) (goes : o.render.Goes s.render) :
      (drive steps).Safe (·.render.Owned) (· = .outOfSteps) s
        fun _ t => t.render.Driven ∧ o.render.Goes t.render := by
    have visited {s t : Stage} {index : Nat} {task : Task} {outcome : Except Error Bool} (driven : s.render.Driven)
        (goes : o.render.Goes s.render) (pending : s.render.progress = .pending)
        (found : s.render.tasks[index]? = some task)
        (ran : (visit (exec steps) index task).run s = .ok (outcome, t)) :
        t.render.progress = .pending ∧ t.render.Resting ∧ o.render.Goes t.render ∧
          (outcome = .ok false → t.render = { s.render with loads := t.render.loads }) := by
      obtain ⟨progress, events, resting, still⟩ :=
        (safe_visit (keeps_exec steps) (driven.resting (by simp [pending])) found).ends ran
      exact ⟨progress.trans pending, resting, goes.trans (.of_eq progress events), still⟩
    refine safe_settle_of (I := fun t => t.render.Driven ∧ o.render.Goes t.render) And.left (keeps_exec steps)
      (fun h pending found ran => ?still) (fun h pending found ran => ?done) (fun h pending found ran => ?failed)
      steps 0 false ⟨driven, goes⟩
    case still =>
      obtain ⟨-, -, goes, still⟩ := visited h.1 h.2 pending found ran
      exact ⟨h.1.of_eq (still rfl), goes⟩
    case done =>
      obtain ⟨pending, resting, goes, -⟩ := visited h.1 h.2 pending found ran
      exact ⟨driven_close pending resting.idle fun _ => resting, goes.trans (goes_close pending _)⟩
    case failed =>
      obtain ⟨pending, resting, goes, -⟩ := visited h.1 h.2 pending found ran
      exact ⟨driven_close pending resting.idle fun _ => resting, goes.trans (goes_close pending _)⟩
  have safe : (o.work steps).Safe (·.render.Owned) (· = .outOfSteps) { w with render := o.render }
      fun _ t => t.render.Driven ∧ o.render.Goes t.render := by
    unfold work
    rcases h with ⟨⟨config, begun⟩, some⟩ | ⟨none, driven⟩
    · obtain ⟨job, isSome⟩ := Option.ne_none_iff_exists'.mp some
      rw [isSome]
      refine Safe.bind ((safe_start_of (I := fun t => t.render.Driven ∧ o.render.Goes t.render) And.left
        (keeps_job steps job) begun fun outcome t _ confined => ?_).mono fun outcome t _ h => ?_)
      · dsimp only at confined
        rw [begun] at confined ⊢
        obtain ⟨progress, events, idle, resting⟩ := pending_of_confined confined
        exact ⟨driven_close progress idle resting, (Goes.of_eq progress events).trans (goes_close progress _)⟩
      · cases outcome with
        | ok _ => exact driving h.1 h.2
        | error e => exact h
    · rw [none]
      exact driving driven (.of_eq rfl rfl)
  exact (safe.ends run).2

/-- The events that a listener has heard, in their order. -/
def heardBy (l : Listener) (o : OutputStream) : List Event :=
  (o.delivered.filter (·.listener = l)).map (·.event)

/-- A listener who listens once hears the events of its kind, each once and in their order. -/
theorem heard_deliveries {listeners : List Listener} (once : listeners.count l = 1) (events : List Event) :
    ((events.flatMap (deliveries listeners)).filter (·.listener = l)).map (·.event) = events.filter (l.kind.hears ·) := by
  let all := listeners.filter (not ∘ (·.kind.isSink)) ++ listeners.filter (·.kind.isSink)
  have perm : all.Perm listeners := List.perm_append_comm.trans (List.filter_append_perm _ listeners)
  have single (event : Event) : ((deliveries listeners event).filter (·.listener = l)).map (·.event) =
      if l.kind.hears event then [event] else [] := by
    have filtered : (deliveries listeners event).filter (·.listener = l) =
        ((all.filter (·.kind.hears event)).filter (· = l)).map (⟨·, event⟩) := by
      unfold deliveries
      rw [List.partition_eq_filter_filter, List.filter_map]
      rfl
    rw [filtered, List.filter_eq, List.map_map]
    split
    · next hears =>
      have count : (all.filter (·.kind.hears event)).count l = 1 :=
        (List.count_filter (p := fun other : Listener => other.kind.hears event) hears).trans
          ((perm.count_eq l).trans once)
      rw [count]
      rfl
    · next silent =>
      have silent : l ∉ all.filter (·.kind.hears event) := fun mem => silent (List.mem_filter.mp mem).2
      rw [List.count_eq_zero.mpr silent]
      rfl
  induction events with
  | nil => rfl
  | cons event rest ih =>
    rw [List.flatMap_cons, List.filter_append, List.map_append, ih, single, List.filter_cons]
    split
    · rfl
    · rfl

/-- From one moment of a stream to a later one, these events are told. -/
structure Tells (o : OutputStream) (more : List Event) (o' : OutputStream) : Prop where
  listeners : o.listeners <+: o'.listeners
  heard : ∀ l ∈ o.listeners, o'.listeners.count l = 1 → o'.heardBy l = o.heardBy l ++ more.filter (l.kind.hears ·)
  silent : more = [] → o'.delivered = o.delivered
  script {told : List Event} : o.progress.Script (told ++ o.render.events) →
    o'.progress.Script (told ++ more ++ o'.render.events)
  queued : o.render.events <+: more ++ o'.render.events
  ended : o.progress ≠ .pending → o'.progress = o.progress ∧ more ++ o'.render.events = o.render.events

theorem Tells.refl (o : OutputStream) : o.Tells [] o where
  listeners := List.prefix_rfl
  heard _ _ _ := (List.append_nil _).symm
  silent _ := rfl
  script h := by
    rw [List.append_nil]
    exact h
  queued := List.prefix_rfl
  ended _ := ⟨rfl, rfl⟩

theorem Tells.trans (h : o.Tells more o') (h' : o'.Tells more' o'') : o.Tells (more ++ more') o'' where
  listeners := h.listeners.trans h'.listeners
  heard l mem once := by
    have mem' : l ∈ o'.listeners := h.listeners.subset mem
    have once' : o'.listeners.count l = 1 :=
      Nat.le_antisymm (once ▸ h'.listeners.sublist.count_le l) (List.count_pos_iff.mpr mem')
    rw [h'.heard l mem' once, h.heard l mem once', List.filter_append, List.append_assoc]
  silent none := by
    obtain ⟨rfl, rfl⟩ := List.append_eq_nil_iff.mp none
    rw [h'.silent rfl, h.silent rfl]
  script {told} before := by
    rw [← List.append_assoc told]
    exact h'.script (h.script before)
  queued := by
    rw [List.append_assoc]
    exact h.queued.trans ((List.prefix_append_right_inj more).mpr h'.queued)
  ended ended := by
    obtain ⟨progress, events⟩ := h.ended ended
    obtain ⟨progress', events'⟩ := h'.ended (progress ▸ ended)
    refine ⟨progress'.trans progress, ?_⟩
    rw [List.append_assoc, events', events]

theorem tells_attach (o : OutputStream) (listener : Listener) : o.Tells [] (o.attach listener) :=
  { Tells.refl o with
    listeners := List.prefix_append ..
    heard := fun _ _ _ => (List.append_nil _).symm }

/-- A call that advances the render and tells what is in front of the events. -/
theorem tells_of_advance (h : o.Awaits) (advanced : o.advance steps w = .ok (w', o')) {rest : List Event}
    (front : o'.render.events = more ++ rest) (exhausted : Bool) :
    o.Tells more { o' with
      render := { o'.render with events := rest }
      delivered := o'.delivered ++ more.flatMap (deliveries o'.listeners)
      exhausted } := by
  obtain ⟨goes, same⟩ := goes_advance h advanced
  have listeners : o'.listeners = o.listeners := by
    rw [same]
  have delivered : o'.delivered = o.delivered := by
    rw [same]
  refine ⟨?_, fun l _ once => ?_, ?_, fun {told} before => ?_, ?_, fun ended => ?_⟩
  · exact listeners ▸ List.prefix_rfl
  · unfold heardBy
    dsimp only at once ⊢
    rw [List.filter_append, List.map_append, heard_deliveries once, delivered]
  · rintro rfl
    dsimp only
    rw [List.flatMap_nil, List.append_nil, delivered]
  · have script := goes.script before
    rw [front, ← List.append_assoc] at script
    exact script
  · have queued := goes.queued
    rw [front] at queued
    exact queued
  · obtain ⟨progress, events⟩ := goes.ended ended
    rw [front] at events
    exact ⟨progress, events⟩

/-- A call that advances the render and tells all events. -/
theorem tells_tellAll (h : o.Awaits) (advanced : o.advance steps w = .ok (w', o')) : o.Tells o'.render.events o'.tellAll := by
  rw [tellAll_eq]
  exact tells_of_advance h advanced (List.append_nil _).symm _

theorem tells_runUntilStalled {progress : Progress} (h : o.Awaits)
    (ran : o.runUntilStalled steps w = .ok (progress, w', o')) : ∃ more, o.Tells more o' := by
  obtain ⟨u, advanced, rfl⟩ := runUntilStalled_ok ran
  exact ⟨_, tells_tellAll h advanced⟩

theorem tells_pollNext {item : Item} (h : o.Awaits) (polled : o.pollNext steps w = .ok (item, w', o')) :
    ∃ more, o.Tells more o' := by
  rcases pollNext_ok polled with ⟨-, rfl⟩ | ⟨u, exhausted, advanced, rfl | ⟨event, rest, events, rfl⟩⟩
  · exact ⟨[], .refl o'⟩
  · have tells := tells_of_advance h advanced (List.nil_append _).symm exhausted
    rw [List.flatMap_nil, List.append_nil] at tells
    exact ⟨[], tells⟩
  · have tells := tells_of_advance h advanced (show _ = [event] ++ rest from events) exhausted
    rw [List.flatMap_singleton] at tells
    exact ⟨[event], tells⟩

/-- All events have been told of a stream that has given its end or its error as an item. -/
structure Spent (o : OutputStream) : Prop where
  events : o.exhausted = true → o.render.events = []
  ended : o.exhausted = true → o.progress ≠ .pending

theorem nextEvent_eq_none : o.nextEvent = none ↔ o.render.events = [] := by
  unfold nextEvent
  split
  · next none => simp [none]
  · next some => simp [some]

theorem spent_pollNext {item : Item} (h : o.Awaits) (spent : o.Spent)
    (script : o.progress.Script (told ++ o.render.events)) (polled : o.pollNext steps w = .ok (item, w', o')) :
    o'.Spent := by
  unfold pollNext at polled
  split at polled
  · cases polled
    exact spent
  · next fresh =>
    obtain ⟨⟨v, u⟩, advanced, polled⟩ := bind_eq_ok.mp polled
    obtain ⟨goes, same⟩ := goes_advance h advanced
    have fresh : u.exhausted ≠ true := by
      rw [same]
      exact fresh
    -- Behind an event that is no text nothing waits, and the render has ended.
    have last {event : Event} {rest : List Event} (events : u.render.events = event :: rest)
        (noText : ∀ text, event ≠ .data text) : rest = [] ∧ u.progress ≠ .pending := by
      have script := goes.script script
      rw [events] at script
      refine ⟨?_, fun pending => ?_⟩
      · rw [List.append_cons] at script
        exact script.nothing_more (List.mem_append_right _ (List.mem_singleton_self event)) noText
      · have pending : u.render.progress = .pending := pending
        rw [pending] at script
        obtain ⟨texts, -, same⟩ := script.texts
        have mem : event ∈ texts.map Event.data := same ▸ List.mem_append_right _ List.mem_cons_self
        obtain ⟨text, -, rfl⟩ := List.mem_map.mp mem
        exact noText text rfl
    dsimp only at polled
    split at polled
    · next next =>
      cases polled
      obtain ⟨rest, events, rfl⟩ := nextEvent_eq_some next
      exact ⟨fun no => absurd no fresh, fun no => absurd no fresh⟩
    · next next =>
      cases polled
      obtain ⟨rest, events, rfl⟩ := nextEvent_eq_some next
      obtain ⟨none, ended⟩ := last events fun _ no => by cases no
      exact ⟨fun _ => none, fun _ => ended⟩
    · next next =>
      cases polled
      obtain ⟨rest, events, rfl⟩ := nextEvent_eq_some next
      obtain ⟨none, ended⟩ := last events fun _ no => by cases no
      exact ⟨fun _ => none, fun _ => ended⟩
    · next next =>
      split at polled
      · cases polled
        exact ⟨fun no => absurd no fresh, fun no => absurd no fresh⟩
      · next ended =>
        have none := nextEvent_eq_none.mp next
        cases polled
        exact ⟨fun _ => none, fun _ => ended⟩

end OutputStream

/-- The calls of a driver and the coming of listeners, from one moment of a stream to a later one. The world may change
    between two calls in any way. A collector polls a stream for one item after the other. -/
inductive Calls : OutputStream → OutputStream → Prop
  | refl (o : OutputStream) : Calls o o
  | attach {o o' : OutputStream} (listener : Listener) : Calls o o' → Calls o (o'.attach listener)
  | runUntilStalled {o o' o'' : OutputStream} {steps : Nat} {w w' : World} {progress : Progress} : Calls o o' →
    o'.runUntilStalled steps w = .ok (progress, w', o'') → Calls o o''
  | pollNext {o o' o'' : OutputStream} {steps : Nat} {w w' : World} {item : Item} : Calls o o' →
    o'.pollNext steps w = .ok (item, w', o'') → Calls o o''
  | collect {o : OutputStream} {c c' : Collector} {steps : Nat} {w w' : World} {result : Option (Except Error String)} :
    Calls o c.stream → c.poll steps w = .ok (result, w', c') → Calls o c'.stream

/-- What each poll keeps, a collector keeps that takes items. -/
theorem Collector.keeps_takeItems {P : OutputStream → Prop} {count : Nat} {c c' : Collector}
    {result : Option (Except Error String)} (taken : c.takeItems steps count w = .ok (result, w', c'))
    (polls : ∀ {o o' : OutputStream} {w w' item}, P o → o.pollNext steps w = .ok (item, w', o') → P o')
    (h : P c.stream) : P c'.stream := by
  induction count generalizing w c with
  | zero => cases taken
  | succ count ih =>
    obtain ⟨⟨item, v, o⟩, polled, taken⟩ := bind_eq_ok.mp taken
    have next := polls h polled
    cases item with
    | text piece => exact ih taken next
    | failed error =>
      cases taken
      exact next
    | finished =>
      cases taken
      exact next
    | pending =>
      cases taken
      exact next

namespace OutputStream

/-- Where a stream may be after calls that told these events. -/
structure Along (o : OutputStream) (more : List Event) (o' : OutputStream) : Prop where
  awaits : o'.Awaits
  spent : o'.Spent
  tells : o.Tells more o'

/-- All is told after a call that runs until nothing is left to do. -/
theorem events_runUntilStalled {progress : Progress} (ran : o.runUntilStalled steps w = .ok (progress, w', o')) :
    o'.render.events = [] := by
  obtain ⟨u, -, rfl⟩ := runUntilStalled_ok ran
  rw [tellAll_eq]

/-- Calls lead on along the script of a stream. -/
theorem exists_along (awaits : o.Awaits) (spent : o.Spent) (script : o.progress.Script (told ++ o.render.events))
    (calls : Calls o o') : ∃ more, o.Along more o' := by
  have polls {u u' : OutputStream} {w w' : World} {steps : Nat} {item : Item} (h : ∃ more, o.Along more u)
      (polled : u.pollNext steps w = .ok (item, w', u')) : ∃ more, o.Along more u' := by
    obtain ⟨more, along⟩ := h
    obtain ⟨more', tells⟩ := tells_pollNext along.awaits polled
    exact ⟨_, awaits_pollNext along.awaits polled,
      spent_pollNext along.awaits along.spent (along.tells.script script) polled, along.tells.trans tells⟩
  have origin : o.Along [] o := ⟨awaits, spent, .refl o⟩
  clear awaits spent script
  induction calls with
  | refl => exact ⟨[], origin⟩
  | attach listener _ ih =>
    obtain ⟨more, along⟩ := ih
    exact ⟨_, along.awaits, ⟨along.spent.events, along.spent.ended⟩, along.tells.trans (tells_attach _ listener)⟩
  | runUntilStalled _ ran ih =>
    obtain ⟨more, along⟩ := ih
    obtain ⟨more', tells⟩ := tells_runUntilStalled along.awaits ran
    obtain ⟨u, advanced, same⟩ := runUntilStalled_ok ran
    refine ⟨_, awaits_runUntilStalled along.awaits ran, ⟨fun _ => events_runUntilStalled ran, fun exhausted => ?_⟩,
      along.tells.trans tells⟩
    have before : _ ≠ Progress.pending := along.spent.ended (by
      rw [same, tellAll_eq, (goes_advance along.awaits advanced).2] at exhausted
      exact exhausted)
    rw [(tells.ended before).1]
    exact before
  | pollNext _ polled ih => exact polls (ih) polled
  | collect _ taken ih =>
    exact Collector.keeps_takeItems (P := fun u => ∃ more, _) taken polls (ih)

end OutputStream

open OutputStream

/-- However a stream is driven, and whatever becomes of the world between the calls: what has been told and what waits to
    be told are texts that are not empty, then the end exactly of a render that is complete and an error exactly of one that
    failed. More is queued only behind what was queued before, and nothing once the render has ended, which it does once.
    Whoever listened from the start, under a label of their own, heard of what has been told each event of their kind,
    once and in that order. After the end or the error nothing is told to anyone; and both have been told when the stream
    gives them as an item or has run until nothing is left to do. -/
theorem listeners_hear_one_script {e : Engine} {job : Job} {listeners : List Listener}
    (before : Calls { OutputStream.new e job with listeners } o) (after : Calls o o') : ∃ told more : List Event,
    o.progress.Script (told ++ o.render.events) ∧ o'.progress.Script (told ++ more ++ o'.render.events) ∧
    told ++ o.render.events <+: told ++ more ++ o'.render.events ∧
    (o.progress ≠ .pending → o'.progress = o.progress ∧
      told ++ more ++ o'.render.events = told ++ o.render.events) ∧
    (∀ l ∈ listeners, o'.listeners.count l = 1 →
      o.heardBy l = told.filter (l.kind.hears ·) ∧ o'.heardBy l = (told ++ more).filter (l.kind.hears ·)) ∧
    (∀ event ∈ told, (∀ text, event ≠ .data text) → more = [] ∧ o'.delivered = o.delivered) ∧
    (o'.exhausted = true → o'.render.events = []) ∧
    (∀ {steps w w' progress o''}, o'.runUntilStalled steps w = .ok (progress, w', o'') → o''.render.events = []) := by
  let fresh : OutputStream := { OutputStream.new e job with listeners }
  have awaits : fresh.Awaits := awaits_new e job
  have start : fresh.progress.Script ([] ++ fresh.render.events) := ⟨[], [], by simp, rfl, rfl⟩
  obtain ⟨told, first⟩ := exists_along awaits ⟨fun _ => rfl, fun no => by cases no⟩ start before
  have script : o.progress.Script (told ++ o.render.events) := first.tells.script start
  obtain ⟨more, second⟩ := exists_along first.awaits first.spent script after
  have script' := second.tells.script script
  refine ⟨told, more, script, script', ?_, fun ended => ?_, fun l mem once => ?_, fun event mem noText => ?_,
    second.spent.events, events_runUntilStalled⟩
  · rw [List.append_assoc]
    exact (List.prefix_append_right_inj told).mpr second.tells.queued
  · obtain ⟨progress, events⟩ := second.tells.ended ended
    exact ⟨progress, by rw [List.append_assoc, events]⟩
  · have heard := (first.tells.trans second.tells).heard l mem once
    refine ⟨?_, heard⟩
    have mem' : l ∈ o.listeners := first.tells.listeners.subset mem
    have once' : o.listeners.count l = 1 :=
      Nat.le_antisymm (once ▸ second.tells.listeners.sublist.count_le l) (List.count_pos_iff.mpr mem')
    exact first.tells.heard l mem once'
  · rw [List.append_assoc] at script'
    obtain ⟨rfl, -⟩ := List.append_eq_nil_iff.mp (script'.nothing_more mem noText)
    exact ⟨rfl, second.tells.silent rfl⟩

/-- The stream of a text, a helper that waits, and a text, heard by one listener for texts and one for all: after a call with
    the gate closed, and after a call and a poll with the gate open. -/
def heardRun : Except Halt (OutputStream × OutputStream) := do
  let stream : OutputStream :=
    { OutputStream.new lateEngine (.template lateTemplate {}) with listeners := [⟨0, .data⟩, ⟨1, .sink⟩] }
  let (_, w, o) ← stream.runUntilStalled 9 { engine := lateEngine }
  let w := { w with host := w.host.openGate "g" (.ok "x") }
  let (_, w, o') ← o.pollNext 9 w
  let (_, _, o'') ← o'.runUntilStalled 9 w
  pure (o, o'')

theorem listeners_hear_one_script_heardRun : ∃ o o', heardRun = .ok (o, o') ∧ o.progress = .pending ∧
    o'.progress = .complete ∧ o'.heardBy ⟨1, .sink⟩ = [.data "axb", .finished] ∧
    ∃ told more : List Event, o'.progress.Script (told ++ more ++ o'.render.events) ∧
      o.heardBy ⟨0, .data⟩ = told.filter (ListenerKind.data.hears ·) ∧
      o'.heardBy ⟨0, .data⟩ = (told ++ more).filter (ListenerKind.data.hears ·) := by
  have seen : heardRun.toOption.any (fun r => decide (r.1.progress = .pending) && decide (r.2.progress = .complete) &&
      decide (r.2.heardBy ⟨1, .sink⟩ = [.data "axb", .finished]) &&
      decide (r.2.listeners = [⟨0, .data⟩, ⟨1, .sink⟩])) = true := by decide +kernel
  obtain ⟨⟨o, o'⟩, done, seen⟩ := exists_eq_ok seen
  simp only [Bool.and_eq_true, decide_eq_true_eq] at seen
  obtain ⟨⟨⟨pending, complete⟩, heard⟩, listeners⟩ := seen
  have run := done
  unfold heardRun at run
  obtain ⟨⟨_, w, u⟩, first, run⟩ := bind_eq_ok.mp run
  obtain ⟨⟨_, w', u'⟩, second, run⟩ := bind_eq_ok.mp run
  obtain ⟨⟨_, _, u''⟩, third, run⟩ := bind_eq_ok.mp run
  cases run
  obtain ⟨told, more, -, script, -, -, hears, -⟩ :=
    listeners_hear_one_script (.runUntilStalled (.refl _) first) (.runUntilStalled (.pollNext (.refl _) second) third)
  have mine := hears ⟨0, .data⟩ (by simp) (by rw [listeners]; rfl)
  exact ⟨_, _, done, pending, complete, heard, told, more, script, mine.1, mine.2⟩

end Stencil
