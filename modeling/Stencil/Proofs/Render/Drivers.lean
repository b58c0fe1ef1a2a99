import Stencil.Proofs.Render.Items

/-! The drivers of a stream agree. Let three streams of one job be driven after each of some changes of the world: one runs
    until nothing is left to be done, of one all items are taken that are ready, and one is collected. Then all three come as
    far as each other, with the same texts, and with the same result. -/

namespace Stencil

open RenderM Render

variable {σ ρ : Type} {w w' v : World} {origin o o' u : OutputStream} {steps n : Nat} {told : List Event} {p p' : Progress}
  {given : List Item}

/-- Drives once after each change of the world. -/
def drives (drive : World → σ → Except Halt (ρ × World × σ)) :
    List (World → World) → World → σ → Except Halt (List ρ × World × σ)
  | [], w, s => pure ([], w, s)
  | change :: changes, w, s => do
    let (first, w, s) ← drive (change w) s
    let (rest, w, s) ← drives drive changes w s
    pure (first :: rest, w, s)

/-- A collector under polling, until it gives its result. -/
structure Awaited where
  collector : Collector
  result : Option (Except Error String) := none

namespace Awaited

/-- Polls the collector, unless it has given its result. -/
def poll (steps : Nat) (w : World) (a : Awaited) : Except Halt (Option (Except Error String) × World × Awaited) :=
  match a.result with
  | some _ => pure (a.result, w, a)
  | none => do
    let (result, w, collector) ← a.collector.poll steps w
    pure (result, w, { collector, result })

end Awaited

/-- Runs a stream after each change until nothing is left to be done. -/
def OutputStream.runs (steps : Nat) : List (World → World) → World → OutputStream →
    Except Halt (List Progress × World × OutputStream) :=
  drives fun w o => o.runUntilStalled steps w

/-- Takes all items of a stream that are ready after each change. -/
def OutputStream.takes (steps : Nat) : List (World → World) → World → OutputStream →
    Except Halt (List (List Item) × World × OutputStream) :=
  drives fun w o => o.takeAll steps steps w

/-- Polls a collector after each change. -/
def Awaited.polls (steps : Nat) : List (World → World) → World → Awaited →
    Except Halt (List (Option (Except Error String)) × World × Awaited) :=
  drives fun w a => a.poll steps w

namespace Progress

/-- How far a render has come with this result. -/
def ofResult : Option (Except Error String) → Progress
  | none => .pending
  | some (.ok _) => .complete
  | some (.error _) => .failed

theorem ofResult_eq_pending {r : Option (Except Error String)} : ofResult r = .pending ↔ r = none := by
  obtain _ | _ | _ := r <;> simp [ofResult]

end Progress

namespace Event

/-- What the events of a render make of its result. -/
theorem result_of_script {events : List Event} (script : p.Script events) :
    Progress.ofResult (result events) = p ∧
    (∀ text, result events = some (.ok text) ↔ p = .complete ∧ text = String.join (events.filterMap text?)) ∧
    ∀ error, result events = some (.error error) ↔ .failed error ∈ events := by
  obtain ⟨texts, last, -, closes, rfl⟩ := script
  have all : (texts.map Event.data).filterMap text? = texts := by
    rw [List.filterMap_map]
    exact List.filterMap_some
  have joined : join (texts.map .data) = String.join texts := by
    unfold join
    rw [List.map_map]
    exact congrArg String.join (List.map_id _)
  rw [result_append, List.filterMap_append, all, joined]
  cases p with
  | pending =>
    cases closes
    exact ⟨rfl, by simp [result], by simp [result]⟩
  | complete =>
    cases closes
    rw [show [finished].filterMap text? = [] from rfl, List.append_nil]
    exact ⟨rfl, fun text => by simp [result, Except.map, eq_comm], by simp [result, Except.map]⟩
  | failed =>
    obtain ⟨error, rfl⟩ := closes
    refine ⟨rfl, by simp [result, Except.map], fun other => ?_⟩
    simp [result, Except.map, eq_comm]

/-- A listener who hears all texts hears them all. -/
theorem filterMap_text?_filter {kind : ListenerKind} (hears : ∀ text, kind.hears (.data text) = true)
    (events : List Event) : (events.filter (kind.hears ·)).filterMap text? = events.filterMap text? := by
  rw [List.filterMap_filter]
  refine List.filterMap_congr fun event _ => ?_
  cases event with
  | data text => rw [if_pos (hears text)]
  | finished => split <;> rfl
  | failed error => split <;> rfl

end Event

/-! ### What has been given -/

namespace Item

theorem progress_append (items more : List Item) : progress (items ++ more) =
    if progress items = .pending then progress more else progress items := by
  induction items with
  | nil => rfl
  | cons item items ih =>
    cases item with
    | text s => exact ih
    | pending => exact ih
    | failed error => rfl
    | finished => rfl

/-- These items have been given of a render that has come so far and told these events. -/
structure Given (p : Progress) (told : List Event) (given : List Item) : Prop where
  progress : Item.progress given = p
  texts : given.filterMap text? = told.filterMap Event.text?
  failed : ∀ error, .failed error ∈ given ↔ .failed error ∈ told

theorem Given.append {more : List Event} {items : List Item} (h : Given .pending told given) (h' : Given p more items) :
    Given p (told ++ more) (given ++ items) where
  progress := by rw [progress_append, h.progress, if_pos rfl, h'.progress]
  texts := by rw [List.filterMap_append, List.filterMap_append, h.texts, h'.texts]
  failed error := by rw [List.mem_append, List.mem_append, h.failed, h'.failed]

/-- What is taken of the events that wait. -/
theorem given_items {events : List Event} (script : p.Script events) : Given p events (Event.items p events) := by
  obtain ⟨texts, last, -, closes, rfl⟩ := script
  rw [Event.items_append]
  have front : Given .pending (texts.map .data) (texts.map .text) := by
    refine ⟨?_, ?_, fun error => by simp⟩
    · induction texts with
      | nil => rfl
      | cons text texts ih => exact ih
    · rw [List.filterMap_map, List.filterMap_map]
      rfl
  refine front.append ?_
  cases p with
  | pending =>
    cases closes
    exact ⟨rfl, rfl, by simp [Event.items]⟩
  | complete =>
    cases closes
    exact ⟨rfl, rfl, by simp [Event.items]⟩
  | failed =>
    obtain ⟨error, rfl⟩ := closes
    exact ⟨rfl, rfl, by simp [Event.items]⟩

/-- Nothing new is given of a render that has ended. -/
theorem Given.finished (h : Given p told given) (ended : p ≠ .pending) : Given p told (given ++ [.finished]) where
  progress := by rw [progress_append, h.progress, if_neg ended]
  texts := by
    rw [List.filterMap_append, h.texts]
    exact List.append_nil _
  failed error := by simp [h.failed]

end Item

/-! ### Three streams of one job -/

namespace OutputStream

/-- The first stream is run until nothing is left to be done, the items of the second are taken, and the third is
    collected: they have come as far as each other, when so many events have been told and so many items been given. -/
structure InStep (origin : OutputStream) (told : List Event) (given : List Item) (o o' : OutputStream) (a : Awaited) :
    Prop where
  awaits : o.Awaits
  tells : origin.Tells told o
  script : o.progress.Script told
  quiet : o.render.events = []
  fresh : o.exhausted = false
  listeners : o.listeners = origin.listeners
  second : o' = { o with exhausted := o.progress ≠ .pending }
  given : Item.Given o.progress told given
  result : a.result = Event.result told
  third : o.progress = .pending → a.collector = ⟨o', Event.join told⟩

variable {a a' : Awaited}

theorem inStep_begin (e : Engine) (job : Job) (listeners : List Listener) :
    let origin : OutputStream := { OutputStream.new e job with listeners }
    InStep origin [] [] origin origin { collector := { stream := origin } } where
  awaits := awaits_new e job
  tells := .refl _
  script := ⟨[], [], by simp, rfl, rfl⟩
  quiet := rfl
  fresh := rfl
  listeners := rfl
  second := rfl
  given := ⟨rfl, rfl, by simp⟩
  result := rfl
  third _ := rfl

theorem InStep.ofResult_eq (h : InStep origin told given o o' a) : Progress.ofResult a.result = o.progress := by
  rw [h.result, (Event.result_of_script h.script).1]

theorem InStep.eq_of_pending (h : InStep origin told given o o' a) (pending : o.progress = .pending) : o' = o := by
  rw [h.second, decide_eq_false (not_not_intro pending), ← h.fresh]

/-- A drive of a render that goes on. -/
theorem InStep.drive_pending (h : InStep origin told given o o' a) (pending : o.progress = .pending)
    (advanced : o.advance n w = .ok (w', u)) : ∃ items a' enough,
      (∀ steps, enough ≤ steps → o'.takeAll steps steps w = .ok (items, w', u.drained) ∧
        a.poll steps w = .ok (a'.result, w', a')) ∧
      InStep origin (told ++ u.render.events) (given ++ items) u.tellAll u.drained a' := by
  obtain rfl := h.eq_of_pending pending
  obtain ⟨goes, same⟩ := goes_advance h.awaits advanced
  have before : o'.progress.Script (told ++ o'.render.events) := by
    rw [h.quiet, List.append_nil]
    exact h.script
  have script : u.progress.Script (told ++ u.render.events) := goes.script before
  have script' : u.progress.Script u.render.events := by
    have nothing : o'.progress.Script ([] ++ o'.render.events) := by
      rw [pending, h.quiet]
      exact ⟨[], [], by simp, rfl, rfl⟩
    exact goes.script nothing
  have nothing : a.result = none := Progress.ofResult_eq_pending.mp (h.ofResult_eq.trans pending)
  obtain ⟨gives, keeps⟩ := Item.gather_items (Event.join told) script'
  let items := Event.items u.progress u.render.events
  let a' : Awaited := ⟨⟨u.drained, (Item.gather (Event.join told) items).2⟩, (Item.gather (Event.join told) items).1⟩
  refine ⟨items, a', max n (u.render.events.length + 1), fun steps le => ?_, ?_⟩
  · have taken := takeAll_of_call h.awaits h.fresh before advanced (Nat.le_trans (Nat.le_max_left ..) le)
      (Nat.le_trans (Nat.le_max_right ..) le)
    refine ⟨taken, ?_⟩
    unfold Awaited.poll
    rw [nothing, h.third pending]
    unfold Collector.poll
    rw [Collector.takeItems_eq, taken]
    rfl
  · have progress := progress_tellAll u
    exact {
      awaits := awaits_runUntilStalled h.awaits (bind_eq_ok.mpr ⟨_, advanced, rfl⟩)
      tells := h.tells.trans (tells_tellAll h.awaits advanced)
      script := by
        rw [progress]
        exact script
      quiet := by rw [tellAll_eq]
      fresh := by
        rw [tellAll_eq, same]
        exact h.fresh
      listeners := by
        rw [tellAll_eq, same]
        exact h.listeners
      second := by
        rw [progress]
        rfl
      given := by
        rw [progress]
        exact (pending ▸ h.given).append (Item.given_items script')
      result := by
        obtain ⟨texts, -, rfl⟩ := (pending ▸ h.script).texts
        rw [Event.result_append]
        exact gives
      third := fun pending' => by
        rw [progress] at pending'
        rw [Event.join_append, ← keeps pending'] }

/-- A drive of all three. -/
theorem InStep.drive (h : InStep origin told given o o' a) (ran : o.runUntilStalled n w = .ok (p, w', u)) :
    p = u.progress ∧ ∃ more items u' a' enough,
      (∀ steps, enough ≤ steps → o'.takeAll steps steps w = .ok (items, w', u') ∧
        a.poll steps w = .ok (a'.result, w', a')) ∧ InStep origin (told ++ more) (given ++ items) u u' a' := by
  obtain ⟨⟨v, t⟩, advanced, rest⟩ := bind_eq_ok.mp ran
  cases rest
  refine ⟨(progress_tellAll t).symm, ?_⟩
  by_cases pending : o.progress = .pending
  · obtain ⟨items, a', enough, drives, inStep⟩ := h.drive_pending pending advanced
    exact ⟨_, items, _, a', enough, drives, inStep⟩
  · obtain ⟨rfl, rfl⟩ := eq_of_advance_ended h.awaits pending advanced
    have exhausted : o'.exhausted = true := by
      rw [h.second]
      exact decide_eq_true pending
    obtain ⟨result, given'⟩ := Option.ne_none_iff_exists'.mp fun none =>
      pending (h.ofResult_eq.symm.trans (Progress.ofResult_eq_pending.mpr none))
    rw [tellAll_of_nil h.quiet]
    refine ⟨[], [.finished], o', a, 1, fun steps le => ?_, ?_⟩
    · obtain ⟨steps, rfl⟩ := Nat.exists_eq_succ_of_ne_zero (Nat.ne_of_gt le)
      refine ⟨takeAll_of_exhausted exhausted, ?_⟩
      unfold Awaited.poll
      rw [given']
      rfl
    · rw [List.append_nil]
      exact { h with given := h.given.finished pending }

/-- All three through a whole schedule. -/
theorem InStep.drives {changes : List (World → World)} {ps : List Progress} (h : InStep origin told given o o' a)
    (ran : o.runs n changes w = .ok (ps, w', u)) :
    ∃ more items results u' a' enough, (∀ steps, enough ≤ steps →
        o'.takes steps changes w = .ok (items, w', u') ∧ a.polls steps changes w = .ok (results, w', a')) ∧
      InStep origin (told ++ more) (given ++ items.flatten) u u' a' ∧ results.map Progress.ofResult = ps := by
  induction changes generalizing w told given o o' a ps with
  | nil =>
    cases ran
    refine ⟨[], [], [], o', a, 0, fun _ _ => ⟨rfl, rfl⟩, ?_, rfl⟩
    rw [List.flatten_nil, List.append_nil, List.append_nil]
    exact h
  | cons change changes ih =>
    obtain ⟨⟨p, v, o₁⟩, first, ran⟩ := bind_eq_ok.mp ran
    obtain ⟨⟨ps, _, _⟩, rest, same⟩ := bind_eq_ok.mp ran
    cases same
    obtain ⟨rfl, more, items, o₂, a₂, enough, calls, between⟩ := h.drive first
    obtain ⟨more', items', results, u', a', enough', calls', after, come⟩ := ih between rest
    refine ⟨more ++ more', items :: items', a₂.result :: results, u', a', max enough enough', fun steps le => ?_, ?_, ?_⟩
    · obtain ⟨taken, polled⟩ := calls steps (Nat.le_trans (Nat.le_max_left ..) le)
      obtain ⟨taken', polled'⟩ := calls' steps (Nat.le_trans (Nat.le_max_right ..) le)
      exact ⟨bind_eq_ok.mpr ⟨_, taken, bind_eq_ok.mpr ⟨_, taken', rfl⟩⟩,
        bind_eq_ok.mpr ⟨_, polled, bind_eq_ok.mpr ⟨_, polled', rfl⟩⟩⟩
    · rw [List.flatten_cons, ← List.append_assoc, ← List.append_assoc]
      exact after
    · rw [List.map_cons, come, between.result, (Event.result_of_script between.script).1]

/-- A call comes to an end if the render has ended, or if it advances. -/
theorem InStep.exists_run (h : InStep origin told given o o' a)
    (comes : o.progress = .pending → ∃ r, o.advance n w = .ok r) : ∃ r, o.runUntilStalled (n + 1) w = .ok r := by
  by_cases pending : o.progress = .pending
  · obtain ⟨⟨w', u⟩, advanced⟩ := comes pending
    exact ⟨_, bind_eq_ok.mpr ⟨_, advance_of_le (Nat.le_succ n) advanced, rfl⟩⟩
  · have advanced := OutputStream.advance_of_ended (w := w) (h.awaits.called pending) pending (Nat.succ_pos n)
    exact ⟨_, bind_eq_ok.mpr ⟨_, advanced, rfl⟩⟩

theorem InStep.run_of_taken {r : List Item × World × OutputStream} (h : InStep origin told given o o' a)
    (taken : o'.takeAll n n w = .ok r) :
    ∃ p u told given a', o.runUntilStalled (n + 1) w = .ok (p, r.2.1, u) ∧ InStep origin told given u r.2.2 a' := by
  obtain ⟨⟨p, v, u⟩, ran⟩ := h.exists_run (n := n) (w := w) fun pending => by
    rw [h.eq_of_pending pending] at taken
    exact exists_advance_of_takeAll h.fresh taken
  obtain ⟨-, more, _, _, a', enough, calls, after⟩ := h.drive ran
  have taken' := (calls (max n enough) (Nat.le_max_right ..)).1
  rw [takeAll_of_le (Nat.le_max_left ..) (Nat.le_max_left ..) taken] at taken'
  cases taken'
  exact ⟨_, _, _, _, a', ran, after⟩

end OutputStream

theorem Awaited.poll_of_le {a : Awaited} {m : Nat} (le : n ≤ m) {r : Option (Except Error String) × World × Awaited}
    (polled : a.poll n w = .ok r) : a.poll m w = .ok r := by
  unfold poll at polled ⊢
  cases result : a.result with
  | some _ =>
    rw [result] at polled
    exact polled
  | none =>
    rw [result] at polled
    obtain ⟨r, polled, same⟩ := bind_eq_ok.mp polled
    exact bind_eq_ok.mpr ⟨r, Collector.poll_of_le le polled, same⟩

namespace OutputStream

theorem InStep.run_of_polled {r : Option (Except Error String) × World × Awaited} (h : InStep origin told given o o' a)
    (polled : a.poll n w = .ok r) :
    ∃ p u told given o', o.runUntilStalled (n + 1) w = .ok (p, r.2.1, u) ∧ InStep origin told given u o' r.2.2 := by
  obtain ⟨⟨p, v, u⟩, ran⟩ := h.exists_run (n := n) (w := w) fun pending => by
    have nothing : a.result = none := Progress.ofResult_eq_pending.mp (h.ofResult_eq.trans pending)
    unfold Awaited.poll at polled
    rw [nothing, h.third pending] at polled
    obtain ⟨_, polled, -⟩ := bind_eq_ok.mp polled
    unfold Collector.poll at polled
    rw [Collector.takeItems_eq] at polled
    obtain ⟨_, taken, -⟩ := map_eq_ok.mp polled
    rw [h.eq_of_pending pending] at taken
    exact exists_advance_of_takeAll h.fresh taken
  obtain ⟨-, more, _, o₂, a', enough, calls, after⟩ := h.drive ran
  have polled' := (calls (max n enough) (Nat.le_max_right ..)).2
  rw [Awaited.poll_of_le (Nat.le_max_left ..) polled] at polled'
  cases polled'
  exact ⟨_, _, _, _, o₂, ran, after⟩

end OutputStream

/-- A schedule that one driver comes through, another comes through. -/
theorem exists_drives {τ π : Type} {R : σ → τ → Prop} {drive : World → σ → Except Halt (ρ × World × σ)}
    {drive' : World → τ → Except Halt (π × World × τ)}
    (step : ∀ {w s t r}, R s t → drive' w t = .ok r → ∃ q s', drive w s = .ok (q, r.2.1, s') ∧ R s' r.2.2)
    {changes : List (World → World)} {s : σ} {t : τ} (h : R s t) {r : List π × World × τ}
    (ran : drives drive' changes w t = .ok r) : ∃ q, drives drive changes w s = .ok q := by
  induction changes generalizing w s t r with
  | nil => exact ⟨_, rfl⟩
  | cons change changes ih =>
    obtain ⟨⟨_, v, t'⟩, first, ran⟩ := bind_eq_ok.mp ran
    obtain ⟨⟨_, _, _⟩, rest, -⟩ := bind_eq_ok.mp ran
    obtain ⟨q, s', first', between⟩ := step h first
    obtain ⟨⟨qs, w', s''⟩, rest'⟩ := ih between rest
    exact ⟨_, bind_eq_ok.mpr ⟨_, first', bind_eq_ok.mpr ⟨_, rest', rfl⟩⟩⟩

open OutputStream

/-- Let the world change in any way and the driver be called after each change, again and again. Then a stream that is run
    until nothing is left to be done, one of which all items are taken that are ready, and one that is collected either all
    come through the whole schedule, given steps enough, or none does; and since a schedule may break off after any call,
    this holds at every call: all have come as far as each other and leave the world alike; a listener to texts has heard
    of the first the texts that the second has given; the third has given these texts joined exactly if the first is
    complete, and an error exactly if the first has failed, which is the error that a listener to errors has heard and that
    the second has given. -/
theorem drivers_agree (e : Engine) (job : Job) (listeners : List Listener) (changes : List (World → World)) (w : World) :
    let origin : OutputStream := { OutputStream.new e job with listeners }
    let collected : Awaited := { collector := { stream := origin } }
    ((∃ n r, origin.runs n changes w = .ok r) ↔ ∃ n r, origin.takes n changes w = .ok r) ∧
    ((∃ n r, origin.runs n changes w = .ok r) ↔ ∃ n r, collected.polls n changes w = .ok r) ∧
    ∀ {n ps w' o}, origin.runs n changes w = .ok (ps, w', o) → ∃ items o' results a enough,
      (∀ steps, enough ≤ steps →
        origin.takes steps changes w = .ok (items, w', o') ∧ collected.polls steps changes w = .ok (results, w', a)) ∧
      o'.progress = o.progress ∧ Item.progress items.flatten = o.progress ∧
      results.map Progress.ofResult = ps ∧ Progress.ofResult a.result = o.progress ∧
      (∀ l ∈ listeners, listeners.count l = 1 → (∀ text, l.kind.hears (.data text) = true) →
        (o.heardBy l).filterMap Event.text? = items.flatten.filterMap Item.text?) ∧
      (∀ text, a.result = some (.ok text) ↔
        o.progress = .complete ∧ text = String.join (items.flatten.filterMap Item.text?)) ∧
      ∀ error, (a.result = some (.error error) ↔ .failed error ∈ items.flatten) ∧
        ∀ l ∈ listeners, listeners.count l = 1 → l.kind.hears (.failed error) = true →
          (a.result = some (.error error) ↔ .failed error ∈ o.heardBy l) := by
  intro origin collected
  have begins := inStep_begin e job listeners
  refine ⟨⟨?_, ?_⟩, ⟨?_, ?_⟩, fun ran => ?_⟩
  · rintro ⟨n, ⟨ps, w', o⟩, ran⟩
    obtain ⟨_, _, _, _, _, enough, calls, -⟩ := begins.drives ran
    exact ⟨enough, _, (calls enough (Nat.le_refl _)).1⟩
  · rintro ⟨n, r, ran⟩
    let R (o o' : OutputStream) := ∃ told given a, InStep origin told given o o' a
    refine ⟨n + 1, exists_drives (R := R) (fun between taken => ?_) ⟨_, _, _, begins⟩ ran⟩
    obtain ⟨_, _, _, between⟩ := between
    obtain ⟨p, u, told, given, a', ran, after⟩ := between.run_of_taken taken
    exact ⟨p, u, ran, told, given, a', after⟩
  · rintro ⟨n, ⟨ps, w', o⟩, ran⟩
    obtain ⟨_, _, _, _, _, enough, calls, -⟩ := begins.drives ran
    exact ⟨enough, _, (calls enough (Nat.le_refl _)).2⟩
  · rintro ⟨n, r, ran⟩
    let R (o : OutputStream) (a : Awaited) := ∃ told given o', InStep origin told given o o' a
    refine ⟨n + 1, exists_drives (R := R) (fun between polled => ?_) ⟨_, _, _, begins⟩ ran⟩
    obtain ⟨_, _, _, between⟩ := between
    obtain ⟨p, u, told, given, o', ran, after⟩ := between.run_of_polled polled
    exact ⟨p, u, ran, told, given, o', after⟩
  · obtain ⟨told, items, results, o', a, enough, calls, after, come⟩ := begins.drives ran
    rw [List.nil_append, List.nil_append] at after
    obtain ⟨-, complete, failed⟩ := Event.result_of_script after.script
    have heard {l : Listener} (mem : l ∈ listeners) (once : listeners.count l = 1) :
        _ = told.filter (l.kind.hears ·) := after.tells.heard l mem (after.listeners ▸ once)
    refine ⟨items, o', results, a, enough, calls, ?_, after.given.progress, come, after.ofResult_eq, ?_, ?_, ?_⟩
    · rw [after.second]
      rfl
    · intro l mem once hears
      rw [after.given.texts, heard mem once, Event.filterMap_text?_filter hears]
    · rw [after.result, after.given.texts]
      exact complete
    · intro error
      rw [after.result]
      refine ⟨(failed error).trans (after.given.failed error).symm, fun l mem once hears => ?_⟩
      rw [failed, heard mem once, List.mem_filter]
      exact ⟨fun told => ⟨told, hears⟩, And.left⟩

/-- Three calls: the gate is closed at the first and open at the others. -/
def lateSchedule : List (World → World) := [id, fun w => { w with host := w.host.openGate "g" (.ok "x") }, id]

/-- A text that waits for a gate: nothing comes at the first call, all of it at the second, and nothing after it. -/
theorem drivers_agree_lateSchedule : ∃ w o items o' results a enough,
    OutputStream.runs 9 lateSchedule { engine := lateEngine }
      { OutputStream.new lateEngine (.template lateTemplate {}) with listeners := [⟨0, .data⟩] } =
        .ok ([.pending, .complete, .complete], w, o) ∧
    (∀ steps, enough ≤ steps →
      OutputStream.takes steps lateSchedule { engine := lateEngine }
        { OutputStream.new lateEngine (.template lateTemplate {}) with listeners := [⟨0, .data⟩] } = .ok (items, w, o') ∧
      Awaited.polls steps lateSchedule { engine := lateEngine } { collector := { stream :=
        { OutputStream.new lateEngine (.template lateTemplate {}) with listeners := [⟨0, .data⟩] } } } =
          .ok (results, w, a)) ∧
    items.flatten.filterMap Item.text? = ["axb"] ∧ Item.progress items.flatten = .complete ∧
    results.map Progress.ofResult = [.pending, .complete, .complete] ∧ a.result = some (.ok "axb") := by
  have seen : (OutputStream.runs 9 lateSchedule { engine := lateEngine }
      { OutputStream.new lateEngine (.template lateTemplate {}) with listeners := [⟨0, .data⟩] }).toOption.any (fun r =>
        decide (r.1 = [.pending, .complete, .complete]) && decide (r.2.2.progress = .complete) &&
        decide (r.2.2.heardBy ⟨0, .data⟩ = [.data "axb"])) = true := by decide +kernel
  obtain ⟨⟨ps, w, o⟩, ran, seen⟩ := exists_eq_ok seen
  simp only [Bool.and_eq_true, decide_eq_true_eq] at seen
  obtain ⟨⟨rfl, complete⟩, heard⟩ := seen
  obtain ⟨-, -, agree⟩ :=
    drivers_agree lateEngine (.template lateTemplate {}) [⟨0, .data⟩] lateSchedule { engine := lateEngine }
  obtain ⟨items, o', results, a, enough, calls, -, come, results', -, texts, joined, -⟩ := agree ran
  have same := (texts ⟨0, .data⟩ (List.mem_singleton_self _) rfl fun _ => rfl).symm
  rw [heard] at same
  refine ⟨w, o, items, o', results, a, enough, ran, calls, same, come.trans complete, results', ?_⟩
  rw [joined, same]
  exact ⟨complete, rfl⟩

end Stencil
