import Stencil.Proofs.Render.Drivers

/-! What is collected of a stream that has been driven before. A collector gives what has not been told yet: the rest of the
    text, or the error; and where the error has been told already, it gives the empty text although the render has failed. -/

namespace Stencil

open RenderM Render

variable {w w' : World} {o u : OutputStream} {c c' : Collector} {steps n : Nat} {told more events : List Event} {p : Progress}
  {r : Option (Except Error String)} {e : Engine} {job : Job} {listeners : List Listener}

/-- The collectors of a stream, as long as they are polled and give nothing. The world may change between two polls in any
    way. -/
inductive Collecting (o : OutputStream) : Collector → Prop
  | begin : Collecting o { stream := o }
  | poll {c c' : Collector} {steps : Nat} {w w' : World} : Collecting o c → c.poll steps w = .ok (none, w', c') →
    Collecting o c'

namespace Progress

/-- What is collected of a render that has come so far, if some events had been told before and more were told in the
    collecting. -/
def Collects (p : Progress) (told more : List Event) (r : Option (Except Error String)) : Prop :=
  match p with
  | .pending => r = none
  | .complete => r = some (.ok (String.join (more.filterMap Event.text?)))
  | .failed => ∃ error, (.failed error ∈ told ∧ more = [] ∧ r = some (.ok "")) ∨
      (.failed error ∉ told ∧ .failed error ∈ more ∧ r = some (.error error))

/-- Events that come behind others are a script too, if there are any or the render goes on. -/
theorem Script.behind (script : p.Script (told ++ events)) (left : p = .pending ∨ events ≠ []) : p.Script events := by
  obtain ⟨texts, last, full, closes, same⟩ := script
  rcases List.append_eq_append_iff.mp same with ⟨front, texts', rfl⟩ | ⟨front, rfl, last'⟩
  · obtain ⟨_, behind, rfl, -, rfl⟩ := List.map_eq_append_iff.mp texts'
    exact ⟨behind, last, fun text mem => full text (List.mem_append_right _ mem), closes, rfl⟩
  · cases front with
    | nil =>
      obtain rfl := last'
      exact ⟨[], _, by simp, closes, rfl⟩
    | cons first front =>
      rcases closes.eq_nil_or_singleton with rfl | ⟨_, rfl⟩
      · cases last'
      · obtain rfl := (List.append_eq_nil_iff.mp (List.cons.inj last').2.symm).2
        obtain rfl := left.resolve_right (not_not_intro rfl)
        cases closes

/-- The end or the error of a render has been told, if nothing but texts has been told after. -/
theorem Script.told_of_texts {texts : List String} (script : p.Script (told ++ texts.map .data)) (ended : p ≠ .pending) :
    texts = [] ∧ ∃ event ∈ told, p.Closes [event] := by
  have found : ∃ event ∈ told ++ texts.map .data, (∀ text, event ≠ .data text) ∧ p.Closes [event] := by
    obtain ⟨_, last, -, closes, same⟩ := script
    rw [same]
    cases p with
    | pending => exact absurd rfl ended
    | complete => exact ⟨.finished, by simp [show last = _ from closes], nofun, rfl⟩
    | failed =>
      obtain ⟨error, rfl⟩ := closes
      exact ⟨.failed error, by simp, nofun, error, rfl⟩
  obtain ⟨event, mem, last, closes⟩ := found
  have mem : event ∈ told := (List.mem_append.mp mem).resolve_right fun no => by
    obtain ⟨text, -, rfl⟩ := List.mem_map.mp no
    exact last text rfl
  exact ⟨List.map_eq_nil_iff.mp (script.nothing_more mem last), event, mem, closes⟩

/-- What a collector gives of the events that wait, which come behind events that had been told before and texts that the
    collector has taken. -/
theorem Script.collects {texts : List String} (script : p.Script (told ++ texts.map .data ++ events)) :
    p.Collects told (texts.map .data ++ events) (Item.gather (Event.join (texts.map .data)) (Event.items p events)).1 := by
  by_cases left : p = .pending ∨ events ≠ []
  · -- Neither the end nor the error had been told before, so the result is that of the events told since.
    rw [(Item.gather_items _ (script.behind left)).1, ← Event.result_append]
    have since : p.Script (texts.map .data ++ events) := by
      rw [List.append_assoc] at script
      exact script.behind (left.imp_right fun some none => some (List.append_eq_nil_iff.mp none).2)
    obtain ⟨come, complete, failed⟩ := Event.result_of_script since
    cases p with
    | pending => exact ofResult_eq_pending.mp come
    | complete => exact (complete _).mpr ⟨rfl, rfl⟩
    | failed =>
      have some := left.resolve_left nofun
      obtain ⟨_, _, -, ⟨error, rfl⟩, same⟩ := since
      have mem : .failed error ∈ texts.map .data ++ events := same ▸ List.mem_append_right _ (List.mem_singleton_self _)
      refine ⟨error, Or.inr ⟨fun before => ?_, mem, (failed error).mpr mem⟩⟩
      rw [List.append_assoc] at script
      exact List.ne_nil_of_mem mem (script.nothing_more before nofun)
  · obtain ⟨ended, none⟩ := not_or.mp left
    obtain rfl := not_not.mp none
    rw [List.append_nil] at script ⊢
    obtain ⟨rfl, event, mem, closes⟩ := script.told_of_texts ended
    cases p with
    | pending => exact absurd rfl ended
    | complete => rfl
    | failed =>
      obtain ⟨error, same⟩ := closes
      cases same
      exact ⟨error, Or.inl ⟨mem, rfl, rfl⟩⟩

theorem Collects.pending (collects : p.Collects told more none) : p = .pending := by
  cases p with
  | pending => rfl
  | complete => cases collects
  | failed => obtain ⟨_, ⟨-, -, no⟩ | ⟨-, -, no⟩⟩ := collects <;> cases no

end Progress

namespace OutputStream

/-- One call tells what can be taken instead, given steps enough, of a stream that has given its end or error as well. -/
theorem takeAll_of_spent (awaits : o.Awaits) (spent : o.Spent) (script : o.progress.Script (told ++ o.render.events))
    (advanced : o.advance n w = .ok (w', u)) (le : n ≤ steps) (more : u.render.events.length < steps) :
    o.takeAll steps steps w = .ok (Event.items u.progress u.render.events, w', u.drained) := by
  cases exhausted : o.exhausted with
  | false => exact takeAll_of_call awaits exhausted script advanced le more
  | true =>
    have ended := spent.ended exhausted
    obtain ⟨rfl, rfl⟩ := eq_of_advance_ended awaits ended advanced
    obtain ⟨steps, rfl⟩ := Nat.exists_eq_succ_of_ne_zero (Nat.ne_of_gt (Nat.zero_lt_of_lt more))
    have drained : u.drained = u := by
      unfold OutputStream.drained
      rw [tellAll_of_nil (spent.events exhausted), decide_eq_true ended, ← exhausted]
    rw [takeAll_of_exhausted exhausted, drained, spent.events exhausted, Event.items, if_neg ended]

/-- The stream goes on to where all that waits has been taken. -/
theorem Along.drained (along : o.Along more u) {v : OutputStream} (advanced : u.advance n w = .ok (w', v)) :
    o.Along (more ++ v.render.events) v.drained := by
  have same : v.drained = { v with
      render := { v.render with events := [] }
      delivered := v.delivered ++ v.render.events.flatMap (deliveries v.listeners)
      exhausted := v.progress ≠ .pending } := by
    unfold OutputStream.drained
    rw [tellAll_eq]
  rw [same]
  obtain ⟨called, driven⟩ := driven_advance along.awaits advanced
  exact ⟨Or.inr ⟨called, driven.told []⟩, ⟨fun _ => rfl, of_decide_eq_true⟩,
    along.tells.trans (tells_of_advance along.awaits advanced (List.append_nil _).symm _)⟩

end OutputStream

open OutputStream

/-- A collector of a stream has taken these events, which are texts, and keeps the text of them. -/
structure Collector.Gathers (o : OutputStream) (more : List Event) (c : Collector) : Prop where
  along : o.Along more c.stream
  texts : ∃ texts : List String, more = texts.map .data
  output : c.output = Event.join more

namespace Collector.Gathers

/-- A poll of a collector where one call of the stream comes to an end. -/
theorem poll (h : c.Gathers o more) (script : o.progress.Script (told ++ o.render.events))
    (advanced : c.stream.advance n w = .ok (w', u)) : ∃ r c' enough, (∀ steps, enough ≤ steps →
      c.poll steps w = .ok (r, w', c')) ∧ o.Along (more ++ u.render.events) c'.stream ∧ c'.stream.render.events = [] ∧
      c'.stream.progress.Collects told (more ++ u.render.events) r ∧ (r = none → c'.Gathers o (more ++ u.render.events)) := by
  obtain ⟨texts, rfl⟩ := h.texts
  have before := h.along.tells.script script
  have script : u.progress.Script _ := (goes_advance h.along.awaits advanced).1.script before
  have collects := script.collects
  rw [← h.output] at collects
  have along := h.along.drained advanced
  have come : u.drained.progress = u.progress := progress_tellAll u
  generalize gathered : Item.gather c.output (Event.items u.progress u.render.events) = out at collects
  refine ⟨out.1, ⟨u.drained, out.2⟩, max n (u.render.events.length + 1),
    fun steps le => ?_, along, ?_, come ▸ collects, fun nothing => ?_⟩
  · have taken := takeAll_of_spent h.along.awaits h.along.spent before advanced (Nat.le_trans (Nat.le_max_left ..) le)
      (Nat.le_trans (Nat.le_max_right ..) le)
    unfold Collector.poll
    rw [takeItems_eq, taken, ← gathered]
    rfl
  · show u.tellAll.render.events = []
    rw [tellAll_eq]
  · rw [nothing] at collects
    have pending := collects.pending
    rw [List.append_assoc] at script
    obtain ⟨texts', -, same⟩ := (pending ▸ script.behind (Or.inl pending)).texts
    refine ⟨along, ⟨texts', same⟩, ?_⟩
    rw [Event.join_append, ← h.output, ← gathered]
    exact (Item.gather_items _ ((List.append_assoc .. ▸ script).behind (Or.inl pending))).2 pending

theorem exists_advance_of_poll (h : c.Gathers o more) {x : Option (Except Error String) × World × Collector}
    (polled : c.poll n w = .ok x) : ∃ n x, c.stream.advance n w = .ok x := by
  cases exhausted : c.stream.exhausted with
  | true =>
    have ended := h.along.spent.ended exhausted
    exact ⟨1, _, advance_of_ended (h.along.awaits.called ended) ended Nat.one_pos⟩
  | false =>
    unfold Collector.poll at polled
    rw [takeItems_eq] at polled
    obtain ⟨_, taken, -⟩ := map_eq_ok.mp polled
    exact ⟨n, exists_advance_of_takeAll exhausted taken⟩

/-- What a poll gives. -/
theorem of_poll (h : c.Gathers o more) (script : o.progress.Script (told ++ o.render.events))
    (polled : c.poll n w = .ok (r, w', c')) : ∃ events, o.Along (more ++ events) c'.stream ∧ c'.stream.render.events = [] ∧
      c'.stream.progress.Collects told (more ++ events) r ∧ (r = none → c'.Gathers o (more ++ events)) := by
  obtain ⟨m, ⟨v, u⟩, advanced⟩ := h.exists_advance_of_poll polled
  obtain ⟨_, _, enough, calls, outcome⟩ := h.poll script advanced
  have same := calls (max n enough) (Nat.le_max_right ..)
  rw [poll_of_le (Nat.le_max_left ..) polled] at same
  cases same
  exact ⟨_, outcome⟩

end Collector.Gathers

/-- Between two polls a collector has taken nothing but texts. -/
theorem Collecting.gathers (collecting : Collecting o c) (awaits : o.Awaits) (spent : o.Spent)
    (script : o.progress.Script (told ++ o.render.events)) : ∃ more, c.Gathers o more := by
  induction collecting with
  | begin => exact ⟨[], ⟨awaits, spent, .refl o⟩, ⟨[], rfl⟩, rfl⟩
  | poll _ polled ih =>
    obtain ⟨more, gathers⟩ := ih
    obtain ⟨_, -, -, -, next⟩ := gathers.of_poll script polled
    exact ⟨_, next rfl⟩

/-- Let a stream be driven in any way and then be collected, one poll after the other, while the world changes in any way. A
    poll comes to an end, given steps enough, exactly if a call of the stream does. Then all that waited has been told, and
    as long as the render is pending, the collector gives nothing. Of a render that is complete it gives the texts that have
    been told since the collecting began. Of one that has failed it gives the error, unless the error had been told before;
    then it gives the empty text. -/
theorem collected_fails_unless_told (driven : Calls { OutputStream.new e job with listeners } o)
    (collecting : Collecting o c) (w : World) :
    ((∃ n x, c.poll n w = .ok x) ↔ ∃ n x, c.stream.runUntilStalled n w = .ok x) ∧
    ∀ {n r w' c'}, c.poll n w = .ok (r, w', c') → ∃ told more,
      o.progress.Script (told ++ o.render.events) ∧ c'.stream.progress.Script (told ++ more) ∧
      (∀ l ∈ listeners, c'.stream.listeners.count l = 1 →
        o.heardBy l = told.filter (l.kind.hears ·) ∧ c'.stream.heardBy l = (told ++ more).filter (l.kind.hears ·)) ∧
      c'.stream.progress.Collects told more r := by
  let fresh : OutputStream := { OutputStream.new e job with listeners }
  have start : fresh.progress.Script ([] ++ fresh.render.events) := ⟨[], [], by simp, rfl, rfl⟩
  have awaits : fresh.Awaits := awaits_new e job
  obtain ⟨told, first⟩ := exists_along awaits ⟨fun _ => rfl, nofun⟩ start driven
  have script : o.progress.Script (told ++ o.render.events) := first.tells.script start
  obtain ⟨taken, gathers⟩ := collecting.gathers first.awaits first.spent script
  refine ⟨⟨?_, ?_⟩, fun polled => ?_⟩
  · rintro ⟨n, x, polled⟩
    obtain ⟨n, x, advanced⟩ := gathers.exists_advance_of_poll polled
    exact ⟨n, _, bind_eq_ok.mpr ⟨x, advanced, rfl⟩⟩
  · rintro ⟨n, x, ran⟩
    obtain ⟨⟨w', u⟩, advanced, -⟩ := bind_eq_ok.mp ran
    obtain ⟨_, _, enough, calls, -⟩ := gathers.poll script advanced
    exact ⟨enough, _, calls enough (Nat.le_refl _)⟩
  · obtain ⟨events, along, quiet, collects, -⟩ := gathers.of_poll script polled
    have script' := along.tells.script script
    rw [quiet, List.append_nil] at script'
    refine ⟨told, taken ++ events, script, script', fun l mem once => ?_, collects⟩
    have mem' : l ∈ o.listeners := first.tells.listeners.subset mem
    have once' : o.listeners.count l = 1 :=
      Nat.le_antisymm (once ▸ along.tells.listeners.sublist.count_le l) (List.count_pos_iff.mpr mem')
    exact ⟨first.tells.heard l mem once', (first.tells.trans along.tells).heard l mem once⟩

/-- A stream that fails, with one listener for errors. -/
def failingStream : OutputStream := { OutputStream.new {} (.fail (.ofMessage "no")) with listeners := [⟨0, .failed⟩] }

/-- Run until nothing is left to be done and collected then, the stream gives the empty text, since the listener has heard
    the error. Collected at once it gives the error. -/
theorem collected_fails_unless_told_failingStream : ∃ w o w' c w'' c',
    failingStream.runUntilStalled 9 {} = .ok (.failed, w, o) ∧
    Collector.poll 9 w { stream := o } = .ok (some (.ok ""), w', c) ∧ (∃ error, .failed error ∈ o.heardBy ⟨0, .failed⟩) ∧
    Collector.poll 9 {} { stream := failingStream } = .ok (some (.error (.ofMessage "no")), w'', c') ∧
    .failed (.ofMessage "no") ∈ c'.stream.heardBy ⟨0, .failed⟩ := by
  have seen : (failingStream.runUntilStalled 9 {}).toOption.any (fun r => decide (r.1 = .failed) &&
      (Collector.poll 9 r.2.1 { stream := r.2.2 }).toOption.any (fun r' => decide (r'.1 = some (.ok "")) &&
        decide (r'.2.2.stream.progress = .failed) && decide (r'.2.2.stream.listeners = [⟨0, .failed⟩]))) = true := by
    decide +kernel
  have seen' : (Collector.poll 9 {} { stream := failingStream }).toOption.any (fun r =>
      decide (r.1 = some (.error (.ofMessage "no"))) && decide (r.2.2.stream.progress = .failed) &&
      decide (r.2.2.stream.listeners = [⟨0, .failed⟩])) = true := by decide +kernel
  obtain ⟨⟨_, w, o⟩, ran, seen⟩ := exists_eq_ok seen
  simp only [Bool.and_eq_true, decide_eq_true_eq] at seen
  obtain ⟨rfl, seen⟩ := seen
  obtain ⟨⟨_, w', c⟩, polled, seen⟩ := exists_eq_ok seen
  simp only [Bool.and_eq_true, decide_eq_true_eq] at seen
  obtain ⟨⟨rfl, failed⟩, listeners⟩ := seen
  obtain ⟨⟨_, w'', c'⟩, polled', seen'⟩ := exists_eq_ok seen'
  simp only [Bool.and_eq_true, decide_eq_true_eq] at seen'
  obtain ⟨⟨rfl, failed'⟩, listeners'⟩ := seen'
  refine ⟨w, o, w', c, w'', c', ran, polled, ?_, polled', ?_⟩
  · obtain ⟨told, more, -, -, heard, collects⟩ :=
      (collected_fails_unless_told (.runUntilStalled (.refl failingStream) ran) .begin w).2 polled
    rw [failed] at collects
    obtain ⟨error, ⟨mem, -, -⟩ | ⟨-, -, no⟩⟩ := collects
    · refine ⟨error, ?_⟩
      rw [(heard ⟨0, .failed⟩ (List.mem_singleton_self _) (by rw [listeners]; rfl)).1]
      exact List.mem_filter.mpr ⟨mem, rfl⟩
    · cases no
  · obtain ⟨told, more, -, -, heard, collects⟩ := (collected_fails_unless_told (.refl failingStream) .begin {}).2 polled'
    rw [failed'] at collects
    obtain ⟨error, ⟨-, -, no⟩ | ⟨-, mem, same⟩⟩ := collects
    · cases no
    · cases same
      rw [(heard ⟨0, .failed⟩ (List.mem_singleton_self _) (by rw [listeners']; rfl)).2]
      exact List.mem_filter.mpr ⟨List.mem_append_right _ mem, rfl⟩

/-- The error is told, but not given as an item, and the collector does not give it. -/
theorem failed_render_collected_ok : ∃ w o w' c,
    (({} : Engine).streamSource "{/x}" {}).runUntilStalled 9 {} = .ok (.failed, w, o) ∧ o.exhausted = false ∧
    Collector.poll 9 w { stream := o } = .ok (some (.ok ""), w', c) ∧ c.stream.progress = .failed := by
  have seen : ((({} : Engine).streamSource "{/x}" {}).runUntilStalled 9 {}).toOption.any (fun r => decide (r.1 = .failed) &&
      decide (r.2.2.exhausted = false) && (Collector.poll 9 r.2.1 { stream := r.2.2 }).toOption.any (fun r' =>
        decide (r'.1 = some (.ok "")) && decide (r'.2.2.stream.progress = .failed))) = true := by
    decide +kernel
  obtain ⟨⟨_, w, o⟩, ran, seen⟩ := exists_eq_ok seen
  simp only [Bool.and_eq_true, decide_eq_true_eq] at seen
  obtain ⟨⟨rfl, fresh⟩, seen⟩ := seen
  obtain ⟨⟨_, w', c⟩, polled, seen⟩ := exists_eq_ok seen
  simp only [Bool.and_eq_true, decide_eq_true_eq] at seen
  obtain ⟨rfl, failed⟩ := seen
  exact ⟨w, o, w', c, ran, fresh, polled, failed⟩

end Stencil
