import Stencil.Proofs.Render.Events
import Stencil.Proofs.Render.Following
import Stencil.Proofs.Render.Misses

/-! What a render gives in the end: its text, or an error. It can be read off what a listener has heard from the start and
    what waits to be heard, however the stream is driven. -/

namespace Stencil

open RenderM Render

variable {w w' : World} {o o' u : OutputStream} {steps : Nat} {p : Progress} {events events' : List Event} {m : Move}

/-! ### Results -/

namespace Event

/-- What events give, once they are all there: the text, or the error. -/
def result : List Event → Option (Except Error String)
  | [] => none
  | .data text :: rest => (result rest).map (·.map (text ++ ·))
  | .finished :: _ => some (.ok "")
  | .failed error :: _ => some (.error error)

theorem result_append (texts : List String) (last : List Event) : result (texts.map .data ++ last) =
    (result last).map (·.map (join (texts.map .data) ++ ·)) := by
  induction texts with
  | nil =>
    have same : (fun outcome : Except Error String => outcome.map (join ([].map Event.data) ++ ·)) = id := by
      funext outcome
      cases outcome with
      | error error => rfl
      | ok text => exact congrArg Except.ok String.empty_append
    rw [same, Option.map_id]
    rfl
  | cons text texts ih =>
    show (result (texts.map .data ++ last)).map (·.map (text ++ ·)) = _
    rw [ih, Option.map_map]
    congr 1
    funext outcome
    cases outcome with
    | error error => rfl
    | ok rest =>
      rw [List.map_cons, join_cons]
      exact congrArg Except.ok String.append_assoc.symm

/-- Renders that have come as far give the same, if what they tell adds up to one text, or ends with one error. -/
theorem result_eq (script : p.Script events) (script' : p.Script events')
    (complete : p = .complete → join events = join events')
    (failed : p = .failed → ∃ error, events.getLast? = some (.failed error) ∧ events'.getLast? = some (.failed error)) :
    result events = result events' := by
  obtain ⟨texts, last, -, closes, rfl⟩ := script
  obtain ⟨texts', last', -, closes', rfl⟩ := script'
  rw [result_append, result_append]
  cases p with
  | pending =>
    cases closes
    cases closes'
    rfl
  | complete =>
    cases closes
    cases closes'
    have nothing : join [.finished] = "" := join_singleton .finished
    have same := complete rfl
    rw [join_append, join_append, nothing, String.append_empty, String.append_empty] at same
    rw [same]
  | failed =>
    obtain ⟨error, rfl⟩ := closes
    obtain ⟨error', rfl⟩ := closes'
    obtain ⟨_, one, other⟩ := failed rfl
    rw [List.getLast?_concat] at one other
    cases one
    cases other
    rfl

end Event

/-- The one who listens to a render from the start. -/
def recorder : Listener := ⟨0, .sink⟩

namespace OutputStream

/-- The result of a render, once it has ended: what has been heard of it and what is to be heard next. -/
def result (o : OutputStream) : Option (Except Error String) := Event.result (o.heardBy recorder ++ o.render.events)

/-- The stream has been heard from the start. -/
structure Recorded (o : OutputStream) : Prop where
  begun : ∃ e job, Calls { OutputStream.new e job with listeners := [recorder] } o
  listeners : o.listeners = [recorder]

namespace Recorded

theorem along (h : o.Recorded) : o.Awaits ∧ o.Spent ∧ o.progress.Script (o.heardBy recorder ++ o.render.events) := by
  obtain ⟨e, job, calls⟩ := h.begun
  let fresh : OutputStream := { OutputStream.new e job with listeners := [recorder] }
  have start : fresh.progress.Script ([] ++ fresh.render.events) := ⟨[], [], by simp, rfl, rfl⟩
  obtain ⟨told, along⟩ := exists_along (o := fresh) (awaits_new e job) ⟨fun _ => rfl, fun no => by cases no⟩ start calls
  have heard : o.heardBy recorder = told := by
    rw [along.tells.heard recorder (List.mem_singleton_self recorder) (by rw [h.listeners]; rfl)]
    exact List.filter_eq_self.mpr fun _ _ => rfl
  rw [heard]
  exact ⟨along.awaits, along.spent, along.tells.script start⟩

theorem begin (e : Engine) (job : Job) : Recorded { OutputStream.new e job with listeners := [recorder] } :=
  ⟨⟨e, job, .refl _⟩, rfl⟩

end Recorded

/-- Some of the events that waited have been handed out, and the listener has heard them. -/
structure HandsOut (u o' : OutputStream) : Prop where
  render : o'.render = { u.render with events := o'.render.events }
  heard : o'.heardBy recorder ++ o'.render.events = u.heardBy recorder ++ u.render.events
  job : o'.job = u.job
  listeners : o'.listeners = u.listeners

theorem handsOut_of_front (listens : u.listeners = [recorder]) {front rest : List Event}
    (events : u.render.events = front ++ rest) (exhausted : Bool) : HandsOut u { u with
      render := { u.render with events := rest }
      delivered := u.delivered ++ front.flatMap (deliveries u.listeners)
      exhausted } := by
  refine ⟨rfl, ?_, rfl, rfl⟩
  have once : u.listeners.count recorder = 1 := by
    rw [listens]
    rfl
  have all : front.filter (recorder.kind.hears ·) = front := List.filter_eq_self.mpr fun _ _ => rfl
  unfold heardBy
  dsimp only
  rw [List.filter_append, List.map_append, heard_deliveries once, all, events, List.append_assoc]

theorem handsOut_tellAll (listens : u.listeners = [recorder]) : HandsOut u u.tellAll := by
  rw [tellAll_eq]
  exact handsOut_of_front listens (List.append_nil _).symm u.exhausted

theorem handsOut_take (listens : u.listeners = [recorder]) : HandsOut u u.take.2 := by
  unfold take nextEvent
  cases events : u.render.events with
  | nil =>
    dsimp only
    split
    · exact ⟨rfl, rfl, rfl, rfl⟩
    · exact ⟨rfl, rfl, rfl, rfl⟩
  | cons event rest =>
    have out := handsOut_of_front listens (show _ = [event] ++ rest from events)
    rw [List.flatMap_singleton] at out
    cases event with
    | data text => exact out u.exhausted
    | finished => exact out true
    | failed error => exact out true

end OutputStream

namespace Move

/-- The steps that a call is given. -/
def budget : Move → Nat
  | .runUntilStalled steps | .pollNext steps => steps
  | .others _ => 0

end Move

namespace OutputStream

theorem Awaits.called (h : o.Awaits) (ended : o.progress ≠ .pending) : o.job = none := by
  rcases h with ⟨⟨config, begun⟩, -⟩ | ⟨called, -⟩
  · unfold OutputStream.progress at ended
    rw [begun] at ended
    exact absurd rfl ended
  · exact called

/-- A call that has a step advances the stream and then hands out some of the events. -/
theorem exists_give (call : m.IsCall) (enough : 0 < m.budget) (recorded : o.Recorded) (w : World) :
    ∃ give : OutputStream → List Item × OutputStream,
      o.move w m = (o.advance m.budget w).map (fun r => ((give r.2).1, r.1, (give r.2).2)) ∧
      ∀ u, u.listeners = [recorder] → HandsOut u (give u).2 := by
  cases m with
  | others change => exact call.elim
  | runUntilStalled steps =>
    refine ⟨fun u => ([], u.tellAll), ?_, fun u => handsOut_tellAll⟩
    dsimp only [move, runUntilStalled, bind, Except.bind]
    show _ = (o.advance steps w).map _
    cases o.advance steps w <;> rfl
  | pollNext steps =>
    change 0 < steps at enough
    cases exhausted : o.exhausted with
    | true =>
      obtain ⟨awaits, spent, -⟩ := recorded.along
      have ended := spent.ended exhausted
      refine ⟨fun u => ([.finished], u), ?_, fun u _ => ⟨rfl, rfl, rfl, rfl⟩⟩
      show _ = (o.advance steps w).map _
      rw [advance_of_ended (awaits.called ended) ended enough]
      dsimp only [move]
      rw [pollNext_of_exhausted exhausted]
      rfl
    | false =>
      refine ⟨fun u => ([u.take.1], u.take.2), ?_, fun u => handsOut_take⟩
      show _ = (o.advance steps w).map _
      dsimp only [move]
      rw [pollNext_eq_take exhausted]
      cases o.advance steps w <;> rfl

theorem recorded_move (call : m.IsCall) (recorded : o.Recorded) {items : List Item}
    (moved : o.move w m = .ok (items, w', o')) (listeners : o'.listeners = o.listeners) : o'.Recorded := by
  obtain ⟨⟨e, job, calls⟩, listens⟩ := recorded
  refine ⟨⟨e, job, ?_⟩, listeners.trans listens⟩
  cases m with
  | others change => exact call.elim
  | runUntilStalled steps =>
    obtain ⟨⟨progress, v, u⟩, ran, same⟩ := bind_eq_ok.mp moved
    cases same
    exact calls.runUntilStalled ran
  | pollNext steps =>
    obtain ⟨⟨item, v, u⟩, ran, same⟩ := bind_eq_ok.mp moved
    cases same
    exact calls.pollNext ran

end OutputStream

end Stencil
