import Stencil.Proofs.Render.Events
import Stencil.Proofs.Render.Following

/-! All schedules tell one text. Whenever futures get done and whenever the driver calls, what a listener hears of a render
    is the front of one text, and all of it once the render is complete. -/

namespace Stencil

open RenderM Render

variable {hosts : Host → Prop} {e : Engine} {job : Job} {listeners listeners' : List Listener} {l l' : Listener}
  {w w' : World} {o o' : OutputStream} {r r' : Render} {s t : Stage} {told told' : String} {steps : Nat}

/-! ### One text -/

/-- The draft that becomes what a complete render has told reads as that. -/
theorem Trails.reads_start {start draft : Draft} (trails : Trails told r draft) (becomes : Becomes hosts e start draft)
    (complete : r.progress = .complete) : ∃ depth, Reads hosts e depth start (told ++ r.untold).toList := by
  obtain ⟨_, rfl, nothing⟩ := trails.eq_append
  rw [nothing complete, List.append_nil] at becomes
  have whole : Reads hosts e 0 (Draft.ofText (told ++ r.untold)) _ := Reads.ofText_iff.mpr rfl
  exact becomes.reads_before whole

/-- What is told is the front of what the draft before reads as, and all of it where the render is complete. -/
theorem Trails.front {start draft : Draft} (pure : e.Pure hosts) (trails : Trails told r draft)
    (becomes : Becomes hosts e start draft) {depth : Nat} {shown : String} (reads : Reads hosts e depth start shown.toList) :
    ∃ rest, shown = told ++ r.untold ++ rest ∧ (r.progress = .complete → rest = "") := by
  obtain ⟨_, rfl, nothing⟩ := trails.eq_append
  obtain ⟨_, reads⟩ := becomes.reads_after pure reads
  obtain ⟨front, back, same, front', left⟩ := reads.split
  obtain rfl := Reads.ofText_iff.mp front'
  refine ⟨String.ofList back, String.toList_inj.mp ?_, fun complete => ?_⟩
  · rw [same, String.toList_append, String.toList_append, String.toList_append, String.toList_ofList]
  · rw [nothing complete] at left
    cases left
    rfl

/-- If runs of two jobs agree, what is told of the first where its render is complete goes on from what is told of the
    second. -/
theorem Tells.eq_append_of_agrees {job' : Job} (pure : e.Pure hosts)
    (agrees : ∀ depth n m, Agrees hosts e depth (job.run (exec n)) (job'.run (exec m)))
    (complete : r.progress = .complete) (h : Tells hosts e job told r) (h' : Tells hosts e job' told' r') :
    ∃ rest, told ++ r.untold = told' ++ r'.untold ++ rest ∧ (r'.progress = .complete → rest = "") := by
  obtain ⟨start, draft, ⟨n, s, t, ready, ran, adds⟩, becomes, trails⟩ := h
  obtain ⟨start', draft', ⟨n', s', t', ready', ran', adds'⟩, becomes', trails'⟩ := h'
  -- The text told reads from the draft that the one run begins, so from that of the other, and on from there.
  obtain ⟨depth, first⟩ := trails.reads_start becomes complete
  obtain ⟨deeper, first'⟩ := (agrees depth n n' ready ready' ran ran' adds adds').2 _ first
  exact trails'.front pure becomes' first'

/-- What is told of a job is the front of what is told of it where the render is complete. -/
theorem Tells.eq_append (pure : e.Pure hosts) (complete : r.progress = .complete) (h : Tells hosts e job told r)
    (h' : Tells hosts e job told' r') : ∃ rest, told ++ r.untold = told' ++ r'.untold ++ rest ∧
      (r'.progress = .complete → rest = "") :=
  h.eq_append_of_agrees pure (fun depth n m => (matches_job pure depth n m job).agrees) complete h'

/-! ### Streams -/

/-- The streams of a job that the calls of a driver lead to, with the world as the last call left it. Between two calls
    futures may get done. -/
inductive Scheduled (hosts : Host → Prop) (e : Engine) (job : Job) (listeners : List Listener) :
    World → OutputStream → Prop
  | new {host : Host} : hosts host →
    Scheduled hosts e job listeners { engine := e, host } { OutputStream.new e job with listeners }
  | wait {w : World} {o : OutputStream} {host : Host} : Scheduled hosts e job listeners w o → hosts host →
    Scheduled hosts e job listeners { w with host } o
  | runUntilStalled {o o' : OutputStream} {steps : Nat} {w w' : World} {progress : Progress} :
    Scheduled hosts e job listeners w o → o.runUntilStalled steps w = .ok (progress, w', o') →
    Scheduled hosts e job listeners w' o'
  | pollNext {o o' : OutputStream} {steps : Nat} {w w' : World} {item : Item} : Scheduled hosts e job listeners w o →
    o.pollNext steps w = .ok (item, w', o') → Scheduled hosts e job listeners w' o'

/-- A listener who hears all texts hears all the text. -/
theorem join_filter_hears (hears : ∀ text, l.kind.hears (.data text) = true) (events : List Event) :
    Event.join (events.filter (l.kind.hears ·)) = Event.join events := by
  induction events with
  | nil => rfl
  | cons event rest ih =>
    rw [List.filter_cons]
    split
    · rw [Event.join_cons, ih, Event.join_cons]
    · next silent =>
      rw [ih, Event.join_cons]
      cases event with
      | data text => exact absurd (hears text) silent
      | finished | failed error => exact String.empty_append.symm

namespace OutputStream

/-- The text that a listener has heard. -/
def heard (l : Listener) (o : OutputStream) : String :=
  Event.join ((o.delivered.filter (·.listener = l)).map (·.event))

/-- The text that is there for a listener, heard or to be heard next. -/
def output (l : Listener) (o : OutputStream) : String := o.heard l ++ o.render.untold

/-- The job of a stream has not run yet, or the render follows it. -/
def Tracks (hosts : Host → Prop) (e : Engine) (job : Job) (l : Listener) (w : World) (o : OutputStream) : Prop :=
  (o.job = some job ∧ o.render = { config := e.config } ∧ o.heard l = "" ∧ w.engine = e ∧ hosts w.host) ∨
    o.job = none ∧ Follows hosts e job (o.heard l) { w with render := o.render }

theorem heard_deliver (once : listeners.count l = 1) (hears : ∀ text, l.kind.hears (.data text) = true)
    {events : List Event} (told : o'.delivered = o.delivered ++ events.flatMap (deliveries listeners)) :
    o'.heard l = o.heard l ++ Event.join events := by
  have text := (congrArg Event.join (heard_deliveries once events)).trans (join_filter_hears hears events)
  unfold heard
  rw [told, List.filter_append, List.map_append, Event.join_append, text]

theorem follows_advance (pure : e.Pure hosts) (h : o.Tracks hosts e job l w)
    (advanced : o.advance steps w = .ok (w', o')) :
    o'.job = none ∧ o'.listeners = o.listeners ∧ Follows hosts e job (o'.heard l) { w' with render := o'.render } := by
  obtain ⟨⟨outcome, t⟩, ran, same⟩ := bind_eq_ok.mp advanced
  cases same
  refine ⟨rfl, rfl, ?_⟩
  have safe : (o.work steps).Safe (·.render.Owned) (· = .outOfSteps) { w with render := o.render }
      fun _ t => Follows hosts e job (o.heard l) t := by
    unfold work
    rcases h with ⟨waiting, begun, silent, rfl, host⟩ | ⟨called, follows⟩
    · rw [waiting, silent]
      have fresh : Stage.Pure hosts w.engine { w with render := o.render } := by
        rw [begun]
        exact ⟨host, .refl hosts w.engine, rfl, (fun no => by cases no), by simp⟩
      refine Safe.bind ((safe_follows_start pure fresh begun).mono fun outcome t _ follows => ?_)
      cases outcome with
      | ok _ => exact safe_follows_drive pure steps follows
      | error error => exact follows
    · rw [called]
      exact safe_follows_drive pure steps follows
  exact safe.ends ran

variable (once : listeners.count l = 1) (hears : ∀ text, l.kind.hears (.data text) = true)

include once hears

theorem tracks_runUntilStalled {progress : Progress} (pure : e.Pure hosts) (same : o.listeners = listeners)
    (h : o.Tracks hosts e job l w) (ran : o.runUntilStalled steps w = .ok (progress, w', o')) :
    o'.listeners = listeners ∧ o'.Tracks hosts e job l w' := by
  obtain ⟨u, advanced, rfl⟩ := runUntilStalled_ok ran
  obtain ⟨called, listens, follows⟩ := follows_advance pure h advanced
  rw [tellAll_eq]
  refine ⟨listens.trans same, Or.inr ⟨called, follows.tell ?_⟩⟩
  rw [heard_deliver (o := u) once hears (by rw [listens, same])]
  exact String.append_empty

theorem tracks_pollNext {item : Item} (pure : e.Pure hosts) (same : o.listeners = listeners)
    (h : o.Tracks hosts e job l w) (polled : o.pollNext steps w = .ok (item, w', o')) :
    o'.listeners = listeners ∧ o'.Tracks hosts e job l w' := by
  rcases pollNext_ok polled with ⟨rfl, rfl⟩ | ⟨u, exhausted, advanced, rfl | ⟨event, rest, events, rfl⟩⟩
  · exact ⟨same, h⟩
  · obtain ⟨called, listens, follows⟩ := follows_advance pure h advanced
    exact ⟨listens.trans same, Or.inr ⟨called, follows⟩⟩
  · obtain ⟨called, listens, follows⟩ := follows_advance pure h advanced
    refine ⟨listens.trans same, Or.inr ⟨called, follows.tell ?_⟩⟩
    have delivered : u.delivered ++ deliveries u.listeners event =
        u.delivered ++ [event].flatMap (deliveries listeners) := by
      rw [List.flatMap_singleton, listens, same]
    rw [heard_deliver (o := u) once hears delivered]
    unfold Render.untold
    rw [events, Event.join_cons event rest, Event.join_singleton, String.append_assoc]

end OutputStream

open OutputStream

theorem Scheduled.tracks (pure : e.Pure hosts) (once : listeners.count l = 1)
    (hears : ∀ text, l.kind.hears (.data text) = true) (h : Scheduled hosts e job listeners w o) :
    o.listeners = listeners ∧ o.Tracks hosts e job l w := by
  induction h with
  | new host => exact ⟨rfl, Or.inl ⟨rfl, rfl, rfl, rfl, host⟩⟩
  | wait _ host ih =>
    obtain ⟨same, ⟨waiting, begun, silent, engine, -⟩ | ⟨called, follows⟩⟩ := ih
    · exact ⟨same, Or.inl ⟨waiting, begun, silent, engine, host⟩⟩
    · exact ⟨same, Or.inr ⟨called, follows.wait host⟩⟩
  | runUntilStalled _ ran ih => exact tracks_runUntilStalled once hears pure ih.1 ih.2 ran
  | pollNext _ polled ih => exact tracks_pollNext once hears pure ih.1 ih.2 polled

/-- Once a schedule has completed a job, what was heard follows a draft of the job. -/
theorem Scheduled.tells (pure : e.Pure hosts) (once : listeners.count l = 1)
    (hears : ∀ text, l.kind.hears (.data text) = true) (h : Scheduled hosts e job listeners w o)
    (complete : o.progress = .complete) : Tells hosts e job (o.heard l) o.render := by
  obtain ⟨-, ⟨-, begun, -⟩ | ⟨-, follows⟩⟩ := h.tracks pure once hears
  · unfold OutputStream.progress at complete
    rw [begun] at complete
    cases complete
  · exact follows.tells.resolve_right fun no => by cases complete.symm.trans no.1

/-- Let helpers be pure, futures have one outcome each, and the loader answer each name alike. Then one schedule that
    completes a job tells the text of all: what a listener hears of any other, whether it completes, fails or never ends,
    is at every moment the front of that text, and all of it if that schedule completes too. -/
theorem text_same_in_all_schedules (pure : e.Pure hosts)
    (once : listeners.count l = 1) (hears : ∀ text, l.kind.hears (.data text) = true)
    (once' : listeners'.count l' = 1) (hears' : ∀ text, l'.kind.hears (.data text) = true)
    (scheduled : Scheduled hosts e job listeners w o) (complete : o.progress = .complete)
    (scheduled' : Scheduled hosts e job listeners' w' o') :
    (∃ rest, o.output l = o'.heard l' ++ rest) ∧ (o'.progress = .complete → o'.output l' = o.output l) := by
  have tells := scheduled.tells pure once hears complete
  obtain ⟨-, ⟨-, begun, silent, -⟩ | ⟨-, follows'⟩⟩ := scheduled'.tracks pure once' hears'
  · refine ⟨⟨o.output l, ?_⟩, fun complete' => ?_⟩
    · rw [silent, String.empty_append]
    · unfold OutputStream.progress at complete'
      rw [begun] at complete'
      cases complete'
  rcases follows'.tells with tells' | ⟨failed, nothing⟩
  · obtain ⟨rest, same, nothing⟩ := tells.eq_append pure complete tells'
    refine ⟨⟨o'.render.untold ++ rest, same.trans String.append_assoc⟩, fun complete' => ?_⟩
    rw [nothing complete', String.append_empty] at same
    exact same.symm
  · refine ⟨⟨o.output l, ?_⟩, fun complete' => ?_⟩
    · rw [(String.append_eq_empty_iff.mp nothing).1, String.empty_append]
    · cases complete'.symm.trans failed

/-- An engine with helpers that wait for two gates. -/
def gatesEngine : Engine := { helpers := [("g", gateText "g"), ("h", gateText "h")] }

/-- The text of one gate, a text, and the text of the other gate. -/
def gatesTemplate : Template :=
  ⟨none, [.helperTag "g" none [] .empty, .write "a", .helperTag "h" none [] .empty], []⟩

/-- Each gate is closed, or open with a text of its own. -/
def gatesHosts (host : Host) : Prop := (Future.gate "g").Settles (· = host) (.ok "x") ∧
  (Future.gate "h").Settles (· = host) (.ok "y")

theorem pure_gatesEngine : gatesEngine.Pure gatesHosts where
  helpers {name helper} found := by
    have pure {gate text : String} (settles : (Future.gate gate).Settles gatesHosts (.ok text)) :
        (gateText gate).Pure gatesHosts :=
      fun _ _ _ => ⟨⟨_, settles⟩, fun _ => ⟨fun _ => rfl, trivial⟩, fun _ => rfl, trivial⟩
    simp only [gatesEngine, Dict.get?] at found
    split at found
    · cases found
      exact pure fun host here => here.1 host rfl
    · split at found
      · cases found
        exact pure fun host here => here.2 host rfl
      · cases found
  functions _ _ _ _ := trivial
  loader no := by cases no

/-- The template heard after a call with both gates open; and in another schedule after a call with the first gate open and
    after one more with both. -/
def gatesRuns : Except Halt ((World × OutputStream) × (World × OutputStream) × (World × OutputStream)) := do
  let stream : OutputStream :=
    { OutputStream.new gatesEngine (.template gatesTemplate {}) with listeners := [⟨0, .data⟩] }
  let first : Host := Host.openGate {} "g" (.ok "x")
  let both : Host := first.openGate "h" (.ok "y")
  let (_, prompt) ← stream.runUntilStalled 9 { engine := gatesEngine, host := both }
  let (_, w, o) ← stream.runUntilStalled 9 { engine := gatesEngine, host := first }
  let (_, late) ← o.runUntilStalled 9 { w with host := both }
  pure (prompt, (w, o), late)

theorem text_same_in_all_schedules_gatesRuns : ∃ prompt begun late, gatesRuns = .ok (prompt, begun, late) ∧
    prompt.2.progress = .complete ∧ prompt.2.output ⟨0, .data⟩ = "xay" ∧ begun.2.progress = .pending ∧
    begun.2.heard ⟨0, .data⟩ = "x" ∧ late.2.progress = .complete ∧
    (∃ rest, prompt.2.output ⟨0, .data⟩ = begun.2.heard ⟨0, .data⟩ ++ rest) ∧
    late.2.output ⟨0, .data⟩ = prompt.2.output ⟨0, .data⟩ := by
  let l : Listener := ⟨0, .data⟩
  have seen : gatesRuns.toOption.any (fun r => decide (r.1.2.progress = .complete) &&
      decide (r.1.2.output l = "xay") && decide (r.2.1.2.progress = .pending) && decide (r.2.1.2.heard l = "x") &&
      decide (r.2.2.2.progress = .complete)) = true := by decide +kernel
  obtain ⟨⟨prompt, begun, late⟩, done, seen⟩ := exists_eq_ok seen
  simp only [Bool.and_eq_true, decide_eq_true_eq] at seen
  obtain ⟨⟨⟨⟨complete, text⟩, pending⟩, heard⟩, complete'⟩ := seen
  have run := done
  unfold gatesRuns at run
  obtain ⟨⟨_, prompt⟩, ran, run⟩ := bind_eq_ok.mp run
  obtain ⟨⟨_, w, o⟩, ran', run⟩ := bind_eq_ok.mp run
  obtain ⟨⟨_, late⟩, ran'', run⟩ := bind_eq_ok.mp run
  cases run
  let first : Host := Host.openGate {} "g" (.ok "x")
  have one : gatesHosts first := by
    constructor
    · rintro _ rfl
      exact Or.inr rfl
    · rintro _ rfl
      exact Or.inl rfl
  have both : gatesHosts (first.openGate "h" (.ok "y")) := by
    constructor
    · rintro _ rfl
      exact Or.inr rfl
    · rintro _ rfl
      exact Or.inr rfl
  have prompt' : Scheduled gatesHosts gatesEngine _ [l] prompt.1 prompt.2 := .runUntilStalled (.new both) ran
  have begun' : Scheduled gatesHosts gatesEngine _ [l] w o := .runUntilStalled (.new one) ran'
  have late' : Scheduled gatesHosts gatesEngine _ [l] late.1 late.2 := .runUntilStalled (begun'.wait both) ran''
  have once : [l].count l = 1 := rfl
  have hears (text : String) : l.kind.hears (.data text) = true := rfl
  have same {w o} (other : Scheduled gatesHosts gatesEngine _ [l] w o) :=
    text_same_in_all_schedules pure_gatesEngine once hears once hears prompt' complete other
  exact ⟨prompt, (w, o), late, done, complete, text, pending, heard, complete', (same begun').1, (same late').2 complete'⟩

end Stencil
