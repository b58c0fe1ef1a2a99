import Stencil.Proofs.Render.Results
import Stencil.Proofs.Render.Rounds
import Stencil.Proofs.Render.Steps

/-! The items of a stream. Whoever takes items until there is none ready takes all the events that one call of the driver
    tells, since between two items nothing is left to be done; and what a collector gives can be read off the items. -/

namespace Stencil

open RenderM Render

variable {w w' : World} {o u : OutputStream} {steps count enough : Nat} {told : List Event} {p : Progress} {output : String}

namespace Item

def text? : Item → Option String
  | .text s => some s
  | .pending | .failed _ | .finished => none

/-- How far a render has come whose stream has given these items. -/
def progress : List Item → Progress
  | [] => .pending
  | .text _ :: rest | .pending :: rest => progress rest
  | .failed _ :: _ => .failed
  | .finished :: _ => .complete

/-- What a collector makes of items: what it gives, and the output that it keeps. -/
def gather (output : String) : List Item → Option (Except Error String) × String
  | [] | .pending :: _ => (none, output)
  | .text s :: rest => gather (output ++ s) rest
  | .failed error :: _ => (some (.error error), output)
  | .finished :: _ => (some (.ok output), "")

end Item

namespace Event

def text? : Event → Option String
  | .data s => some s
  | .finished | .failed _ => none

/-- The items that events are given as. -/
def items (p : Progress) : List Event → List Item
  | [] => [if p = .pending then .pending else .finished]
  | .data s :: rest => .text s :: items p rest
  | .finished :: _ => [.finished]
  | .failed error :: _ => [.failed error]

/-- The items of texts that come in front. -/
theorem items_append (p : Progress) (texts : List String) (last : List Event) :
    items p (texts.map .data ++ last) = texts.map .text ++ items p last := by
  induction texts with
  | nil => rfl
  | cons text texts ih => exact congrArg (Item.text text :: ·) ih

end Event

namespace Item

theorem gather_append (texts : List String) (rest : List Item) :
    gather output (texts.map .text ++ rest) = gather (output ++ Event.join (texts.map .data)) rest := by
  induction texts generalizing output with
  | nil =>
    rw [show Event.join ([].map Event.data) = "" from rfl, String.append_empty]
    rfl
  | cons text texts ih =>
    rw [List.map_cons, List.map_cons, Event.join_cons, ← String.append_assoc]
    exact ih

/-- A collector gives the result that the events that wait make of its output. -/
theorem gather_items (output : String) {events : List Event} (script : p.Script events) :
    (gather output (Event.items p events)).1 = (Event.result events).map (·.map (output ++ ·)) ∧
      (p = .pending → (gather output (Event.items p events)).2 = output ++ Event.join events) := by
  obtain ⟨texts, last, -, closes, rfl⟩ := script
  rw [Event.items_append, gather_append, Event.result_append, Event.join_append]
  cases p with
  | pending =>
    cases closes
    rw [show Event.join [] = "" from rfl, String.append_empty]
    exact ⟨rfl, fun _ => rfl⟩
  | complete =>
    cases closes
    refine ⟨?_, nofun⟩
    show some (Except.ok _) = some (Except.ok (output ++ (_ ++ "")))
    rw [String.append_empty]
  | failed =>
    obtain ⟨error, rfl⟩ := closes
    exact ⟨rfl, nofun⟩

end Item

namespace OutputStream

/-- Takes items, no more than a number of them, up to the first that is no text. -/
def takeAll (steps : Nat) : (count : Nat) → World → OutputStream → Except Halt (List Item × World × OutputStream)
  | 0, _, _ => .error .outOfSteps
  | count + 1, w, o => do
    let (item, w, o) ← o.pollNext steps w
    match item with
    | .text s =>
      let (items, w, o) ← takeAll steps count w o
      pure (.text s :: items, w, o)
    | item => pure ([item], w, o)

/-- The stream once all its events have been told and its end, if it has ended, has been given as an item. -/
def drained (o : OutputStream) : OutputStream := { o.tellAll with exhausted := o.progress ≠ .pending }

theorem takeAll_of_exhausted (exhausted : o.exhausted = true) :
    o.takeAll steps (count + 1) w = .ok ([.finished], w, o) := by
  unfold takeAll
  rw [pollNext_of_exhausted exhausted]
  rfl

/-- What can be done without waiting is done at the first item. -/
theorem takeAll_of_advance (fresh : o.exhausted = false) (fresh' : u.exhausted = false)
    (advanced : o.advance steps w = .ok (w', u)) (still : u.advance steps w' = .ok (w', u)) :
    o.takeAll steps count w = u.takeAll steps count w' := by
  cases count with
  | zero => rfl
  | succ count =>
    unfold takeAll
    rw [pollNext_eq_take fresh, pollNext_eq_take fresh', advanced, still]

theorem tellAll_of_cons {event : Event} {rest : List Event} (waiting : o.render.events = event :: rest) :
    o.tellAll = ({ o with render := { o.render with events := rest } }.tell event).tellAll := by
  unfold tellAll
  rw [waiting]
  rfl

theorem progress_tellAll (o : OutputStream) : o.tellAll.progress = o.progress := by
  rw [tellAll_eq]
  rfl

theorem tellAll_of_nil (waiting : o.render.events = []) : o.tellAll = o := by
  unfold tellAll
  rw [waiting, List.foldl_nil, ← waiting]

/-- Where nothing is left to be done, the first item is the first of the events. -/
theorem takeAll_succ (fresh : o.exhausted = false) (idle : o.advance steps w = .ok (w, o)) :
    o.takeAll steps (count + 1) w = match o.take with
      | (.text s, u) => (u.takeAll steps count w).map fun (items, w, u) => (.text s :: items, w, u)
      | (item, u) => .ok ([item], w, u) := by
  rw [takeAll, pollNext_eq_take fresh, idle]
  dsimp only [Except.map, bind, Except.bind]
  obtain ⟨item, u⟩ := o.take
  cases item with
  | text s =>
    dsimp only
    cases u.takeAll steps count w <;> rfl
  | _ => rfl

theorem take_of_nil (fresh : o.exhausted = false) (waiting : o.render.events = []) :
    o.take = (if o.progress = .pending then .pending else .finished, o.drained) := by
  unfold take drained
  rw [nextEvent_eq_none.mpr waiting, tellAll_of_nil waiting]
  dsimp only
  split
  · next pending => rw [decide_eq_false (not_not_intro pending), ← fresh]
  · next ended => rw [decide_eq_true ended]

/-- The end and the error come last of a render that has ended. -/
theorem last_of_script {event : Event} {rest : List Event} (script : p.Script (told ++ event :: rest))
    (last : ∀ text, event ≠ .data text) : rest = [] ∧ p ≠ .pending := by
  constructor
  · rw [List.append_cons] at script
    exact script.nothing_more (List.mem_append_right _ (List.mem_singleton_self event)) last
  · rintro rfl
    obtain ⟨texts, -, same⟩ := script.texts
    obtain ⟨text, -, no⟩ := List.mem_map.mp (same ▸ List.mem_append_right told List.mem_cons_self)
    exact last text no.symm

/-- The stream of which one last event waits to be told. -/
theorem drained_of_singleton {event : Event} (waiting : o.render.events = [event]) (ended : o.progress ≠ .pending) :
    o.drained = { { o with render := { o.render with events := [] } }.tell event with exhausted := true } := by
  unfold drained
  rw [tellAll_of_cons waiting, tellAll_of_nil rfl, decide_eq_true ended]

/-- All that waits to be told is taken where nothing is left to be done. -/
theorem Still.takeAll (still : o.Still enough w) (le : enough ≤ steps) (pos : 0 < steps) (fresh : o.exhausted = false)
    (script : o.progress.Script (told ++ o.render.events)) (more : o.render.events.length < count) :
    o.takeAll steps count w = .ok (Event.items o.progress o.render.events, w, o.drained) := by
  generalize waiting : o.render.events = events at script more
  induction events generalizing o told count with
  | nil =>
    obtain ⟨count, rfl⟩ := Nat.exists_eq_succ_of_ne_zero (Nat.ne_of_gt more)
    rw [takeAll_succ fresh (still.advance le pos), take_of_nil fresh waiting, Event.items]
    by_cases pending : o.progress = .pending
    · rw [if_pos pending]
    · rw [if_neg pending]
  | cons event rest ih =>
    obtain ⟨count, rfl⟩ := Nat.exists_eq_succ_of_ne_zero (Nat.ne_of_gt (Nat.zero_lt_of_lt more))
    rw [takeAll_succ fresh (still.advance le pos)]
    have next : o.nextEvent = some (event, { o with render := { o.render with events := rest } }.tell event) := by
      unfold nextEvent
      rw [waiting]
    unfold take
    rw [next]
    cases event with
    | data text =>
      have script' : o.progress.Script ((told ++ [.data text]) ++ rest) := List.append_cons .. ▸ script
      have behind := ih (o := { o with render := { o.render with events := rest } }.tell (.data text))
        ⟨still.called, still.blocked⟩ fresh rfl script' (Nat.lt_of_succ_lt_succ more)
      dsimp only
      rw [behind]
      show Except.ok (Item.text text :: _, w, _) = Except.ok (Item.text text :: _, w, _)
      unfold drained
      rw [tellAll_of_cons waiting]
      rfl
    | finished =>
      obtain ⟨rfl, ended⟩ := last_of_script script nofun
      rw [drained_of_singleton waiting ended]
      rfl
    | failed error =>
      obtain ⟨rfl, ended⟩ := last_of_script script nofun
      rw [drained_of_singleton waiting ended]
      rfl

theorem pollNext_of_le (le : enough ≤ steps) {r : Item × World × OutputStream} (polled : o.pollNext enough w = .ok r) :
    o.pollNext steps w = .ok r := by
  cases exhausted : o.exhausted with
  | true =>
    rw [pollNext_of_exhausted exhausted] at polled ⊢
    exact polled
  | false =>
    rw [pollNext_eq_take exhausted] at polled ⊢
    obtain ⟨u, advanced, same⟩ := map_eq_ok.mp polled
    exact map_eq_ok.mpr ⟨u, advance_of_le le advanced, same⟩

/-- With more steps the same items are taken. -/
theorem takeAll_of_le {fewer : Nat} (le : enough ≤ steps) (le' : fewer ≤ count) {r : List Item × World × OutputStream}
    (taken : o.takeAll enough fewer w = .ok r) : o.takeAll steps count w = .ok r := by
  induction fewer generalizing o w count r with
  | zero => cases taken
  | succ fewer ih =>
    obtain ⟨count, rfl⟩ := Nat.exists_eq_succ_of_ne_zero (Nat.ne_of_gt (Nat.zero_lt_of_lt le'))
    obtain ⟨⟨item, v, u⟩, polled, rest⟩ := bind_eq_ok.mp taken
    refine bind_eq_ok.mpr ⟨_, pollNext_of_le le polled, ?_⟩
    cases item with
    | text s =>
      obtain ⟨r, taken, same⟩ := bind_eq_ok.mp rest
      exact bind_eq_ok.mpr ⟨r, ih (Nat.le_of_succ_le_succ le') taken, same⟩
    | _ => exact rest

/-- One call tells what the items are that can be taken instead, given steps enough. -/
theorem takeAll_of_call (awaits : o.Awaits) (fresh : o.exhausted = false)
    (script : o.progress.Script (told ++ o.render.events)) (advanced : o.advance enough w = .ok (w', u))
    (le : enough ≤ steps) (more : u.render.events.length < steps) :
    o.takeAll steps steps w = .ok (Event.items u.progress u.render.events, w', u.drained) := by
  have advanced := advance_of_le le advanced
  obtain ⟨goes, same⟩ := goes_advance awaits advanced
  have fresh' : u.exhausted = false := by
    rw [same]
    exact fresh
  have pos : 0 < steps := Nat.zero_lt_of_lt more
  have still := still_advance advanced
  rw [takeAll_of_advance fresh fresh' advanced (still.advance (Nat.le_refl steps) pos)]
  exact still.takeAll (Nat.le_refl steps) pos fresh' (goes.script script) more

/-- A call of a stream that has ended does nothing. -/
theorem eq_of_advance_ended (awaits : o.Awaits) (ended : o.progress ≠ .pending) (advanced : o.advance steps w = .ok (w', u)) :
    w' = w ∧ u = o := by
  have same := advance_of_le (Nat.le_succ steps) advanced
  rw [advance_of_ended (awaits.called ended) ended (Nat.succ_pos steps)] at same
  cases same
  exact ⟨rfl, rfl⟩

/-- Items cannot be taken where a call does not come to an end. -/
theorem exists_advance_of_takeAll (fresh : o.exhausted = false) {r : List Item × World × OutputStream}
    (taken : o.takeAll steps count w = .ok r) : ∃ r, o.advance steps w = .ok r := by
  cases count with
  | zero => cases taken
  | succ count =>
    obtain ⟨_, polled, -⟩ := bind_eq_ok.mp taken
    rw [pollNext_eq_take fresh] at polled
    obtain ⟨r, advanced, -⟩ := map_eq_ok.mp polled
    exact ⟨r, advanced⟩

end OutputStream

namespace Collector

/-- A collector makes its result of the items that it takes. -/
theorem takeItems_eq (c : Collector) : c.takeItems steps count w = (c.stream.takeAll steps count w).map
    fun (items, w, stream) => ((Item.gather c.output items).1, w, ⟨stream, (Item.gather c.output items).2⟩) := by
  induction count generalizing c w with
  | zero => rfl
  | succ count ih =>
    unfold takeItems OutputStream.takeAll
    cases c.stream.pollNext steps w with
    | error reason => rfl
    | ok r =>
      obtain ⟨item, w, stream⟩ := r
      dsimp only [bind, Except.bind]
      cases item with
      | text s =>
        dsimp only
        rw [ih]
        cases stream.takeAll steps count w <;> rfl
      | pending => rfl
      | failed error => rfl
      | finished => rfl

/-- With more steps a collector gives the same. -/
theorem poll_of_le {c : Collector} (le : enough ≤ steps) {r : Option (Except Error String) × World × Collector}
    (polled : c.poll enough w = .ok r) : c.poll steps w = .ok r := by
  unfold poll at polled ⊢
  rw [takeItems_eq] at polled ⊢
  obtain ⟨taken, took, rest⟩ := map_eq_ok.mp polled
  exact map_eq_ok.mpr ⟨taken, OutputStream.takeAll_of_le le le took, rest⟩

end Collector

end Stencil
