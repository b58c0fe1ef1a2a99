import Stencil.Proofs.Render.Drafts
import Stencil.Proofs.Render.Loading
import Stencil.Proofs.Render.Purity

/-! What code adds to the output. Code that ends well, run where it may write, adds to the draft where its writer stands:
    text, gaps for the work that it parks, and what work adds that is done at once. -/

namespace Stencil

/-- The engine, its settings read for a render on the side. -/
def Engine.readAside (e : Engine) : Engine := e.read (.aside e.config.cache e.config.maxPartialDepth)

namespace RenderM

open Render

variable {α β : Type} {hosts : Host → Prop} {e : Engine} {s t u : Stage} {id : ChunkId} {x : RenderM Unit}

/-! ### Runs that end well -/

theorem run_writer_of_cons {rest : List ChunkId} (writing : s.render.writers = id :: rest) :
    writer.run s = .ok (.ok id, s) := by
  unfold writer
  rw [run_bind_of_ok (run_get s), writing]
  rfl

theorem run_writer_ok (wrote : writer.run s = .ok (.ok id, t)) : t = s ∧ ∃ rest, s.render.writers = id :: rest := by
  obtain ⟨_, _, here, wrote⟩ := run_bind_eq_ok_ok.mp wrote
  cases here
  split at wrote
  · next id' rest writing =>
    cases wrote
    exact ⟨rfl, rest, writing⟩
  · cases wrote

theorem run_reserve (sound : s.render.Sound) {rest : List ChunkId} (writing : s.render.writers = id :: rest) :
    ∃ new cs, s.render.chunks.insertAfter id = .ok (new, cs) ∧ reserve.run s = .ok (.ok id,
      { s with render := { s.render with chunks := cs, writers := new :: s.render.writers.tail } }) := by
  obtain ⟨new, cs, done⟩ := (sound.isOpen_writer writing).exists_insertAfter
  refine ⟨new, cs, done, (run_bind_of_ok (run_writer_of_cons writing)).trans ?_⟩
  show RenderM.run (rightful (s.render.chunks.insertAfter id) >>= fun made => _) s = _
  rw [done]
  rfl

theorem run_finish_ok (done : finish.run s = .ok (.ok (), t)) : ∃ last rest cs, s.render.writers = last :: rest ∧
    s.render.chunks.finish last = .ok cs ∧
    t = { s with render := { s.render with chunks := cs, writers := s.render.writers.tail } } := by
  obtain ⟨_, _, here, done⟩ := run_bind_eq_ok_ok.mp done
  cases here
  obtain ⟨last, u, wrote, done⟩ := run_bind_eq_ok_ok.mp done
  obtain ⟨rfl, rest, writing⟩ := run_writer_ok wrote
  cases finished : u.render.chunks.finish last with
  | error e =>
    rw [finished] at done
    cases done
  | ok cs =>
    rw [finished] at done
    cases done
    exact ⟨last, rest, cs, writing, finished, rfl⟩

theorem run_within_ok (done : (within id x).run s = .ok (.ok (), t)) :
    ∃ u last rest cs, x.run { s with render := { s.render with writers := id :: s.render.writers } } = .ok (.ok (), u) ∧
      u.render.writers = last :: rest ∧ u.render.chunks.finish last = .ok cs ∧
      t = { u with render := { u.render with chunks := cs, writers := u.render.writers.tail } } := by
  obtain ⟨_, _, entered, done⟩ := run_bind_eq_ok_ok.mp done
  cases entered
  obtain ⟨o, u, ran, done⟩ := run_bind_eq_ok_ok.mp done
  have ran := run_attempt_eq_ok_ok.mp ran
  cases o with
  | error e => cases done
  | ok _ =>
    obtain ⟨last, rest, cs, writing, finished, rfl⟩ := run_finish_ok done
    exact ⟨u, last, rest, cs, ran, writing, finished, rfl⟩

theorem run_takeUp_ok {wait : Wait} (done : (takeUp id wait x).run s = .ok (.ok (), t)) :
    ∃ u, (within id x).run { s with render := { s.render with journal := .taken wait :: s.render.journal } } =
        .ok (.ok (), u) ∧
      t = { u with render := { u.render with journal := .finished wait :: u.render.journal } } := by
  obtain ⟨_, _, noted, done⟩ := run_bind_eq_ok_ok.mp done
  cases noted
  obtain ⟨o, u, ran, done⟩ := run_bind_eq_ok_ok.mp done
  have ran := run_attempt_eq_ok_ok.mp ran
  cases o with
  | error e => cases done
  | ok _ =>
    cases done
    exact ⟨u, ran, rfl⟩

theorem run_toText_ok {template : Option String} {text : String}
    (done : (toText template x).run s = .ok (.ok text, t)) :
    ∃ u, (within Chunks.root x).run
        { s with engine := s.engine.readAside, render := { config := s.engine.config } } = .ok (.ok (), u) ∧
      u.render.tasks = [] ∧ text = u.render.chunks.flush.1 ∧ t = { u with render := s.render } := by
  obtain ⟨_, _, here, done⟩ := run_bind_eq_ok_ok.mp done
  cases here
  obtain ⟨_, _, here, done⟩ := run_bind_eq_ok_ok.mp done
  cases here
  obtain ⟨_, _, begun, done⟩ := run_bind_eq_ok_ok.mp done
  cases begun
  obtain ⟨o, u, ran, done⟩ := run_bind_eq_ok_ok.mp done
  have ran := run_attempt_eq_ok_ok.mp ran
  cases o with
  | error e => cases done
  | ok found =>
    cases done
    obtain ⟨_, v, inner, ended⟩ := run_bind_eq_ok_ok.mp ran
    change RenderM.run (if v.render.tasks.isEmpty then _ else _) v = _ at ended
    split at ended
    · next empty =>
      cases ended
      exact ⟨u, inner, List.isEmpty_iff.mp empty, rfl, rfl⟩
    · cases ended

/-! ### Code that writes -/

/-- A pure stage where code may write. -/
structure Ready (hosts : Host → Prop) (e : Engine) (s : Stage) : Prop where
  pure : s.Pure hosts e
  sound : s.render.Sound
  writing : s.render.writers ≠ []

/-- Code that ends well where it may write keeps what others rely on, adds to the output, leaves a pure stage, and gives
    a result with a property. -/
def Writes (hosts : Host → Prop) (e : Engine) (V : α → Prop) (x : RenderM α) : Prop := ∀ ⦃s t : Stage⦄ ⦃a : α⦄,
  Ready hosts e s → x.run s = .ok (.ok a, t) →
    V a ∧ t.Pure hosts e ∧ Kept s.render t.render ∧ ∃ added, Adds s.render t.render added

variable {V : α → Prop} {W : β → Prop}

theorem Ready.of_kept (kept : Kept s.render t.render) (pure : t.Pure hosts e) : Ready hosts e t :=
  ⟨pure, kept.sound, kept.writing⟩

theorem Writes.ready {x : RenderM α} (hx : Writes hosts e V x) (ready : Ready hosts e s) {a : α}
    (done : x.run s = .ok (.ok a, t)) : Ready hosts e t := by
  obtain ⟨-, pure, kept, -⟩ := hx ready done
  exact .of_kept kept pure

theorem Quiet.still {x : RenderM α} {P : Except Error α → Prop} (quiet : Quiet P x) (ready : Ready hosts e s)
    {o : Except Error α} (done : x.run s = .ok (o, t)) : t.render = { s.render with loads := t.render.loads } ∧
      Kept s.render t.render ∧ Adds s.render t.render [] := by
  have same := (quiet s).passes (passes_last done)
  refine ⟨same, ?_⟩
  rw [same]
  exact ⟨⟨⟨ready.sound.owned, ready.sound.linked⟩, ready.writing, rfl, rfl, .of_eq rfl rfl rfl rfl rfl⟩,
    .of_eq ready.sound ready.writing rfl rfl rfl rfl⟩

namespace Writes

theorem pure {a : α} (h : V a) : Writes hosts e V (pure a) := by
  intro _ _ _ ready done
  cases done
  exact ⟨h, ready.pure, .refl ready.sound ready.writing, [], .refl ready.sound ready.writing⟩

theorem throw (V : α → Prop) (error : Error) : Writes hosts e V (throw error) := by
  intro _ _ _ _ done
  cases done

theorem bind {x : RenderM α} {f : α → RenderM β} (hx : Writes hosts e V x) (hf : ∀ a, V a → Writes hosts e W (f a)) :
    Writes hosts e W (x >>= f) := by
  intro s t b ready done
  obtain ⟨a, u, first, second⟩ := run_bind_eq_ok_ok.mp done
  obtain ⟨value, pure, kept, added, adds⟩ := hx ready first
  obtain ⟨value', pure', kept', added', adds'⟩ := hf a value (.of_kept kept pure) second
  exact ⟨value', pure', kept.trans kept', added ++ added', adds.trans adds'⟩

theorem mono {V' : α → Prop} {x : RenderM α} (hx : Writes hosts e V x) (imp : ∀ a, V a → V' a) :
    Writes hosts e V' x := by
  intro _ _ _ ready done
  obtain ⟨value, rest⟩ := hx ready done
  exact ⟨imp _ value, rest⟩

theorem mapError {x : RenderM α} (hx : Writes hosts e V x) (g : Error → Error) : Writes hosts e V (mapError g x) :=
  fun _ _ _ ready done => hx ready (run_mapError_eq_ok_ok.mp done)

end Writes

theorem adds_write {text : String} (ready : Ready hosts e s) (done : (write text).run s = .ok (.ok (), t)) :
    t.Pure hosts e ∧ Kept s.render t.render ∧ Adds s.render t.render (Draft.ofText text) := by
  obtain ⟨kept, -⟩ := (Keeps.write text s ready.sound ready.writing).ends done
  change RenderM.run (if text.isEmpty then _ else _) s = _ at done
  split at done
  · next empty =>
    cases done
    rw [String.isEmpty_iff.mp empty]
    exact ⟨ready.pure, kept, .refl ready.sound ready.writing⟩
  · obtain ⟨id, rest, writing⟩ := List.exists_cons_of_ne_nil ready.writing
    obtain ⟨_, _, here, done⟩ := run_bind_eq_ok_ok.mp done
    cases here
    obtain ⟨_, _, wrote, done⟩ := run_bind_eq_ok_ok.mp done
    rw [run_writer_of_cons writing] at wrote
    cases wrote
    cases written : s.render.chunks.write id text with
    | error e =>
      rw [written] at done
      cases done
    | ok cs =>
      rw [written] at done
      cases done
      refine ⟨⟨ready.pure.host, ready.pure.engine, ready.pure.config, ready.pure.loads, ready.pure.tasks⟩, kept, ?_⟩
      exact Render.adds_write ready.sound writing written

/-- What code adds to a new render is the whole draft of it. -/
theorem adds_root {config : Config} (hx : Writes hosts e (fun _ => True) x) (pure : s.Pure hosts e)
    (begun : s.render = { config }) (done : (within Chunks.root x).run s = .ok (.ok (), t)) :
    t.Pure hosts e ∧ t.render.Sound ∧ (t.render.tasks = [] → t.render.chunks.openCount = 0) ∧
      ∃ s' t' ids, Ready hosts e s' ∧ x.run s' = .ok (.ok (), t') ∧ t.render.chunks.Linked ids ∧
        Adds s'.render t'.render (t.render.draft ids) := by
  obtain ⟨v, last, rest, cs, ran, writing, finished, rfl⟩ := run_within_ok done
  obtain ⟨w, r⟩ := s
  cases begun
  obtain ⟨sound, spare⟩ := sound_new config
  let s' : Stage := { w with render := { config, writers := [Chunks.root] } }
  have ready : Ready hosts e s' :=
    ⟨⟨pure.host, pure.engine, pure.config, pure.loads, pure.tasks⟩, sound.enter spare, List.cons_ne_nil _ _⟩
  obtain ⟨-, pure', kept, added, adds⟩ := hx ready ran
  obtain ⟨ids, linked, rfl⟩ := draft_root adds finished
  refine ⟨⟨pure'.host, pure'.engine, pure'.config, pure'.loads, pure'.tasks⟩, kept.sound.finish writing finished,
    fun tasks => openCount_root kept finished writing tasks adds.failed, s', v, ids, ready, ran, linked, adds⟩

/-- A text rendered on the side is what code adds to a render of its own. -/
theorem adds_toText {template : Option String} {text : String} (hx : Writes hosts e (fun _ => True) x)
    (ready : Ready hosts e s) (done : (toText template x).run s = .ok (.ok text, t)) :
    t.Pure hosts e ∧ t.render = s.render ∧ ∃ s' t', Ready hosts e s' ∧ x.run s' = .ok (.ok (), t') ∧
      Adds s'.render t'.render (Draft.ofText text) := by
  obtain ⟨u, inside, tasks, rfl, rfl⟩ := run_toText_ok done
  have side : Stage.Pure hosts e
      { s with engine := s.engine.readAside, render := { config := s.engine.config } } :=
    ⟨ready.pure.host, ready.pure.engine.read _, ready.pure.engine.config, (fun no => by cases no), by simp⟩
  obtain ⟨pure, sound, ended, s', v, ids, ready', ran, linked, adds⟩ := adds_root hx side rfl inside
  rw [sound.draft_eq_flush (ended tasks) linked] at adds
  exact ⟨⟨pure.host, pure.engine, ready.pure.config, ready.pure.loads, ready.pure.tasks⟩, rfl, s', v, ready', ran, adds⟩

/-! ### Work put off -/

/-- The work that a wait leads to when it ends well. -/
def Leads (hosts : Host → Prop) (e : Engine) (render : Renderer) : Wait → RenderM Unit → Prop
  | .text future resume, x => ∃ text host, hosts host ∧ future host = some (.ok text) ∧
    x = do let _ ← (resume text).run render
  | .load name context, x => ∃ t, e.Finds hosts name t ∧ x = template render t context

/-- Some run of the work that a wait leads to adds this. -/
def Does (hosts : Host → Prop) (e : Engine) (render : Renderer) (wait : Wait) (added : Draft) : Prop := ∃ x s t,
  Leads hosts e render wait x ∧ Ready hosts e s ∧ x.run s = .ok (.ok (), t) ∧ Adds s.render t.render added

/-- Code that ends well either leaves a gap for a wait or adds what the work of the wait does. -/
def Puts (hosts : Host → Prop) (e : Engine) (render : Renderer) (wait : Wait) (x : RenderM Unit) : Prop :=
  ∀ ⦃s t : Stage⦄, Ready hosts e s → x.run s = .ok (.ok (), t) → t.Pure hosts e ∧ Kept s.render t.render ∧
    ∃ added, Adds s.render t.render added ∧ (added = [.gap wait] ∨ Does hosts e render wait added)

/-- What a poll finds once the wait is over: the work that it leads to, or an error. -/
def Polls (hosts : Host → Prop) (e : Engine) (render : Renderer) (wait : Wait) (poll : RenderM (Option (RenderM Unit))) :
    Prop :=
  ∀ ⦃s t : Stage⦄ ⦃found : Option (RenderM Unit)⦄, s.Pure hosts e → poll.run s = .ok (.ok found, t) → t.Pure hosts e ∧
    ∀ x, found = some x → Leads hosts e render wait x ∨ ∃ error, x = throw error

variable {render : Renderer} {wait : Wait}

theorem Puts.writes (h : Puts hosts e render wait x) : Writes hosts e (fun _ => True) x := by
  intro _ _ _ ready done
  obtain ⟨pure, kept, added, adds, -⟩ := h ready done
  exact ⟨trivial, pure, kept, added, adds⟩

theorem polls_pollText {future : Future String} {resume : String → Program} :
    Polls hosts e render (.text future resume) (pollText future fun text => do let _ ← (resume text).run render) := by
  intro s t found pure done
  rw [run_pollText] at done
  cases done
  refine ⟨pure, fun x same => ?_⟩
  obtain ⟨outcome, there, rfl⟩ := Option.map_eq_some_iff.mp same
  cases outcome with
  | error error => exact Or.inr ⟨error, rfl⟩
  | ok text => exact Or.inl ⟨text, _, pure.host, there, rfl⟩

theorem polls_pollTemplate {name : String} {context : Context} :
    Polls hosts e render (.load name context) (pollTemplate name fun t => template render t context) := by
  intro s t found pure done
  obtain ⟨result, u, loaded, done⟩ := run_bind_eq_ok_ok.mp done
  obtain ⟨pure', finds⟩ := pure_pollLoad pure loaded
  cases result with
  | none =>
    cases done
    exact ⟨pure', fun _ no => by cases no⟩
  | some outcome =>
    cases outcome with
    | error error =>
      cases done
      exact ⟨pure', fun _ same => by cases same; exact Or.inr ⟨error, rfl⟩⟩
    | ok t =>
      cases done
      exact ⟨pure', fun _ same => by cases same; exact Or.inl ⟨t, finds t rfl, rfl⟩⟩

/-- What work adds that is done in a chunk kept for it, is put in there. -/
theorem inserts_takeUp (hx : Writes hosts e (fun _ => True) x) (pure : s.Pure hosts e) (sound : s.render.Sound)
    (spare : s.render.Spare id) (done : (takeUp id wait x).run s = .ok (.ok (), t)) :
    t.Pure hosts e ∧ ∃ s' t' added, Ready hosts e s' ∧ x.run s' = .ok (.ok (), t') ∧ Adds s'.render t'.render added ∧
      Inserts s.render t.render id added := by
  obtain ⟨u, inside, rfl⟩ := run_takeUp_ok done
  obtain ⟨v, last, rest, cs, ran, writing, finished, rfl⟩ := run_within_ok inside
  let s' : Stage := { s with render := { s.render with
    journal := .taken wait :: s.render.journal, writers := id :: s.render.writers } }
  have entered := sound.enter spare
  have ready : Ready hosts e s' := ⟨⟨pure.host, pure.engine, pure.config, pure.loads, pure.tasks⟩,
    ⟨entered.owned, entered.linked⟩, List.cons_ne_nil _ _⟩
  obtain ⟨-, pure', kept, added, adds⟩ := hx ready ran
  refine ⟨⟨pure'.host, pure'.engine, pure'.config, pure'.loads, pure'.tasks⟩, s', v, added, ready, ran, adds, ?_⟩
  exact inserts_of_adds (r := { s.render with journal := .taken wait :: s.render.journal }) adds finished

/-- Work that is put off leaves a gap, or is done. -/
theorem puts_putOff {poll : RenderM (Option (RenderM Unit))} {P : Except Error (Option (RenderM Unit)) → Prop}
    (keeps : Keeps (fun _ => True) (putOff wait poll)) (pure : wait.Pure hosts) (polls : Polls hosts e render wait poll)
    (quiet : Quiet P poll) (hx : ∀ x, Leads hosts e render wait x → Writes hosts e (fun _ => True) x) :
    Puts hosts e render wait (putOff wait poll) := by
  intro s t ready done
  obtain ⟨kept, -⟩ := (keeps s ready.sound ready.writing).ends done
  obtain ⟨before, id, after, rest, stands⟩ := ready.sound.exists_stands ready.writing
  obtain ⟨new, cs, made, reserved⟩ := run_reserve ready.sound stands.writers
  obtain ⟨sound, spare⟩ := ready.sound.reserve stands.writers made
  let v : Stage := { s with render := { s.render with
    chunks := cs, writers := new :: s.render.writers.tail, journal := .deferred wait :: s.render.journal } }
  have pureV : v.Pure hosts e :=
    ⟨ready.pure.host, ready.pure.engine, ready.pure.config, ready.pure.loads, ready.pure.tasks⟩
  unfold putOff at done
  rw [run_bind_of_ok reserved] at done
  obtain ⟨_, _, noted, done⟩ := run_bind_eq_ok_ok.mp done
  cases noted
  obtain ⟨found, u, polled, done⟩ := run_bind_eq_ok_ok.mp done
  change poll.run v = _ at polled
  have same := (quiet v).passes (passes_last polled)
  obtain ⟨pure', works⟩ := polls pureV polled
  have soundU : u.render.Sound := by
    rw [same]
    exact ⟨sound.owned, sound.linked⟩
  have spareU : u.render.Spare id := by
    rw [same]
    exact spare
  obtain ⟨standsU, empty, adds⟩ : Stands u.render (before ++ [id]) new after rest ∧ u.render.pieces new = [] ∧
      Adds s.render u.render [] := by
    rw [same]
    exact adds_reserve ready.sound stands made rfl rfl rfl rfl
  cases found with
  | none =>
    cases done
    refine ⟨⟨pure'.host, pure'.engine, pure'.config, pure'.loads, fun task mem => ?_⟩, kept, _,
      adds.trans ((inserts_park standsU.linked spareU).adds standsU empty), Or.inl rfl⟩
    change task ∈ u.render.tasks ++ [⟨id, wait⟩] at mem
    rcases List.mem_append.mp mem with mem | mem
    · exact pure'.tasks task mem
    · cases List.mem_singleton.mp mem
      exact pure
  | some x =>
    rcases works x rfl with leads | ⟨error, rfl⟩
    · obtain ⟨pure'', s', t', added, ready', ran, adds', inserts⟩ := inserts_takeUp (hx x leads) pure' soundU spareU done
      exact ⟨pure'', kept, added, adds.trans (inserts.adds standsU empty), Or.inr ⟨x, s', t', leads, ready', ran, adds'⟩⟩
    · obtain ⟨_, inside, -⟩ := run_takeUp_ok done
      obtain ⟨_, _, _, _, ran, -⟩ := run_within_ok inside
      cases ran

/-- The template of a name is rendered, or the name is left as a gap while it loads. -/
theorem puts_named (hr : ∀ body context, Keeps (fun _ => True) (render body context)) {name : String} {context : Context}
    (hx : ∀ t, e.Finds hosts name t → Writes hosts e (fun _ => True) (template render t context)) :
    Puts hosts e render (.load name context) (named render name context) := by
  intro s t ready done
  obtain ⟨found, _, looked, done⟩ := run_bind_eq_ok_ok.mp done
  cases looked
  cases look : s.engine.lookup name s.render.config.cache with
  | some tpl =>
    rw [look] at done
    have finds : e.Finds hosts name tpl := ready.pure.engine.finds (ready.pure.config ▸ look)
    obtain ⟨-, pure, kept, added, adds⟩ := hx tpl finds ready done
    exact ⟨pure, kept, added, adds, Or.inr ⟨_, s, t, ⟨tpl, finds, rfl⟩, ready, done, adds⟩⟩
  | none =>
    rw [look] at done
    obtain ⟨_, u, started, done⟩ := run_bind_eq_ok_ok.mp done
    obtain ⟨-, kept, adds⟩ := (Quiet.startLoad name context.templateName).still ready started
    have ready' : Ready hosts e u := .of_kept kept (pure_startLoad ready.pure look started)
    have quiet : Quiet _ (pollTemplate name fun t => template render t context) :=
      Quiet.pollTemplate (fun t => Coupling.Whole.template (C := keeping) (keeps_self hr) t context) Keeps.throw
    have puts : Puts hosts e render (.load name context) (putOff _ (pollTemplate name _)) :=
      puts_putOff (Keeps.putOff quiet) (show Wait.Pure hosts (.load name context) from trivial) polls_pollTemplate quiet
      fun x leads => by
        obtain ⟨t, finds, rfl⟩ := leads
        exact hx t finds
    obtain ⟨pure, kept', added, adds', what⟩ := puts ready' done
    exact ⟨pure, kept.trans kept', added, adds.trans adds', what⟩

end RenderM
end Stencil
