import Mathlib.Data.List.Forall2
import Stencil.Proofs.Render.Level
import Stencil.Proofs.Render.Results

/-! Keeping templates does not show. Where the loader answers at once and always alike, it makes no difference to the results
    of renders whether the engine keeps templates, nor which it has kept: each render gives the same text or the same error. -/

namespace Stencil

open RenderM Render

variable {sources : Sources} {e : Engine} {w w' v v' : World} {o o' u u' : OutputStream} {m : Move}

/-- A call has a step at least, and other code does not do different things where engines keep different templates. -/
def Move.Fair (sources : Sources) (e : Engine) : Move → Prop
  | .runUntilStalled steps | .pollNext steps => 0 < steps
  | .others change => ∀ {w w'}, Peers sources e w w' → Peers sources e (change w) (change w')

/-! ### Two streams of one job -/

/-- Both stop for one reason, or come to related ends. -/
inductive Parallel {α β : Type} (P : α → β → Prop) : Except Halt α → Except Halt β → Prop
  | halt (reason : Halt) : Parallel P (.error reason) (.error reason)
  | done {a : α} {b : β} : P a b → Parallel P (.ok a) (.ok b)

theorem Parallel.bind {α β γ δ : Type} {P : α → β → Prop} {Q : γ → δ → Prop} {x : Except Halt α} {y : Except Halt β}
    {f : α → Except Halt γ} {g : β → Except Halt δ} (h : Parallel P x y)
    (next : ∀ a b, x = .ok a → y = .ok b → P a b → Parallel Q (f a) (g b)) : Parallel Q (x >>= f) (y >>= g) := by
  cases h with
  | halt reason => exact .halt reason
  | done related => exact next _ _ rfl rfl related

namespace OutputStream

/-- The stream of a job has not been driven yet. -/
structure Fresh (e : Engine) (job : Job) (o : OutputStream) : Prop where
  job : o.job = some job
  render : ∃ config, o.render = { config } ∧ config.maxPartialDepth = e.config.maxPartialDepth
  heard : o.heardBy recorder = []

/-- Two streams of one job have not been driven yet, or have come as far as each other. -/
structure Paired (sources : Sources) (e : Engine) (w w' : World) (o o' : OutputStream) : Prop where
  peers : Peers sources e w w'
  left : o.Recorded
  right : o'.Recorded
  level : (∃ job, o.Fresh e job ∧ o'.Fresh e job) ∨ o.job = none ∧ o'.job = none ∧
    Level sources e (o.heardBy recorder) (o'.heardBy recorder) (stage w o) (stage w' o')

theorem paired_new (peers : Peers sources e w w') (job : Job) :
    Paired sources e w w' { OutputStream.new w.engine job with listeners := [recorder] }
      { OutputStream.new w'.engine job with listeners := [recorder] } :=
  ⟨peers, .begin _ job, .begin _ job, Or.inl ⟨job, ⟨rfl, ⟨_, rfl, peers.left.depth⟩, rfl⟩,
    ⟨rfl, ⟨_, rfl, peers.right.depth⟩, rfl⟩⟩⟩

theorem Paired.of_peers (h : Paired sources e w w' o o') (peers : Peers sources e v v') : Paired sources e v v' o o' :=
  ⟨peers, h.left, h.right, h.level.imp_right fun ⟨called, called', level⟩ => ⟨called, called', level.of_peers peers⟩⟩

theorem Paired.result_eq (h : Paired sources e w w' o o') : o.result = o'.result := by
  unfold result
  rcases h.level with ⟨job, fresh, fresh'⟩ | ⟨-, -, level⟩
  · obtain ⟨config, begun, -⟩ := fresh.render
    obtain ⟨config', begun', -⟩ := fresh'.render
    rw [fresh.heard, fresh'.heard, begun, begun']
  · obtain ⟨-, -, script⟩ := h.left.along
    obtain ⟨-, -, script'⟩ := h.right.along
    rw [show o'.progress = o.progress from level.progress] at script'
    exact Event.result_eq script script' level.complete level.failed

theorem abreast_work (answers : e.Answers sources) (h : Paired sources e w w' o o') (steps : Nat) :
    Abreast (fun _ _ => False) (fun _ s t => Level sources e (o.heardBy recorder) (o'.heardBy recorder) s t)
      ((o.work steps).run (stage w o)) ((o'.work steps).run (stage w' o')) := by
  unfold work
  rcases h.level with ⟨job, fresh, fresh'⟩ | ⟨called, called', level⟩
  · obtain ⟨config, begun, depth⟩ := fresh.render
    obtain ⟨config', begun', depth'⟩ := fresh'.render
    rw [fresh.job, fresh'.job, fresh.heard, fresh'.heard]
    exact (abreast_start (s := stage w o) (t := stage w' o') answers h.peers begun begun' depth depth' job).bind
      fun _ _ _ level => abreast_settle answers level
  · rw [called, called']
    exact abreast_settle answers level

theorem parallel_advance (answers : e.Answers sources) (h : Paired sources e w w' o o') (steps : Nat) :
    Parallel (fun r q => Level sources e (o.heardBy recorder) (o'.heardBy recorder) (stage r.1 r.2) (stage q.1 q.2))
      (o.advance steps w) (o'.advance steps w') := by
  have worked := abreast_work answers h steps
  unfold advance
  revert worked
  change Abreast _ _ ((o.work steps).run { w with render := o.render }) _ → _
  change Abreast _ _ _ ((o'.work steps).run { w' with render := o'.render }) → _
  generalize (o.work steps).run { w with render := o.render } = r
  generalize (o'.work steps).run { w' with render := o'.render } = q
  intro worked
  cases worked with
  | halt reason => exact .halt reason
  | fail no => exact no.elim
  | done level => exact .done level

/-- The events that are handed out to the listeners make no difference to how far the streams have come. -/
theorem level_handsOut (level : Level sources e (o.heardBy recorder) (o'.heardBy recorder) (stage v u) (stage v' u'))
    {o₁ o₁' : OutputStream} (out : HandsOut u o₁) (out' : HandsOut u' o₁') (heard : u.heardBy recorder = o.heardBy recorder)
    (heard' : u'.heardBy recorder = o'.heardBy recorder) :
    Level sources e (o₁.heardBy recorder) (o₁'.heardBy recorder) (stage v o₁) (stage v' o₁') := by
  have told := level.tell (out.heard.trans (by rw [heard]; rfl)) (out'.heard.trans (by rw [heard']; rfl))
  unfold stage at told ⊢
  rw [out.render, out'.render]
  exact told

theorem Paired.call (answers : e.Answers sources) (h : Paired sources e w w' o o') (call : m.IsCall)
    (enough : 0 < m.budget) :
    Parallel (fun r q => Paired sources e r.2.1 q.2.1 r.2.2 q.2.2) (o.move w m) (o'.move w' m) := by
  obtain ⟨give, goes, out⟩ := exists_give call enough h.left w
  obtain ⟨give', goes', out'⟩ := exists_give call enough h.right w'
  have recorded {o : OutputStream} {w : World} {give : OutputStream → List Item × OutputStream} (recorded : o.Recorded)
      (goes : o.move w m = (o.advance m.budget w).map (fun r => ((give r.2).1, r.1, (give r.2).2)))
      (out : ∀ u, u.listeners = [recorder] → HandsOut u (give u).2) {v : World} {u : OutputStream}
      (ran : o.advance m.budget w = .ok (v, u)) : (give u).2.Recorded ∧ HandsOut u (give u).2 ∧
        u.heardBy recorder = o.heardBy recorder ∧ (give u).2.job = none := by
    obtain ⟨-, same⟩ := goes_advance recorded.along.1 ran
    have listeners : u.listeners = o.listeners := by
      rw [same]
    have heard : u.heardBy recorder = o.heardBy recorder := by
      rw [same]
      rfl
    have out := out u (listeners.trans recorded.listeners)
    rw [ran] at goes
    refine ⟨recorded_move call recorded goes (out.listeners.trans listeners), out, heard, out.job.trans ?_⟩
    rw [same]
  have advanced := parallel_advance answers h m.budget
  have left {v u} := recorded (v := v) (u := u) h.left goes out
  have right {v u} := recorded (v := v) (u := u) h.right goes' out'
  rw [goes, goes']
  revert advanced left right
  generalize o.advance m.budget w = r
  generalize o'.advance m.budget w' = q
  intro advanced left right
  cases advanced with
  | halt reason => exact .halt reason
  | @done r q level =>
    obtain ⟨v, u⟩ := r
    obtain ⟨v', u'⟩ := q
    obtain ⟨recorded, out, heard, called⟩ := left rfl
    obtain ⟨recorded', out', heard', called'⟩ := right rfl
    exact .done ⟨level.peers, recorded, recorded', Or.inr ⟨called, called', level_handsOut level out out' heard heard'⟩⟩

theorem Paired.move (answers : e.Answers sources) (h : Paired sources e w w' o o') (fair : m.Fair sources e) :
    Parallel (fun r q => Paired sources e r.2.1 q.2.1 r.2.2 q.2.2) (o.move w m) (o'.move w' m) := by
  cases m with
  | runUntilStalled steps | pollNext steps => exact h.call answers trivial fair
  | others change => exact .done (h.of_peers (fair h.peers))

end OutputStream

/-! ### Sessions -/

/-- In a session a render begins, or the driver of one that has begun makes a move. -/
inductive Act where
  | begin (job : Job)
  | move (index : Nat) (m : Move)

def Act.Fair (sources : Sources) (e : Engine) : Act → Prop
  | .begin _ => True
  | .move _ m => m.Fair sources e

/-- An engine in use, with the renders that have begun, in their order. -/
structure Session where
  world : World
  streams : List OutputStream := []

namespace Session

variable {s s' t : Session} {a : Act}

def act (s : Session) : Act → Except Halt Session
  | .begin job =>
    pure { s with streams := s.streams ++ [{ OutputStream.new s.world.engine job with listeners := [recorder] }] }
  | .move index m =>
    match s.streams[index]? with
    | none => pure s
    | some o => do
      let (_, world, o) ← o.move s.world m
      pure { world, streams := s.streams.set index o }

def run (s : Session) : List Act → Except Halt Session
  | [] => pure s
  | a :: acts => do
    let s ← s.act a
    run s acts

/-- The results of all renders, as far as they have ended. -/
def results (s : Session) : List (Option (Except Error String)) := s.streams.map (·.result)

/-- In two sessions the same renders have come as far as each other. -/
structure Paired (sources : Sources) (e : Engine) (s s' : Session) : Prop where
  peers : Peers sources e s.world s'.world
  streams : List.Forall₂ (OutputStream.Paired sources e s.world s'.world) s.streams s'.streams

theorem forall₂_getElem? {α β : Type} {R : α → β → Prop} {l : List α} {l' : List β} (h : List.Forall₂ R l l')
    (i : Nat) : Option.Rel R l[i]? l'[i]? := by
  induction h generalizing i with
  | nil => exact .none
  | cons related _ ih =>
    cases i with
    | zero => exact .some related
    | succ i => exact ih i

theorem forall₂_set {α β : Type} {R : α → β → Prop} {l : List α} {l' : List β} {a : α} {b : β}
    (h : List.Forall₂ R l l') (related : R a b) (i : Nat) : List.Forall₂ R (l.set i a) (l'.set i b) := by
  induction h generalizing i with
  | nil => exact .nil
  | cons here rest ih =>
    cases i with
    | zero => exact .cons related rest
    | succ i => exact .cons here (ih i)

theorem Paired.results_eq (h : Paired sources e s s') : s.results = s'.results := by
  unfold results
  have same := h.streams.imp fun _ _ paired => paired.result_eq
  rwa [← List.forall₂_eq_eq_eq, List.forall₂_map_left_iff, List.forall₂_map_right_iff]

theorem Paired.act (answers : e.Answers sources) (h : Paired sources e s s') (fair : a.Fair sources e) :
    Parallel (Paired sources e) (s.act a) (s'.act a) := by
  cases a with
  | begin job =>
    exact .done ⟨h.peers, List.rel_append h.streams (.cons (OutputStream.paired_new h.peers job) .nil)⟩
  | move index m =>
    have found := forall₂_getElem? h.streams index
    unfold Session.act
    dsimp only
    revert found
    generalize s.streams[index]? = found
    generalize s'.streams[index]? = found'
    intro found
    cases found with
    | none => exact .done h
    | some paired =>
      -- The other renders have not moved, but the engines around them have been used.
      refine (paired.move answers fair).bind fun r q _ _ moved => .done ⟨moved.peers, ?_⟩
      exact forall₂_set (h.streams.imp fun _ _ paired => paired.of_peers moved.peers) moved index

theorem Paired.run (answers : e.Answers sources) (h : Paired sources e s s') {acts : List Act}
    (fair : ∀ a ∈ acts, a.Fair sources e) : Parallel (Paired sources e) (s.run acts) (s'.run acts) := by
  induction acts generalizing s s' with
  | nil => exact .done h
  | cons a acts ih =>
    rw [List.forall_mem_cons] at fair
    exact (h.act answers fair.1).bind fun _ _ _ _ paired => ih paired fair.2

end Session

/-- Let the loader answer every name at once and always alike, and let what the engine calls be pure. Then in any session,
    whatever renders begin in it and however they are driven, one after the other or in turns, all give the same results
    whether the engine keeps templates or not, and whichever it holds of those that loads gave; and after it the engine
    holds no others. -/
theorem results_same_with_cache (answers : e.Answers sources) (host : Host) {on off : Engine}
    (stocked : e.Stocked sources on) (stocked' : e.Stocked sources off) {acts : List Act}
    (fair : ∀ a ∈ acts, a.Fair sources e) :
    (Session.run { world := { engine := on, host } } acts).map Session.results =
      (Session.run { world := { engine := off, host } } acts).map Session.results ∧
    ∀ s, Session.run { world := { engine := on, host } } acts = .ok s → e.Stocked sources s.world.engine := by
  have begins : Session.Paired sources e { world := { engine := on, host } } { world := { engine := off, host } } :=
    ⟨⟨stocked, stocked', rfl⟩, .nil⟩
  have ends := begins.run answers fair
  revert ends
  generalize Session.run { world := { engine := on, host } } acts = r
  generalize Session.run { world := { engine := off, host } } acts = q
  intro ends
  cases ends with
  | halt reason => exact ⟨rfl, nofun⟩
  | done paired =>
    refine ⟨congrArg Except.ok paired.results_eq, fun s same => ?_⟩
    cases same
    exact paired.peers.left

/-- Two sources, one with a partial of the other. -/
def nestedSources : Sources := fun name =>
  if name = "p" then .ok "<\x7b> q /\x7d>" else if name = "q" then .ok "ab" else .error (.loader name "gone")

/-- An engine whose loader finds the sources at once. -/
def nestedEngine (cache : Bool) (templates : Dict Template) : Engine where
  config := { cache }
  templates
  loader := some ⟨fun _ name _ => some ((nestedSources name).map .source)⟩

/-- Three renders: of partials, of a name that leads nowhere, and of a name that has been loaded before. -/
def nestedRun (cache : Bool) (templates : Dict Template) : Except Halt Session :=
  Session.run { world := { engine := nestedEngine cache templates } } [.begin (.template ⟨none, ["p", "q"].map fun name =>
    .partialTag (.static name) none [], []⟩ {}), .begin (.named "x" {}), .move 0 (.runUntilStalled 9),
    .begin (.named "p" {}), .move 2 (.pollNext 9), .move 1 (.pollNext 9), .move 2 (.runUntilStalled 9)]

def nestedStock : Dict Template := [("q", ⟨some "q", [.write "ab"], []⟩)]

/-- An engine that keeps templates, and holds one from the start, asks for less and gives the same. -/
theorem results_same_with_cache_nestedRun : ∃ s s', nestedRun true nestedStock = .ok s ∧ nestedRun false [] = .ok s' ∧
    s.results = [some (.ok "<ab>ab"), some (.error (.loader "x" "gone")), some (.ok "<ab>")] ∧ s'.results = s.results ∧
    s.world.engine.asked = ["p", "x"] ∧ s'.world.engine.asked = ["p", "q", "p", "q", "x"] := by
  let e := nestedEngine true []
  have answers : e.Answers nestedSources :=
    ⟨⟨_, rfl, fun _ _ _ => rfl⟩, Helper.pure_builtin, fun _ _ _ _ => trivial⟩
  have loads : e.loaded nestedSources "q" = .ok ⟨some "q", [.write "ab"], []⟩ := by with_unfolding_all rfl
  have stocked : e.Stocked nestedSources (nestedEngine true nestedStock) := by
    refine ⟨⟨rfl, rfl, rfl⟩, rfl, rfl, fun {name t} kept => ?_⟩
    have mem := Dict.mem_of_get? kept
    rw [nestedEngine, nestedStock, List.mem_singleton, Prod.mk.injEq] at mem
    obtain ⟨rfl, rfl⟩ := mem
    exact loads
  have stocked' : e.Stocked nestedSources (nestedEngine false []) := ⟨⟨rfl, rfl, rfl⟩, rfl, rfl, nofun⟩
  have seen : (nestedRun true nestedStock).toOption.any (fun s => decide (s.results =
        [some (.ok "<ab>ab"), some (.error (.loader "x" "gone")), some (.ok "<ab>")]) &&
      decide (s.world.engine.asked = ["p", "x"])) = true := by decide +kernel
  have seen' : (nestedRun false []).toOption.any (fun s =>
      decide (s.world.engine.asked = ["p", "q", "p", "q", "x"])) = true := by decide +kernel
  obtain ⟨s, ran, seen⟩ := exists_eq_ok seen
  obtain ⟨s', ran', asked'⟩ := exists_eq_ok seen'
  simp only [Bool.and_eq_true, decide_eq_true_eq] at seen asked'
  have same : (nestedRun true nestedStock).map Session.results = (nestedRun false []).map Session.results := by
    refine (results_same_with_cache answers {} stocked stocked' ?_).1
    simp only [List.forall_mem_cons]
    exact ⟨trivial, trivial, Nat.succ_pos 8, trivial, Nat.succ_pos 8, Nat.succ_pos 8, Nat.succ_pos 8, nofun⟩
  rw [ran, ran'] at same
  exact ⟨s, s', ran, ran', seen.1, (Except.ok.inj same).symm, seen.2, asked'⟩

end Stencil
