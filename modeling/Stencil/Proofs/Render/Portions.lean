import Stencil.Proofs.Render.Meaning
import Stencil.Proofs.Render.Schedules
import Stencil.Proofs.Render.Steps

/-! Output in portions. A body in a scope has one text, whatever is put off while it is rendered. Code that renders bodies
    one after the other shows their texts in that order, with nothing between them, and ends well where they do. -/

namespace Stencil

open RenderM Render

variable {hosts : Host → Prop} {e : Engine} {depth depth' n m : Nat} {draft : Draft} {text text' : List Char}
  {wait : Wait} {s t : Stage} {body : Body} {context : Context}

namespace RenderM

/-! ### One reading -/

/-- What waits where code has added, waits as tasks do. -/
theorem pure_of_gap_mem (pure : t.Pure hosts e) (adds : Adds s.render t.render draft) (mem : .gap wait ∈ draft) :
    wait.Pure hosts := by
  obtain ⟨before, id, after, rest, before', id', -, -, drafted, -⟩ := adds
  have mem' : .gap wait ∈ t.render.draft (before' ++ [id']) := drafted ▸ List.mem_append_right _ mem
  obtain ⟨task, parked, rfl⟩ := t.render.exists_task_of_gap_mem mem'
  exact pure.tasks task parked

/-- By induction on how one reading fills the gaps: another one fills them by runs of the same work, which agree. -/
theorem Reads.unique (pure : e.Pure hosts) (waits : ∀ wait, .gap wait ∈ draft → wait.Pure hosts)
    (h : Reads hosts e depth draft text) (h' : Reads hosts e depth' draft text') : text' = text := by
  induction h generalizing depth' text' with
  | nil =>
    cases h'
    rfl
  | char _ ih =>
    cases h' with
    | char rest => rw [ih (fun wait mem => waits wait (List.mem_cons_of_mem _ mem)) rest]
  | gap does _ _ ih ih' =>
    cases h' with
    | @gap deeper _ _ _ _ filled _ does' filling rest =>
      rw [ih' (fun wait mem => waits wait (List.mem_cons_of_mem _ mem)) rest]
      obtain ⟨x, s, t, leads, ready, ran, adds⟩ := does
      obtain ⟨x', s', t', leads', ready', ran', adds'⟩ := does'
      have waits := waits _ List.mem_cons_self
      have agrees := matches_leads pure (agrees_below pure deeper) waits leads' leads
      obtain ⟨depth, same⟩ := (agrees.agrees ready' ready ran' ran adds' adds).2 filled filling
      obtain ⟨-, pureT, -⟩ := agrees.right ready ran
      rw [ih (fun wait mem => pure_of_gap_mem pureT adds mem) same]

end RenderM

/-! ### The text of a body -/

/-- Some run of the body, where code may write, adds what reads as the text. -/
def Shows (hosts : Host → Prop) (e : Engine) (body : Body) (context : Context) (text : String) : Prop :=
  ∃ n s t added depth, Ready hosts e s ∧ (exec n body context).run s = .ok (.ok (), t) ∧
    Adds s.render t.render added ∧ Reads hosts e depth added text.toList

/-- Wherever code may write, the body is rendered without an error, in some number of bodies inside each other. -/
def EndsWell (hosts : Host → Prop) (e : Engine) (body : Body) (context : Context) : Prop :=
  ∀ s, Ready hosts e s → ∃ n t, (exec n body context).run s = .ok (.ok (), t)

theorem writes_exec (pure : e.Pure hosts) (n : Nat) (body : Body) (context : Context) :
    Writes hosts e (fun _ => True) (exec n body context) :=
  (matches_exec pure (agrees_below pure 0) n n body context).left

/-- What one run shows, each run that ends well shows. -/
theorem Shows.reads (pure : e.Pure hosts) {shown : String} (h : Shows hosts e body context shown) {added : Draft}
    (ready : Ready hosts e s) (ran : (exec n body context).run s = .ok (.ok (), t)) (adds : Adds s.render t.render added) :
    ∃ depth, Reads hosts e depth added shown.toList := by
  obtain ⟨m, s', t', added', depth, ready', ran', adds', reads⟩ := h
  exact ((matches_exec pure (agrees_below pure depth) m n body context).agrees ready' ready ran' ran adds' adds).2 _ reads

theorem Shows.unique (pure : e.Pure hosts) {shown shown' : String} (h : Shows hosts e body context shown)
    (h' : Shows hosts e body context shown') : shown' = shown := by
  obtain ⟨n, s, t, added, depth, ready, ran, adds, reads⟩ := h
  obtain ⟨deeper, reads'⟩ := h'.reads pure ready ran adds
  obtain ⟨-, pureT, -⟩ := writes_exec pure n body context ready ran
  exact String.toList_inj.mp (reads.unique pure (fun wait mem => pure_of_gap_mem pureT adds mem) reads')

theorem Begins.exec {tmpl : Template} (h : Begins hosts e (.template tmpl context) draft) :
    ∃ n s t, Ready hosts e s ∧ (exec n tmpl.body (context.enter tmpl)).run s = .ok (.ok (), t) ∧
      Adds s.render t.render draft := by
  obtain ⟨n, s, t, ready, ran, adds⟩ := h
  obtain ⟨limit, u, looked, ran⟩ := run_bind_eq_ok_ok.mp ran
  cases looked
  split at ran
  · cases ran
  · exact ⟨n, _, t, ready, ran, adds⟩

/-! ### Portions -/

/-- A body and the scope that it is rendered in. -/
abbrev Portion := Body × Context

/-- The text is what the portions show, one after the other. -/
def ShowAll (hosts : Host → Prop) (e : Engine) : List Portion → String → Prop
  | [], text => text = ""
  | portion :: rest, text => ∃ first more, Shows hosts e portion.1 portion.2 first ∧ ShowAll hosts e rest more ∧
    text = first ++ more

variable {portions more : List Portion}

theorem showAll_append {shown : String} : ShowAll hosts e (portions ++ more) shown ↔
    ∃ front back, ShowAll hosts e portions front ∧ ShowAll hosts e more back ∧ shown = front ++ back := by
  induction portions generalizing shown with
  | nil =>
    constructor
    · exact fun h => ⟨"", shown, rfl, h, String.empty_append.symm⟩
    · rintro ⟨_, back, rfl, h, rfl⟩
      rwa [String.empty_append]
  | cons portion rest ih =>
    constructor
    · rintro ⟨first, _, h, rest, rfl⟩
      obtain ⟨front, back, h', h'', rfl⟩ := ih.mp rest
      exact ⟨first ++ front, back, ⟨first, front, h, h', rfl⟩, h'', String.append_assoc.symm⟩
    · rintro ⟨_, back, ⟨first, front, h, h', rfl⟩, h'', rfl⟩
      exact ⟨first, front ++ back, h, ih.mpr ⟨front, back, h', h'', rfl⟩, String.append_assoc⟩

theorem showAll_singleton {shown : String} : ShowAll hosts e [(body, context)] shown ↔ Shows hosts e body context shown := by
  constructor
  · rintro ⟨first, _, h, rfl, rfl⟩
    rwa [String.append_empty]
  · exact fun h => ⟨shown, "", h, rfl, String.append_empty.symm⟩

theorem ShowAll.unique (pure : e.Pure hosts) {shown shown' : String} (h : ShowAll hosts e portions shown)
    (h' : ShowAll hosts e portions shown') : shown' = shown := by
  induction portions generalizing shown shown' with
  | nil => exact h'.trans h.symm
  | cons portion rest ih =>
    obtain ⟨first, more, h, hs, rfl⟩ := h
    obtain ⟨first', more', h', hs', rfl⟩ := h'
    rw [h.unique pure h', ih hs hs']

/-- Code for each number of bodies inside each other renders portions, one after the other: what a run of it that ends well
    adds reads as what they show, and it ends well if they do. -/
structure Composes (hosts : Host → Prop) (e : Engine) (x : Nat → RenderM Unit) (portions : List Portion) : Prop where
  grows {n m : Nat} : n ≤ m → Grows (fun _ => True) (x n) (x m)
  writes (n : Nat) : Writes hosts e (fun _ => True) (x n)
  reads {n : Nat} {s t : Stage} {added : Draft} : Ready hosts e s → (x n).run s = .ok (.ok (), t) →
    Adds s.render t.render added → ∀ shown : String,
    (∃ depth, Reads hosts e depth added shown.toList) ↔ ShowAll hosts e portions shown
  ends : (∀ p ∈ portions, EndsWell hosts e p.1 p.2) → ∀ s, Ready hosts e s → ∃ n t, (x n).run s = .ok (.ok (), t)

theorem run_of_grows {x y : RenderM Unit} (grows : Grows (fun _ => True) x y) {r : Except Error Unit × Stage}
    (ran : x.run s = .ok r) : y.run s = .ok r := by
  refine (Extends.run_eq grows fun no => ?_).trans ran
  cases no.symm.trans ran

namespace Composes

variable {x y : Nat → RenderM Unit}

theorem of_exec (pure : e.Pure hosts) (reads : ∀ {n s t added}, Ready hosts e s →
      (exec n body context).run s = .ok (.ok (), t) → Adds s.render t.render added → ∀ shown : String,
      (∃ depth, Reads hosts e depth added shown.toList) ↔ ShowAll hosts e portions shown)
    (ends : (∀ p ∈ portions, EndsWell hosts e p.1 p.2) → EndsWell hosts e body context) :
    Composes hosts e (exec · body context) portions where
  grows le := grows_exec le body context
  writes n := writes_exec pure n body context
  reads := reads
  ends := ends

theorem self (pure : e.Pure hosts) (body : Body) (context : Context) :
    Composes hosts e (exec · body context) [(body, context)] := by
  refine of_exec pure (fun ready ran adds shown => ?_) fun each => each _ List.mem_cons_self
  rw [showAll_singleton]
  exact ⟨fun ⟨depth, reads⟩ => ⟨_, _, _, _, depth, ready, ran, adds, reads⟩, fun h => h.reads pure ready ran adds⟩

theorem nothing : Composes hosts e (fun _ => pure ()) [] where
  grows _ := extending.self _
  writes _ := .pure trivial
  reads := by
    intro _ _ _ added ready ran adds shown
    cases ran
    obtain rfl := adds.unique (.refl ready.sound ready.writing)
    constructor
    · rintro ⟨depth, reads⟩
      generalize same : shown.toList = text at reads
      cases reads
      exact String.toList_inj.mp same
    · rintro rfl
      exact ⟨0, .nil⟩
  ends _ s _ := ⟨0, s, rfl⟩

theorem bind (hx : Composes hosts e x portions) (hy : Composes hosts e y more) :
    Composes hosts e (fun n => x n >>= fun _ => y n) (portions ++ more) where
  grows le := (hx.grows le).bind fun _ _ => hy.grows le
  writes n := (hx.writes n).bind fun _ _ => hy.writes n
  reads := by
    intro n s t added ready ran adds shown
    obtain ⟨_, u, first, second⟩ := run_bind_eq_ok_ok.mp ran
    obtain ⟨-, pure, kept, front, adds₁⟩ := hx.writes n ready first
    have ready' : Ready hosts e u := .of_kept kept pure
    obtain ⟨-, -, -, back, adds₂⟩ := hy.writes n ready' second
    obtain rfl := (adds₁.trans adds₂).unique adds
    rw [showAll_append]
    constructor
    · rintro ⟨depth, reads⟩
      obtain ⟨text₁, text₂, same, reads₁, reads₂⟩ := reads.split
      rw [← String.toList_ofList (l := text₁)] at reads₁
      rw [← String.toList_ofList (l := text₂)] at reads₂
      refine ⟨.ofList text₁, .ofList text₂, (hx.reads ready first adds₁ _).mp ⟨depth, reads₁⟩,
        (hy.reads ready' second adds₂ _).mp ⟨depth, reads₂⟩, String.toList_inj.mp ?_⟩
      rw [same, String.toList_append, String.toList_ofList, String.toList_ofList]
    · rintro ⟨a, b, ha, hb, rfl⟩
      obtain ⟨depth₁, reads₁⟩ := (hx.reads ready first adds₁ a).mpr ha
      obtain ⟨depth₂, reads₂⟩ := (hy.reads ready' second adds₂ b).mpr hb
      rw [String.toList_append]
      exact ⟨max depth₁ depth₂, (reads₁.mono (Nat.le_max_left ..)).append (reads₂.mono (Nat.le_max_right ..))⟩
  ends := by
    intro each s ready
    obtain ⟨first, rest⟩ := List.forall_mem_append.mp each
    obtain ⟨n, u, ran⟩ := hx.ends first s ready
    obtain ⟨m, t, ran'⟩ := hy.ends rest u ((hx.writes n).ready ready ran)
    refine ⟨max n m, t, (run_bind_of_ok (run_of_grows (hx.grows (Nat.le_max_left n m)) ran)).trans ?_⟩
    exact run_of_grows (hy.grows (Nat.le_max_right n m)) ran'

/-- Code that does the same renders the same portions. -/
theorem of_equal (h : Composes hosts e x portions) (grows : ∀ {n m : Nat}, n ≤ m → Grows (fun _ => True) (y n) (y m))
    (equal : ∀ n, Equal (y n) (x n)) : Composes hosts e y portions where
  grows := grows
  writes n := by
    intro s t _ ready ran
    exact h.writes n ready ((equal_iff.mp (equal n) s).symm.trans ran)
  reads ready ran := h.reads ready ((equal_iff.mp (equal _) _).symm.trans ran)
  ends each s ready := by
    obtain ⟨n, t, ran⟩ := h.ends each s ready
    exact ⟨n, t, (equal_iff.mp (equal n) s).trans ran⟩

theorem forM {α : Type} {f : Nat → α → RenderM Unit} {portionsOf : α → List Portion} {list : List α}
    (each : ∀ a ∈ list, Composes hosts e (f · a) (portionsOf a)) :
    Composes hosts e (fun n => list.forM (f n)) (list.flatMap portionsOf) := by
  induction list with
  | nil => exact nothing
  | cons a rest ih =>
    obtain ⟨first, others⟩ := List.forall_mem_cons.mp each
    exact first.bind (ih others)

/-- A body does what other code does with fewer bodies inside each other, from a stage where the output is the same. -/
theorem of_run (pure : e.Pure hosts) (h : Composes hosts e x portions)
    (same : ∀ s, Ready hosts e s → ∃ s', Ready hosts e s' ∧ s'.render = s.render ∧
      ∀ n t, (exec (n + 1) body context).run s = .ok (.ok (), t) ↔ (x n).run s' = .ok (.ok (), t)) :
    Composes hosts e (exec · body context) portions := by
  refine of_exec pure (fun {n s t added} ready ran adds => ?_) fun each s ready => ?_
  · obtain ⟨s', ready', render, run⟩ := same s ready
    have ran' := run_of_grows (grows_exec (Nat.le_succ n) body context) ran
    exact h.reads ready' ((run n t).mp ran') (render ▸ adds)
  · obtain ⟨s', ready', -, run⟩ := same s ready
    obtain ⟨n, t, ran⟩ := h.ends each s' ready'
    exact ⟨n + 1, t, (run n t).mpr ran⟩

/-! ### Streams of portions -/

section

variable {tmpl : Template} {listeners : List Listener} {l : Listener} {w : World} {o : OutputStream}
  (composes : Composes hosts e (exec · tmpl.body (context.enter tmpl)) portions) (pure : e.Pure hosts)
  (once : listeners.count l = 1) (hears : ∀ text, l.kind.hears (.data text) = true)
  (scheduled : Scheduled hosts e (.template tmpl context) listeners w o)

include composes pure once hears scheduled

/-- What is heard of a template is at every moment the front of what its portions show. -/
theorem front {shown : String} (all : ShowAll hosts e portions shown) : ∃ rest, shown = o.heard l ++ rest := by
  obtain ⟨-, ⟨-, -, silent, -⟩ | ⟨-, follows⟩⟩ := scheduled.tracks pure once hears
  · exact ⟨shown, by rw [silent, String.empty_append]⟩
  rcases follows.tells with ⟨start, draft, begins, becomes, trails⟩ | ⟨-, nothing⟩
  · obtain ⟨n, s, t, ready, ran, adds⟩ := begins.exec
    obtain ⟨_, reads⟩ := (composes.reads ready ran adds shown).mpr all
    obtain ⟨rest, same, -⟩ := trails.front pure becomes reads
    exact ⟨o.render.untold ++ rest, same.trans String.append_assoc⟩
  · exact ⟨shown, by rw [(String.append_eq_empty_iff.mp nothing).1, String.empty_append]⟩

/-- What is heard of a template once it is complete is what its portions show. -/
theorem output_iff (complete : o.progress = .complete) (shown : String) :
    ShowAll hosts e portions shown ↔ shown = o.output l := by
  obtain ⟨start, draft, begins, becomes, trails⟩ := scheduled.tells pure once hears complete
  obtain ⟨n, s, t, ready, ran, adds⟩ := begins.exec
  have all := (composes.reads ready ran adds (o.output l)).mp (trails.reads_start becomes complete)
  exact ⟨fun shows => all.unique pure shows, fun same => same ▸ all⟩

end

end Composes
end Stencil
