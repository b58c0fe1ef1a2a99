import Stencil.Proofs.Render.Additions

/-! One reading for all schedules. A draft reads as a text if its gaps are filled by what some runs of their work add, and
    the gaps in those by further runs. Whichever work two runs of the same code put off and whichever they do at once, the
    drafts that they add read alike. -/

namespace Stencil
namespace RenderM

open Render

variable {α β : Type} {hosts : Host → Prop} {e : Engine} {depth depth' n m : Nat} {draft draft' : Draft}
  {text text' : List Char} {wait : Wait}

/-- What a draft reads like, with fillings inside each other no deeper than this. -/
inductive Reads (hosts : Host → Prop) (e : Engine) : Nat → Draft → List Char → Prop where
  | nil {depth : Nat} : Reads hosts e depth [] []
  | char {depth : Nat} {c : Char} {draft : Draft} {text : List Char} : Reads hosts e depth draft text →
    Reads hosts e depth (.char c :: draft) (c :: text)
  | gap {depth nesting : Nat} {wait : Wait} {added draft : Draft} {text text' : List Char} :
    Does hosts e (exec nesting) wait added → Reads hosts e depth added text → Reads hosts e (depth + 1) draft text' →
    Reads hosts e (depth + 1) (.gap wait :: draft) (text ++ text')

namespace Reads

theorem mono (h : Reads hosts e depth draft text) (le : depth ≤ depth') : Reads hosts e depth' draft text := by
  induction h generalizing depth' with
  | nil => exact .nil
  | char _ ih => exact .char (ih le)
  | gap does _ _ ih ih' =>
    obtain ⟨deeper, rfl⟩ := Nat.exists_eq_succ_of_ne_zero (Nat.ne_zero_of_lt le)
    exact .gap does (ih (Nat.le_of_succ_le_succ le)) (ih' le)

theorem append (h : Reads hosts e depth draft text) (h' : Reads hosts e depth draft' text') :
    Reads hosts e depth (draft ++ draft') (text ++ text') := by
  induction h with
  | nil => exact h'
  | char _ ih => exact .char (ih h')
  | gap does filling _ _ ih =>
    rw [List.append_assoc]
    exact .gap does filling (ih h')

theorem split (h : Reads hosts e depth (draft ++ draft') text) :
    ∃ first second, text = first ++ second ∧ Reads hosts e depth draft first ∧ Reads hosts e depth draft' second := by
  induction draft generalizing text with
  | nil => exact ⟨[], text, rfl, .nil, h⟩
  | cons cell draft ih =>
    rw [List.cons_append] at h
    cases h with
    | char rest =>
      obtain ⟨first, second, rfl, left, right⟩ := ih rest
      exact ⟨_ :: first, second, rfl, .char left, right⟩
    | gap does filling rest =>
      obtain ⟨first, second, rfl, left, right⟩ := ih rest
      exact ⟨_ ++ first, second, (List.append_assoc ..).symm, .gap does filling left, right⟩

theorem ofText_iff {s : String} : Reads hosts e depth (Draft.ofText s) text ↔ text = s.toList := by
  unfold Draft.ofText
  generalize s.toList = chars
  induction chars generalizing text with
  | nil =>
    constructor
    · intro h
      cases h
      rfl
    · rintro rfl
      exact .nil
  | cons c chars ih =>
    constructor
    · intro h
      cases h with
      | char rest => rw [ih.mp rest]
    · rintro rfl
      exact .char (ih.mpr rfl)

theorem gap_iff : Reads hosts e depth [.gap wait] text ↔ ∃ deeper nesting added, depth = deeper + 1 ∧
    Does hosts e (exec nesting) wait added ∧ Reads hosts e deeper added text := by
  constructor
  · intro h
    cases h with
    | gap does filling rest =>
      cases rest
      exact ⟨_, _, _, rfl, does, (List.append_nil _).symm ▸ filling⟩
  · rintro ⟨deeper, nesting, added, rfl, does, filling⟩
    exact (List.append_nil text) ▸ .gap does filling .nil

end Reads

/-! ### Code that agrees -/

/-- Where both codes end well, their results are the same, and what the second adds reads like what the first adds. -/
def Agrees (hosts : Host → Prop) (e : Engine) (depth : Nat) (x y : RenderM α) : Prop :=
  ∀ ⦃s t s' t' : Stage⦄ ⦃a b : α⦄ ⦃added added' : Draft⦄, Ready hosts e s → Ready hosts e s' →
    x.run s = .ok (.ok a, t) → y.run s' = .ok (.ok b, t') → Adds s.render t.render added →
    Adds s'.render t'.render added' →
    b = a ∧ ∀ text, Reads hosts e depth added text → ∃ deeper, Reads hosts e deeper added' text

/-- Two codes write, and agree. -/
structure Matches (hosts : Host → Prop) (e : Engine) (depth : Nat) (V : α → Prop) (x y : RenderM α) : Prop where
  left : Writes hosts e V x
  right : Writes hosts e V y
  agrees : Agrees hosts e depth x y

namespace Matches

variable {V : α → Prop} {W : β → Prop}

theorem still {x : RenderM α} (h : ∀ {s t a}, Ready hosts e s → x.run s = .ok (.ok a, t) →
      V a ∧ t.Pure hosts e ∧ Kept s.render t.render ∧ Adds s.render t.render [])
    (same : ∀ {s t s' t' a b}, Ready hosts e s → Ready hosts e s' → x.run s = .ok (.ok a, t) →
      x.run s' = .ok (.ok b, t') → b = a) : Matches hosts e depth V x x := by
  have writes : Writes hosts e V x := by
    intro _ _ _ ready done
    obtain ⟨value, pure, kept, adds⟩ := h ready done
    exact ⟨value, pure, kept, [], adds⟩
  refine ⟨writes, writes, ?_⟩
  intro _ _ _ _ _ _ _ _ ready ready' done done' adds adds'
  refine ⟨same ready ready' done done', fun text reads => ?_⟩
  rw [(h ready done).2.2.2.unique adds] at reads
  rw [(h ready' done').2.2.2.unique adds']
  exact ⟨depth, reads⟩

theorem pure {a : α} (h : V a) : Matches hosts e depth V (pure a) (pure a) :=
  still (fun ready done => by
    cases done
    exact ⟨h, ready.pure, .refl ready.sound ready.writing, .refl ready.sound ready.writing⟩)
    fun _ _ done done' => by
      cases done
      cases done'
      rfl

theorem throw (V : α → Prop) (error : Error) : Matches hosts e depth V (throw error) (throw error) :=
  ⟨.throw V error, .throw V error, fun _ _ _ _ _ _ _ _ _ _ done => by cases done⟩

theorem bind {x y : RenderM α} {f g : α → RenderM β} (h : Matches hosts e depth V x y)
    (hf : ∀ a, V a → Matches hosts e depth W (f a) (g a)) : Matches hosts e depth W (x >>= f) (y >>= g) := by
  refine ⟨h.left.bind fun a ha => (hf a ha).left, h.right.bind fun a ha => (hf a ha).right, ?_⟩
  intro s t s' t' b b' added added' ready ready' done done' adds adds'
  obtain ⟨a, u, first, second⟩ := run_bind_eq_ok_ok.mp done
  obtain ⟨a', u', first', second'⟩ := run_bind_eq_ok_ok.mp done'
  obtain ⟨value, pure, kept, front, adds₁⟩ := h.left ready first
  obtain ⟨-, pure', kept', front', adds₁'⟩ := h.right ready' first'
  obtain ⟨rfl, reads⟩ := h.agrees ready ready' first first' adds₁ adds₁'
  obtain ⟨-, -, -, back, adds₂⟩ := (hf _ value).left (.of_kept kept pure) second
  obtain ⟨-, -, -, back', adds₂'⟩ := (hf _ value).right (.of_kept kept' pure') second'
  obtain ⟨rfl, reads'⟩ := (hf _ value).agrees (.of_kept kept pure) (.of_kept kept' pure') second second' adds₂ adds₂'
  refine ⟨rfl, fun text reading => ?_⟩
  rw [(adds₁.trans adds₂).unique adds] at reading
  rw [(adds₁'.trans adds₂').unique adds']
  obtain ⟨text₁, text₂, rfl, reading₁, reading₂⟩ := reading.split
  obtain ⟨depth₁, reading₁'⟩ := reads text₁ reading₁
  obtain ⟨depth₂, reading₂'⟩ := reads' text₂ reading₂
  exact ⟨max depth₁ depth₂, (reading₁'.mono (Nat.le_max_left ..)).append (reading₂'.mono (Nat.le_max_right ..))⟩

theorem mapError {x y : RenderM α} (h : Matches hosts e depth V x y) (g : Error → Error) :
    Matches hosts e depth V (mapError g x) (mapError g y) :=
  ⟨h.left.mapError g, h.right.mapError g, fun _ _ _ _ _ _ _ _ ready ready' done done' =>
    h.agrees ready ready' (run_mapError_eq_ok_ok.mp done) (run_mapError_eq_ok_ok.mp done')⟩

theorem attempt_bind {x y : RenderM α} {f g : Except Error α → RenderM β} (h : Matches hosts e depth V x y)
    (throws : ∀ error, f (.error error) = MonadExcept.throw error)
    (throws' : ∀ error, g (.error error) = MonadExcept.throw error)
    (hf : ∀ a, V a → Matches hosts e depth W (f (.ok a)) (g (.ok a))) :
    Matches hosts e depth W (attempt x >>= f) (attempt y >>= g) := by
  rw [attempt_bind_of_throw throws, attempt_bind_of_throw throws']
  exact h.bind hf

theorem mono {V' : α → Prop} {x y : RenderM α} (h : Matches hosts e depth V x y) (imp : ∀ a, V a → V' a) :
    Matches hosts e depth V' x y :=
  ⟨h.left.mono imp, h.right.mono imp, h.agrees⟩

theorem write (text : String) : Matches hosts e depth (fun _ => True) (write text) (write text) := by
  have writes : Writes hosts e (fun _ => True) (RenderM.write text) := fun _ _ _ ready done => by
    obtain ⟨pure, kept, adds⟩ := adds_write ready done
    exact ⟨trivial, pure, kept, _, adds⟩
  refine ⟨writes, writes, fun _ _ _ _ _ _ _ _ ready ready' done done' adds adds' => ⟨rfl, fun _ reads => ?_⟩⟩
  rw [(adds_write ready done).2.2.unique adds] at reads
  rw [(adds_write ready' done').2.2.unique adds']
  exact ⟨depth, reads⟩

theorem toText {x y : RenderM Unit} (template : Option String) (h : Matches hosts e depth (fun _ => True) x y) :
    Matches hosts e depth (fun _ => True) (toText template x) (toText template y) := by
  have still {x : RenderM Unit} (hx : Writes hosts e (fun _ => True) x) {s t : Stage} {a : String}
      (ready : Ready hosts e s) (done : (RenderM.toText template x).run s = .ok (.ok a, t)) :
      t.Pure hosts e ∧ Kept s.render t.render ∧ Adds s.render t.render [] := by
    obtain ⟨pure, same, -⟩ := adds_toText hx ready done
    rw [same]
    exact ⟨pure, .refl ready.sound ready.writing, .refl ready.sound ready.writing⟩
  have writes {x : RenderM Unit} (hx : Writes hosts e (fun _ => True) x) :
      Writes hosts e (fun _ => True) (RenderM.toText template x) := fun _ _ _ ready done => by
    obtain ⟨pure, kept, adds⟩ := still hx ready done
    exact ⟨trivial, pure, kept, [], adds⟩
  refine ⟨writes h.left, writes h.right, ?_⟩
  intro _ _ _ _ _ _ _ _ ready ready' done done' adds adds'
  refine ⟨?_, fun text reads => ?_⟩
  · obtain ⟨-, -, s₁, t₁, ready₁, ran, adds₁⟩ := adds_toText h.left ready done
    obtain ⟨-, -, s₂, t₂, ready₂, ran', adds₂⟩ := adds_toText h.right ready' done'
    obtain ⟨-, reads⟩ := h.agrees ready₁ ready₂ ran ran' adds₁ adds₂
    obtain ⟨deeper, reading⟩ := reads _ (Reads.ofText_iff.mpr rfl)
    exact (String.toList_inj.mp (Reads.ofText_iff.mp reading)).symm
  · rw [(still h.left ready done).2.2.unique adds] at reads
    rw [(still h.right ready' done').2.2.unique adds']
    exact ⟨depth, reads⟩

end Matches

/-! ### Work put off -/

variable {x y : RenderM Unit} {name : String} {context : Context}

/-- The work that the first of two waits leads to, the second leads to as well. Whether two codes leave gaps for these
    waits or do the work at once, they agree if the runs of the work do. -/
theorem Puts.matches {wait' : Wait} (hx : Puts hosts e (exec n) wait x) (hy : Puts hosts e (exec m) wait' y)
    (also : ∀ nesting x, Leads hosts e (exec nesting) wait x → Leads hosts e (exec nesting) wait' x)
    (works : ∀ x y, Leads hosts e (exec n) wait' x → Leads hosts e (exec m) wait' y → Agrees hosts e depth x y)
    (below : ∀ deeper nesting x y, depth = deeper + 1 → Leads hosts e (exec nesting) wait' x →
      Leads hosts e (exec m) wait' y → Agrees hosts e deeper x y) : Matches hosts e depth (fun _ => True) x y := by
  have also {nesting : Nat} {added : Draft} (does : Does hosts e (exec nesting) wait added) :
      Does hosts e (exec nesting) wait' added := by
    obtain ⟨x, s, t, leads, rest⟩ := does
    exact ⟨x, s, t, also nesting x leads, rest⟩
  refine ⟨hx.writes, hy.writes, ?_⟩
  intro s t s' t' _ _ added added' ready ready' done done' adds adds'
  obtain ⟨-, -, front, adds₁, what⟩ := hx ready done
  obtain ⟨-, -, front', adds₁', what'⟩ := hy ready' done'
  obtain rfl := adds.unique adds₁
  obtain rfl := adds'.unique adds₁'
  refine ⟨rfl, fun text reads => ?_⟩
  rcases what with rfl | does
  · obtain ⟨deeper, nesting, filling, rfl, does, reads'⟩ := Reads.gap_iff.mp reads
    rcases what' with rfl | ⟨y', s₂, t₂, leads', ready₂, ran', adds₂⟩
    · exact ⟨deeper + 1, Reads.gap_iff.mpr ⟨deeper, nesting, filling, rfl, also does, reads'⟩⟩
    · obtain ⟨x', s₁, t₁, leads, ready₁, ran, adds₃⟩ := also does
      exact (below deeper nesting x' y' rfl leads leads' ready₁ ready₂ ran ran' adds₃ adds₂).2 text reads'
  · rcases what' with rfl | ⟨y', s₂, t₂, leads', ready₂, ran', adds₂⟩
    · exact ⟨depth + 1, Reads.gap_iff.mpr ⟨depth, n, _, rfl, also does, reads⟩⟩
    · obtain ⟨x', s₁, t₁, leads, ready₁, ran, adds₃⟩ := also does
      exact (works x' y' leads leads' ready₁ ready₂ ran ran' adds₃ adds₂).2 text reads

/-- The runs of the work of one wait agree in readings that fill gaps less deeply. -/
def Below (hosts : Host → Prop) (e : Engine) (depth : Nat) : Prop := ∀ deeper wait n m x y, depth = deeper + 1 →
  wait.Pure hosts → Leads hosts e (exec n) wait x → Leads hosts e (exec m) wait y → Agrees hosts e deeper x y

section

variable (below : Below hosts e depth)
  (hr : ∀ body context, Matches hosts e depth (fun _ => True) (exec n body context) (exec m body context))

include below hr

theorem matches_program {program : Program} (pure : program.Pure hosts) :
    Matches hosts e depth (fun _ => True) (program.run (exec n)) (program.run (exec m)) := by
  induction program with
  | finish reply => exact .pure trivial
  | fail error => exact .throw _ error
  | write text next ih =>
    obtain ⟨returns, pure⟩ := pure
    have throws (r : Renderer) := run_of_returns returns r
    exact (Matches.write text).attempt_bind (throws _) (throws _) fun _ _ => ih _ pure
  | render body context next ih =>
    obtain ⟨returns, pure⟩ := pure
    have throws (r : Renderer) := run_of_returns returns r
    exact (hr body context).attempt_bind (throws _) (throws _) fun _ _ => ih _ pure
  | renderToString body context next ih =>
    obtain ⟨returns, pure⟩ := pure
    have throws (r : Renderer) := run_of_returns returns r
    exact ((hr body context).toText _).attempt_bind (throws _) (throws _) fun text _ => ih _ (pure text)
  | defer future resume next ihResume ih =>
    obtain ⟨⟨outcome, settles⟩, resumes, returns, pure⟩ := pure
    have throws (r : Renderer) := run_of_returns returns r
    have resumed (text : String) : Matches hosts e depth (fun _ => True)
        (do let _ ← (resume text).run (exec n)) (do let _ ← (resume text).run (exec m)) :=
      (ihResume text (resumes text)).bind fun _ _ => .pure trivial
    have puts {nesting : Nat}
        (writes : ∀ text, Writes hosts e (fun _ => True) (do let _ ← (resume text).run (exec nesting))) :
        Puts hosts e (exec nesting) (.text future resume) (putOff (.text future resume) <| pollText future fun text => do
          let _ ← (resume text).run (exec nesting)) := by
      have quiet : Quiet _ (pollText future fun text => do let _ ← (resume text).run (exec nesting)) :=
        Quiet.pollText (fun text => (keepingWhole.program (keeps_self (keeps_exec nesting)) _).bind fun _ _ =>
          Keeps.pure (V := fun _ => True) trivial) Keeps.throw
      have waits : Wait.Pure hosts (.text future resume) := ⟨⟨outcome, settles⟩, resumes⟩
      refine puts_putOff (Keeps.putOff quiet) waits polls_pollText quiet fun x leads => ?_
      obtain ⟨text, host, -, -, rfl⟩ := leads
      exact writes text
    refine ((puts fun text => (resumed text).left).matches (puts fun text => (resumed text).right) (fun _ _ => id) ?_
      ?_).attempt_bind (throws _) (throws _) fun _ _ => ih _ pure
    · rintro _ _ ⟨text, host, here, done, rfl⟩ ⟨text', host', there, done', rfl⟩
      cases (settles.eq here done).trans (settles.eq there done').symm
      exact (resumed text).agrees
    · intro deeper nesting x y same leads leads'
      exact below deeper (.text future resume) nesting m x y same ⟨⟨outcome, settles⟩, resumes⟩ leads leads'
  | act action next => exact pure.elim

end

/-! ### Rendering -/

def matching (pure : e.Pure hosts) (depth : Nat) : Coupling .any where
  rel := Matches hosts e depth
  helper := Helper.Pure hosts
  limit _ := True
  fills _ := True
  pure := .pure
  throw := .throw
  bind := .bind
  mapError g h := h.mapError g
  write := .write
  filter filters value := .still
    (fun ready done => by
      obtain ⟨-, kept, adds⟩ := (Quiet.withEngine _).still ready done
      cases done
      exact ⟨trivial, ready.pure.used (ready.pure.engine.applyFilters filters value), kept, adds⟩)
    fun ready ready' done done' => by
      cases done
      cases done'
      exact Engine.applyFilters_congr _ _ (ready'.pure.engine.filters.trans ready.pure.engine.filters.symm)
  record level message := .still
    (fun ready done => by
      obtain ⟨-, kept, adds⟩ := (Quiet.record level message).still ready done
      cases done
      exact ⟨trivial, ready.pure.used (ready.pure.engine.record level message), kept, adds⟩)
    fun _ _ _ _ => rfl
  called call := .still
    (fun ready done => by
      obtain ⟨-, kept, adds⟩ := (Quiet.called call).still ready done
      cases done
      exact ⟨trivial, ready.pure.used (ready.pure.engine.called call), kept, adds⟩)
    fun _ _ _ _ => rfl
  toText := .toText
  helper? name := .still
    (fun ready done => by
      obtain ⟨-, kept, adds⟩ := (Quiet.helper? name).still ready done
      cases done
      exact ⟨fun f found => pure.helpers (ready.pure.engine.same.helpers ▸ found), ready.pure, kept, adds⟩)
    fun ready ready' done done' => by
      cases done
      cases done'
      rw [ready.pure.engine.same.helpers, ready'.pure.engine.same.helpers]
  callable {id} _ := .still
    (fun ready done => by
      obtain ⟨-, kept, adds⟩ := (Quiet.callable id).still ready done
      cases done
      exact ⟨ready.pure.engine.same.functions ▸ pure.functions id, ready.pure, kept, adds⟩)
    fun ready ready' done done' => by
      cases done
      cases done'
      rw [ready.pure.engine.same.functions, ready'.pure.engine.same.functions]
  filled fillings := .still
    (fun ready done => by
      obtain ⟨kept, -⟩ := (Keeps.filled fillings _ ready.sound ready.writing).ends done
      cases done
      exact ⟨trivial, ⟨ready.pure.host, ready.pure.engine, ready.pure.config, ready.pure.loads, ready.pure.tasks⟩, kept,
        .of_eq ready.sound ready.writing rfl rfl rfl rfl⟩)
    fun _ _ _ _ => rfl
  depthLimit := .still
    (fun ready done => by
      obtain ⟨-, kept, adds⟩ := Quiet.depthLimit.still ready done
      cases done
      exact ⟨trivial, ready.pure, kept, adds⟩)
    fun ready ready' done done' => by
      cases done
      cases done'
      rw [ready.pure.config, ready'.pure.config]

variable (pure : e.Pure hosts)

include pure

theorem matches_template
    (hr : ∀ body context, Matches hosts e depth (fun _ => True) (exec n body context) (exec m body context))
    (t : Template) (context : Context) :
    Matches hosts e depth (fun _ => True) (template (exec n) t context) (template (exec m) t context) :=
  @Coupling.template .any (matching pure depth) (exec n) (exec m) context t fun _ _ _ => hr _ _

/-- A name and another one that leads to the same template are rendered alike. -/
theorem matches_named (below : Below hosts e depth)
    (hr : ∀ body context, Matches hosts e depth (fun _ => True) (exec n body context) (exec m body context))
    {name other : String} (also : ∀ t, e.Finds hosts name t → e.Finds hosts other t) (context : Context) :
    Matches hosts e depth (fun _ => True) (named (exec n) name context) (named (exec m) other context) := by
  have templates := matches_template pure hr
  refine (puts_named (keeps_exec n) fun t _ => (templates t context).left).matches
    (puts_named (keeps_exec m) fun t _ => (templates t context).right) ?_ ?_ ?_
  · rintro _ _ ⟨t, finds, rfl⟩
    exact ⟨t, also t finds, rfl⟩
  · rintro _ _ ⟨t, finds, rfl⟩ ⟨t', finds', rfl⟩
    cases finds.unique pure finds'
    exact (templates t context).agrees
  · intro deeper nesting x y same leads leads'
    exact below deeper (.load other context) nesting m x y same trivial leads leads'

theorem renders_matching (below : Below hosts e depth)
    (hr : ∀ body context, Matches hosts e depth (fun _ => True) (exec n body context) (exec m body context)) :
    (matching pure depth).Renders (exec n) (exec m) fun _ => True where
  body _ _ := hr _ _
  program hh _ _ _ := (matches_program below hr (hh _ _ _)).mono fun reply _ => by cases reply <;> trivial
  named _ _ _ := matches_named pure below hr (fun _ => id) _

theorem matches_step (below : Below hosts e depth)
    (hr : ∀ body context, Matches hosts e depth (fun _ => True) (exec n body context) (exec m body context))
    (context : Context) (step : Step) : Matches hosts e depth (fun _ => True) (Render.step (exec n) context step)
      (Render.step (exec m) context step) :=
  (renders_matching pure below hr).step step.inside_all trivial fun _ _ _ _ _ _ => hr _ _

/-- However many bodies the two renderers allow inside each other, what they add reads alike. -/
theorem matches_exec (below : Below hosts e depth) (n m : Nat) (body : Body) (context : Context) :
    Matches hosts e depth (fun _ => True) (exec n body context) (exec m body context) := by
  have none (body : Body) (context : Context) : Writes hosts e (fun _ => True) (exec 0 body context) :=
    fun _ _ _ _ done => by cases done
  have writes (n : Nat) (body : Body) (context : Context) : Writes hosts e (fun _ => True) (exec n body context) := by
    suffices diagonal : ∀ body context, Matches hosts e depth (fun _ => True) (exec n body context) (exec n body context)
      from (diagonal body context).left
    induction n with
    | zero => exact fun body context => ⟨none _ _, none _ _, fun _ _ _ _ _ _ _ _ _ _ done => by cases done⟩
    | succ n ih =>
      intro body context
      exact Coupling.forM (C := matching pure depth) fun step _ => matches_step pure below ih context step
  induction n generalizing m body context with
  | zero => exact ⟨none _ _, writes m _ _, fun _ _ _ _ _ _ _ _ _ _ done => by cases done⟩
  | succ n ih =>
    cases m with
    | zero => exact ⟨writes _ _ _, none _ _, fun _ _ _ _ _ _ _ _ _ _ _ done => by cases done⟩
    | succ m => exact Coupling.forM (C := matching pure depth) fun step _ => matches_step pure below (ih m) context step

theorem matches_leads (below : Below hosts e depth) (waits : wait.Pure hosts) (hx : Leads hosts e (exec n) wait x)
    (hy : Leads hosts e (exec m) wait y) : Matches hosts e depth (fun _ => True) x y := by
  cases wait with
  | text future resume =>
    obtain ⟨⟨outcome, settles⟩, resumes⟩ := waits
    obtain ⟨text, host, here, done, rfl⟩ := hx
    obtain ⟨text', host', there, done', rfl⟩ := hy
    cases (settles.eq here done).trans (settles.eq there done').symm
    exact (matches_program below (matches_exec pure below n m) (resumes text)).bind fun _ _ => .pure trivial
  | load name context =>
    obtain ⟨t, finds, rfl⟩ := hx
    obtain ⟨t', finds', rfl⟩ := hy
    cases finds.unique pure finds'
    exact matches_template pure (matches_exec pure below n m) t context

/-- By induction on how deeply gaps are filled, the runs of one work agree. -/
theorem agrees_below (depth : Nat) : Below hosts e depth := by
  induction depth with
  | zero =>
    intro deeper wait n m x y no
    cases no
  | succ depth ih =>
    intro deeper wait n m x y same waits hx hy
    cases same
    exact (matches_leads pure ih waits hx hy).agrees

theorem matches_job (depth n m : Nat) (job : Job) :
    Matches hosts e depth (fun _ => True) (job.run (exec n)) (job.run (exec m)) := by
  have below := agrees_below pure depth
  cases job with
  | named name context => exact matches_named pure below (matches_exec pure below n m) (fun _ => id) context
  | template t context => exact matches_template pure (matches_exec pure below n m) t context
  | fail error => exact .throw _ error

end RenderM
end Stencil
