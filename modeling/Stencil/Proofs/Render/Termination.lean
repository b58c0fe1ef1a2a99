import Stencil.Proofs.Render.FunctionFree
import Stencil.Proofs.Render.Stalls
import Stencil.Proofs.Render.Steps
import Stencil.Proofs.Render.Upholding

/-! Which renders end. Where no helper and no loader of the user's takes part, a body holds smaller bodies, entering a
    template counts towards the limit of depth, and filling a slot counts towards nothing. So a render ends exactly if the
    slots filled inside each other are bounded. -/

namespace Stencil

/-- An engine with the helpers of every engine and without a loader. -/
structure Engine.Plain (e : Engine) : Prop where
  helpers : e.helpers = Helper.builtin
  loader : e.loader = none
  limit : e.config.maxPartialDepth < Decimal.Numeral.maxIndex

/-- The engine has changed in what it notes only. -/
def Engine.Notes (e e' : Engine) : Prop := e' = { e with log := e'.log, readings := e'.readings, calls := e'.calls }

/-- The engine has changed in what it notes only, and nothing is put off. -/
structure Stage.Plain (e : Engine) (s : Stage) : Prop where
  engine : e.Notes s.engine
  config : s.render.config = e.config
  tasks : s.render.tasks = []
  failed : s.render.failed = []
  loads : s.render.loads = []

/-- No slot was filled inside more than so many others. -/
def Stage.FillsWithin (most : Nat) (s : Stage) : Prop := ∀ n, Entry.filled n ∈ s.render.journal → n ≤ most

/-- The number of slots around a slot that is filled. -/
def Entry.fillings : Entry → Nat
  | .filled n => n
  | _ => 0

/-- The greatest number of slots around a slot that was filled. -/
def Stage.mostFilled (s : Stage) : Nat := (s.render.journal.map Entry.fillings).foldr max 0

theorem Stage.fillsWithin_mostFilled (s : Stage) : s.FillsWithin s.mostFilled := by
  unfold FillsWithin mostFilled
  intro n
  induction s.render.journal with
  | nil => exact fun mem => by cases mem
  | cons entry rest ih =>
    intro mem
    rcases List.mem_cons.mp mem with rfl | mem
    · exact Nat.le_max_left ..
    · exact Nat.le_trans (ih mem) (Nat.le_max_right ..)

theorem Stage.FillsWithin.mono {s : Stage} {most more : Nat} (h : s.FillsWithin most) (le : most ≤ more) :
    s.FillsWithin more := fun n mem => Nat.le_trans (h n mem) le

theorem Engine.Notes.trans {e e' e'' : Engine} (h : e.Notes e') (h' : e'.Notes e'') : e.Notes e'' := by
  unfold Notes at h h' ⊢
  rw [h', h]

theorem Engine.notes_record (e : Engine) (level : LogLevel) (message : String) : e.Notes (e.record level message) := by
  unfold Notes record
  split <;> rfl

theorem Engine.notes_applyFilters (filters : List String) (value : Value) (e : Engine) :
    e.Notes (applyFilters filters value e).2 := by
  obtain ⟨log, calls, used⟩ : ∃ log calls, (applyFilters filters value e).2 = { e with log, calls } :=
    ⟨_, _, applyFilters_eq ..⟩
  rw [used]
  rfl

theorem Engine.Notes.read {e e' : Engine} (h : e.Notes e') (reading : Reading) : e.Notes (e'.read reading) := by
  unfold Notes at h ⊢
  rw [h]
  rfl

namespace RenderM

open Render

variable {α β : Type} {e : Engine} {most : Nat} {s : Stage}

/-- From a plain stage the code ends, unless it fills slots too deeply inside others on the way. -/
abbrev Ends (e : Engine) (most : Nat) (V : α → Prop) (x : RenderM α) : Prop :=
  Upholds (·.FillsWithin most) (·.Plain e) (· ≠ .outOfSteps) V x

theorem steady_plain (e : Engine) : Steady (·.Plain e) (· ≠ .outOfSteps) where
  violation _ no := by cases no
  output _ _ plain := ⟨plain.engine, plain.config, plain.tasks, plain.failed, plain.loads⟩
  side _ plain plain' := ⟨plain'.engine.read _, by rw [plain.engine], rfl, rfl, rfl⟩
  back plain plain' := ⟨plain'.engine, plain.config, plain.tasks, plain.failed, plain.loads⟩

namespace Ends

theorem withEngine {g : Engine → α × Engine} (notes : ∀ e : Engine, e.Notes (g e).2) :
    Ends e most (fun _ => True) (withEngine g) := Upholds.withEngine fun s plain =>
  ⟨plain.engine.trans (notes s.engine), plain.config, plain.tasks, plain.failed, plain.loads⟩

theorem record (level : LogLevel) (message : String) : Ends e most (fun _ => True) (record level message) :=
  .modify fun s plain => ⟨plain.engine.trans (s.engine.notes_record level message), plain.config, plain.tasks,
    plain.failed, plain.loads⟩

theorem called (call : Call) : Ends e most (fun _ => True) (called call) :=
  .modify fun _ plain => ⟨plain.engine.trans rfl, plain.config, plain.tasks, plain.failed, plain.loads⟩

theorem filled (n : Nat) : Ends e most (fun _ => n ≤ most) (note (.filled n)) := fun s plain within =>
  ⟨plain, ⟨plain.engine, plain.config, plain.tasks, plain.failed, plain.loads⟩, fun _ _ =>
    within { s with render := { s.render with journal := .filled n :: s.render.journal } } (Or.inr rfl) n
      List.mem_cons_self⟩

end Ends

/-! ### Rendering -/

def ending (e : Engine) (most : Nat) (of : Context) (plain : e.Plain) : Coupling (.functionFree of) where
  rel V x _ := Ends e most V x
  helper helper := ∃ name, Dict.get? name Helper.builtin = some helper
  limit limit := limit = e.config.maxPartialDepth
  fills n := n ≤ most
  pure := .pure
  throw _ := .throw
  bind := .bind
  mapError g hx := hx.mapError g
  write := .write (steady_plain e)
  filter _ _ := Ends.withEngine fun e => e.notes_applyFilters _ _
  record := Ends.record
  called := Ends.called
  toText := .toText (steady_plain e)
  helper? name := .get_bind fun s here => .pure fun f found => ⟨name, by rw [← found, here.engine, ← plain.helpers]⟩
  callable {id} no := by cases no
  filled := Ends.filled
  depthLimit := .get_bind fun s here => .pure (by rw [here.config])

variable {render : Renderer} {of context : Context} {bodies : Bodies Body} {params : Params}

theorem ends_renderBody {body : Option Body}
    (hr : ∀ b, body = some b → Ends e most (fun _ => True) (render b context)) :
    Ends e most (·.All Value.FunctionFree) ((Program.renderBody body context).run render) := by
  cases body with
  | none => exact .pure trivial
  | some b =>
    refine (hr b rfl).attempt.bind fun o _ => ?_
    cases o with
    | ok _ => exact .pure trivial
    | error error => exact .throw error

theorem functionFree_sizeOf (h : ∀ e ∈ params, e.2.FunctionFree) :
    (Helper.sizeOf (Dict.get? "key" params)).FunctionFree := by
  cases found : Dict.get? "key" params with
  | none => exact .int _
  | some v =>
    have free := h _ (Dict.mem_of_get? found)
    cases free with
    | array | object | string => exact Value.functionFree_ofNat _
    | int => exact .int _
    | float => exact .float _
    | null | bool => exact .int _

theorem ends_builtin {helper : Helper} (known : ∃ name, Dict.get? name Helper.builtin = some helper)
    (hc : (Scopes.functionFree of).context context) (hp : ∀ e ∈ params, e.2.FunctionFree)
    (hr : ∀ b c, bodies.block = some b → (Scopes.functionFree of).context c → Ends e most (fun _ => True) (render b c)) :
    Ends e most (·.All Value.FunctionFree) ((helper context bodies params).run render) := by
  obtain ⟨name, known⟩ := known
  have blockIf (condition : Bool) :
      Ends e most (·.All Value.FunctionFree) ((Helper.blockIf condition context bodies).run render) := by
    unfold Helper.blockIf
    split
    · exact ends_renderBody fun b some => hr b context some hc
    · exact .pure trivial
  rcases Helper.eq_of_get?_builtin known with rfl | rfl | rfl | rfl | rfl
  · exact blockIf _
  · exact blockIf _
  · exact blockIf _
  · refine ends_renderBody fun b some => hr b _ some ((Scopes.functionFree of).push hc ?_)
    split
    · exact Value.functionFree_ofNat _
    · exact .null
  · exact .pure (functionFree_sizeOf hp)

/-- Without a loader a name is that of a template kept, or there is an error. -/
theorem ends_named (plain : e.Plain) (name : String)
    (hr : ∀ t, Dict.get? name e.templates = some t → Ends e most (fun _ => True) (template render t context)) :
    Ends e most (fun _ => True) (named render name context) := by
  have kept : Ends e most (fun found => ∀ t, found = some t → Dict.get? name e.templates = some t) (kept? name) := by
    refine .get_bind fun s here => .pure fun t found => ?_
    rw [here.engine, Engine.lookup, plain.loader] at found
    simpa [Engine.getTemplate] using found
  refine kept.bind fun found hf => ?_
  cases found with
  | some t => exact hr t (hf t rfl)
  | none =>
    have fails : Ends e most (fun _ => False) (startLoad name context.templateName) := by
      refine .get_bind fun s here => ?_
      rw [here.loads]
      refine .get_bind fun s here => ?_
      rw [here.engine, plain.loader]
      exact (Ends.record _ _).bind fun _ _ => .throw _
    exact fails.bind fun _ no => no.elim

/-! ### How large bodies are -/

theorem params_sizeOf {list : List (String × Operand Body)} {n : Nat} (le : sizeOf list ≤ n) :
    ∀ entry ∈ list, entry.2.All fun b => sizeOf b < n := by
  intro entry mem
  have lt := List.sizeOf_lt_of_mem mem
  obtain ⟨key, value⟩ := entry
  cases value with
  | body b =>
    simp only [Prod.mk.sizeOf_spec, Operand.body.sizeOf_spec] at lt
    show sizeOf b < n
    omega
  | text | int | float | path => trivial

theorem bodies_sizeOf {bodies : Bodies Body} {n : Nat} (le : sizeOf bodies ≤ n) :
    bodies.All fun b => sizeOf b < n := by
  obtain ⟨block, named⟩ := bodies
  simp only [Bodies.mk.sizeOf_spec] at le
  refine ⟨fun b some => ?_, fun entry mem => ?_⟩
  · cases some
    simp only [Option.some.sizeOf_spec] at le
    omega
  · have lt := List.sizeOf_lt_of_mem mem
    obtain ⟨name, b⟩ := entry
    simp only [Prod.mk.sizeOf_spec] at lt
    show sizeOf b < n
    omega

theorem inside_sizeOf {body : Body} {step : Step} (mem : step ∈ body) :
    step.Inside fun b => sizeOf b < sizeOf body := by
  have lt := List.sizeOf_lt_of_mem mem
  cases step with
  | sectionTag kind key own list bodies =>
    simp only [Step.sectionTag.sizeOf_spec] at lt
    exact ⟨params_sizeOf (by omega), bodies_sizeOf (by omega)⟩
  | helperTag name own list bodies =>
    simp only [Step.helperTag.sizeOf_spec] at lt
    exact ⟨params_sizeOf (by omega), bodies_sizeOf (by omega)⟩
  | partialTag target own list =>
    simp only [Step.partialTag.sizeOf_spec] at lt
    refine ⟨?_, params_sizeOf (by omega)⟩
    cases target with
    | static name => trivial
    | dynamic b =>
      simp only [PartialName.dynamic.sizeOf_spec] at lt
      show sizeOf b < _
      omega
  | write | reference | slot => trivial

theorem default_sizeOf {body b : Body} {name : String} (mem : Step.slot name (some b) ∈ body) :
    sizeOf b < sizeOf body := by
  have lt := List.sizeOf_lt_of_mem mem
  simp only [Step.slot.sizeOf_spec, Option.some.sizeOf_spec] at lt
  omega

/-- No body that templates or scopes put anywhere is larger than a size. -/
def Sized (size : Nat) (e : Engine) : Prop := ∀ name t, Dict.get? name e.templates = some t → sizeOf t.body ≤ size ∧
  ∀ entry ∈ t.blocks, sizeOf entry.2 ≤ size

/-- How many bodies may still be rendered inside each other: each template that may be entered admits all fillings, each
    filling a body of any size. -/
noncomputable def allowance (limit most size : Nat) (context : Context) (body : Body) : Nat :=
  ((limit + 1 - context.depth) * (most + 2) + (most + 1 - context.fillings)) * (size + 1) + sizeOf body

variable {size : Nat} {body b : Body} {limit : Nat}

theorem allowance_inside (limit most size : Nat) (context : Context) (lt : sizeOf b < sizeOf body) :
    allowance limit most size context b < allowance limit most size context body :=
  Nat.add_lt_add_left lt _

theorem allowance_fill (limit : Nat) (body : Body) (few : context.fillings ≤ most) (le : sizeOf b ≤ size) :
    allowance limit most size context.fill b < allowance limit most size context body := by
  unfold allowance Context.fill
  dsimp only
  have step : most + 1 - context.fillings = most + 1 - (context.fillings + 1) + 1 := by omega
  rw [step, ← Nat.add_assoc, Nat.succ_mul]
  omega

theorem allowance_enter (most : Nat) (body : Body) (shallow : context.depth ≤ limit)
    (lt : limit < Decimal.Numeral.maxIndex) {t : Template} (le : sizeOf t.body ≤ size) :
    allowance limit most size (context.enter t) t.body < allowance limit most size context body := by
  have depth : (context.enter t).depth = context.depth + 1 := Nat.min_eq_left (by omega)
  have fillings : (context.enter t).fillings = 0 := rfl
  unfold allowance
  rw [depth, fillings]
  have step : limit + 1 - context.depth = limit + 1 - (context.depth + 1) + 1 := by omega
  rw [step, Nat.succ_mul]
  generalize (limit + 1 - (context.depth + 1)) * (most + 2) = rest
  have more : (rest + (most + 1 - 0) + 1) * (size + 1) ≤ (rest + (most + 2) + (most + 1 - context.fillings)) * (size + 1) :=
    Nat.mul_le_mul_right _ (by omega)
  rw [Nat.succ_mul] at more
  omega

/-- A body ends when it may be rendered with the bodies that are allowed inside it. -/
theorem ends_exec (plain : e.Plain) (sized : Sized size e) (nesting : Nat) (body : Body) (context : Context)
    (free : context.FunctionFree) (blocks : ∀ table ∈ context.blocks, ∀ entry ∈ table, sizeOf entry.2 ≤ size)
    (le : sizeOf body ≤ size) (enough : allowance e.config.maxPartialDepth most size context body < nesting) :
    Ends e most (fun _ => True) (exec nesting body context) := by
  induction nesting generalizing body context with
  | zero => exact absurd enough (Nat.not_lt_zero _)
  | succ nesting ih =>
    -- The scopes inside the body agree with the one around it in all that the allowance looks at.
    have agrees {c : Context} (hc : (Scopes.functionFree context).context c) :
        allowance e.config.maxPartialDepth most size c body =
          allowance e.config.maxPartialDepth most size context body := by
      unfold allowance
      rw [hc.2.2.1, hc.2.2.2]
    have inside {b : Body} {c : Context} (lt : sizeOf b < sizeOf body) (hc : (Scopes.functionFree context).context c) :
        Ends e most (fun _ => True) (exec nesting b c) := by
      have less := allowance_inside e.config.maxPartialDepth most size c lt
      rw [agrees hc] at less
      exact ih b c hc.1 (hc.2.1 ▸ blocks) (by omega) (by omega)
    have renders : (ending e most context plain).Renders (exec nesting) (exec nesting)
        fun b => sizeOf b < sizeOf body :=
      { body := inside
        program := fun known hc hb hp => ends_builtin known hc hp fun b c some hc' => inside (hb.1 b some) hc'
        named := by
          intro name c hc
          refine ends_named plain name fun t found => ?_
          obtain ⟨leT, leBlocks⟩ := sized name t found
          refine @Coupling.template _ (ending e most context plain) (exec nesting) (exec nesting) c t ?_
          rintro _ rfl shallow
          have less := allowance_enter most body shallow plain.limit leT
          rw [agrees hc] at less
          refine ih t.body (c.enter t) ⟨hc.1.frames, hc.1.globals⟩ ?_ leT (by omega)
          unfold Context.enter
          dsimp only
          rw [hc.2.1]
          split
          · exact blocks
          · exact List.forall_mem_cons.mpr ⟨leBlocks, blocks⟩ }
    refine Coupling.forM (C := ending e most context plain) (g := step (exec nesting) context) fun step mem => ?_
    refine renders.step (inside_sizeOf mem) ⟨free, rfl, rfl, rfl⟩ fun name default b same fill few => ?_
    have leB : sizeOf b ≤ size := by
      rcases Option.or_eq_some_iff.mp fill with put | ⟨-, rfl⟩
      · obtain ⟨table, memTable, found⟩ := List.exists_of_findSome?_eq_some put
        exact blocks table memTable _ (Dict.mem_of_get? found)
      · have lt := default_sizeOf (same ▸ mem)
        omega
    have less := allowance_fill e.config.maxPartialDepth body few leB
    exact ih b context.fill ⟨free.frames, free.globals⟩ blocks leB (by omega)

theorem allowance_le (le : sizeOf body ≤ size) : allowance limit most size context body ≤
    ((limit + 1) * (most + 2) + (most + 1)) * (size + 1) + size := by
  have depth : (limit + 1 - context.depth) * (most + 2) ≤ (limit + 1) * (most + 2) := Nat.mul_le_mul_right _ (by omega)
  have both : ((limit + 1 - context.depth) * (most + 2) + (most + 1 - context.fillings)) * (size + 1) ≤
      ((limit + 1) * (most + 2) + (most + 1)) * (size + 1) := Nat.mul_le_mul_right _ (by omega)
  unfold allowance
  omega

/-! ### Streams -/

theorem ends_template (plain : e.Plain) (sized : Sized size e) {t : Template} (leT : sizeOf t.body ≤ size)
    (leBlocks : ∀ entry ∈ t.blocks, sizeOf entry.2 ≤ size) (free : context.FunctionFree)
    (blocks : ∀ table ∈ context.blocks, ∀ entry ∈ table, sizeOf entry.2 ≤ size) {nesting : Nat}
    (enough : ((e.config.maxPartialDepth + 1) * (most + 2) + (most + 1)) * (size + 1) + size < nesting) :
    Ends e most (fun _ => True) (template (exec nesting) t context) := by
  refine @Coupling.template _ (ending e most context plain) (exec nesting) (exec nesting) context t fun _ _ _ => ?_
  refine ends_exec plain sized nesting t.body (context.enter t) ⟨free.frames, free.globals⟩ ?_ leT
    (Nat.lt_of_le_of_lt (allowance_le leT) enough)
  unfold Context.enter
  dsimp only
  split
  · exact blocks
  · exact List.forall_mem_cons.mpr ⟨leBlocks, blocks⟩

theorem ends_close (outcome : Except Error Unit) : Ends e most (fun _ => True) (close outcome) := by
  refine .modify fun s plain => ?_
  rcases close_cases s outcome with same | ⟨chunks, events, progress, same⟩ | ⟨error, same⟩
  · exact same.symm ▸ plain
  · rw [same]
    exact ⟨plain.engine, plain.config, plain.tasks, plain.failed, plain.loads⟩
  · rw [same]
    exact ⟨plain.engine.trans (Engine.notes_record ..), plain.config, rfl, plain.failed, rfl⟩

theorem ends_drive (steps : Nat) : Ends e most (fun _ => True) (drive (steps + 1)) := by
  refine .get_bind fun s plain => ?_
  dsimp only
  split
  · exact .pure trivial
  · rw [plain.tasks, List.getElem?_nil]
    exact .pure trivial

/-- The greatest number of slots around a slot that is filled, in all stages that the code comes through. -/
def mostFilled : RenderM α → Stage → Nat
  | done _, s => s.mostFilled
  | halt _, s => s.mostFilled
  | look next, s => (next s).mostFilled s
  | move u next, s => max s.mostFilled (next.mostFilled u)

/-- Every run comes through finitely many stages. -/
theorem fillsWithin_mostFilled (x : RenderM α) {s t : Stage} (pass : x.Passes s t) :
    t.FillsWithin (x.mostFilled s) := by
  induction x generalizing s with
  | done outcome | halt reason =>
    cases pass
    exact Stage.fillsWithin_mostFilled _
  | look next ih => exact ih s pass
  | move u next ih =>
    rcases pass with rfl | pass
    · exact t.fillsWithin_mostFilled.mono (Nat.le_max_left ..)
    · exact (ih pass).mono (Nat.le_max_right ..)

end RenderM

open RenderM Render

theorem entry_sizeOf {table : Dict Body} {n : Nat} (le : sizeOf table ≤ n) : ∀ entry ∈ table, sizeOf entry.2 ≤ n := by
  intro entry mem
  have lt := List.sizeOf_lt_of_mem mem
  obtain ⟨name, b⟩ := entry
  simp only [Prod.mk.sizeOf_spec] at lt
  show sizeOf b ≤ n
  omega

theorem template_sizeOf {t : Template} {n : Nat} (le : sizeOf t ≤ n) :
    sizeOf t.body ≤ n ∧ ∀ entry ∈ t.blocks, sizeOf entry.2 ≤ n := by
  obtain ⟨name, body, blocks⟩ := t
  simp only [Template.mk.sizeOf_spec] at le
  exact ⟨by dsimp only; omega, entry_sizeOf (by dsimp only; omega)⟩

/-- With enough steps a stream is rendered to its end, unless it fills slots too deeply inside others. -/
theorem ends_work {e : Engine} (plain : e.Plain) (subject : Subject) {context : Context} (free : context.FunctionFree)
    (most : Nat) :
    ∃ steps, ∀ more, steps ≤ more → Ends e most (fun _ => True) ((e.stream subject context).work more) := by
  let size := sizeOf e.templates + sizeOf context.blocks + sizeOf subject
  have sized : Sized size e := by
    intro name t found
    have lt := List.sizeOf_lt_of_mem (Dict.mem_of_get? found)
    simp only [Prod.mk.sizeOf_spec] at lt
    exact template_sizeOf (by omega)
  have blocks : ∀ table ∈ context.blocks, ∀ entry ∈ table, sizeOf entry.2 ≤ size := fun table mem =>
    entry_sizeOf (by have lt := List.sizeOf_lt_of_mem mem; omega)
  refine ⟨((e.config.maxPartialDepth + 1) * (most + 2) + (most + 1)) * (size + 1) + size + 1, fun more le => ?_⟩
  obtain ⟨steps, rfl⟩ := Nat.exists_eq_succ_of_ne_zero (Nat.ne_zero_of_lt le)
  have jobs {job : Job} (h : Ends e most (fun _ => True) (job.run (exec (steps + 1)))) :
      Ends e most (fun _ => True) (start (job.run (exec (steps + 1))) >>= fun _ => drive (steps + 1)) :=
    ((Upholds.within (steady_plain e) _ h).attempt.bind fun outcome _ => ends_close outcome).bind
      fun _ _ => ends_drive steps
  cases subject with
  | name name =>
    refine @jobs (.named name context) (ends_named plain name fun t found => ?_)
    obtain ⟨leT, leBlocks⟩ := sized name t found
    exact ends_template plain sized leT leBlocks free blocks le
  | template t =>
    refine @jobs (.template t context) ?_
    have leT : sizeOf t ≤ size := by
      simp only [size, Subject.template.sizeOf_spec]
      omega
    exact ends_template plain sized (template_sizeOf leT).1 (template_sizeOf leT).2 free blocks le

/-- A call that ends fills slots as deeply as one with any other number of steps can. -/
theorem fillsWithin_of_run {o : OutputStream} {steps : Nat} {s t : Stage} {outcome : Except Error Unit}
    (done : (o.work steps).run s = .ok (outcome, t)) {more : Nat} {u : Stage} (pass : (o.work more).Passes s u) :
    u.FillsWithin ((o.work steps).mostFilled s) := by
  rcases Nat.le_total more steps with le | le
  · exact fillsWithin_mostFilled _ (Extends.passes (grows_work o le) pass)
  · refine fillsWithin_mostFilled _ ((Extends.passes_iff (grows_work o le) ?_).mpr pass)
    intro no
    cases done.symm.trans no

/-- A render ends, complete or with an error, exactly if the slots that it fills inside each other are bounded. -/
theorem ends_iff_fillings_bounded {e : Engine} (plain : e.Plain) (subject : Subject) {context : Context}
    (free : context.FunctionFree) (host : Host) :
    (∃ steps, ∀ more, steps ≤ more → ∃ progress w o, (e.stream subject context).runUntilStalled more
      { engine := e, host } = .ok (progress, w, o) ∧ progress ≠ .pending) ↔
    ∃ most, ∀ steps s, ((e.stream subject context).work steps).Passes
      { engine := e, host, render := { config := e.config } } s → s.FillsWithin most := by
  constructor
  · rintro ⟨steps, ends⟩
    obtain ⟨_, _, _, ran, -⟩ := ends steps (Nat.le_refl _)
    obtain ⟨_, advanced, -⟩ := bind_eq_ok.mp ran
    obtain ⟨_, done, -⟩ := bind_eq_ok.mp advanced
    exact ⟨_, fun more s => fillsWithin_of_run done⟩
  · rintro ⟨most, within⟩
    obtain ⟨steps, ends⟩ := ends_work plain subject free most
    refine ⟨steps, fun more le => ?_⟩
    have safe := ends more le { engine := e, host, render := { config := e.config } } ⟨rfl, rfl, rfl, rfl, rfl⟩
      (within more)
    have lawful : ((e.stream subject context).work more).Safe (·.render.Owned) (· = .outOfSteps)
        { engine := e, host, render := { config := e.config } } _ :=
      OutputStream.safe_work (w := { engine := e, host }) (Reached.new e _).awaits
    cases ran : ((e.stream subject context).work more).run { engine := e, host, render := { config := e.config } } with
    | error reason => exact absurd (lawful.halts ran) (safe.halts ran)
    | ok result =>
      obtain ⟨outcome, t⟩ := result
      have advanced : (e.stream subject context).advance more { engine := e, host } =
          .ok (t.toWorld, { e.stream subject context with render := t.render, job := none }) :=
        bind_eq_ok.mpr ⟨_, ran, rfl⟩
      refine ⟨t.render.progress, _, _, bind_eq_ok.mpr ⟨_, advanced, rfl⟩, fun pending => ?_⟩
      have last : t.Plain e := safe.passes (passes_last ran)
      have alive : t.render.progress ≠ .failed := by
        intro no
        cases pending.symm.trans no
      exact ((lawful.ends ran).pending_iff alive last.tasks).mp pending last.failed

/-- A slot filled with a text. -/
def slotTemplate : Template := ⟨none, [.slot "a" none], [("a", [.write "x"])]⟩

/-- The slot is inside of no other, so that the render ends with any number of steps but a few; and as it ends, the slots
    that are filled inside each other are bounded. -/
theorem ends_iff_fillings_bounded_slotTemplate :
    (∃ steps, ∀ more, steps ≤ more → ∃ progress w o,
      (Engine.stream {} (.template slotTemplate) {}).runUntilStalled more {} = .ok (progress, w, o) ∧ progress ≠ .pending) ∧
    ∃ most, ∀ steps s, (OutputStream.work steps (Engine.stream {} (.template slotTemplate) {})).Passes
      { render := { config := {} } } s → s.FillsWithin most := by
  let stream := Engine.stream {} (.template slotTemplate) {}
  have shallow : (stream.work 3).mostFilled { render := { config := {} } } = 0 := by decide +kernel
  have seen : ((stream.work 3).run { render := { config := {} } }).toOption.any (fun r =>
      decide (r.2.render.progress = .complete)) = true := by decide +kernel
  obtain ⟨⟨outcome, t⟩, done, -⟩ := exists_eq_ok seen
  have ends_iff := @ends_iff_fillings_bounded {} ⟨rfl, rfl, by decide⟩ (.template slotTemplate) {} ⟨by simp, by simp⟩ {}
  have bounded (steps : Nat) (s : Stage) (pass : (stream.work steps).Passes { render := { config := {} } } s) :
      s.FillsWithin 0 := shallow ▸ fillsWithin_of_run done pass
  have ends := ends_iff.mpr ⟨0, bounded⟩
  exact ⟨ends, ends_iff.mp ends⟩

/-- An engine with a template that puts a slot into the same slot. -/
def loopEngine : Engine := (({} : Engine).addTemplate "t" "\x7b<a\x7d\x7b+a/\x7d\x7b/a\x7d\x7b+a/\x7d").2

/-- Whether a template is a slot and puts the slot into itself. -/
def Template.refills (slot : String) : Template → Bool
  | ⟨_, [.slot a none], [(b, [.slot c none])]⟩ => a == slot && b == slot && c == slot
  | _ => false

theorem Template.eq_of_refills {t : Template} {slot : String} (refills : t.refills slot = true) :
    t = ⟨t.name, [.slot slot none], [(slot, [.slot slot none])]⟩ := by
  unfold Template.refills at refills
  split at refills
  · next name a b c =>
    simp only [Bool.and_eq_true, beq_iff_eq] at refills
    obtain ⟨⟨rfl, rfl⟩, rfl⟩ := refills
    rfl
  · cases refills

theorem loopEngine_template : ∃ name,
    loopEngine.getTemplate "t" = some ⟨name, [.slot "a" none], [("a", [.slot "a" none])]⟩ := by
  have seen : (loopEngine.getTemplate "t").any (·.refills "a") = true := by decide +kernel
  obtain ⟨t, found, refills⟩ := (Option.any_eq_true ..).mp seen
  exact ⟨t.name, found.trans (congrArg some (Template.eq_of_refills refills))⟩

theorem exec_loop (nesting : Nat) {context : Context} (filled : context.block? "a" = some [.slot "a" none]) (s : Stage) :
    (exec nesting [.slot "a" none] context).run s = .error .outOfSteps := by
  induction nesting generalizing context s with
  | zero => rfl
  | succ nesting ih =>
    have slot : (Render.slot (exec nesting) "a" none context).run s = .error .outOfSteps := by
      unfold Render.slot
      rw [filled]
      exact (run_bind_of_ok rfl).trans (@ih context.fill filled _)
    exact run_bind_of_halt slot

theorem loopEngine_plain : loopEngine.Plain := by
  have same := ({} : Engine).same_addTemplate "t" "\x7b<a\x7d\x7b+a/\x7d\x7b/a\x7d\x7b+a/\x7d"
  have config := ({} : Engine).config_addTemplate "t" "\x7b<a\x7d\x7b+a/\x7d\x7b/a\x7d\x7b+a/\x7d"
  exact ⟨same.helpers, same.loader, by rw [loopEngine, config]; decide⟩

/-- Some render never ends, however many steps it is given. -/
theorem render_without_end : ¬ ∀ e : Engine, e.Plain → ∀ name, (∃ t, e.getTemplate name = some t) →
    ∀ context : Context, context.FunctionFree → ∀ host, ∃ steps r,
      (e.stream (.name name) context).runUntilStalled steps { engine := e, host } = .ok r := by
  intro ends
  obtain ⟨name, found⟩ := loopEngine_template
  obtain ⟨steps, r, ran⟩ := ends loopEngine loopEngine_plain "t" ⟨_, found⟩ {} ⟨by simp, by simp⟩ {}
  obtain ⟨_, advanced, -⟩ := bind_eq_ok.mp ran
  obtain ⟨_, done, -⟩ := bind_eq_ok.mp advanced
  let s : Stage :=
    { engine := loopEngine, host := {}, render := { config := loopEngine.config, writers := [Chunks.root] } }
  have looks : (kept? "t").run s = .ok (.ok (some ⟨name, [.slot "a" none], [("a", [.slot "a" none])]⟩), s) := by
    have kept : s.engine.lookup "t" s.render.config.cache = some ⟨name, [.slot "a" none], [("a", [.slot "a" none])]⟩ := by
      unfold Engine.lookup
      rw [loopEngine_plain.loader]
      simpa using found
    exact congrArg (fun t => Except.ok (Except.ok t, s)) kept
  have enters : (Render.named (exec steps) "t" {}).run s = .error .outOfSteps := by
    refine (run_bind_of_ok looks).trans ?_
    refine (run_bind_of_ok (a := loopEngine.config.maxPartialDepth) (t := s) rfl).trans ?_
    have shallow : ¬ loopEngine.config.maxPartialDepth < ({} : Context).depth := Nat.not_lt_zero _
    rw [if_neg shallow]
    exact exec_loop steps rfl s
  have inside : (within Chunks.root (Render.named (exec steps) "t" {})).run
      { engine := loopEngine, host := {}, render := { config := loopEngine.config } } = .error .outOfSteps :=
    (run_bind_of_ok rfl).trans (run_bind_of_halt (run_attempt_of_halt enters))
  have stuck := run_bind_of_halt (f := fun _ => Render.drive steps)
    (run_bind_of_halt (f := close) (run_attempt_of_halt inside))
  cases stuck.symm.trans done

end Stencil
