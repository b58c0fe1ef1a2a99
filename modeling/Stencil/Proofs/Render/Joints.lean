import Stencil.Stream

/-! What steps are made of. A step renders the bodies it holds, what fills a slot and the templates it names, quotes bodies
    on the side, calls what it names and runs values through its filters. A relation of code that holds of all these holds
    of the step. -/

namespace Stencil

/-- The values and scopes that code is to meet. -/
structure Scopes where
  value : Value → Prop
  context : Context → Prop
  null : value .null
  string (s : String) : value (.string s)
  int (n : Int64) : value (.int n)
  float (x : Float) : value (.float x)
  object {fields : List (String × Value)} : (∀ e ∈ fields, value e.2) → value (.object fields)
  item {list : List Value} {v : Value} : value (.array list) → v ∈ list → value v
  resolve {c : Context} {path : Path} {v : Value} : context c → c.resolve path = some v → value v
  push {c : Context} {v : Value} : context c → value v → context (c.push v)
  pushItem {c : Context} {v : Value} (index count : Nat) : context c → value v → context (c.pushItem v index count)
  rebase {c : Context} {v : Value} : context c → value v → context (c.rebase v)

/-- Every value, every scope. -/
def Scopes.any : Scopes where
  value _ := True
  context _ := True
  null := trivial
  string _ := trivial
  int _ := trivial
  float _ := trivial
  object _ := trivial
  item _ _ := trivial
  resolve _ _ := trivial
  push _ _ := trivial
  pushItem _ _ _ _ := trivial
  rebase _ _ := trivial

/-- The value of a reply has a property. -/
def Reply.All (p : Value → Prop) : Reply → Prop
  | .value v => p v
  | .written => True

/-! ### What a step names and holds -/

/-- The body is the value of one of the parameters. -/
def Step.InParams (params : List (String × Operand Body)) (body : Body) : Prop := ∃ e ∈ params, e.2 = .body body

/-- The body is one of those of a tag. -/
def Bodies.Holds (bodies : Bodies Body) (body : Body) : Prop :=
  bodies.block = some body ∨ ∃ e ∈ bodies.named, e.2 = body

namespace Step

/-- The body is inside the step. What fills a slot is not. -/
def Holds (body : Body) : Step → Prop
  | .sectionTag _ _ _ params bodies => InParams params body ∨ bodies.Holds body
  | .helperTag _ _ params bodies => InParams params body ∨ bodies.Holds body
  | .partialTag target _ params => target = .dynamic body ∨ InParams params body
  | _ => False

/-- The step renders the body on the side: it is a parameter, or the name of a partial. -/
def Quotes (body : Body) : Step → Prop
  | .sectionTag _ _ _ params _ => InParams params body
  | .helperTag _ _ params _ => InParams params body
  | .partialTag target _ params => target = .dynamic body ∨ InParams params body
  | _ => False

/-- The step is a section that may show the body. -/
def Dispatches (body : Body) : Step → Prop
  | .sectionTag _ _ _ _ bodies => bodies.Holds body
  | _ => False

/-- The step may call a callable, under this name. -/
def Calls (name : String) : Step → Prop
  | .reference path _ => path.text = name
  | .sectionTag _ key _ _ _ => key.text = name
  | .helperTag helper _ _ _ => helper = name
  | _ => False

/-- The step may write values through these filters. -/
def Filters (filters : List String) : Step → Prop
  | .reference _ list => list = filters
  | .helperTag _ _ _ _ => [escapeFilter] = filters
  | _ => False

/-- The step renders a template. -/
def Includes : Step → Prop
  | .partialTag _ _ _ => True
  | _ => False

theorem Quotes.holds {step : Step} {body : Body} (h : step.Quotes body) : step.Holds body := by
  cases step with
  | sectionTag => exact Or.inl h
  | helperTag => exact Or.inl h
  | partialTag => exact h
  | write | reference | slot => exact h.elim

theorem Dispatches.holds {step : Step} {body : Body} (h : step.Dispatches body) : step.Holds body := by
  cases step with
  | sectionTag => exact Or.inr h
  | write | reference | helperTag | partialTag | slot => exact h.elim

end Step

theorem Bodies.Holds.of_else? {bodies : Bodies Body} {body : Body} (found : bodies.else? = some body) :
    bodies.Holds body := by
  obtain ⟨e, get, rfl⟩ := Option.map_eq_some_iff.mp found
  exact Or.inr ⟨e, List.mem_of_find?_eq_some get, rfl⟩

/-! ### Relations of code -/

/-- A relation of code whose results have a property. It holds of what all steps are made of. -/
structure Joint (S : Scopes) where
  rel {α : Type} : (α → Prop) → RenderM α → RenderM α → Prop
  /-- What code is to meet under a name that is called. -/
  helper : String → Helper → Prop
  /-- The numbers of slots around a slot that code is to meet. -/
  fills : Nat → Prop
  protected pure {α : Type} {V : α → Prop} {a : α} : V a → rel V (pure a) (pure a)
  protected bind {α β : Type} {V : α → Prop} {W : β → Prop} {x y : RenderM α} {f g : α → RenderM β} :
    rel V x y → (∀ a, V a → rel W (f a) (g a)) → rel W (x >>= f) (y >>= g)
  protected write (text : String) : rel (fun _ => True) (RenderM.write text) (RenderM.write text)
  protected record (level : LogLevel) (message : String) :
    rel (fun _ => True) (RenderM.record level message) (RenderM.record level message)
  protected helper? (name : String) :
    rel (fun found => ∀ f, found = some f → helper name f) (RenderM.helper? name) (RenderM.helper? name)
  protected callable {context : Context} {path : Path} {id : FunctionId} : S.context context →
    context.resolve path = some (.function id) → rel (helper path.text) (RenderM.callable id) (RenderM.callable id)
  protected filled (fillings : Nat) :
    rel (fun _ => fills fillings) (RenderM.note (.filled fillings)) (RenderM.note (.filled fillings))

namespace Joint

open Render

variable {S : Scopes} (J : Joint S) {render render' : Renderer} {context : Context}

/-- Two ways to render agree on what a step in a scope leads to. -/
structure Meets (render render' : Renderer) (context : Context) (step : Step) : Prop where
  body {held : Body} {inner : Context} : step.Dispatches held → S.context inner →
    J.rel (fun _ => True) (render held inner) (render' held inner)
  quoted {held : Body} : step.Quotes held →
    J.rel (fun _ => True) (RenderM.toText context.templateName (render held context))
      (RenderM.toText context.templateName (render' held context))
  call {name : String} {helper : Helper} {inner : Context} {bodies : Bodies Body} {params : Params} : step.Calls name →
    J.helper name helper → S.context inner → (∀ held, bodies.Holds held → step.Holds held) →
    (∀ e ∈ params, S.value e.2) → J.rel (·.All S.value) (Render.call render helper name inner bodies params)
      (Render.call render' helper name inner bodies params)
  filtered {filters : List String} (value : Value) : step.Filters filters →
    J.rel (fun _ => True) (Render.writeFiltered value filters) (Render.writeFiltered value filters)
  named (name : String) {inner : Context} : step.Includes → S.context inner →
    J.rel (fun _ => True) (Render.named render name inner) (Render.named render' name inner)
  filling {name : String} {default : Option Body} {body : Body} : step = .slot name default →
    (context.block? name).or default = some body → J.fills context.fillings →
    J.rel (fun _ => True) (render body context.fill) (render' body context.fill)

variable {J}

theorem forM {α : Type} {f g : α → RenderM Unit} {list : List α}
    (h : ∀ a ∈ list, J.rel (fun _ => True) (f a) (g a)) : J.rel (fun _ => True) (list.forM f) (list.forM g) := by
  induction list with
  | nil => exact J.pure trivial
  | cons a rest ih =>
    exact J.bind (h a List.mem_cons_self) fun _ _ => ih fun b mem => h b (List.mem_cons_of_mem _ mem)

theorem context_scope {params : Params} (own : Option Path) (hc : S.context context)
    (hp : ∀ e ∈ params, S.value e.2) : S.context (scope context own params) := by
  have layered {base : Context} (hb : S.context base) :
      S.context (if params.isEmpty then base else base.push (.object params)) := by
    split
    · exact hb
    · exact S.push hb (S.object hp)
  cases own with
  | none => exact layered hc
  | some path =>
    refine layered (S.rebase hc ?_)
    cases found : context.resolve path with
    | none => exact S.null
    | some v => exact S.resolve hc found

theorem optional {body : Option Body}
    (h : ∀ b, body = some b → J.rel (fun _ => True) (render b context) (render' b context)) :
    J.rel (fun _ => True) (Render.optional render body context) (Render.optional render' body context) := by
  cases body with
  | none => exact J.pure trivial
  | some b => exact h b rfl

theorem operand {o : Operand Body} (hc : S.context context) (quoted : ∀ b, o = .body b → J.rel (fun _ => True)
      (RenderM.toText context.templateName (render b context)) (RenderM.toText context.templateName (render' b context))) :
    J.rel S.value (Render.operand render context o) (Render.operand render' context o) := by
  cases o with
  | text s => exact J.pure (S.string s)
  | int n => exact J.pure (S.int n)
  | float x => exact J.pure (S.float x)
  | path path =>
    refine J.pure ?_
    cases found : context.resolve path with
    | none => exact S.null
    | some v => exact S.resolve hc found
  | body body => exact J.bind (quoted body rfl) fun text _ => J.pure (S.string text)

theorem params {list : List (String × Operand Body)} (hc : S.context context)
    (quoted : ∀ b, Step.InParams list b → J.rel (fun _ => True)
      (RenderM.toText context.templateName (render b context)) (RenderM.toText context.templateName (render' b context))) :
    J.rel (fun values => ∀ e ∈ values, S.value e.2) (Render.params render list context)
      (Render.params render' list context) := by
  unfold Render.params
  have hv : ∀ e ∈ ([] : Params), S.value e.2 := by simp
  revert hv
  generalize ([] : Params) = values
  intro hv
  induction list generalizing values with
  | nil => exact J.pure hv
  | cons entry rest ih =>
    obtain ⟨key, value⟩ := entry
    rw [List.foldlM_cons, List.foldlM_cons]
    refine J.bind (V := fun values => ∀ e ∈ values, S.value e.2) ?_
      (ih fun b ⟨e, mem, same⟩ => quoted b ⟨e, List.mem_cons_of_mem _ mem, same⟩)
    have here := operand hc fun b same => quoted b ⟨(key, value), List.mem_cons_self, same⟩
    refine J.bind here fun v ok => J.pure fun e mem => ?_
    rcases Dict.mem_insert mem with rfl | mem
    · exact ok
    · exact hv e mem

section

variable {bodies : Bodies Body} (hb : ∀ held inner, bodies.Holds held → S.context inner →
  J.rel (fun _ => True) (render held inner) (render' held inner)) (hc : S.context context)

include hb hc

theorem items {block : Body} {list : List Value} (some : bodies.block = some block) (hl : ∀ v ∈ list, S.value v) :
    J.rel (fun _ => True) (Render.items render block context list) (Render.items render' block context list) := by
  refine forM fun e mem => ?_
  obtain ⟨item, index⟩ := e
  obtain ⟨_, mem⟩ := List.mem_zipIdx' mem
  exact hb block _ (Or.inl some) (S.pushItem index list.length hc (hl item (mem ▸ List.getElem_mem _)))

theorem dispatch {value : Value} (kind : SectionKind) (hv : S.value value) : J.rel (fun _ => True)
    (Render.dispatch render kind value context bodies) (Render.dispatch render' kind value context bodies) := by
  have block : J.rel (fun _ => True) (Render.optional render bodies.block context)
      (Render.optional render' bodies.block context) := optional fun b some => hb b _ (Or.inl some) hc
  have other : J.rel (fun _ => True) (Render.optional render bodies.else? context)
      (Render.optional render' bodies.else? context) := optional fun b found => hb b _ (.of_else? found) hc
  unfold Render.dispatch
  split
  · split
    · exact other
    · exact block
  · split
    · exact block
    · exact other
  · exact other
  · split
    · exact J.pure trivial
    · next some _ => exact items hb hc some fun v mem => S.item hv mem
    · next some _ => exact hb _ _ (Or.inl some) hc
    · next some _ _ _ => exact hb _ _ (Or.inl some) (S.push hc hv)

end

namespace Meets

theorem reference {path : Path} {filters : List String} (M : J.Meets render render' context (.reference path filters))
    (hc : S.context context) : J.rel (fun _ => True) (Render.reference render path filters context)
      (Render.reference render' path filters context) := by
  unfold Render.reference
  split
  · exact J.pure trivial
  · next id found =>
    have none (held : Body) (no : Bodies.empty.Holds held) : (Step.reference path filters).Holds held := by
      simp [Bodies.Holds, Bodies.empty] at no
    refine J.bind (J.callable hc found) fun helper hh => J.bind (M.call rfl hh hc none (by simp)) fun reply _ => ?_
    split
    · exact M.filtered _ rfl
    · exact J.pure trivial
  · exact M.filtered _ rfl

theorem sectionTag {kind : SectionKind} {key : Path} {own : Option Path} {list : List (String × Operand Body)}
    {bodies : Bodies Body} (M : J.Meets render render' context (.sectionTag kind key own list bodies))
    (hc : S.context context) : J.rel (fun _ => True) (Render.sectionTag render kind key own list bodies context)
      (Render.sectionTag render' kind key own list bodies context) := by
  have hb (held : Body) (inner : Context) (holds : bodies.Holds held) (hi : S.context inner) :
      J.rel (fun _ => True) (render held inner) (render' held inner) := M.body holds hi
  unfold Render.sectionTag
  refine J.bind (params hc fun b mem => M.quoted mem) fun params hp => ?_
  have inner := context_scope own hc hp
  dsimp only
  split
  · exact dispatch hb inner kind S.null
  · next id found =>
    refine J.bind (J.callable hc found) fun helper hh => ?_
    refine J.bind (M.call rfl hh inner (fun _ => Or.inr) hp) fun reply hr => ?_
    split
    · exact dispatch hb inner kind hr
    · exact J.pure trivial
  · next found => exact dispatch hb inner kind (S.resolve hc found)

theorem helperTag {name : String} {own : Option Path} {list : List (String × Operand Body)} {bodies : Bodies Body}
    (M : J.Meets render render' context (.helperTag name own list bodies)) (hc : S.context context) :
    J.rel (fun _ => True) (Render.helperTag render name own list bodies context)
      (Render.helperTag render' name own list bodies context) := by
  unfold Render.helperTag
  refine J.bind (J.helper? name) fun found hh => ?_
  cases found with
  | none => exact J.record ..
  | some helper =>
    refine J.bind (params hc fun b mem => M.quoted mem) fun params hp => ?_
    have inner : S.context (scope context own []) := context_scope own hc (by simp)
    refine J.bind (M.call rfl (hh helper rfl) inner (fun _ => Or.inr) hp) fun reply _ => ?_
    split
    · exact M.filtered _ rfl
    · exact J.pure trivial

theorem partialTag {target : PartialName Body} {own : Option Path} {list : List (String × Operand Body)}
    (M : J.Meets render render' context (.partialTag target own list)) (hc : S.context context) :
    J.rel (fun _ => True) (Render.partialTag render target own list context)
      (Render.partialTag render' target own list context) := by
  have rest (name : String) : J.rel (fun _ => True)
      (Render.params render list context >>= fun values => Render.named render name (scope context own values))
      (Render.params render' list context >>= fun values => Render.named render' name (scope context own values)) :=
    J.bind (params hc fun b mem => M.quoted (Or.inr mem)) fun _ hp => M.named name trivial (context_scope own hc hp)
  unfold Render.partialTag
  cases target with
  | static name => exact J.bind (V := fun _ => True) (J.pure trivial) fun name _ => rest name
  | dynamic body => exact J.bind (M.quoted (Or.inl rfl)) fun name _ => rest name

theorem slot {name : String} {default : Option Body} (M : J.Meets render render' context (.slot name default)) :
    J.rel (fun _ => True) (Render.slot render name default context) (Render.slot render' name default context) := by
  unfold Render.slot
  cases found : (context.block? name).or default with
  | none => exact J.pure trivial
  | some b => exact J.bind (J.filled _) fun _ hf => M.filling rfl found hf

/-- What a step does is related if all that it leads to is. -/
theorem step {step : Step} (M : J.Meets render render' context step) (hc : S.context context) :
    J.rel (fun _ => True) (Render.step render context step) (Render.step render' context step) := by
  cases step with
  | write text => exact J.write text
  | reference path filters => exact M.reference hc
  | sectionTag kind key own list bodies => exact M.sectionTag hc
  | helperTag name own list bodies => exact M.helperTag hc
  | partialTag target own list => exact M.partialTag hc
  | slot name default => exact M.slot

end Meets

end Joint
end Stencil
