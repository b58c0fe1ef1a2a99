import Stencil.Proofs.Render.Direct
import Stencil.Proofs.Render.Driving
import Stencil.Proofs.Render.Equal

/-! Compiling a source keeps its meaning: rendering the program does to every stage what rendering the tree does. What the
    compiler drops writes nothing, text that it joins is written in one, and what it knows beforehand comes out the same. -/

namespace Stencil
namespace RenderM

open Congruence

/-- Putting a step in front does it first. -/
theorem equal_prepend (render : Renderer) (context : Context) (step : Step) (body : Body) :
    Equal ((step.prepend body).forM (Render.step render context))
      (Render.step render context step >>= fun _ => body.forM (Render.step render context)) := by
  rcases step.prepend_cases body with ⟨rfl, same⟩ | ⟨text, more, rest, rfl, rfl, joined⟩ | apart
  · rw [same]
    exact .refl _
  · rw [joined]
    exact ((write_append text more).bind fun _ => .refl _).trans (.assoc _ _ _)
  · rw [apart]
    exact .refl _

end RenderM

namespace Direct

open RenderM Congruence

/-! ### What the compiler knows -/

theorem filters_eq (list : List String) : effectiveFilters list = filters list := by
  unfold effectiveFilters filters
  by_cases declined : declineFilter ∈ list
  · simp [declined]
  · rw [filter_decline declined]
    simp [declined]

theorem body_of_plain {pieces : List Piece} {text : String} (h : plain? pieces = some text) :
    Piece.body pieces = (Step.write text).prepend [] := by
  induction pieces generalizing text with
  | nil =>
    cases h
    rfl
  | cons piece rest ih =>
    have joined {front : String} (h : (plain? rest).map (front ++ ·) = some text) :
        (Step.write front).prepend (Piece.body rest) = (Step.write text).prepend [] := by
      obtain ⟨more, plain, rfl⟩ := Option.map_eq_some_iff.mp h
      rw [ih plain, Step.prepend_append]
    cases piece with
    | text s => exact joined h
    | special s => exact joined h
    | reference path list => cases h

theorem reference_of_not_plain {pieces : List Piece} (h : plain? pieces = none) :
    ∃ path list, .reference path list ∈ Piece.body pieces := by
  induction pieces with
  | nil => cases h
  | cons piece rest ih =>
    have behind {front : String} (h : (plain? rest).map (front ++ ·) = none) :
        ∃ path list, .reference path list ∈ (Step.write front).prepend (Piece.body rest) := by
      obtain ⟨path, list, mem⟩ := ih (Option.map_eq_none_iff.mp h)
      exact ⟨path, list, Step.mem_prepend (by nofun) mem⟩
    cases piece with
    | text s => exact behind h
    | special s => exact behind h
    | reference path list => exact ⟨path, _, List.mem_cons_self⟩

/-- The compiler takes quoted text for known if there is no reference in it. -/
theorem static?_eq (pieces : List Piece) : Piece.static? pieces = plain? pieces := by
  cases plain : plain? pieces with
  | some text => exact Piece.static?_of_text (body_of_plain plain)
  | none =>
    unfold Piece.static?
    obtain ⟨path, list, mem⟩ := reference_of_not_plain plain
    generalize Piece.body pieces = body at mem
    split
    · cases mem
    · simp at mem
    · rfl

theorem given_else? (whitespace : Bool) (bodies : Bodies (List Node)) :
    (given whitespace bodies).else? = Node.blockBody whitespace bodies.else? := by
  obtain ⟨block, named⟩ := bodies
  unfold given Bodies.else? Bodies.get?
  induction named with
  | nil => rfl
  | cons entry rest ih =>
    rw [Node.namedBodies, List.find?_cons, List.find?_cons]
    cases entry.1 == "else" with
    | true => rfl
    | false => exact ih

/-! ### Quoted text and nodes -/

section

variable {render render' : Renderer} {inner : Origin → Context → RenderM Unit}
  (hr : ∀ body context, Equal (render body context) (render' body context))
  (hi : ∀ origin context, Equal (inner origin context) (render' origin.body context))

include hr

theorem equal_piece (p : Piece) (context : Context) :
    Equal (piece render context p) (Render.step render' context p.step) := by
  cases p with
  | text s => exact .refl _
  | special s => exact .refl _
  | reference path list =>
    show Equal _ (Render.reference render' path (effectiveFilters list) context)
    rw [filters_eq]
    exact (running.whole.renders hr).reference path (filters list) trivial

theorem equal_pieces (pieces : List Piece) (context : Context) :
    Equal (pieces.forM (piece render context)) ((Piece.body pieces).forM (Render.step render' context)) := by
  induction pieces with
  | nil => exact .refl _
  | cons p rest ih => exact ((equal_piece hr p context).bind fun _ => ih).trans (equal_prepend _ _ _ _).symm

theorem equal_call {whitespace : Bool} {bodies : Bodies (List Node)} {f g : Reply → RenderM Unit} (helper : Helper)
    (name : String) (context : Context) (params : Params) (next : ∀ reply, Equal (f reply) (g reply)) :
    Equal (Render.call render helper name context (given whitespace bodies) params >>= f)
      (Render.call render' helper name context (given whitespace bodies) params >>= g) :=
  Same.bind ((running.whole.renders hr).call name trivial trivial ⟨fun _ _ => trivial, fun _ _ => trivial⟩
    fun _ _ => trivial) fun reply _ => next reply

omit hr

include hi

theorem equal_quoted {pieces : List Piece} (plain : plain? pieces = none) (context : Context) :
    Equal (quoted inner pieces context) (toText context.templateName (render' (Piece.body pieces) context)) := by
  unfold quoted
  rw [plain]
  exact (hi (.quoted pieces) context).toText _

theorem equal_paramValue (context : Context) (value : ParamValue) :
    Equal (paramValue inner context value) (Render.operand render' context value.operand) := by
  cases value with
  | int => exact .refl _
  | float => exact .refl _
  | path => exact .refl _
  | quoted pieces =>
    dsimp only [paramValue, ParamValue.operand]
    rw [static?_eq]
    cases plain : plain? pieces with
    | some text =>
      unfold quoted
      rw [plain]
      exact .refl _
    | none => exact (equal_quoted hi plain context).bind fun _ => .refl _

theorem equal_params (list : List (String × ParamValue)) (context : Context) :
    Equal (params inner list context) (Render.params render' (operands list) context) := by
  unfold params Render.params operands
  generalize ([] : Params) = values
  induction list generalizing values with
  | nil => exact .refl _
  | cons entry rest ih =>
    rw [List.map_cons, List.foldlM_cons, List.foldlM_cons]
    exact ((equal_paramValue hi context entry.2).bind fun _ => .refl _).bind ih

theorem equal_optional (whitespace : Bool) (nodes : Option (List Node)) (context : Context) :
    Equal (optional inner whitespace nodes context)
      (Render.optional render' (Node.blockBody whitespace nodes) context) := by
  cases nodes with
  | none => exact .refl _
  | some nodes => exact hi _ context

theorem equal_dispatch (whitespace : Bool) (kind : SectionKind) (value : Value) (context : Context)
    (bodies : Bodies (List Node)) : Equal (dispatch inner whitespace kind value context bodies)
      (Render.dispatch render' kind value context (given whitespace bodies)) := by
  have block := equal_optional hi whitespace bodies.block context
  have else? := equal_optional hi whitespace bodies.else? context
  rw [← given_else?] at else?
  unfold dispatch Render.dispatch
  cases kind with
  | present =>
    cases value.isEmpty with
    | true => exact else?
    | false => exact block
  | absent =>
    cases value.isEmpty with
    | true => exact block
    | false => exact else?
  | iterate =>
    cases value.isEmpty with
    | true => exact else?
    | false =>
      obtain ⟨_ | block, named⟩ := bodies
      · exact .refl _
      cases value with
      | array list => exact Coupling.forM (C := running.coupling) fun _ _ => hi _ _
      | bool b =>
        cases b with
        | true => exact hi _ context
        | false => exact hi _ _
      | _ => exact hi _ _

include hr

theorem equal_sectionTag (whitespace : Bool) (kind : SectionKind) (key : Path) (own : Option Path)
    (list : List (String × ParamValue)) (bodies : Bodies (List Node)) (context : Context) :
    Equal (node render inner whitespace context (.sectionTag kind key own list bodies))
      (Render.sectionTag render' kind key own (operands list) (given whitespace bodies) context) := by
  refine (equal_params hi list context).bind fun params => ?_
  have shown (value : Value) := equal_dispatch hi whitespace kind value (Render.scope context own params) bodies
  dsimp only
  cases context.resolve key with
  | none => exact shown .null
  | some value =>
    cases value with
    | function id =>
      refine .bind (.refl _) fun helper => equal_call hr helper key.text _ params fun reply => ?_
      cases reply with
      | value value => exact shown value
      | written => exact .refl _
    | _ => exact shown _

theorem equal_helperTag (whitespace : Bool) (name : String) (own : Option Path)
    (list : List (String × ParamValue)) (bodies : Bodies (List Node)) (context : Context) :
    Equal (node render inner whitespace context (.helperTag name own list bodies))
      (Render.helperTag render' name own (operands list) (given whitespace bodies) context) := by
  refine .bind (.refl _) fun found => ?_
  cases found with
  | none => exact .refl _
  | some helper =>
    refine (equal_params hi list context).bind fun params => equal_call hr helper name _ params fun reply => ?_
    cases reply <;> exact .refl _

theorem equal_partialTag (whitespace : Bool) (name : List Piece) (own : Option Path)
    (list : List (String × ParamValue)) (context : Context) :
    Equal (node render inner whitespace context (.partialTag name own list))
      (Render.partialTag render' (.ofPieces name) own (operands list) context) := by
  have rest (name : String) : Equal (params inner list context >>= fun params =>
      Render.named render name (Render.scope context own params))
      (Render.params render' (operands list) context >>= fun params =>
        Render.named render' name (Render.scope context own params)) :=
    (equal_params hi list context).bind fun params => (running.whole.renders hr).named name trivial
  unfold Render.partialTag PartialName.ofPieces
  rw [static?_eq]
  dsimp only [node]
  cases plain : plain? name with
  | some text =>
    unfold quoted
    rw [plain]
    exact rest text
  | none => exact (equal_quoted hi plain context).bind rest

theorem equal_slot (whitespace : Bool) (name : String) (default : Option (List Node)) (context : Context) :
    Equal (node render inner whitespace context (.slot name default))
      (Render.slot render' name (Node.blockBody whitespace default) context) := by
  unfold Render.slot
  dsimp only [node]
  cases context.block? name with
  | some body => exact .bind (.refl _) fun _ => hr body context.fill
  | none =>
    cases default with
    | some nodes => exact .bind (.refl _) fun _ => hi _ context.fill
    | none => exact .refl _

/-- Rendering a node does what its step does, and nothing if it has no step. -/
theorem equal_node (whitespace : Bool) (context : Context) (n : Node) : Equal (node render inner whitespace context n)
    ((n.step? whitespace).elim (pure ()) (Render.step render' context)) := by
  cases n with
  | piece p => exact equal_piece hr p context
  | lineBreak text =>
    cases whitespace <;> exact .refl _
  | raw text => exact .refl _
  | comment => exact .refl _
  | sectionTag kind key own list bodies => exact equal_sectionTag hr hi whitespace kind key own list bodies context
  | helperTag name own list bodies => exact equal_helperTag hr hi whitespace name own list bodies context
  | partialTag name own list => exact equal_partialTag hr hi whitespace name own list context
  | slot name default => exact equal_slot hr hi whitespace name default context
  | inlinePartial => exact .refl _

theorem equal_nodes (whitespace : Bool) (list : List Node) (context : Context) :
    Equal (list.forM (node render inner whitespace context))
      ((Node.body whitespace list).forM (Render.step render' context)) := by
  induction list with
  | nil => exact .refl _
  | cons n rest ih =>
    have step := (equal_node hr hi whitespace context n).bind fun _ => ih
    rw [Node.body]
    cases found : n.step? whitespace with
    | none =>
      rw [found] at step
      exact step
    | some s =>
      rw [found] at step
      exact step.trans (equal_prepend _ _ _ _).symm

theorem equal_read (origin : Origin) (context : Context) :
    Equal (read render inner origin context) (origin.body.forM (Render.step render' context)) := by
  cases origin with
  | nodes whitespace list => exact equal_nodes hr hi whitespace list context
  | quoted pieces => exact equal_pieces hr pieces context

end

variable (origins : Origins)

theorem equal_levels (nesting : Nat) :
    (∀ body context, Equal (exec origins nesting body context) (Render.exec nesting body context)) ∧
      ∀ origin context, Equal (tree origins nesting origin context) (Render.exec nesting origin.body context) := by
  induction nesting with
  | zero => exact ⟨fun _ _ => .refl _, fun _ _ => .refl _⟩
  | succ nesting ih =>
    have trees (origin : Origin) (context : Context) :
        Equal (tree origins (nesting + 1) origin context) (Render.exec (nesting + 1) origin.body context) :=
      equal_read ih.1 ih.2 origin context
    refine ⟨fun body context => ?_, trees⟩
    show Equal (known origins (exec origins nesting) (tree origins nesting) body context) _
    unfold known
    cases found : origins.find? body with
    | some origin => exact origins.body_eq found ▸ trees origin context
    | none => exact running.whole.steps ih.1 body context

theorem equal_settle (nesting steps : Nat) (index : Nat) (progressed : Bool) :
    Equal (Render.settle (exec origins nesting) steps index progressed)
      (Render.settle (Render.exec nesting) steps index progressed) := by
  induction steps generalizing index progressed with
  | zero => exact .refl _
  | succ steps ih => exact settle_succ (equal_levels origins nesting).1 ih index progressed

theorem equal_work (steps : Nat) (o : OutputStream) : Equal (work origins steps o) (o.work steps) := by
  have settled := equal_settle origins steps steps 0 false
  unfold work OutputStream.work
  cases o.job with
  | none => exact settled
  | some job => exact Equal.bind (start (equal_levels origins steps).1 job) fun _ => settled

theorem equal_template (nesting : Nat) (t : Template) {origin : Origin} (same : origin.body = t.body)
    (context : Context) : Equal (template origins nesting t origin context)
      (Render.template (Render.exec nesting) t context) := by
  refine .bind (.refl _) fun limit => ?_
  split
  · exact .refl _
  · exact same ▸ (equal_levels origins nesting).2 origin (context.enter t)

/-- Rendered on the side, text that refers to nothing is the text that it is known to be. -/
theorem run_toText_of_plain {pieces : List Piece} {text : String} (plain : plain? pieces = some text) (nesting : Nat)
    (context : Context) (template : Option String) (s : Stage) :
    (toText template (tree origins (nesting + 1) (.quoted pieces) context)).run s = .ok (.ok text, { s with
      engine := s.engine.read (.aside s.engine.config.cache s.engine.config.maxPartialDepth) }) := by
  have written : Equal (tree origins (nesting + 1) (.quoted pieces) context) (write text) := by
    refine ((equal_levels origins (nesting + 1)).2 (.quoted pieces) context).trans ?_
    show Equal ((Piece.body pieces).forM (Render.step (Render.exec nesting) context)) _
    rw [body_of_plain plain]
    exact (equal_prepend _ _ _ _).trans (.bind_pure _)
  rw [equal_iff.mp (Same.toText written template) s]
  refine run_toText_of_side ?_ template
  rw [run_write_side, String.empty_append]

end Direct

open RenderM Direct

/-- From every stage the program and the tree run to the same end: the same text in the same chunks, the same calls of
    helpers and filters, the same names asked of the loader, and the same error if there is one. -/
theorem compile_preserves_meaning {source : String} {nodes : List Node} (parsed : Node.ofSource source = .ok nodes)
    (name : Option String) (whitespace : Bool) (origins : Origins) :
    ∃ t, Template.compile source name whitespace = .ok t ∧
      (∀ nesting context s, (Direct.tree origins nesting (.nodes whitespace nodes) context).run s =
        (Render.exec nesting t.body context).run s) ∧
      (∀ nesting context s, (Direct.template origins nesting t (.nodes whitespace nodes) context).run s =
        (Render.template (Render.exec nesting) t context).run s) ∧
      (∀ steps (o : OutputStream) s, (Direct.work origins steps o).run s = (o.work steps).run s) ∧
      ∀ pieces text, plain? pieces = some text → ∀ nesting context template s,
        (toText template (Direct.tree origins (nesting + 1) (.quoted pieces) context)).run s = .ok (.ok text, { s with
          engine := s.engine.read (.aside s.engine.config.cache s.engine.config.maxPartialDepth) }) := by
  have compiled : Template.compile source name whitespace = .ok (.ofNodes name whitespace nodes) := by
    unfold Template.compile
    rw [parsed]
  exact ⟨_, compiled,
    fun nesting context => equal_iff.mp ((equal_levels origins nesting).2 (.nodes whitespace nodes) context),
    fun nesting context => equal_iff.mp (equal_template origins nesting _ rfl context),
    fun steps o => equal_iff.mp (equal_work origins steps o),
    fun _ _ plain nesting => run_toText_of_plain origins plain nesting⟩

/-- A comment, text, a reference, a special character, more text, a partial with quoted text, a line break and an inline
    partial. -/
def mixedSource : String :=
  "\x7b! note !\x7da\x7bx|s\x7d\x7b~s\x7db\x7b>\"p\" y=\"c\x7b~n\x7dd\"/\x7d\n \x7b<q\x7de\x7b/q\x7d"

theorem compile_preserves_meaning_mixedSource : ∃ nodes t, Node.ofSource mixedSource = .ok nodes ∧ nodes.length = 8 ∧
    Template.compile mixedSource none false = .ok t ∧ t.body.length = 4 ∧ t.blocks.length = 1 ∧
    ∀ nesting context s, (Direct.tree .all nesting (.nodes false nodes) context).run s =
      (Render.exec nesting t.body context).run s := by
  have seen : (Node.ofSource mixedSource).toOption.any (fun nodes => decide (nodes.length = 8)) = true := by
    decide +kernel
  have seen' : (Template.compile mixedSource none false).toOption.any (fun t =>
      decide (t.body.length = 4 ∧ t.blocks.length = 1)) = true := by
    decide +kernel
  obtain ⟨nodes, parsed, length⟩ := exists_eq_ok seen
  obtain ⟨t, compiled, same, -⟩ := compile_preserves_meaning parsed none false .all
  rw [compiled] at seen'
  have sizes := of_decide_eq_true seen'
  exact ⟨nodes, t, parsed, of_decide_eq_true length, compiled, sizes.1, sizes.2, same⟩

end Stencil
