import Stencil.Source.Tree
import Stencil.Template.Basic

/-! From the tree of a source to a program. Comments write nothing, line breaks write their text only where blanks are
    kept, neighbouring text becomes one step, a reference is escaped unless it says otherwise, and inline partials leave
    the tree for the table of the template. -/

namespace Stencil

/-- The filter that escapes, applied last to every reference that does not decline it. -/
def escapeFilter : String := "h"

/-- The filter name by which a reference declines the escape. -/
def declineFilter : String := "s"

/-- The filters that a reference runs. -/
def effectiveFilters (filters : List String) : List String :=
  if filters.contains declineFilter then filters.filter (· ≠ declineFilter) else filters ++ [escapeFilter]

theorem filter_decline {filters : List String} (kept : declineFilter ∉ filters) :
    filters.filter (· ≠ declineFilter) = filters :=
  List.filter_eq_self.mpr fun _ mem => decide_eq_true fun same => kept (same ▸ mem)

/-- Puts a step in front. Empty text vanishes and text before text joins it. -/
def Step.prepend (step : Step) (body : Body) : Body :=
  match step, body with
  | .write text, .write more :: rest => if text.isEmpty then body else .write (text ++ more) :: rest
  | .write text, _ => if text.isEmpty then body else step :: body
  | _, _ => step :: body

theorem Step.prepend_empty (body : Body) : (write "").prepend body = body := by
  rcases body with - | ⟨_ | _, rest⟩ <;> rfl

theorem Step.prepend_append (a b : String) (body : Body) :
    (write (a ++ b)).prepend body = (write a).prepend ((write b).prepend body) := by
  by_cases empty : b = ""
  · rw [empty, String.append_empty, prepend_empty]
  by_cases empty' : a = ""
  · rw [empty', String.empty_append, prepend_empty]
  rcases body with - | ⟨_ | _, rest⟩ <;> simp [prepend, empty, empty', String.append_assoc]

/-- What putting a step in front can do: nothing, join text to text, or add the step. -/
theorem Step.prepend_cases (step : Step) (body : Body) :
    (step = .write "" ∧ step.prepend body = body) ∨
      (∃ text more rest, step = .write text ∧ body = .write more :: rest ∧
        step.prepend body = .write (text ++ more) :: rest) ∨
      step.prepend body = step :: body := by
  cases step with
  | write text =>
    by_cases empty : text = ""
    · subst empty
      exact .inl ⟨rfl, prepend_empty body⟩
    rcases body with - | ⟨more | _, rest⟩
    case cons.write => exact .inr (.inl ⟨text, more, rest, rfl, rfl, by simp [prepend, empty]⟩)
    all_goals exact .inr (.inr (by simp [prepend, empty]))
  | _ => exact .inr (.inr rfl)

/-- Putting a step in front of a program and the program in front of more. -/
theorem Step.foldr_prepend (step : Step) (body more : Body) :
    (step.prepend body).foldr prepend more = step.prepend (body.foldr prepend more) := by
  rcases step.prepend_cases body with ⟨rfl, same⟩ | ⟨text, next, rest, rfl, rfl, joined⟩ | apart
  · rw [same, prepend_empty]
  · rw [joined, List.foldr_cons, List.foldr_cons, prepend_append]
  · rw [apart, List.foldr_cons]

theorem Step.forall_prepend {p : Step → Prop} {step : Step} {body : Body} (write : ∀ text, p (.write text))
    (first : p step) (rest : ∀ s ∈ body, p s) : ∀ s ∈ step.prepend body, p s := by
  rcases step.prepend_cases body with ⟨-, same⟩ | ⟨text, more, tail, -, rfl, joined⟩ | apart
  · rw [same]
    exact rest
  · rw [joined]
    exact List.forall_mem_cons.mpr ⟨write _, (List.forall_mem_cons.mp rest).2⟩
  · rw [apart]
    exact List.forall_mem_cons.mpr ⟨first, rest⟩

theorem Step.mem_prepend {step front : Step} {body : Body} (other : ∀ text, step ≠ .write text) (mem : step ∈ body) :
    step ∈ front.prepend body := by
  rcases front.prepend_cases body with ⟨-, same⟩ | ⟨text, more, tail, -, rfl, joined⟩ | apart
  · rwa [same]
  · rw [joined]
    exact List.mem_cons_of_mem _ (List.mem_of_ne_of_mem (other _) mem)
  · rw [apart]
    exact List.mem_cons_of_mem _ mem

namespace Piece

/-- The step of a piece. -/
def step : Piece → Step
  | .text s => .write s
  | .special s => .write s.text
  | .reference path filters => .reference path (effectiveFilters filters)

/-- The program of quoted text. -/
def body (pieces : List Piece) : Body :=
  pieces.foldr (fun piece body => piece.step.prepend body) []

/-- Quoted text without references is known before it is rendered. -/
def static? (pieces : List Piece) : Option String :=
  match body pieces with
  | [] => some ""
  | [.write s] => some s
  | _ => none

theorem static?_of_text {pieces : List Piece} {text : String} (same : body pieces = (Step.write text).prepend []) :
    static? pieces = some text := by
  unfold static?
  rw [same]
  by_cases empty : text = ""
  · rw [empty]
    rfl
  · simp [Step.prepend, empty]

end Piece

/-- The operand of a parameter. -/
def ParamValue.operand : ParamValue → Operand Body
  | .int n => .int n
  | .float x => .float x
  | .path p => .path p
  | .quoted pieces =>
    match Piece.static? pieces with
    | some text => .text text
    | none => .body (Piece.body pieces)

/-- The operands of parameters. -/
def operands (params : List (String × ParamValue)) : List (String × Operand Body) :=
  params.map fun (key, value) => (key, value.operand)

/-- The name of a partial from its pieces. -/
def PartialName.ofPieces (pieces : List Piece) : PartialName Body :=
  match Piece.static? pieces with
  | some name => .static name
  | none => .dynamic (Piece.body pieces)

namespace Node

mutual

/-- The step of a node, if it has one. -/
def step? (whitespace : Bool) : Node → Option Step
  | .piece p => some p.step
  | .lineBreak text => if whitespace then some (.write text) else none
  | .raw text => some (.write text)
  | .comment _ => none
  | .sectionTag kind key context params ⟨block, named⟩ =>
    some (.sectionTag kind key context (operands params) ⟨blockBody whitespace block, namedBodies whitespace named⟩)
  | .helperTag name context params ⟨block, named⟩ =>
    some (.helperTag name context (operands params) ⟨blockBody whitespace block, namedBodies whitespace named⟩)
  | .partialTag name context params => some (.partialTag (.ofPieces name) context (operands params))
  | .slot name default => some (.slot name (blockBody whitespace default))
  | .inlinePartial _ _ => none

/-- The program of nodes. -/
def body (whitespace : Bool) : List Node → Body
  | [] => []
  | node :: rest =>
    match node.step? whitespace with
    | some step => step.prepend (body whitespace rest)
    | none => body whitespace rest

/-- The program of a block, if there is one. -/
def blockBody (whitespace : Bool) : Option (List Node) → Option Body
  | none => none
  | some nodes => some (body whitespace nodes)

/-- The programs of named bodies. -/
def namedBodies (whitespace : Bool) : List (String × List Node) → List (String × Body)
  | [] => []
  | (name, nodes) :: rest => (name, body whitespace nodes) :: namedBodies whitespace rest

end

mutual

/-- The inline partials in a node, in the order of their ends. -/
def inlinePartials : Node → List (String × List Node)
  | .sectionTag _ _ _ _ ⟨block, named⟩ => blockInlinePartials block ++ namedInlinePartials named
  | .helperTag _ _ _ ⟨block, named⟩ => blockInlinePartials block ++ namedInlinePartials named
  | .slot _ default => blockInlinePartials default
  | .inlinePartial name body => allInlinePartials body ++ [(name, body)]
  | .piece _ | .lineBreak _ | .raw _ | .comment _ | .partialTag _ _ _ => []

/-- The inline partials in nodes. -/
def allInlinePartials : List Node → List (String × List Node)
  | [] => []
  | node :: rest => node.inlinePartials ++ allInlinePartials rest

/-- The inline partials in a block. -/
def blockInlinePartials : Option (List Node) → List (String × List Node)
  | none => []
  | some nodes => allInlinePartials nodes

/-- The inline partials in named bodies. -/
def namedInlinePartials : List (String × List Node) → List (String × List Node)
  | [] => []
  | (_, nodes) :: rest => allInlinePartials nodes ++ namedInlinePartials rest

end

end Node

namespace Template

/-- The program of a tree. Of two inline partials of one name the one that ends later counts. -/
def ofNodes (name : Option String) (whitespace : Bool) (nodes : List Node) : Template where
  name
  body := Node.body whitespace nodes
  blocks := Dict.ofList ((Node.allInlinePartials nodes).map fun (slot, body) => (slot, Node.body whitespace body))

/-- Compiles a source. -/
def compile (source : String) (name : Option String) (whitespace : Bool) : Except ParseError Template :=
  match Node.ofSource source with
  | .ok nodes => .ok (ofNodes name whitespace nodes)
  | .error e => .error (e.named name)

end Template
end Stencil
