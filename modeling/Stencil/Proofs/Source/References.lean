import Stencil.Template.Compile

/-! The references of a program. Each comes from a reference of the source, its filters followed by the escape unless the
    reference declines it, wherever it stands: in bodies, in quoted text, in what fills slots. -/

namespace Stencil

/-- The references among pieces: paths with the names of the filters behind them. -/
def Piece.references (pieces : List Piece) : List (Path × List String) :=
  pieces.filterMap fun
    | .reference path filters => some (path, filters)
    | .text _ | .special _ => none

namespace Node

/-- The references in the values of parameters. -/
def paramReferences (params : List (String × ParamValue)) : List (Path × List String) :=
  params.flatMap fun
    | (_, .quoted pieces) => Piece.references pieces
    | _ => []

mutual

/-- The references in a node. -/
def references : Node → List (Path × List String)
  | .piece p => Piece.references [p]
  | .lineBreak _ | .raw _ | .comment _ => []
  | .sectionTag _ _ _ params ⟨block, named⟩ =>
    paramReferences params ++ (blockReferences block ++ namedReferences named)
  | .helperTag _ _ params ⟨block, named⟩ => paramReferences params ++ (blockReferences block ++ namedReferences named)
  | .partialTag name _ params => Piece.references name ++ paramReferences params
  | .slot _ default => blockReferences default
  | .inlinePartial _ body => allReferences body

/-- The references in nodes. -/
def allReferences : List Node → List (Path × List String)
  | [] => []
  | node :: rest => node.references ++ allReferences rest

/-- The references in a block. -/
def blockReferences : Option (List Node) → List (Path × List String)
  | none => []
  | some nodes => allReferences nodes

/-- The references in named bodies. -/
def namedReferences : List (String × List Node) → List (Path × List String)
  | [] => []
  | (_, nodes) :: rest => allReferences nodes ++ namedReferences rest

end

end Node

namespace Step

mutual

/-- The references in a step, and those in the bodies inside it. -/
def references : Step → List (Path × List String)
  | .write _ => []
  | .reference path filters => [(path, filters)]
  | .sectionTag _ _ _ params ⟨block, named⟩ =>
    paramReferences params ++ (blockReferences block ++ namedReferences named)
  | .helperTag _ _ params ⟨block, named⟩ => paramReferences params ++ (blockReferences block ++ namedReferences named)
  | .partialTag (.static _) _ params => paramReferences params
  | .partialTag (.dynamic body) _ params => allReferences body ++ paramReferences params
  | .slot _ default => blockReferences default

/-- The references in a program. -/
def allReferences : List Step → List (Path × List String)
  | [] => []
  | step :: rest => step.references ++ allReferences rest

/-- The references in a block. -/
def blockReferences : Option (List Step) → List (Path × List String)
  | none => []
  | some body => allReferences body

/-- The references in named bodies. -/
def namedReferences : List (String × List Step) → List (Path × List String)
  | [] => []
  | (_, body) :: rest => allReferences body ++ namedReferences rest

/-- The references in the operands of parameters. -/
def paramReferences : List (String × Operand (List Step)) → List (Path × List String)
  | [] => []
  | (_, operand) :: rest => operandReferences operand ++ paramReferences rest

/-- The references in an operand. -/
def operandReferences : Operand (List Step) → List (Path × List String)
  | .body body => allReferences body
  | .text _ | .int _ | .float _ | .path _ => []

end

theorem allReferences_prepend (step : Step) (body : Body) :
    allReferences (step.prepend body) = step.references ++ allReferences body := by
  rcases step.prepend_cases body with ⟨rfl, same⟩ | ⟨text, more, rest, rfl, rfl, joined⟩ | apart
  · rw [same]
    rfl
  · rw [joined]
    rfl
  · rw [apart]
    rfl

end Step

/-- The references of a template, those in what it puts into slots among them. -/
def Template.references (t : Template) : List (Path × List String) :=
  Step.allReferences t.body ++ Step.namedReferences t.blocks

/-- A reference with the filters that it runs. -/
def effective (reference : Path × List String) : Path × List String := (reference.1, effectiveFilters reference.2)

/-! ### Quoted text -/

namespace Piece

theorem allReferences_body (pieces : List Piece) :
    Step.allReferences (body pieces) = (references pieces).map effective := by
  induction pieces with
  | nil => rfl
  | cons piece rest ih =>
    show Step.allReferences (piece.step.prepend (body rest)) = _
    rw [Step.allReferences_prepend, ih]
    cases piece <;> rfl

/-- Quoted text that is known before it is rendered holds no reference. -/
theorem references_of_static? {pieces : List Piece} {text : String} (static : static? pieces = some text) :
    references pieces = [] := by
  refine List.map_eq_nil_iff.mp ((allReferences_body pieces).symm.trans ?_)
  unfold static? at static
  split at static
  · next empty => rw [empty]; rfl
  · next whole => rw [whole]; rfl
  · cases static

end Piece

theorem ParamValue.references_operand (value : ParamValue) (key : String) :
    Step.operandReferences value.operand = (Node.paramReferences [(key, value)]).map effective := by
  cases value with
  | quoted pieces =>
    have whole : Node.paramReferences [(key, quoted pieces)] = Piece.references pieces := List.append_nil _
    rw [whole]
    unfold operand
    dsimp only
    split
    · next static => rw [Piece.references_of_static? static]; rfl
    · exact Piece.allReferences_body pieces
  | int | float | path => rfl

theorem paramReferences_operands (params : List (String × ParamValue)) :
    Step.paramReferences (operands params) = (Node.paramReferences params).map effective := by
  induction params with
  | nil => rfl
  | cons entry rest ih =>
    obtain ⟨key, value⟩ := entry
    have apart : Node.paramReferences ((key, value) :: rest) =
        Node.paramReferences [(key, value)] ++ Node.paramReferences rest :=
      @List.flatMap_append _ _ [(key, value)] rest _
    show Step.operandReferences value.operand ++ Step.paramReferences (operands rest) = _
    rw [apart, List.map_append, ih, value.references_operand key]

/-! ### Programs -/

namespace Node

theorem append_subset_map {α β : Type} {f : α → β} {a b : List β} {c d : List α} (h : a ⊆ c.map f) (h' : b ⊆ d.map f) :
    a ++ b ⊆ (c ++ d).map f := by
  rw [List.map_append]
  exact List.append_subset.mpr ⟨List.Subset.trans h (List.subset_append_left ..),
    List.Subset.trans h' (List.subset_append_right ..)⟩

variable (whitespace : Bool)

mutual

theorem references_step? (node : Node) : ∀ step, node.step? whitespace = some step →
    step.references ⊆ node.references.map effective := by
  intro step found
  cases node with
  | piece p =>
    cases found
    cases p <;> exact List.Subset.refl _
  | lineBreak text =>
    cases whitespace
    · cases found
    · cases found
      exact List.nil_subset _
  | raw text =>
    cases found
    exact List.nil_subset _
  | comment text | inlinePartial name body => cases found
  | sectionTag kind key context params bodies =>
    obtain ⟨block, named⟩ := bodies
    cases found
    exact append_subset_map (paramReferences_operands params ▸ List.Subset.refl _)
      (append_subset_map (references_blockBody block) (references_namedBodies named))
  | helperTag name context params bodies =>
    obtain ⟨block, named⟩ := bodies
    cases found
    exact append_subset_map (paramReferences_operands params ▸ List.Subset.refl _)
      (append_subset_map (references_blockBody block) (references_namedBodies named))
  | partialTag name context params =>
    cases found
    have operands : Step.paramReferences (operands params) ⊆ (paramReferences params).map effective :=
      paramReferences_operands params ▸ List.Subset.refl _
    show (Step.partialTag (.ofPieces name) context _).references ⊆ _
    unfold PartialName.ofPieces
    split
    · exact append_subset_map (List.nil_subset _) operands
    · exact append_subset_map (Piece.allReferences_body name ▸ List.Subset.refl _) operands
  | slot name default =>
    cases found
    exact references_blockBody default

theorem references_body (nodes : List Node) :
    Step.allReferences (body whitespace nodes) ⊆ (allReferences nodes).map effective := by
  cases nodes with
  | nil => exact List.nil_subset _
  | cons node rest =>
    unfold body
    split
    · next step found =>
      rw [Step.allReferences_prepend]
      exact append_subset_map (references_step? node step found) (references_body rest)
    · exact append_subset_map (List.nil_subset _) (references_body rest)

theorem references_blockBody (block : Option (List Node)) :
    Step.blockReferences (blockBody whitespace block) ⊆ (blockReferences block).map effective := by
  cases block with
  | none => exact List.nil_subset _
  | some nodes => exact references_body nodes

theorem references_namedBodies (named : List (String × List Node)) :
    Step.namedReferences (namedBodies whitespace named) ⊆ (namedReferences named).map effective := by
  cases named with
  | nil => exact List.nil_subset _
  | cons entry rest =>
    obtain ⟨name, nodes⟩ := entry
    exact append_subset_map (references_body nodes) (references_namedBodies rest)

end

/-! ### What fills slots -/

theorem forall_append_subset {α β : Type} {f : α → List β} {a b : List α} {c d : List β} (h : ∀ e ∈ a, f e ⊆ c)
    (h' : ∀ e ∈ b, f e ⊆ d) : ∀ e ∈ a ++ b, f e ⊆ c ++ d := fun e mem =>
  (List.mem_append.mp mem).elim (fun mem => List.Subset.trans (h e mem) (List.subset_append_left ..))
    fun mem => List.Subset.trans (h' e mem) (List.subset_append_right ..)

mutual

theorem references_inlinePartials (node : Node) :
    ∀ e ∈ node.inlinePartials, allReferences e.2 ⊆ node.references := by
  cases node with
  | sectionTag kind key context params bodies =>
    obtain ⟨block, named⟩ := bodies
    exact forall_append_subset (a := []) (fun _ no => nomatch no)
      (forall_append_subset (references_blockInlinePartials block) (references_namedInlinePartials named))
  | helperTag name context params bodies =>
    obtain ⟨block, named⟩ := bodies
    exact forall_append_subset (a := []) (fun _ no => nomatch no)
      (forall_append_subset (references_blockInlinePartials block) (references_namedInlinePartials named))
  | slot name default => exact references_blockInlinePartials default
  | inlinePartial name body =>
    intro e mem
    rcases List.mem_append.mp mem with mem | mem
    · exact references_allInlinePartials body e mem
    · cases List.mem_singleton.mp mem
      exact List.Subset.refl _
  | piece | lineBreak | raw | comment | partialTag => exact fun _ no => nomatch no

theorem references_allInlinePartials (nodes : List Node) :
    ∀ e ∈ allInlinePartials nodes, allReferences e.2 ⊆ allReferences nodes := by
  cases nodes with
  | nil => exact fun _ no => nomatch no
  | cons node rest => exact forall_append_subset (references_inlinePartials node) (references_allInlinePartials rest)

theorem references_blockInlinePartials (block : Option (List Node)) :
    ∀ e ∈ blockInlinePartials block, allReferences e.2 ⊆ blockReferences block := by
  cases block with
  | none => exact fun _ no => nomatch no
  | some nodes => exact references_allInlinePartials nodes

theorem references_namedInlinePartials (named : List (String × List Node)) :
    ∀ e ∈ namedInlinePartials named, allReferences e.2 ⊆ namedReferences named := by
  cases named with
  | nil => exact fun _ no => nomatch no
  | cons entry rest =>
    obtain ⟨name, nodes⟩ := entry
    exact forall_append_subset (references_allInlinePartials nodes) (references_namedInlinePartials rest)

end

end Node

theorem Step.mem_namedReferences {named : List (String × Body)} {r : Path × List String}
    (mem : r ∈ namedReferences named) : ∃ e ∈ named, r ∈ allReferences e.2 := by
  induction named with
  | nil => cases mem
  | cons e rest ih =>
    rcases List.mem_append.mp mem with mem | mem
    · exact ⟨e, List.mem_cons_self, mem⟩
    · obtain ⟨f, there, mem⟩ := ih mem
      exact ⟨f, List.mem_cons_of_mem _ there, mem⟩

/-- Each reference of a template is one of the source, with the filters that it runs. -/
theorem Template.references_ofNodes (name : Option String) (whitespace : Bool) (nodes : List Node) :
    (ofNodes name whitespace nodes).references ⊆ (Node.allReferences nodes).map effective := by
  refine List.append_subset.mpr ⟨Node.references_body whitespace nodes, fun r mem => ?_⟩
  obtain ⟨e, filling, mem⟩ := Step.mem_namedReferences mem
  obtain ⟨⟨slot, body⟩, source, rfl⟩ := List.mem_map.mp (Dict.mem_of_mem_ofList filling)
  exact List.map_subset effective (Node.references_allInlinePartials nodes _ source)
    (Node.references_body whitespace body mem)

theorem effectiveFilters_of_notMem {filters : List String} (escaping : declineFilter ∉ filters) :
    effectiveFilters filters = filters ++ [escapeFilter] := by
  unfold effectiveFilters
  rw [List.contains_eq_mem, decide_eq_false escaping]
  rfl

/-- In a template compiled from a source where no reference declines the escape, each reference runs filters of its own
    and then escapes. -/
theorem Template.escapes_of_compile {source : String} {name : Option String} {whitespace : Bool} {nodes : List Node}
    {t : Template} (tree : Node.ofSource source = .ok nodes)
    (escaping : ∀ r ∈ Node.allReferences nodes, declineFilter ∉ r.2) (compiled : compile source name whitespace = .ok t)
    {path : Path} {filters : List String} (mem : (path, filters) ∈ t.references) :
    ∃ own, filters = own ++ [escapeFilter] ∧ declineFilter ∉ own := by
  unfold compile at compiled
  rw [tree] at compiled
  cases compiled
  obtain ⟨⟨_, own⟩, source, same⟩ := List.mem_map.mp (references_ofNodes name whitespace nodes mem)
  cases same
  exact ⟨own, effectiveFilters_of_notMem (escaping _ source), escaping _ source⟩

end Stencil
