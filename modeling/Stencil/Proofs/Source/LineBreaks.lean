import Stencil.Template.Compile

/-! Keeping the line breaks of a source changes text only. The programs of the source with and without them are one program
    once the texts they write are taken out of all bodies: the same tags in the same order, with the same parameters, scopes,
    filters and quoted texts, and the same slots filled. -/

namespace Stencil

mutual

/-- A step without the texts in the bodies that it may show. A text to write leaves nothing of itself; quoted text, which is
    no such body, stays as it is. -/
def Step.wordless? : Step → Option Step
  | .write _ => none
  | .reference path filters => some (.reference path filters)
  | .sectionTag kind key context params ⟨block, named⟩ =>
    some (.sectionTag kind key context params ⟨wordlessBlock block, wordlessNamed named⟩)
  | .helperTag name context params ⟨block, named⟩ =>
    some (.helperTag name context params ⟨wordlessBlock block, wordlessNamed named⟩)
  | .partialTag name context params => some (.partialTag name context params)
  | .slot name default => some (.slot name (wordlessBlock default))

/-- A program without its texts. -/
def Step.wordlessAll : List Step → List Step
  | [] => []
  | step :: rest =>
    match step.wordless? with
    | some step => step :: wordlessAll rest
    | none => wordlessAll rest

/-- A block without its texts. -/
def Step.wordlessBlock : Option (List Step) → Option (List Step)
  | none => none
  | some body => some (wordlessAll body)

/-- Named bodies without their texts. -/
def Step.wordlessNamed : List (String × List Step) → List (String × List Step)
  | [] => []
  | (name, body) :: rest => (name, wordlessAll body) :: wordlessNamed rest

end

/-- A template without the texts of its program and of what it puts into slots. -/
def Template.wordless (t : Template) : Template :=
  { t with body := Step.wordlessAll t.body, blocks := Step.wordlessNamed t.blocks }

namespace Step

theorem wordlessNamed_eq_map (named : List (String × Body)) :
    wordlessNamed named = named.map fun e => (e.1, wordlessAll e.2) := by
  induction named with
  | nil => rfl
  | cons e rest ih => rw [wordlessNamed, ih, List.map_cons]

/-- A text joins the text that it comes before, and neither is left. -/
theorem wordlessAll_prepend (step : Step) (body : Body) : wordlessAll (step.prepend body) = wordlessAll (step :: body) := by
  rcases step.prepend_cases body with ⟨rfl, same⟩ | ⟨text, more, rest, rfl, rfl, joined⟩ | apart
  · rw [same, wordlessAll, wordless?]
  · simp only [joined, wordlessAll, wordless?]
  · rw [apart]

end Step

theorem Template.keys_blocks_wordless (t : Template) : Dict.keys t.wordless.blocks = Dict.keys t.blocks := by
  show Dict.keys (Step.wordlessNamed t.blocks) = _
  rw [Step.wordlessNamed_eq_map, Dict.keys, List.map_map]
  rfl

namespace Node

mutual

/-- What a node comes to, line breaks make a difference to in its texts only. -/
theorem wordless_step? (whitespace whitespace' : Bool) : ∀ node : Node,
    (node.step? whitespace).bind Step.wordless? = (node.step? whitespace').bind Step.wordless?
  | .piece _ | .raw _ | .comment _ | .partialTag _ _ _ | .inlinePartial _ _ => by rw [step?, step?]
  | .lineBreak text => by
    have nothing (kept : Bool) : (step? kept (.lineBreak text)).bind Step.wordless? = none := by
      rw [step?]
      cases kept <;> rfl
    rw [nothing, nothing]
  | .sectionTag kind key context params ⟨block, named⟩ => by
    simp only [step?, Option.bind_some, Step.wordless?, wordless_blockBody whitespace whitespace' block,
      wordless_namedBodies whitespace whitespace' named]
  | .helperTag name context params ⟨block, named⟩ => by
    simp only [step?, Option.bind_some, Step.wordless?, wordless_blockBody whitespace whitespace' block,
      wordless_namedBodies whitespace whitespace' named]
  | .slot name default => by
    simp only [step?, Option.bind_some, Step.wordless?, wordless_blockBody whitespace whitespace' default]

theorem wordless_body (whitespace whitespace' : Bool) : ∀ nodes : List Node,
    Step.wordlessAll (body whitespace nodes) = Step.wordlessAll (body whitespace' nodes)
  | [] => rfl
  | node :: rest => by
    -- The node leaves what its step leaves, in front of what the rest leaves.
    have splits (kept : Bool) : Step.wordlessAll (body kept (node :: rest)) =
        ((node.step? kept).bind Step.wordless?).toList ++ Step.wordlessAll (body kept rest) := by
      rw [body]
      cases node.step? kept with
      | none => rfl
      | some step =>
        rw [Step.wordlessAll_prepend, Step.wordlessAll, Option.bind_some]
        cases step.wordless? <;> rfl
    rw [splits, splits, wordless_step? whitespace whitespace' node, wordless_body whitespace whitespace' rest]

theorem wordless_blockBody (whitespace whitespace' : Bool) : ∀ block : Option (List Node),
    Step.wordlessBlock (blockBody whitespace block) = Step.wordlessBlock (blockBody whitespace' block)
  | none => rfl
  | some nodes => by
    simp only [blockBody, Step.wordlessBlock, wordless_body whitespace whitespace' nodes]

theorem wordless_namedBodies (whitespace whitespace' : Bool) : ∀ named : List (String × List Node),
    Step.wordlessNamed (namedBodies whitespace named) = Step.wordlessNamed (namedBodies whitespace' named)
  | [] => rfl
  | (name, nodes) :: rest => by
    simp only [namedBodies, Step.wordlessNamed, wordless_body whitespace whitespace' nodes,
      wordless_namedBodies whitespace whitespace' rest]

end

end Node

namespace Template

theorem wordless_ofNodes (name : Option String) (whitespace whitespace' : Bool) (nodes : List Node) :
    (ofNodes name whitespace nodes).wordless = (ofNodes name whitespace' nodes).wordless := by
  have table (kept : Bool) : Step.wordlessNamed (ofNodes name kept nodes).blocks =
      Dict.ofList ((Node.allInlinePartials nodes).map fun e => (e.1, Step.wordlessAll (Node.body kept e.2))) := by
    rw [Step.wordlessNamed_eq_map, ofNodes, Dict.map_ofList, List.map_map]
    rfl
  unfold wordless
  rw [table, table, funext fun e : String × List Node => congrArg (Prod.mk e.1)
    (Node.wordless_body whitespace whitespace' e.2)]
  exact congrArg (Template.mk name · _) (Node.wordless_body whitespace whitespace' nodes)

end Template

/-- A source that does not compile fails with the same fault whether its line breaks are kept or not. One that compiles gives
    programs under one name that fill the same slots and differ in texts to write only: without these texts, in bodies at any
    depth, they are the same, quoted text inside tags included. -/
theorem line_breaks_change_text_only (source : String) (name : Option String) :
    (∃ fault, Template.compile source name false = .error fault ∧ Template.compile source name true = .error fault) ∨
    ∃ t u, Template.compile source name false = .ok t ∧ Template.compile source name true = .ok u ∧
      t.wordless = u.wordless ∧ Dict.keys t.blocks = Dict.keys u.blocks := by
  unfold Template.compile
  cases Node.ofSource source with
  | error fault => exact .inl ⟨_, rfl, rfl⟩
  | ok nodes =>
    have same := Template.wordless_ofNodes name false true nodes
    have slots := congrArg (fun t : Template => Dict.keys t.blocks) same
    rw [Template.keys_blocks_wordless, Template.keys_blocks_wordless] at slots
    exact .inr ⟨_, _, rfl, rfl, same, slots⟩

/-- The line break in the body of a section goes, the one in quoted text stays. -/
example : (Template.compile "\x7b#a p=\"l\n\"\x7d\n\x7b/a\x7d" none false).toOption.any (fun t => Step.beqAll t.body
    [.sectionTag .iterate ⟨false, [.key "a"]⟩ none [("p", .text "l\n")] ⟨some [], []⟩]) = true := by decide +kernel

end Stencil
