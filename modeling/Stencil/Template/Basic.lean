import Stencil.Dict
import Stencil.Source.Node

/-! Templates: programs of steps, with a table of the bodies that fill slots. -/

namespace Stencil

/-- The value of a parameter, with bodies of a type for quoted text that holds references. -/
inductive Operand (β : Type) where
  | text (s : String)
  | int (n : Int64)
  | float (x : Float)
  | path (path : Path)
  | body (body : β)

/-- The name of a partial: known, or rendered first. -/
inductive PartialName (β : Type) where
  | static (name : String)
  | dynamic (body : β)

/-- One instruction of a program. -/
inductive Step where
  | write (text : String)
  | reference (path : Path) (filters : List String)
  | sectionTag (kind : SectionKind) (key : Path) (context : Option Path)
      (params : List (String × Operand (List Step))) (bodies : Bodies (List Step))
  | helperTag (name : String) (context : Option Path) (params : List (String × Operand (List Step)))
      (bodies : Bodies (List Step))
  | partialTag (name : PartialName (List Step)) (context : Option Path)
      (params : List (String × Operand (List Step)))
  | slot (name : String) (default : Option (List Step))

mutual

/-- Whether two steps are the same. Numbers are compared as numbers. -/
def Step.beq : Step → Step → Bool
  | .write text, .write text' => text == text'
  | .reference path filters, .reference path' filters' => path == path' && filters == filters'
  | .sectionTag kind key context params ⟨block, named⟩, .sectionTag kind' key' context' params' ⟨block', named'⟩ =>
    kind == kind' && key == key' && context == context' && Step.beqParams params params'
      && Step.beqBlock block block' && Step.beqNamed named named'
  | .helperTag name context params ⟨block, named⟩, .helperTag name' context' params' ⟨block', named'⟩ =>
    name == name' && context == context' && Step.beqParams params params'
      && Step.beqBlock block block' && Step.beqNamed named named'
  | .partialTag (.static name) context params, .partialTag (.static name') context' params' =>
    name == name' && context == context' && Step.beqParams params params'
  | .partialTag (.dynamic body) context params, .partialTag (.dynamic body') context' params' =>
    Step.beqAll body body' && context == context' && Step.beqParams params params'
  | .slot name default, .slot name' default' => name == name' && Step.beqBlock default default'
  | _, _ => false

/-- Whether two programs are the same. -/
def Step.beqAll : List Step → List Step → Bool
  | [], [] => true
  | step :: rest, step' :: rest' => step.beq step' && Step.beqAll rest rest'
  | _, _ => false

/-- Whether two blocks are the same. -/
def Step.beqBlock : Option (List Step) → Option (List Step) → Bool
  | none, none => true
  | some body, some body' => Step.beqAll body body'
  | _, _ => false

/-- Whether two lists of named bodies are the same. -/
def Step.beqNamed : List (String × List Step) → List (String × List Step) → Bool
  | [], [] => true
  | (name, body) :: rest, (name', body') :: rest' =>
    name == name' && Step.beqAll body body' && Step.beqNamed rest rest'
  | _, _ => false

/-- Whether two lists of parameters are the same. -/
def Step.beqParams : List (String × Operand (List Step)) → List (String × Operand (List Step)) → Bool
  | [], [] => true
  | (key, operand) :: rest, (key', operand') :: rest' =>
    key == key' && Step.beqOperand operand operand' && Step.beqParams rest rest'
  | _, _ => false

/-- Whether two operands are the same. -/
def Step.beqOperand : Operand (List Step) → Operand (List Step) → Bool
  | .text s, .text s' => s == s'
  | .int n, .int n' => n == n'
  | .float x, .float x' => x == x'
  | .path path, .path path' => path == path'
  | .body body, .body body' => Step.beqAll body body'
  | _, _ => false

end

/-- A sequence of steps. -/
abbrev Body := List Step

/-- A program under an optional name. -/
structure Template where
  name : Option String
  body : Body
  /-- What the template puts into slots, by the name of the slot. -/
  blocks : Dict Body

namespace Template

/-- Whether two templates have the same name, program and table. -/
def beq (t u : Template) : Bool :=
  t.name == u.name && Step.beqAll t.body u.body && Step.beqNamed t.blocks u.blocks

/-- The same program under another name. -/
def withName (t : Template) (name : String) : Template :=
  { t with name := some name }

end Template
end Stencil
