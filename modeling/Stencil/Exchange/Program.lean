import Stencil.Exchange.Form
import Stencil.Json.Reader
import Stencil.Json.Writer
import Stencil.Template.Basic

/-! Templates in JSON, so that a compiled program can be kept and loaded again. -/

namespace Stencil

mutual

/-- A path in JSON. -/
def Path.toJson : Path → Json
  | ⟨current, segments⟩ => .object [("current", .bool current), ("segments", .array (Segment.toJsons segments))]

/-- A segment in JSON. -/
def Segment.toJson : Segment → Json
  | .key name => Form.variant "Key" (.string name)
  | .index i => Form.variant "Index" (.int i)
  | .dynamic path => Form.variant "Dynamic" path.toJson

/-- Segments in JSON. -/
def Segment.toJsons : List Segment → List Json
  | [] => []
  | segment :: rest => segment.toJson :: Segment.toJsons rest

end

/-- Reads a segment, given a reader of paths. -/
def Segment.ofJson? (path : Json → Option Path) (json : Json) : Option Segment := do
  let (name, content) ← Form.variant? json
  let content ← content
  match name with
  | "Key" => (Form.string? content).map .key
  | "Index" => (Form.count? content).map .index
  | "Dynamic" => (path content).map .dynamic
  | _ => none

/-- Reads a path with paths nested up to a depth. -/
def Path.ofJson? : (depth : Nat) → Json → Option Path
  | 0, _ => none
  | depth + 1, json => do
    match ← Form.record? ["current", "segments"] json with
    | [current, segments] =>
      some ⟨← Form.required Form.bool? current,
        ← Form.required (Form.list? (Segment.ofJson? (Path.ofJson? depth))) segments⟩
    | _ => none

/-- How deeply containers nest in a value. -/
def Json.nesting : Json → Nat
  | .array items => nestings items + 1
  | .object members => memberNestings members + 1
  | .null | .bool _ | .int _ | .float _ | .string _ => 0
where
  /-- How deeply containers nest in items. -/
  nestings : List Json → Nat
    | [] => 0
    | item :: rest => max item.nesting (nestings rest)
  /-- How deeply containers nest in members. -/
  memberNestings : List (String × Json) → Nat
    | [] => 0
    | (_, value) :: rest => max value.nesting (memberNestings rest)

namespace SectionKind

/-- The name of a kind in JSON. -/
def formName : SectionKind → String
  | .iterate => "Iterate"
  | .present => "Exists"
  | .absent => "NotExists"

/-- Reads a kind. -/
def ofJson? (json : Json) : Option SectionKind := do
  let (name, content) ← Form.variant? json
  Form.noContent content
  [SectionKind.iterate, .present, .absent].find? (·.formName == name)

end SectionKind

namespace Step

mutual

/-- A step in JSON. -/
def toJson : Step → Json
  | .write text => Form.variant "Write" (.string text)
  | .reference path filters =>
    Form.variant "Reference" (.object [("path", path.toJson), ("filters", .ofStrings filters)])
  | .sectionTag kind key context params ⟨block, named⟩ =>
    Form.variant "Section" (.object
      [("kind", .string kind.formName), ("key", key.toJson), ("context", Form.nullable Path.toJson context),
       ("params", .array (paramsToJson params)),
       ("bodies", .object [("block", blockToJson block), ("named", .array (namedToJson named))])])
  | .helperTag name context params ⟨block, named⟩ =>
    Form.variant "Helper" (.object
      [("name", .string name), ("context", Form.nullable Path.toJson context),
       ("params", .array (paramsToJson params)),
       ("bodies", .object [("block", blockToJson block), ("named", .array (namedToJson named))])])
  | .partialTag (.static name) context params =>
    Form.variant "Partial" (.object
      [("name", Form.variant "Static" (.string name)), ("context", Form.nullable Path.toJson context),
       ("params", .array (paramsToJson params))])
  | .partialTag (.dynamic body) context params =>
    Form.variant "Partial" (.object
      [("name", Form.variant "Dynamic" (.array (toJsons body))), ("context", Form.nullable Path.toJson context),
       ("params", .array (paramsToJson params))])
  | .slot name default =>
    Form.variant "Block" (.object [("name", .string name), ("default", blockToJson default)])

/-- Steps in JSON. -/
def toJsons : List Step → List Json
  | [] => []
  | step :: rest => step.toJson :: toJsons rest

/-- A block in JSON. -/
def blockToJson : Option (List Step) → Json
  | none => .null
  | some body => .array (toJsons body)

/-- Named bodies in JSON. -/
def namedToJson : List (String × List Step) → List Json
  | [] => []
  | (name, body) :: rest => .array [.string name, .array (toJsons body)] :: namedToJson rest

/-- Parameters in JSON. -/
def paramsToJson : List (String × Operand (List Step)) → List Json
  | [] => []
  | (key, operand) :: rest =>
    .object [("key", .string key), ("value", operandToJson operand)] :: paramsToJson rest

/-- An operand in JSON. -/
def operandToJson : Operand (List Step) → Json
  | .text s => Form.variant "Text" (.string s)
  | .int n => Form.variant "Int" (.int n.toInt)
  | .float x => Form.variant "Float" (.float x)
  | .path path => Form.variant "Path" path.toJson
  | .body body => Form.variant "Body" (.array (toJsons body))

end

section

variable (path : Json → Option Path) (body : Json → Option Body)

/-- Reads an operand. -/
def operandOfJson? (json : Json) : Option (Operand Body) := do
  let (name, content) ← Form.variant? json
  let content ← content
  match name with
  | "Text" => (Form.string? content).map .text
  | "Int" => (Form.word? content).map .int
  | "Float" => (Form.float? content).map .float
  | "Path" => (path content).map .path
  | "Body" => (body content).map .body
  | _ => none

/-- Reads a parameter. -/
def paramOfJson? (json : Json) : Option (String × Operand Body) := do
  match ← Form.record? ["key", "value"] json with
  | [key, value] => some (← Form.required Form.string? key, ← Form.required (operandOfJson? path body) value)
  | _ => none

/-- Reads the name of a partial. -/
def partialNameOfJson? (json : Json) : Option (PartialName Body) := do
  let (name, content) ← Form.variant? json
  let content ← content
  match name with
  | "Static" => (Form.string? content).map .static
  | "Dynamic" => (body content).map .dynamic
  | _ => none

/-- Reads a named body. -/
def namedBodyOfJson? : Json → Option (String × Body)
  | .array [name, steps] => do some (← Form.string? name, ← body steps)
  | _ => none

/-- Reads the bodies of a tag. -/
def bodiesOfJson? (json : Json) : Option (Bodies Body) := do
  match ← Form.record? ["block", "named"] json with
  | [block, named] =>
    some ⟨← Form.optional body block, ← Form.required (Form.list? (namedBodyOfJson? body)) named⟩
  | _ => none

/-- Reads the parameters of a tag. -/
def paramsOfJson? (field : Option Json) : Option (List (String × Operand Body)) :=
  Form.required (Form.list? (paramOfJson? path body)) field

/-- Reads a step from its name and its content. -/
def ofForm? (name : String) (content : Json) : Option Step := do
  match name with
  | "Write" => (Form.string? content).map .write
  | "Reference" =>
    match ← Form.fields? ["path", "filters"] content with
    | [target, filters] =>
      some (.reference (← Form.required path target) (← Form.required (Form.list? Form.string?) filters))
    | _ => none
  | "Section" =>
    match ← Form.fields? ["kind", "key", "context", "params", "bodies"] content with
    | [kind, key, context, params, bodies] =>
      some (.sectionTag (← Form.required SectionKind.ofJson? kind) (← Form.required path key)
        (← Form.optional path context) (← paramsOfJson? path body params)
        (← Form.required (bodiesOfJson? body) bodies))
    | _ => none
  | "Helper" =>
    match ← Form.fields? ["name", "context", "params", "bodies"] content with
    | [name, context, params, bodies] =>
      some (.helperTag (← Form.required Form.string? name) (← Form.optional path context)
        (← paramsOfJson? path body params) (← Form.required (bodiesOfJson? body) bodies))
    | _ => none
  | "Partial" =>
    match ← Form.fields? ["name", "context", "params"] content with
    | [name, context, params] =>
      some (.partialTag (← Form.required (partialNameOfJson? body) name) (← Form.optional path context)
        (← paramsOfJson? path body params))
    | _ => none
  | "Block" =>
    match ← Form.fields? ["name", "default"] content with
    | [name, default] => some (.slot (← Form.required Form.string? name) (← Form.optional body default))
    | _ => none
  | _ => none

/-- Reads a step. -/
def ofJson? (json : Json) : Option Step := do
  let (name, content) ← Form.variant? json
  ofForm? path body name (← content)

end

/-- Reads a program with bodies nested up to a depth. -/
def bodyOfJson? (path : Json → Option Path) : (depth : Nat) → Json → Option Body
  | 0, _ => none
  | depth + 1, json => Form.list? (ofJson? path (bodyOfJson? path depth)) json

end Step

namespace Template

/-- A template in JSON. -/
def toJson (t : Template) : Json :=
  .object
    [("name", .ofString? t.name), ("body", .array (Step.toJsons t.body)),
     ("blocks", .object (t.blocks.map fun (name, body) => (name, .array (Step.toJsons body))))]

/-- Reads a template. Paths and bodies nest no deeper than the containers of the JSON. -/
def ofJson? (json : Json) : Option Template := do
  let body := Step.bodyOfJson? (Path.ofJson? json.nesting) json.nesting
  match ← Form.record? ["name", "body", "blocks"] json with
  | [name, steps, blocks] =>
    some {
      name := ← Form.optional Form.string? name
      body := ← Form.required body steps
      blocks := ← Form.required (Form.dict? body) blocks }
  | _ => none

/-- How deeply containers may nest in the text of a template that is loaded. -/
def maxTextNesting : Nat := 127

/-- A template as text. -/
def toText (t : Template) : String :=
  t.toJson.text

/-- Reads a template from text. -/
def ofText? (text : String) : Option Template := do
  ofJson? (← Json.parse? maxTextNesting text)

end Template
end Stencil
