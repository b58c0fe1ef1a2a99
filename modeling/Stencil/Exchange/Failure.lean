import Stencil.Error
import Stencil.Exchange.Form

/-! Errors in JSON. -/

namespace Stencil

namespace Fault

/-- The name of a fault and of its fields in JSON, with the fields. -/
def form : Fault → String × List (String × String)
  | .unexpectedEnd what => ("UnexpectedEof", [("expected_what", what)])
  | .expected description => ("Expected", [("description", description)])
  | .unclosed what => ("Unclosed", [("what", what)])
  | .mismatchedClose opened found => ("MismatchedClose", [("expected", opened), ("found", found)])
  | .unmatchedClose found => ("UnmatchedClose", [("found", found)])
  | .unexpectedBody name => ("UnexpectedBody", [("name", name)])
  | .unknownSpecial name => ("UnknownSpecial", [("name", name)])
  | .invalidPath path => ("InvalidPath", [("path", path)])

/-- A fault in JSON. -/
def toJson (f : Fault) : Json :=
  Form.variant f.form.1 (.object (f.form.2.map fun (name, text) => (name, .string text)))

/-- Reads a variant with one text. -/
def ofText? (field : String) (make : String → Fault) (content : Json) : Option Fault := do
  match ← Form.fields? [field] content with
  | [text] => (Form.required Form.string? text).map make
  | _ => none

/-- Reads a fault. -/
def ofJson? (json : Json) : Option Fault := do
  let (name, content) ← Form.variant? json
  let content ← content
  match name with
  | "UnexpectedEof" => ofText? "expected_what" .unexpectedEnd content
  | "Expected" => ofText? "description" .expected content
  | "Unclosed" => ofText? "what" .unclosed content
  | "UnmatchedClose" => ofText? "found" .unmatchedClose content
  | "UnexpectedBody" => ofText? "name" .unexpectedBody content
  | "UnknownSpecial" => ofText? "name" .unknownSpecial content
  | "InvalidPath" => ofText? "path" .invalidPath content
  | "MismatchedClose" =>
    match ← Form.fields? ["expected", "found"] content with
    | [opened, found] => some (.mismatchedClose (← Form.required Form.string? opened) (← Form.required Form.string? found))
    | _ => none
  | _ => none

end Fault

namespace ParseError

/-- A fault with its place in JSON. -/
def toJson (e : ParseError) : Json :=
  .object
    [("template", .ofString? e.template), ("line", .int e.line), ("column", .int e.column), ("kind", e.fault.toJson)]

/-- Reads a fault with its place. -/
def ofJson? (json : Json) : Option ParseError := do
  match ← Form.record? ["template", "line", "column", "kind"] json with
  | [template, line, column, kind] =>
    some {
      template := ← Form.optional Form.string? template
      line := ← Form.required Form.count? line
      column := ← Form.required Form.count? column
      fault := ← Form.required Fault.ofJson? kind }
  | _ => none

end ParseError

namespace Error

/-- The name of an error in JSON and its content. -/
def form : Error → String × Json
  | .parse e => ("Parse", e.toJson)
  | .templateNotFound name template =>
    ("TemplateNotFound", .object [("name", .string name), ("template", .ofString? template)])
  | .loader name text => ("Loader", .object [("name", .string name), ("message", .string text)])
  | .helper source template text =>
    ("Helper", .object
      [("helper", .ofString? source), ("template", .ofString? template), ("message", .string text)])
  | .recursionLimit limit template =>
    ("RecursionLimit", .object [("limit", .int limit), ("template", .ofString? template)])
  | .protocol text => ("Protocol", .string text)

/-- An error in JSON. -/
def toJson (e : Error) : Json :=
  Form.variant e.form.1 e.form.2

/-- Reads an error from its name and its content. -/
def ofForm? (name : String) (content : Json) : Option Error := do
  match name with
  | "Parse" => (ParseError.ofJson? content).map .parse
  | "TemplateNotFound" =>
    match ← Form.fields? ["name", "template"] content with
    | [name, template] =>
      some (.templateNotFound (← Form.required Form.string? name) (← Form.optional Form.string? template))
    | _ => none
  | "Loader" =>
    match ← Form.fields? ["name", "message"] content with
    | [name, text] => some (.loader (← Form.required Form.string? name) (← Form.required Form.string? text))
    | _ => none
  | "Helper" =>
    match ← Form.fields? ["helper", "template", "message"] content with
    | [source, template, text] =>
      some (.helper (← Form.optional Form.string? source) (← Form.optional Form.string? template)
        (← Form.required Form.string? text))
    | _ => none
  | "RecursionLimit" =>
    match ← Form.fields? ["limit", "template"] content with
    | [limit, template] =>
      some (.recursionLimit (← Form.required Form.count? limit) (← Form.optional Form.string? template))
    | _ => none
  | "Protocol" => (Form.string? content).map .protocol
  | _ => none

/-- Reads an error. -/
def ofJson? (json : Json) : Option Error := do
  let (name, content) ← Form.variant? json
  ofForm? name (← content)

end Error
end Stencil
