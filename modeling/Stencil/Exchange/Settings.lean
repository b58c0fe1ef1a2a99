import Stencil.Config
import Stencil.Exchange.Form
import Stencil.Log

/-! Settings and log records in JSON. Settings that are not given take their defaults. -/

namespace Stencil

namespace Config

/-- Settings in JSON. -/
def toJson (c : Config) : Json :=
  .object
    [("whitespace", .bool c.whitespace), ("cache", .bool c.cache), ("debug", .bool c.debug),
     ("max_partial_depth", .int c.maxPartialDepth)]

/-- Reads a field that takes its default where it is missing. -/
def field {α : Type} (read : Json → Option α) (default : α) : Option Json → Option α
  | none => some default
  | some json => read json

/-- Reads settings. As an array they may stop early. -/
def ofJson? (json : Json) : Option Config := do
  let fields ←
    match json with
    | .array items => if items.length ≤ 4 then some (items.map some ++ List.replicate (4 - items.length) none) else none
    | _ => Form.record? ["whitespace", "cache", "debug", "max_partial_depth"] json
  match fields with
  | [whitespace, cache, debug, depth] =>
    let defaults : Config := {}
    some {
      whitespace := ← field Form.bool? defaults.whitespace whitespace
      cache := ← field Form.bool? defaults.cache cache
      debug := ← field Form.bool? defaults.debug debug
      maxPartialDepth := ← field Form.count? defaults.maxPartialDepth depth }
  | _ => none

end Config

namespace LogLevel

/-- The name of a level in JSON. -/
def formName : LogLevel → String
  | .debug => "Debug"
  | .info => "Info"
  | .warn => "Warn"
  | .error => "Error"

/-- A level in JSON. -/
def toJson (level : LogLevel) : Json :=
  .string level.formName

/-- Reads a level. -/
def ofJson? (json : Json) : Option LogLevel := do
  let (name, content) ← Form.variant? json
  Form.noContent content
  [LogLevel.debug, .info, .warn, .error].find? (·.formName == name)

end LogLevel

namespace LogRecord

/-- A record in JSON. -/
def toJson (r : LogRecord) : Json :=
  .object [("level", r.level.toJson), ("message", .string r.message)]

/-- Reads a record. -/
def ofJson? (json : Json) : Option LogRecord := do
  match ← Form.record? ["level", "message"] json with
  | [level, message] =>
    some { level := ← Form.required LogLevel.ofJson? level, message := ← Form.required Form.string? message }
  | _ => none

end LogRecord
end Stencil
