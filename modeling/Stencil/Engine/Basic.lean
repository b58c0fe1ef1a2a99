import Stencil.Config
import Stencil.Filter
import Stencil.Helper.Builtin
import Stencil.Loader
import Stencil.Log
import Stencil.Template.Compile
import Stencil.Text.Quoted

/-! An engine holds what renders share: templates by name, helpers, filters, a loader, the settings and a log. -/

namespace Stencil

/-- A reading of the settings of the moment. -/
inductive Reading where
  /-- A source is compiled: are line breaks kept? -/
  | whitespace (kept : Bool)
  /-- A template was compiled under a name: is it kept? -/
  | cache (kept : Bool)
  /-- A render on the side begins: what holds for it? -/
  | aside (cache : Bool) (maxPartialDepth : Nat)
deriving Repr, DecidableEq

/-- A call of a callable or a filter. -/
inductive Call where
  /-- A helper, or what the data hold under a path, is called under this name. -/
  | helper (name : String) (context : Context) (bodies : Bodies Body) (params : Params)
  /-- The filter of a name is given a value. -/
  | filter (name : String) (value : Value)

/-- What renders share. -/
structure Engine where
  config : Config := {}
  templates : Dict Template := []
  helpers : Dict Helper := Helper.builtin
  filters : Dict Filter := Filter.builtin
  /-- What the callables in data do. -/
  functions : FunctionId → Helper := fun _ => Helper.ofContext fun _ => .null
  loader : Option Loader := none
  /-- The names that the loader was asked for, in their order. -/
  asked : List String := []
  /-- The records captured so far, in their order. -/
  log : List LogRecord := []
  /-- The readings of the settings since the engine was made, in their order. Nothing looks at them. -/
  readings : List Reading := []
  /-- The calls since the engine was made, in their order. Nothing looks at them. -/
  calls : List Call := []

namespace Engine

/-- Replaces the settings. -/
def setConfig (e : Engine) (config : Config) : Engine :=
  { e with config }

/-- Captures a record, if records are captured. -/
def record (e : Engine) (level : LogLevel) (message : String) : Engine :=
  if e.config.debug then { e with log := e.log ++ [⟨level, message⟩] } else e

/-- Notes a reading of the settings. -/
def read (e : Engine) (reading : Reading) : Engine :=
  { e with readings := e.readings ++ [reading] }

/-- Notes a call. -/
def called (e : Engine) (call : Call) : Engine :=
  { e with calls := e.calls ++ [call] }

/-- Takes the captured records. -/
def drainLog (e : Engine) : List LogRecord × Engine :=
  (e.log, { e with log := [] })

/-- Compiles a source under the settings of the moment. -/
def compile (e : Engine) (source : String) (name : Option String) : Except Error Template :=
  match Template.compile source name e.config.whitespace with
  | .ok t => .ok t
  | .error fault => .error (.parse fault)

/-- Keeps a template under its name, if it has one and templates are kept. -/
def keep (e : Engine) (t : Template) : Engine :=
  match t.name with
  | some name => if e.config.cache then { e with templates := Dict.insert name t e.templates } else e
  | none => e

/-- Compiles a source and keeps it under a name. -/
def addTemplate (e : Engine) (name source : String) : Except Error Template × Engine :=
  let compiling := e.read (.whitespace e.config.whitespace)
  match e.compile source (some name) with
  | .ok t => (.ok t, (compiling.read (.cache e.config.cache)).keep t)
  | .error error => (.error error, compiling)

/-- The template kept under a name. -/
def getTemplate (e : Engine) (name : String) : Option Template :=
  Dict.get? name e.templates

/-- Lets the template kept under a name bear another name; it stays where it is. -/
def renameTemplate (e : Engine) (name newName : String) : Engine :=
  match e.getTemplate name with
  | some t => { e with templates := Dict.insert name (t.withName newName) e.templates }
  | none => e

/-- Forgets the template kept under a name. -/
def removeTemplate (e : Engine) (name : String) : Engine :=
  { e with templates := Dict.erase name e.templates }

/-- Forgets all templates. -/
def clearTemplates (e : Engine) : Engine :=
  { e with templates := [] }

/-- The names under which templates are kept, in their order. -/
def templateNames (e : Engine) : List String :=
  Dict.keys e.templates

/-- Registers a helper, in place of one of the same name. -/
def registerHelper (e : Engine) (name : String) (helper : Helper) : Engine :=
  { e with helpers := Dict.insert name helper e.helpers }

/-- Registers a filter, in place of one of the same name. -/
def registerFilter (e : Engine) (name : String) (filter : Filter) : Engine :=
  { e with filters := Dict.insert name filter e.filters }

/-- Sets the loader, which has been asked nothing yet. -/
def setLoader (e : Engine) (loader : Loader) : Engine :=
  { e with loader := some loader, asked := [] }

/-- Goes without a loader. -/
def clearLoader (e : Engine) : Engine :=
  { e with loader := none, asked := [] }

/-- The template kept under a name as a render sees it: where templates are not kept, a loader is asked each time. -/
def lookup (e : Engine) (name : String) (cache : Bool) : Option Template :=
  if cache || e.loader.isNone then e.getTemplate name else none

/-- Asks a loader for a name. -/
def ask (e : Engine) (loader : Loader) (name : String) : Future Loaded × Engine :=
  (loader.load e.asked name, { e with asked := e.asked ++ [name] })

/-- Runs a value through filters from left to right. A name without a filter is passed over with a warning. -/
def applyFilters : (filters : List String) → (value : Value) → (e : Engine) → Except Error Value × Engine
  | [], value, e => (.ok value, e)
  | name :: rest, value, e =>
    match Dict.get? name e.filters with
    | none => applyFilters rest value (e.record .warn ("Invalid filter [" ++ name ++ "]"))
    | some filter =>
      let noted := e.called (.filter name value)
      match filter value with
      | .ok value => applyFilters rest value noted
      | .error error => (.error (error.attributed name none), noted)

/-- Names in quotes, in brackets. -/
def quotedNames (names : List String) : String :=
  "[" ++ ", ".intercalate (names.map Text.Quoted.quote) ++ "]"

/-- The engine for reading by people. -/
def debugText (e : Engine) : String :=
  "Engine \x7b config: " ++ e.config.debugText ++ ", templates: " ++ quotedNames e.templateNames ++ ", helpers: "
    ++ quotedNames (Dict.keys e.helpers) ++ ", has_loader: " ++ Config.boolText e.loader.isSome ++ ", .. \x7d"

end Engine
end Stencil
