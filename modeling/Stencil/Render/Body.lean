import Stencil.Render.Writing

/-! Rendering: what each step of a program does. Bodies inside steps are rendered by a renderer that is given, and
    `exec` is the renderer that allows a number of bodies inside each other. -/

namespace Stencil

open RenderM

/-- A way to render bodies. -/
abbrev Renderer := Body → Context → RenderM Unit

/-- Does the steps of a helper. -/
def Program.run (render : Renderer) : Program → RenderM Reply
  | .finish reply => pure reply
  | .fail error => throw error
  | .write text next => do
    let outcome ← attempt (RenderM.write text)
    (next outcome).run render
  | .render body context next => do
    let outcome ← attempt (render body context)
    (next outcome).run render
  | .renderToString body context next => do
    let outcome ← attempt (toText context.templateName (render body context))
    (next outcome).run render
  | .defer future resume next => do
    let outcome ← attempt <| putOff (.text future resume) <| pollText future fun text => do
      let _ ← (resume text).run render
    (next outcome).run render
  | .act action next => do
    let outcome ← attempt (perform action)
    (next outcome).run render

namespace Render

variable (render : Renderer)

/-- Calls a helper. Its errors say where they come from. -/
def call (helper : Helper) (name : String) (context : Context) (bodies : Bodies Body) (params : Params) :
    RenderM Reply := do
  called (.helper name context bodies params)
  mapError (·.attributed name context.templateName) ((helper context bodies params).run render)

/-- Writes a value through filters, unless it is empty. -/
def writeFiltered (value : Value) (filters : List String) : RenderM Unit :=
  if value.isEmpty then pure ()
  else do
    let filtered ← ofExcept (← withEngine (Engine.applyFilters filters value))
    RenderM.write filtered.text

/-- Writes what a path leads to. -/
def reference (path : Path) (filters : List String) (context : Context) : RenderM Unit := do
  match context.resolve path with
  | none => pure ()
  | some (.function id) =>
    match ← call render (← callable id) path.text context .empty [] with
    | .value value => writeFiltered value filters
    | .written => pure ()
  | some value => writeFiltered value filters

/-- The value of a parameter. -/
def operand (context : Context) : Operand Body → RenderM Value
  | .text s => pure (.string s)
  | .int n => pure (.int n)
  | .float x => pure (.float x)
  | .path path => pure ((context.resolve path).getD .null)
  | .body body => .string <$> toText context.templateName (render body context)

/-- The values of parameters, from the first to the last. -/
def params (list : List (String × Operand Body)) (context : Context) : RenderM Params :=
  list.foldlM (fun values (key, value) => do pure (Dict.insert key (← operand render context value) values)) []

/-- The scope of a tag: a context of its own comes first, parameters on top of it. -/
def scope (context : Context) (own : Option Path) (params : Params) : Context :=
  let base :=
    match own with
    | some path => context.rebase ((context.resolve path).getD .null)
    | none => context
  if params.isEmpty then base else base.push (.object params)

/-- Renders a body, if there is one. -/
def optional (body : Option Body) (context : Context) : RenderM Unit :=
  match body with
  | some body => render body context
  | none => pure ()

/-- Renders a block for each item, from the first to the last. -/
def items (block : Body) (context : Context) (list : List Value) : RenderM Unit :=
  list.zipIdx.forM fun (item, index) => render block (context.pushItem item index list.length)

/-- Renders what a section shows of a value. -/
def dispatch (kind : SectionKind) (value : Value) (context : Context) (bodies : Bodies Body) : RenderM Unit :=
  match kind, value.isEmpty with
  | .present, empty => optional render (if empty then bodies.else? else bodies.block) context
  | .absent, empty => optional render (if empty then bodies.block else bodies.else?) context
  | .iterate, true => optional render bodies.else? context
  | .iterate, false =>
    match bodies.block, value with
    | none, _ => pure ()
    | some block, .array list => items render block context list
    | some block, .bool true => render block context
    | some block, value => render block (context.push value)

/-- Renders a section. -/
def sectionTag (kind : SectionKind) (key : Path) (own : Option Path) (list : List (String × Operand Body))
    (bodies : Bodies Body) (context : Context) : RenderM Unit := do
  let params ← params render list context
  let inner := scope context own params
  match context.resolve key with
  | none => dispatch render kind .null inner bodies
  | some (.function id) =>
    match ← call render (← callable id) key.text inner bodies params with
    | .value value => dispatch render kind value inner bodies
    | .written => pure ()
  | some value => dispatch render kind value inner bodies

/-- Calls the helper of a name. A name without a helper is passed over with a warning. -/
def helperTag (name : String) (own : Option Path) (list : List (String × Operand Body)) (bodies : Bodies Body)
    (context : Context) : RenderM Unit := do
  match ← helper? name with
  | none => record .warn ("Invalid helper [" ++ name ++ "]")
  | some helper =>
    let params ← params render list context
    match ← call render helper name (scope context own []) bodies params with
    | .value value => writeFiltered value [escapeFilter]
    | .written => pure ()

/-- Renders a template, unless templates are nested too deeply. -/
def template (t : Template) (context : Context) : RenderM Unit := do
  let limit ← depthLimit
  if limit < context.depth then throw (.recursionLimit limit t.name)
  else render t.body (context.enter t)

/-- Renders the template of a name, loading it first where it is not kept. -/
def named (name : String) (context : Context) : RenderM Unit := do
  match ← kept? name with
  | some t => template render t context
  | none =>
    startLoad name context.templateName
    putOff (.load name context) (pollTemplate name fun t => template render t context)

/-- Renders a partial. -/
def partialTag (target : PartialName Body) (own : Option Path) (list : List (String × Operand Body))
    (context : Context) : RenderM Unit := do
  let name ←
    match target with
    | .static name => pure name
    | .dynamic body => toText context.templateName (render body context)
  let params ← params render list context
  named render name (scope context own params)

/-- Renders what fills a slot, or else what stands there. -/
def slot (name : String) (default : Option Body) (context : Context) : RenderM Unit :=
  match (context.block? name).or default with
  | some body => do
    note (.filled context.fillings)
    render body context.fill
  | none => pure ()

/-- Does a step. -/
def step (context : Context) : Step → RenderM Unit
  | .write text => RenderM.write text
  | .reference path filters => reference render path filters context
  | .sectionTag kind key own list bodies => sectionTag render kind key own list bodies context
  | .helperTag name own list bodies => helperTag render name own list bodies context
  | .partialTag target own list => partialTag render target own list context
  | .slot name default => slot render name default context

/-- Renders bodies with no more than a number of bodies inside each other. -/
def exec : (nesting : Nat) → Renderer
  | 0, _, _ => halt .outOfSteps
  | nesting + 1, body, context => body.forM (step (exec nesting) context)

end Render
end Stencil
