import Stencil.Render.Drive
import Stencil.Stream
import Stencil.Template.Compile

/-! The tree of a source, rendered as it stands: node after node, piece after piece. Text is written where it stands, a line
    break only where they are kept, and nothing is made ready before. Bodies given to helpers and bodies in the tables of
    templates are programs; where such a program is known to come from a tree, the tree is rendered in its place. -/

namespace Stencil

open RenderM

/-- What a program comes from: nodes, with their line breaks kept or not, or the pieces of quoted text. -/
inductive Origin where
  | nodes (whitespace : Bool) (nodes : List Node)
  | quoted (pieces : List Piece)

/-- The program that comes from it. -/
def Origin.body : Origin → Body
  | .nodes whitespace list => Node.body whitespace list
  | .quoted pieces => Piece.body pieces

/-- The programs whose origin is known. -/
structure Origins where
  find? : Body → Option Origin
  body_eq {body : Body} {origin : Origin} : find? body = some origin → origin.body = body

open Classical in
/-- Every program that comes from a tree has one as its origin. -/
noncomputable def Origins.all : Origins where
  find? body := if known : ∃ origin : Origin, origin.body = body then some known.choose else none
  body_eq {body origin} found := by
    split at found
    · next known =>
      cases found
      exact known.choose_spec
    · cases found

namespace Direct

/-- The filters of a reference run in order but for those that decline the escape, which comes last if none declines it. -/
def filters (list : List String) : List String :=
  list.filter (· ≠ declineFilter) ++ if declineFilter ∈ list then [] else [escapeFilter]

/-- The text of pieces among which there is no reference. -/
def plain? : List Piece → Option String
  | [] => some ""
  | .text s :: rest => (plain? rest).map (s ++ ·)
  | .special s :: rest => (plain? rest).map (s.text ++ ·)
  | .reference _ _ :: _ => none

section

variable (render : Renderer) (inner : Origin → Context → RenderM Unit)

def piece (context : Context) : Piece → RenderM Unit
  | .text s => write s
  | .special s => write s.text
  | .reference path list => Render.reference render path (filters list) context

/-- The text of quoted text, rendered on the side where it refers to data. -/
def quoted (pieces : List Piece) (context : Context) : RenderM String :=
  match plain? pieces with
  | some text => pure text
  | none => toText context.templateName (inner (.quoted pieces) context)

def paramValue (context : Context) : ParamValue → RenderM Value
  | .int n => pure (.int n)
  | .float x => pure (.float x)
  | .path path => pure ((context.resolve path).getD .null)
  | .quoted pieces => .string <$> quoted inner pieces context

def params (list : List (String × ParamValue)) (context : Context) : RenderM Params :=
  list.foldlM (fun values (key, value) => do pure (Dict.insert key (← paramValue inner context value) values)) []

def optional (whitespace : Bool) (nodes : Option (List Node)) (context : Context) : RenderM Unit :=
  match nodes with
  | some nodes => inner (.nodes whitespace nodes) context
  | none => pure ()

/-- What a section shows of a value. -/
def dispatch (whitespace : Bool) (kind : SectionKind) (value : Value) (context : Context)
    (bodies : Bodies (List Node)) : RenderM Unit :=
  match kind, value.isEmpty with
  | .present, empty => optional inner whitespace (if empty then bodies.else? else bodies.block) context
  | .absent, empty => optional inner whitespace (if empty then bodies.block else bodies.else?) context
  | .iterate, true => optional inner whitespace bodies.else? context
  | .iterate, false =>
    match bodies.block, value with
    | none, _ => pure ()
    | some block, .array list => list.zipIdx.forM fun (item, index) =>
      inner (.nodes whitespace block) (context.pushItem item index list.length)
    | some block, .bool true => inner (.nodes whitespace block) context
    | some block, value => inner (.nodes whitespace block) (context.push value)

/-- The bodies as a helper is given them. -/
def given (whitespace : Bool) (bodies : Bodies (List Node)) : Bodies Body :=
  ⟨Node.blockBody whitespace bodies.block, Node.namedBodies whitespace bodies.named⟩

def node (whitespace : Bool) (context : Context) : Node → RenderM Unit
  | .piece p => piece render context p
  | .lineBreak text => if whitespace then write text else pure ()
  | .raw text => write text
  | .comment _ | .inlinePartial _ _ => pure ()
  | .sectionTag kind key own list bodies => do
    let params ← params inner list context
    let scope := Render.scope context own params
    match context.resolve key with
    | none => dispatch inner whitespace kind .null scope bodies
    | some (.function id) =>
      match ← Render.call render (← callable id) key.text scope (given whitespace bodies) params with
      | .value value => dispatch inner whitespace kind value scope bodies
      | .written => pure ()
    | some value => dispatch inner whitespace kind value scope bodies
  | .helperTag name own list bodies => do
    match ← helper? name with
    | none => record .warn ("Invalid helper [" ++ name ++ "]")
    | some helper =>
      let params ← params inner list context
      match ← Render.call render helper name (Render.scope context own []) (given whitespace bodies) params with
      | .value value => Render.writeFiltered value [escapeFilter]
      | .written => pure ()
  | .partialTag name own list => do
    let name ← quoted inner name context
    let params ← params inner list context
    Render.named render name (Render.scope context own params)
  | .slot name default =>
    match context.block? name, default with
    | some body, _ => do
      note (.filled context.fillings)
      render body context.fill
    | none, some nodes => do
      note (.filled context.fillings)
      inner (.nodes whitespace nodes) context.fill
    | none, none => pure ()

/-- Renders a tree. -/
def read : Origin → Context → RenderM Unit
  | .nodes whitespace list, context => list.forM (node render inner whitespace context)
  | .quoted pieces, context => pieces.forM (piece render context)

end

variable (origins : Origins)

/-- Renders a program, as the tree that it comes from if that is known. -/
def known (render : Renderer) (inner : Origin → Context → RenderM Unit) (body : Body) (context : Context) :
    RenderM Unit :=
  match origins.find? body with
  | some origin => read render inner origin context
  | none => body.forM (Render.step render context)

/-- Renders programs and trees with no more than a number of bodies inside each other. -/
def levels : (nesting : Nat) → Renderer × (Origin → Context → RenderM Unit)
  | 0 => (fun _ _ => halt .outOfSteps, fun _ _ => halt .outOfSteps)
  | nesting + 1 =>
    let (render, inner) := levels nesting
    (known origins render inner, read render inner)

/-- Renders programs, those of a known origin as the tree that they come from. -/
def exec (nesting : Nat) : Renderer :=
  (levels origins nesting).1

/-- Renders trees. -/
def tree (nesting : Nat) : Origin → Context → RenderM Unit :=
  (levels origins nesting).2

/-- Renders a template whose program comes from a tree. -/
def template (nesting : Nat) (t : Template) (origin : Origin) (context : Context) : RenderM Unit := do
  let limit ← depthLimit
  if limit < context.depth then throw (.recursionLimit limit t.name)
  else tree origins nesting origin (context.enter t)

/-- All that can be done of a stream without waiting. -/
def work (steps : Nat) (o : OutputStream) : RenderM Unit := do
  match o.job with
  | none => pure ()
  | some job => Render.start (job.run (exec origins steps))
  Render.settle (exec origins steps) steps 0 false

end Direct
end Stencil
