import Stencil.Source.Path
import Stencil.Template.Basic
import Stencil.Value.Basic

/-! The scope that a template renders in: frames from the innermost out, globals behind them all, and what the templates
    entered so far put into slots. -/

namespace Stencil

/-- A layer of data. -/
structure Frame where
  data : Value
  /-- The index of an item and the number of items, where a section iterates. -/
  iteration : Option (Nat × Nat)

/-- A scope. -/
structure Context where
  /-- Frames, the innermost first. -/
  frames : List Frame := []
  globals : Option Value := none
  /-- Tables of the templates entered, the innermost first. -/
  blocks : List (Dict Body) := []
  templateName : Option String := none
  /-- How many templates were entered. -/
  depth : Nat := 0
  /-- How many slots were filled inside each other since the last template was entered. Rendering never looks at it. -/
  fillings : Nat := 0

namespace Frame

/-- The value of a key in a frame. Where a section iterates, the index and the count have keys of their own. -/
def get? (key : String) (f : Frame) : Option Value :=
  match f.iteration, key with
  | some (index, _), "$idx" => some (.ofNat index)
  | some (_, count), "$len" => some (.ofNat count)
  | _, _ => f.data.fields?.bind (Dict.get? key)

end Frame

namespace Context

/-- A scope of globals and nothing else. -/
def base (globals : Value) : Context :=
  { globals := some globals }

/-- Adds a frame. -/
def push (c : Context) (data : Value) : Context :=
  { c with frames := ⟨data, none⟩ :: c.frames }

/-- Adds the frame of one item of several. -/
def pushItem (c : Context) (data : Value) (index count : Nat) : Context :=
  { c with frames := ⟨data, some (index, count)⟩ :: c.frames }

/-- Puts one frame in place of all. -/
def rebase (c : Context) (data : Value) : Context :=
  { c with frames := [⟨data, none⟩] }

/-- The scope of some data. -/
def ofValue (data : Value) : Context :=
  push {} data

/-- The data of the innermost frame. -/
def current (c : Context) : Option Value :=
  c.frames.head?.map (·.data)

/-- The position of the innermost frame, where a section iterates. -/
def iteration (c : Context) : Option (Nat × Nat) :=
  c.frames.head?.bind (·.iteration)

/-- The value of a key in the innermost frame that has it, else in the globals. -/
def find? (c : Context) (key : String) : Option Value :=
  (c.frames.findSome? (·.get? key)).or (c.globals.bind (·.get? key))

mutual

/-- The value that a path leads to. -/
def resolve (c : Context) : Path → Option Value
  | ⟨true, segments⟩ => c.current.bind (c.follow segments)
  | ⟨false, .key name :: segments⟩ => (c.find? name).bind (c.follow segments)
  | ⟨false, _⟩ => none

/-- The value that segments lead to from a value. -/
def follow (c : Context) : List Segment → Value → Option Value
  | [], value => some value
  | .key name :: rest, value => (value.get? name).bind (c.follow rest)
  | .index i :: rest, value => (value.item? i).bind (c.follow rest)
  | .dynamic path :: rest, value =>
    match c.resolve path with
    | some (.string name) => (value.get? name).bind (c.follow rest)
    | some (.int n) => if n < 0 then none else (value.item? n.toInt.toNat).bind (c.follow rest)
    | _ => none

end

/-- The value that a path in text leads to. A text that is no path leads nowhere. -/
def get? (c : Context) (path : String) : Option Value :=
  match Path.ofText path with
  | .ok path => c.resolve path
  | .error _ => none

/-- The scope of the body of a template. -/
def enter (c : Context) (t : Template) : Context :=
  { c with
    blocks := if t.blocks.isEmpty then c.blocks else t.blocks :: c.blocks
    templateName := t.name
    depth := min (c.depth + 1) Decimal.Numeral.maxIndex
    fillings := 0 }

/-- What fills a slot: the body that the innermost template with one put there. -/
def block? (c : Context) (slot : String) : Option Body :=
  c.blocks.findSome? (Dict.get? slot)

/-- The scope of what fills a slot. -/
def fill (c : Context) : Context :=
  { c with fillings := c.fillings + 1 }

section

variable (c : Context) (data : Value) (index count : Nat) (t : Template)

@[simp] theorem current_push : (c.push data).current = some data := rfl

@[simp] theorem current_pushItem : (c.pushItem data index count).current = some data := rfl

@[simp] theorem current_rebase : (c.rebase data).current = some data := rfl

@[simp] theorem current_enter : (c.enter t).current = c.current := rfl

@[simp] theorem iteration_push : (c.push data).iteration = none := rfl

@[simp] theorem iteration_pushItem : (c.pushItem data index count).iteration = some (index, count) := rfl

@[simp] theorem iteration_rebase : (c.rebase data).iteration = none := rfl

@[simp] theorem iteration_enter : (c.enter t).iteration = c.iteration := rfl

@[simp] theorem templateName_enter : (c.enter t).templateName = t.name := rfl

theorem find?_push (key : String) :
    (c.push data).find? key = (data.fields?.bind (Dict.get? key)).or (c.find? key) := by
  simp only [find?, push, List.findSome?_cons, Frame.get?]
  cases data.fields?.bind (Dict.get? key) <;> rfl

theorem find?_pushItem (key : String) :
    (c.pushItem data index count).find? key = (Frame.get? key ⟨data, some (index, count)⟩).or (c.find? key) := by
  simp only [find?, pushItem, List.findSome?_cons]
  cases Frame.get? key ⟨data, some (index, count)⟩ <;> rfl

theorem find?_rebase (key : String) :
    (c.rebase data).find? key = (data.fields?.bind (Dict.get? key)).or (c.globals.bind (·.get? key)) := by
  simp only [find?, rebase, List.findSome?_cons, List.findSome?_nil, Frame.get?]
  cases data.fields?.bind (Dict.get? key) <;> rfl

@[simp] theorem find?_enter (key : String) : (c.enter t).find? key = c.find? key := rfl

theorem block?_enter (slot : String) : (c.enter t).block? slot = (Dict.get? slot t.blocks).or (c.block? slot) := by
  unfold enter block?
  cases h : t.blocks with
  | nil => rfl
  | cons e rest => cases h' : Dict.get? slot (e :: rest) <;> simp [h']

end

end Context
end Stencil
