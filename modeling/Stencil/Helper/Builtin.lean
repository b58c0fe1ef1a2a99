import Stencil.Helper.Program

/-! The helpers that every engine starts with. Four of them look at the position of an item among the others, one
    measures a value. -/

namespace Stencil.Helper

/-- Renders the block where a condition holds. -/
def blockIf (condition : Bool) (context : Context) (bodies : Bodies Body) : Program :=
  if condition then .renderBody bodies.block context else .done

/-- Whether the scope is at the last item. -/
def atLast (context : Context) : Bool :=
  context.iteration.any fun (index, count) => index + 1 == count

/-- Whether the scope is at the first item. -/
def atFirst (context : Context) : Bool :=
  context.iteration.any fun (index, _) => index == 0

/-- The block on every item but the last. -/
def sep : Helper := fun context bodies _ => blockIf (!atLast context) context bodies

/-- The block on the first item. -/
def first : Helper := fun context bodies _ => blockIf (atFirst context) context bodies

/-- The block on the last item. -/
def last : Helper := fun context bodies _ => blockIf (atLast context) context bodies

/-- The block with the index of the item as its data. -/
def idx : Helper := fun context bodies _ =>
  let index :=
    match context.iteration with
    | some (index, _) => Value.ofNat index
    | none => .null
  .renderBody bodies.block (context.push index)

/-- The size of a value: items, fields or characters; a number is its own size and anything else has none. -/
def sizeOf : Option Value → Value
  | some (.array items) => .ofNat items.length
  | some (.object fields) => .ofNat fields.length
  | some (.string s) => .ofNat s.length
  | some (.int n) => .int n
  | some (.float x) => .float x
  | some .null | some (.bool _) | some (.function _) | none => .int 0

/-- The size of the parameter `key`. -/
def size : Helper := fun _ _ params => .finish (.value (sizeOf (Dict.get? "key" params)))

/-- A callable that gives a value made from the scope. -/
def ofContext (value : Context → Value) : Helper := fun context _ _ => .finish (.value (value context))

/-- The helpers that every engine starts with, by name. -/
def builtin : Dict Helper :=
  Dict.ofList [("sep", sep), ("first", first), ("last", last), ("idx", idx), ("size", size)]

theorem eq_of_get?_builtin {name : String} {helper : Helper} (found : Dict.get? name builtin = some helper) :
    helper = sep ∨ helper = first ∨ helper = last ∨ helper = idx ∨ helper = size := by
  have mem := Dict.mem_of_mem_ofList (Dict.mem_of_get? found)
  simp only [List.mem_cons, Prod.mk.injEq, List.not_mem_nil, or_false] at mem
  rcases mem with ⟨-, rfl⟩ | ⟨-, rfl⟩ | ⟨-, rfl⟩ | ⟨-, rfl⟩ | ⟨-, rfl⟩ <;> simp

end Stencil.Helper
