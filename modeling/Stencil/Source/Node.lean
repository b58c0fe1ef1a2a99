import Stencil.Path

/-! The tree of a template source. Quoted text holds pieces only: literal text, specials and references. -/

namespace Stencil

/-- The characters that have a name, such as the line break of `~n` in braces. -/
inductive Special where
  | newline
  | carriageReturn
  | space
  | leftBrace
  | rightBrace
deriving Repr, DecidableEq

namespace Special

/-- The special of a name. -/
def ofName? : String → Option Special
  | "n" => some .newline
  | "r" => some .carriageReturn
  | "s" => some .space
  | "lb" => some .leftBrace
  | "rb" => some .rightBrace
  | _ => none

/-- What a special writes. -/
def text : Special → String
  | .newline => "\n"
  | .carriageReturn => "\r"
  | .space => " "
  | .leftBrace => "\x7b"
  | .rightBrace => "\x7d"

end Special

/-- How a section treats its value. -/
inductive SectionKind where
  /-- For each item of the value. -/
  | iterate
  /-- If the value is not empty. -/
  | present
  /-- If the value is empty. -/
  | absent
deriving Repr, DecidableEq

/-- The bodies of a section or helper: the main block and the named ones, in the order of the source. -/
structure Bodies (α : Type) where
  block : Option α
  named : List (String × α)

namespace Bodies

variable {α : Type}

/-- No bodies at all. -/
def empty : Bodies α :=
  ⟨none, []⟩

/-- The first body of a name. -/
def get? (bodies : Bodies α) (name : String) : Option α :=
  (bodies.named.find? (·.1 == name)).map (·.2)

/-- The body that stands in when there is nothing to show. -/
def else? (bodies : Bodies α) : Option α :=
  bodies.get? "else"

end Bodies

/-- A piece of quoted text. -/
inductive Piece where
  | text (s : String)
  | special (s : Special)
  /-- A path and the names of the filters behind it. -/
  | reference (path : Path) (filters : List String)
deriving DecidableEq

/-- The value of a parameter as written. -/
inductive ParamValue where
  | int (n : Int64)
  | float (x : Float)
  | path (path : Path)
  | quoted (pieces : List Piece)

/-- A node of a source. -/
inductive Node where
  | piece (piece : Piece)
  /-- A line break and the blanks after it. -/
  | lineBreak (text : String)
  | raw (text : String)
  | comment (text : String)
  | sectionTag (kind : SectionKind) (key : Path) (context : Option Path) (params : List (String × ParamValue))
      (bodies : Bodies (List Node))
  | helperTag (name : String) (context : Option Path) (params : List (String × ParamValue))
      (bodies : Bodies (List Node))
  | partialTag (name : List Piece) (context : Option Path) (params : List (String × ParamValue))
  /-- A place that an inline partial of the name may fill, with what stands there otherwise. -/
  | slot (name : String) (default : Option (List Node))
  | inlinePartial (name : String) (body : List Node)

end Stencil
