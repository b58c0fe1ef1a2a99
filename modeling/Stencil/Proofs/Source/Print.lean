import Stencil.Template.Compile

/-! The source that a template is printed as. Nothing in it depends on whether line breaks are kept, and every choice that
    a source leaves open is made in one way: names of partials stand in quotes, references decline the escape. -/

namespace Stencil

/-- The name of a special in braces. -/
def Special.name : Special → String
  | .newline => "n"
  | .carriageReturn => "r"
  | .space => "s"
  | .leftBrace => "lb"
  | .rightBrace => "rb"

namespace Print

def special (s : Special) : List Char :=
  '\x7b' :: '~' :: s.name.toList ++ ['\x7d']

/-- A character between tags. -/
def plainChar : Char → List Char
  | '\x7b' => special .leftBrace
  | '\n' => special .newline
  | '\r' => special .carriageReturn
  | ch => [ch]

/-- A character in quotes. -/
def quotedChar : Char → List Char
  | '\x7b' => special .leftBrace
  | '"' => ['\\', '"']
  | ch => [ch]

def plain (text : String) : List Char :=
  text.toList.flatMap plainChar

def filters (list : List String) : List Char :=
  list.flatMap fun filter => '|' :: filter.toList

def reference (path : Path) (list : List String) : List Char :=
  '\x7b' :: path.text.toList ++ filters (list ++ [declineFilter]) ++ ['\x7d']

/-- A step in quotes, where there are only text and references. -/
def quotedStep : Step → List Char
  | .write text => text.toList.flatMap quotedChar
  | .reference path list => reference path list
  | _ => []

def quoted (body : Body) : List Char :=
  '"' :: body.flatMap quotedStep ++ ['"']

def sigil : SectionKind → Char
  | .iterate => '#'
  | .present => '?'
  | .absent => '^'

def context : Option Path → List Char
  | some path => ':' :: path.text.toList
  | none => []

def partialName : PartialName Body → List Char
  | .static name => quoted [.write name]
  | .dynamic body => quoted body

/-- Bodies up to the closing tag, which repeats a name. -/
def enclosed (name : List Char) : (block : Option (List Char)) → (named : List (String × List Char)) → List Char
  | none, [] => ['/', '\x7d']
  | block, named =>
    '\x7d' :: block.getD [] ++ (named.flatMap fun e => '\x7b' :: ':' :: e.1.toList ++ '\x7d' :: e.2)
      ++ '\x7b' :: '/' :: name ++ ['\x7d']

section

-- The text of a floating-point number.
variable (write : Float → List Char)

def operand : Operand Body → List Char
  | .text s => quoted [.write s]
  | .int n => (toString n.toInt).toList
  | .float x => write x
  | .path path => path.text.toList
  | .body body => quoted body

def params (list : List (String × Operand Body)) : List Char :=
  list.flatMap fun e => ' ' :: e.1.toList ++ '=' :: operand write e.2

/-- An opening tag up to its parameters. -/
def opening (sigil : Char) (name : List Char) (own : Option Path) (list : List (String × Operand Body)) : List Char :=
  '\x7b' :: sigil :: name ++ context own ++ params write list

mutual

def step : Step → List Char
  | .write text => plain text
  | .reference path list => reference path list
  | .sectionTag kind key own list ⟨block, named⟩ =>
    opening write (sigil kind) key.text.toList own list ++ enclosed key.text.toList (block? block) (namedBodies named)
  | .helperTag name own list ⟨block, named⟩ =>
    opening write '@' name.toList own list ++ enclosed name.toList (block? block) (namedBodies named)
  | .partialTag name own list => opening write '>' (partialName name) own list ++ ['/', '\x7d']
  | .slot name default => opening write '+' name.toList none [] ++ enclosed name.toList (block? default) []

def body : Body → List Char
  | [] => []
  | s :: rest => step s ++ body rest

def block? : Option Body → Option (List Char)
  | none => none
  | some b => some (body b)

def namedBodies : List (String × Body) → List (String × List Char)
  | [] => []
  | (name, b) :: rest => (name, body b) :: namedBodies rest

end

/-- An entry of the table of a template, as an inline partial. -/
def inlinePartial (name : String) (b : Body) : List Char :=
  opening write '<' name.toList none [] ++ enclosed name.toList (some (body write b)) []

end

end Print

/-- The source of a template: its program, then its table in order. -/
def Template.print (write : Float → List Char) (t : Template) : String :=
  .ofList (Print.body write t.body ++ t.blocks.flatMap fun e => Print.inlinePartial write e.1 e.2)

end Stencil
