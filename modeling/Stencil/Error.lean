/-! The ways in which compiling and rendering fail, and their wording. -/

namespace Stencil

/-- What is wrong with a template source. -/
inductive Fault where
  /-- The source ends too early; the text says what was expected, with its brackets. -/
  | unexpectedEnd (expected : String)
  | expected (description : String)
  | unclosed (what : String)
  | mismatchedClose (expected found : String)
  | unmatchedClose (found : String)
  | unexpectedBody (name : String)
  | unknownSpecial (name : String)
  | invalidPath (path : String)
deriving Repr, DecidableEq

namespace Fault

/-- The source ends where something may have been expected. -/
def endOfSource : Option String → Fault
  | none => .unexpectedEnd ""
  | some what => .unexpectedEnd (" (expected '" ++ what ++ "')")

/-- The wording of a fault. -/
def message : Fault → String
  | .unexpectedEnd what => "Unexpected EOF" ++ what
  | .expected description => "Expected " ++ description
  | .unclosed what => "Unclosed " ++ what
  | .mismatchedClose opened found =>
    "Expected end tag for " ++ opened ++ " but found \x7b/" ++ found ++ "\x7d"
  | .unmatchedClose found => "Unmatched end tag \x7b/" ++ found ++ "\x7d"
  | .unexpectedBody name => "Unexpected body separator \x7b:" ++ name ++ "\x7d outside of a section"
  | .unknownSpecial name => "Unknown special character \x7b~" ++ name ++ "\x7d"
  | .invalidPath path => "Invalid path '" ++ path ++ "'"

end Fault

/-- Names the template that a message is about. -/
def inTemplate : Option String → String
  | none => ""
  | some name => " in template `" ++ name ++ "`"

/-- A fault and its place: the line and the byte column, both counted from one. -/
structure ParseError where
  template : Option String
  line : Nat
  column : Nat
  fault : Fault
deriving Repr, DecidableEq

namespace ParseError

/-- The same fault in a template of the given name. -/
def named (template : Option String) (e : ParseError) : ParseError :=
  { e with template }

/-- The wording of a fault with its place. -/
def message (e : ParseError) : String :=
  "Parse error" ++ inTemplate e.template ++ " at line " ++ toString e.line ++ ", column " ++ toString e.column
    ++ ": " ++ e.fault.message

end ParseError

/-- Why compiling or rendering failed. -/
inductive Error where
  | parse (error : ParseError)
  | templateNotFound (name : String) (template : Option String)
  | loader (name message : String)
  /-- A helper, filter or callable reports a failure; which one and where is filled in on the way out. -/
  | helper (helper template : Option String) (message : String)
  | recursionLimit (limit : Nat) (template : Option String)
  /-- A chunk is written after its end, or ended twice. -/
  | protocol (text : String)
deriving Repr, DecidableEq

namespace Error

/-- The error of a helper or filter that does not name itself. -/
def ofMessage (message : String) : Error :=
  .helper none none message

/-- The wording of an error. -/
def message : Error → String
  | .parse e => e.message
  | .templateNotFound name template => "Template Not Found: " ++ name ++ inTemplate template
  | .loader name text => "Loader failed for `" ++ name ++ "`: " ++ text
  | .helper source template text =>
    "Helper" ++ (match source with | none => "" | some name => " `" ++ name ++ "`") ++ " failed"
      ++ inTemplate template ++ ": " ++ text
  | .recursionLimit limit template =>
    "Partial depth limit of " ++ toString limit ++ " exceeded" ++ inTemplate template
  | .protocol text => "Chunk protocol violation: " ++ text

/-- Says which helper an error comes from, and in which template, unless the error says so itself. -/
def attributed (name : String) (template : Option String) : Error → Error
  | .helper source origin text => .helper (source.or (some name)) (origin.or template) text
  | e => e

end Error
end Stencil
