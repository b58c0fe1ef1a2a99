/-! Text for a string literal of a script in a page: quotes, the backslash, the slash and all line ends are escaped,
    so the literal can neither end early nor close the element around it. -/

namespace Stencil.Text.Script

/-- How one character is written. -/
def escapeChar (c : Char) : List Char :=
  if c = '\\' then ['\\', '\\']
  else if c = '/' then ['\\', '/']
  else if c = '\'' then ['\\', '\'']
  else if c = '"' then ['\\', '"']
  else if c = '\n' then ['\\', 'n']
  else if c = '\r' then ['\\', 'r']
  else if c = '\t' then ['\\', 't']
  else if c = '\x08' then ['\\', 'b']
  else if c = '\x0c' then ['\\', 'f']
  else if c = '\u2028' then ['\\', 'u', '2', '0', '2', '8']
  else if c = '\u2029' then ['\\', 'u', '2', '0', '2', '9']
  else [c]

/-- Text as it stands inside a string literal. -/
def escape (text : String) : String :=
  String.ofList (text.toList.flatMap escapeChar)

end Stencil.Text.Script
