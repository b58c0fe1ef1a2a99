/-! Text for HTML: the five characters with a meaning in markup become character references. -/

namespace Stencil.Text.Html

/-- How one character is written. -/
def escapeChar : Char → List Char
  | '&' => "&amp;".toList
  | '<' => "&lt;".toList
  | '>' => "&gt;".toList
  | '"' => "&quot;".toList
  | '\'' => "&#39;".toList
  | c => [c]

/-- Text as it stands between tags or in a quoted attribute. -/
def escape (text : String) : String :=
  String.ofList (text.toList.flatMap escapeChar)

end Stencil.Text.Html
