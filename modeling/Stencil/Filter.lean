import Stencil.Error
import Stencil.Json.Reader
import Stencil.Json.Writer
import Stencil.Text.Html
import Stencil.Text.Percent
import Stencil.Text.Script
import Stencil.Value.Json
import Stencil.Value.Text

/-! Filters, and those that every engine starts with. -/

namespace Stencil

/-- What a reference does to its value before it is written. -/
abbrev Filter := Value → Except Error Value

namespace Filter

/-- Changes strings and lets other values pass. -/
def onString (f : String → String) : Filter
  | .string s => .ok (.string (f s))
  | value => .ok value

/-- Changes the text of a value. -/
def onText (f : String → String) : Filter :=
  fun value => .ok (.string (f value.text))

/-- How deeply containers may nest in text that is read as a value. -/
def maxJsonDepth : Nat := 127

/-- The value that a text holds as JSON. -/
def readJson : Filter := fun value =>
  match Json.parse? maxJsonDepth value.text with
  | some json => .ok (.ofJson json)
  | none => .error (.ofMessage "invalid JSON")

/-- The value as the text of JSON. -/
def writeJson : Filter := fun value => .ok (.string value.toJson.text)

/-- The filters that every engine starts with, by name. -/
def builtin : Dict Filter :=
  Dict.ofList
    [("h", onString Text.Html.escape), ("j", onString Text.Script.escape),
     ("u", onText (Text.Percent.encode Text.Percent.keptInAddress)),
     ("uc", onText (Text.Percent.encode Text.Percent.keptInComponent)), ("js", writeJson), ("jp", readJson)]

end Filter
end Stencil
