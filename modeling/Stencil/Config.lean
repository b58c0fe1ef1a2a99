/-! The settings of an engine. -/

namespace Stencil

/-- The settings of an engine. -/
structure Config where
  /-- Line breaks and the indentation after them are kept. -/
  whitespace : Bool := false
  /-- Compiled and loaded templates are kept under their names. -/
  cache : Bool := true
  /-- Log records are captured. -/
  debug : Bool := false
  /-- How deeply partials may nest. -/
  maxPartialDepth : Nat := 100
deriving Repr, DecidableEq, Inhabited

namespace Config

/-- The text of a truth value. -/
def boolText (b : Bool) : String :=
  if b then "true" else "false"

/-- The settings for reading by people. -/
def debugText (c : Config) : String :=
  "Config \x7b whitespace: " ++ boolText c.whitespace ++ ", cache: " ++ boolText c.cache ++ ", debug: "
    ++ boolText c.debug ++ ", max_partial_depth: " ++ toString c.maxPartialDepth ++ " \x7d"

end Config
end Stencil
