/-! Log records. -/

namespace Stencil

/-- How grave a record is. -/
inductive LogLevel where
  | debug
  | info
  | warn
  | error
deriving Repr, DecidableEq

namespace LogLevel

/-- The place of a level in the order of gravity. -/
def rank : LogLevel → Nat
  | .debug => 0
  | .info => 1
  | .warn => 2
  | .error => 3

/-- The label of a level. -/
def label : LogLevel → String
  | .debug => "DEBUG"
  | .info => "INFO"
  | .warn => "WARN"
  | .error => "ERROR"

end LogLevel

/-- One record. -/
structure LogRecord where
  level : LogLevel
  message : String
deriving Repr, DecidableEq

end Stencil
