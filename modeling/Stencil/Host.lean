import Stencil.Error
import Stencil.Template.Basic

/-! The world outside the engine. Work that a render waits for is a future: a reading of the host that gives nothing
    until the work is done. -/

namespace Stencil

/-- What the host holds: gates by name, each closed or open with an outcome, and templates it keeps in hand. -/
structure Host where
  /-- The gates that are open. -/
  gates : Dict (Except Error String) := []
  templates : Dict Template := []

/-- The outcome of some work as far as the host shows it. -/
abbrev Future (α : Type) := Host → Option (Except Error α)

namespace Host

/-- Opens a gate with an outcome, in place of an earlier one. -/
def openGate (host : Host) (name : String) (outcome : Except Error String) : Host :=
  { host with gates := Dict.insert name outcome host.gates }

/-- Closes a gate. -/
def closeGate (host : Host) (name : String) : Host :=
  { host with gates := Dict.erase name host.gates }

/-- Keeps a template in hand under a label. -/
def keep (host : Host) (label : String) (t : Template) : Host :=
  { host with templates := Dict.insert label t host.templates }

end Host

namespace Future

variable {α : Type}

/-- Work that is done. -/
def ready (outcome : Except Error α) : Future α :=
  fun _ => some outcome

/-- The outcome of a gate once it is open. -/
def gate (name : String) : Future String :=
  fun host => Dict.get? name host.gates

section

variable (host : Host) (name : String) (outcome : Except Error String)

@[simp] theorem gate_openGate_self : gate name (host.openGate name outcome) = some outcome :=
  Dict.get?_insert_self ..

theorem gate_openGate_of_ne {other : String} (ne : other ≠ name) :
    gate other (host.openGate name outcome) = gate other host :=
  Dict.get?_insert_of_ne ne ..

@[simp] theorem gate_closeGate_self : gate name (host.closeGate name) = none :=
  Dict.get?_erase_self ..

theorem gate_closeGate_of_ne {other : String} (ne : other ≠ name) :
    gate other (host.closeGate name) = gate other host :=
  Dict.get?_erase_of_ne ne ..

end

end Future
end Stencil
