import Stencil.Engine.Basic

/-! A load under way. The loader is asked for a name; if it points to another name, that one is looked for in its turn:
    among the templates kept, then with the loader. Every look takes a round, and the rounds are limited. -/

namespace Stencil

/-- A load under way. -/
inductive Load where
  /-- The loader was asked for a name and has not answered. -/
  | waiting (name : String) (answer : Future Loaded) (rounds : Nat)
  | settled (result : Except Error Template)

namespace Load

/-- A load that begins: the loader was asked for the name itself. There is a round for each redirect that is allowed, and
    one for what the last of them leads to. -/
def begin (limit : Nat) (name : String) (answer : Future Loaded) : Load :=
  .waiting name answer (limit + 1)

/-- Takes a load as far as the host allows. What the loader finds is settled in a round of its own; a pointer to another
    name either ends with a template kept or asks the loader again. -/
def advance (host : Host) (cache : Bool) (limit : Nat) :
    (rounds : Nat) → (name : String) → (answer : Future Loaded) → (e : Engine) → Load × Engine
  | rounds, name, answer, e =>
    match answer host, rounds with
    | none, _ => (.waiting name answer rounds, e)
    | some (.error error), _ => (.settled (.error error), e)
    | some (.ok _), 0 => (.settled (.error (.recursionLimit limit (some name))), e)
    | some (.ok (.source text)), _ + 1 =>
      let (result, e) := e.addTemplate name text
      (.settled result, e)
    | some (.ok (.template t)), _ + 1 => (.settled (.ok t), e)
    | some (.ok (.redirect other)), rounds + 1 =>
      match e.lookup other cache, e.loader with
      | some t, _ => (.settled (.ok t), e)
      | none, none => (.settled (.error (.templateNotFound other none)), e)
      | none, some loader =>
        let (answer, e) :=
          (e.record .debug ("Redirecting `" ++ name ++ "` to `" ++ other ++ "`")).ask loader other
        advance host cache limit rounds other answer e

/-- Takes a load as far as the host allows, unless it is settled. -/
def poll (host : Host) (cache : Bool) (limit : Nat) (load : Load) (e : Engine) : Load × Engine :=
  match load with
  | .waiting name answer rounds => advance host cache limit rounds name answer e
  | .settled result => (.settled result, e)

/-- The result of a load that is settled. -/
def result? : Load → Option (Except Error Template)
  | .waiting _ _ _ => none
  | .settled result => some result

end Load
end Stencil
