import Stencil.Proofs.Render.Coupling

/-! Which bodies a step holds, which bodies the program of a helper mentions, and which scopes are made of a scope without
    entering a template. -/

namespace Stencil

/-! ### Scopes -/

/-- A scope made of another by putting frames on top of its frames or one frame in their place. -/
inductive Context.Derives (c : Context) : Context → Prop
  | refl : Derives c c
  | push {d : Context} (data : Value) : Derives c d → Derives c (d.push data)
  | pushItem {d : Context} (data : Value) (index count : Nat) : Derives c d → Derives c (d.pushItem data index count)
  | rebase {d : Context} (data : Value) : Derives c d → Derives c (d.rebase data)

/-- Other frames are all that changes. -/
theorem Context.Derives.eq {c d : Context} (h : c.Derives d) : d = { c with frames := d.frames } := by
  induction h with
  | refl => rfl
  | push data _ ih | pushItem data index count _ ih | rebase data _ ih =>
    rw [ih]
    rfl

/-- Every value, and the scopes made of a scope. -/
def Scopes.derived (c : Context) : Scopes where
  value _ := True
  context := c.Derives
  null := trivial
  string _ := trivial
  int _ := trivial
  float _ := trivial
  object _ := trivial
  item _ _ := trivial
  resolve _ _ := trivial
  push h _ := .push _ h
  pushItem index count h _ := .pushItem _ index count h
  rebase h _ := .rebase _ h

/-- The scope that a job enters its template in. -/
def Job.scope? : Job → Option Context
  | .named _ context => some context
  | .template _ context => some context
  | .fail _ => none

/-! ### What programs come to -/

namespace Program

/-- A program comes to these steps after some outcomes of the steps before them. -/
inductive ComesTo : Program → Program → Prop
  | here {p : Program} : ComesTo p p
  | write {text : String} {next : Except Error Unit → Program} {outcome : Except Error Unit} {q : Program} :
    ComesTo (next outcome) q → ComesTo (.write text next) q
  | render {body : Body} {context : Context} {next : Except Error Unit → Program} {outcome : Except Error Unit}
    {q : Program} : ComesTo (next outcome) q → ComesTo (.render body context next) q
  | renderToString {body : Body} {context : Context} {next : Except Error String → Program}
    {outcome : Except Error String} {q : Program} : ComesTo (next outcome) q → ComesTo (.renderToString body context next) q
  | resume {future : Future String} {resume : String → Program} {next : Except Error Unit → Program} {text : String}
    {q : Program} : ComesTo (resume text) q → ComesTo (.defer future resume next) q
  | defer {future : Future String} {resume : String → Program} {next : Except Error Unit → Program}
    {outcome : Except Error Unit} {q : Program} : ComesTo (next outcome) q → ComesTo (.defer future resume next) q
  | act {action : Action} {next : Except Error (Option Template) → Program} {outcome : Except Error (Option Template)}
    {q : Program} : ComesTo (next outcome) q → ComesTo (.act action next) q

/-- The program may render the body in the scope, here or on the side. -/
def Mentions (p : Program) (body : Body) (context : Context) : Prop :=
  (∃ next, p.ComesTo (.render body context next)) ∨ ∃ next, p.ComesTo (.renderToString body context next)

/-- The program may use the engine or the host in this way. -/
def Performs (p : Program) (action : Action) : Prop := ∃ next, p.ComesTo (.act action next)

/-- All bodies that the program may render are at the places given, and its actions are of the kind given. -/
structure Inside (places : Body → Context → Prop) (actions : Action → Prop) (p : Program) : Prop where
  mentions {body : Body} {context : Context} : p.Mentions body context → places body context
  performs {action : Action} : p.Performs action → actions action

variable {p q r : Program}

theorem ComesTo.trans (h : p.ComesTo q) (h' : q.ComesTo r) : p.ComesTo r := by
  induction h with
  | here => exact h'
  | write _ ih => exact .write (ih h')
  | render _ ih => exact .render (ih h')
  | renderToString _ ih => exact .renderToString (ih h')
  | resume _ ih => exact .resume (ih h')
  | defer _ ih => exact .defer (ih h')
  | act _ ih => exact .act (ih h')

theorem Inside.of_comesTo {places : Body → Context → Prop} {actions : Action → Prop} (h : p.Inside places actions)
    (comes : p.ComesTo q) : q.Inside places actions where
  mentions := fun there => h.mentions <|
    there.imp (fun ⟨next, there⟩ => ⟨next, comes.trans there⟩) fun ⟨next, there⟩ => ⟨next, comes.trans there⟩
  performs := fun there => h.performs <| there.imp fun _ there => comes.trans there

namespace Inside

variable {places : Body → Context → Prop} {actions : Action → Prop} {body : Body} {context : Context}

theorem finish (reply : Reply) : (Program.finish reply).Inside places actions where
  mentions := by rintro _ _ (⟨_, comes⟩ | ⟨_, comes⟩) <;> cases comes
  performs := by rintro _ ⟨_, comes⟩; cases comes

theorem fail (error : Error) : (Program.fail error).Inside places actions where
  mentions := by rintro _ _ (⟨_, comes⟩ | ⟨_, comes⟩) <;> cases comes
  performs := by rintro _ ⟨_, comes⟩; cases comes

theorem orFail {α : Type} {next : α → Program} (h : ∀ a, (next a).Inside places actions) (outcome : Except Error α) :
    (Program.orFail next outcome).Inside places actions := by
  cases outcome with
  | ok a => exact h a
  | error e => exact .fail e

theorem render {next : Except Error Unit → Program} (here : places body context)
    (h : ∀ outcome, (next outcome).Inside places actions) : (Program.render body context next).Inside places actions where
  mentions := by
    rintro _ _ (⟨_, comes⟩ | ⟨_, comes⟩)
    · cases comes with
      | here => exact here
      | render comes => exact (h _).mentions (Or.inl ⟨_, comes⟩)
    · cases comes with
      | render comes => exact (h _).mentions (Or.inr ⟨_, comes⟩)
  performs := by
    rintro _ ⟨_, comes⟩
    cases comes with
    | render comes => exact (h _).performs ⟨_, comes⟩

theorem defer {future : Future String} {resume : String → Program} {next : Except Error Unit → Program}
    (resumes : ∀ text, (resume text).Inside places actions) (h : ∀ outcome, (next outcome).Inside places actions) :
    (Program.defer future resume next).Inside places actions where
  mentions := by
    rintro _ _ (⟨_, comes⟩ | ⟨_, comes⟩)
    · cases comes with
      | resume comes => exact (resumes _).mentions (Or.inl ⟨_, comes⟩)
      | defer comes => exact (h _).mentions (Or.inl ⟨_, comes⟩)
    · cases comes with
      | resume comes => exact (resumes _).mentions (Or.inr ⟨_, comes⟩)
      | defer comes => exact (h _).mentions (Or.inr ⟨_, comes⟩)
  performs := by
    rintro _ ⟨_, comes⟩
    cases comes with
    | resume comes => exact (resumes _).performs ⟨_, comes⟩
    | defer comes => exact (h _).performs ⟨_, comes⟩

theorem renderBody {body : Option Body} (here : ∀ b, body = some b → places b context) :
    (Program.renderBody body context).Inside places actions := by
  cases body with
  | none => exact .finish _
  | some b => exact .render (here b rfl) (.orFail fun _ => .finish _)

end Inside

end Program

/-- The helpers that every engine starts with render their block in their own scope or with a frame on top of it, and leave
    engine and host alone. -/
theorem Helper.inside_builtin {actions : Action → Prop} {name : String} {helper : Helper}
    (known : Dict.get? name Helper.builtin = some helper) (context : Context) (bodies : Bodies Body) (params : Params) :
    (helper context bodies params).Inside (fun _ => context.Derives) actions := by
  have blockIf (condition : Bool) : (Helper.blockIf condition context bodies).Inside (fun _ => context.Derives) actions := by
    unfold Helper.blockIf
    split
    · exact .renderBody fun _ _ => .refl
    · exact .finish _
  rcases Helper.eq_of_get?_builtin known with rfl | rfl | rfl | rfl | rfl
  · exact blockIf _
  · exact blockIf _
  · exact blockIf _
  · exact .renderBody fun _ _ => .push _ .refl
  · exact .finish _

/-- What is put off: what is found under names in the scopes given, and steps of the kind given. -/
def Wait.In (entries : Subject → Context → Prop) (programs : Program → Prop) : Wait → Prop
  | .text _ resume => ∀ text, programs (resume text)
  | .load name context => entries (.name name) context

end Stencil
