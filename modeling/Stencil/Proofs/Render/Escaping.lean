import Stencil.Proofs.Engine.Loads
import Stencil.Proofs.Render.Driving
import Stencil.Proofs.Render.FunctionFree
import Stencil.Proofs.Render.Honesty
import Stencil.Proofs.Source.References
import Stencil.Proofs.Text.Markup

/-! What is escaped. A reference that does not decline the escape runs it last, and so does the tag of a helper on what the
    helper replies. The text written is without markup, but for one kind of value: the escape changes strings and lets
    arrays pass, so strings that stand in an array are written as they are. -/

namespace Stencil

open Text.Html

/-- The strings of a value that the escape does not reach: those in an array. -/
def Value.bare : Value → List String
  | .array items => allStrings items
  | _ => []

/-- From one stage to the other, the engine apart, the text is written. -/
def Wrote (s u : Stage) (text : String) : Prop :=
  ∃ engine, (RenderM.write text).run { s with engine } = .ok (.ok (), u)

/-- From one stage to the other a value is written that its own filters and then the escape have gone over: nothing, as it is
    empty, or the text of what they leave. That text is without markup exactly if the strings that the escape does not reach
    are. -/
def WroteEscaped (own : List String) (value : Value) (s u : Stage) : Prop :=
  (value.isEmpty = true ∧ u = s) ∨ ∃ left escaped, (Engine.applyFilters own value s.engine).1 = .ok left ∧
    (Engine.applyFilters (own ++ [escapeFilter]) value s.engine).1 = .ok escaped ∧ Wrote s u escaped.text ∧
    (Inert escaped.text.toList ↔ ∀ string ∈ left.bare, Inert string.toList)

/-- From one stage to the other a helper is called. A value that it replies is written in this way, and nothing behind a
    reply that says that all is written. -/
def Render.Replied (nesting : Nat) (helper : Helper) (name : String) (context : Context) (bodies : Bodies Body)
    (params : Params) (own : List String) (s u : Stage) : Prop :=
  ∃ reply v, ((helper context bodies params).run (exec nesting)).run
      { s with engine := s.engine.called (.helper name context bodies params) } = .ok (.ok reply, v) ∧
    match reply with
    | .value value => WroteEscaped own value v u
    | .written => u = v

/-- From one stage to the other a reference writes what its path leads to in the scope, or what the callable there
    replies. -/
def Render.Referred (nesting : Nat) (path : Path) (own : List String) (context : Context) (s u : Stage) : Prop :=
  match context.resolve path with
  | none => u = s
  | some (.function id) => Replied nesting (s.engine.functions id) path.text context .empty [] own s u
  | some value => WroteEscaped own value s u

namespace Engine

/-- Filters behind filters are given what those leave. -/
theorem applyFilters_append (own more : List String) (value : Value) (e : Engine) :
    applyFilters (own ++ more) value e = match applyFilters own value e with
      | (.ok left, e') => applyFilters more left e'
      | (.error error, e') => (.error error, e') := by
  induction own generalizing value e with
  | nil => rfl
  | cons name own ih =>
    rw [List.cons_append, applyFilters, applyFilters]
    cases Dict.get? name e.filters with
    | none => exact ih ..
    | some filter =>
      dsimp only
      cases filter value with
      | ok left => exact ih ..
      | error error => rfl

/-- Where filters and those behind them give a value, those behind give it for what the first leave. -/
theorem exists_left {own more : List String} {value given : Value} {e : Engine}
    (done : (applyFilters (own ++ more) value e).1 = .ok given) :
    ∃ left e', applyFilters own value e = (.ok left, e') ∧ (applyFilters more left e').1 = .ok given := by
  rw [applyFilters_append] at done
  cases first : applyFilters own value e with
  | mk result e' =>
    rw [first] at done
    cases result with
    | ok left => exact ⟨left, e', rfl, done⟩
    | error error => cases done

theorem get?_escapeFilter : Dict.get? escapeFilter Filter.builtin = some (Filter.onString escape) := rfl

/-- What the escape makes of a value is without markup exactly if the strings that it does not reach are. -/
theorem inert_escaped_iff {left escaped : Value} {e : Engine} (plain : e.filters = Filter.builtin)
    (done : (applyFilters [escapeFilter] left e).1 = .ok escaped) :
    Inert escaped.text.toList ↔ ∀ string ∈ left.bare, Inert string.toList := by
  unfold applyFilters at done
  rw [plain, get?_escapeFilter] at done
  cases left with
  | string s =>
    cases done
    exact iff_of_true (inert_escape s) (List.forall_mem_nil _)
  | null | bool | int | float | array | object | function =>
    cases done
    exact Value.inert_text_iff _

end Engine

/-! ### The filters of an engine stay -/

theorem Action.filters_onEngine (action : Action) (e : Engine) : (action.onEngine e).filters = e.filters := by
  cases action with
  | addTemplate name source => exact e.filters_addTemplate name source
  | renameTemplate name newName =>
    obtain ⟨templates, renamed⟩ := e.renameTemplate_eq name newName
    exact (congrArg Engine.filters renamed).trans rfl
  | setConfig | getTemplate | removeTemplate | clearTemplates | openGate => rfl

namespace RenderM

/-- The code leaves the engine with these filters, and ends with results of some kind. -/
abbrev Filtering {α : Type} (filters : Dict Filter) (V : α → Prop) (x : RenderM α) : Prop :=
  Upholds (fun _ => True) (·.engine.filters = filters) (fun _ => True) V x

variable {filters : Dict Filter}

theorem steady_filtering : Steady (·.engine.filters = filters) fun _ => True where
  violation _ := trivial
  output _ _ here := here
  side _ _ there := there
  back _ there := there

theorem Filtering.record (level : LogLevel) (message : String) :
    Filtering filters (fun _ => True) (RenderM.record level message) :=
  .modify fun s here => (congrArg Engine.filters (s.engine.record_eq level message)).trans here

theorem Filtering.pollLoad (name : String) : Filtering filters (fun _ => True) (RenderM.pollLoad name) :=
  Upholds.pollLoad fun here _ => ⟨(Load.filters_poll _ _).trans here, id⟩

/-- Keeping the filters, as a relation that rendering respects. -/
def filtering (filters : Dict Filter) : Coupling .any where
  rel V x _ := Filtering filters V x
  helper _ := True
  limit _ := True
  fills _ := True
  pure := .pure
  throw _ e := .throw e
  bind := .bind
  mapError f h := h.mapError f
  write text := .write steady_filtering text
  filter names value := .withEngine fun s here => by
    rw [Engine.applyFilters_eq]
    exact here
  record := Filtering.record
  called _ := .modify fun _ here => here
  toText template h := h.toText steady_filtering template
  helper? _ := .get_bind fun _ _ => .pure fun _ _ => trivial
  callable _ := .get_bind fun _ _ => .pure trivial
  filled _ := .modify fun _ here => here
  depthLimit := .get_bind fun _ _ => .pure trivial

/-- Polls keep the filters, and the work that they find does. -/
def filteringWhole (filters : Dict Filter) : (filtering filters).Whole where
  polls x _ := Filtering filters (fun found => ∀ work, found = some work → Filtering filters (fun _ => True) work) x
  mono := .mono
  attempt := .attempt
  helper _ := trivial
  kept? _ := .get_bind fun _ _ => .pure trivial
  startLoad _ _ := .startLoad (fun level message here => (congrArg Engine.filters (Engine.record_eq ..)).trans here)
    fun here _ => ⟨here, fun _ => id⟩
  perform action := .perform fun s here => (action.filters_onEngine s.engine).trans here
  pollText _ _ _ works := .get_bind fun s _ => by
    split
    · exact .pure nofun
    · exact .pure fun _ same => by cases same; exact .throw _
    · exact .pure fun _ same => by cases same; exact works _
  pollTemplate name _ _ works := (Filtering.pollLoad name).bind fun result _ => by
    split
    · exact .pure nofun
    · exact .pure fun _ same => by cases same; exact .throw _
    · exact .pure fun _ same => by cases same; exact works _
  putOff wait polls := upholds_iff.mpr <| .putOff steady_filtering (fun _ here => here) (fun _ here => here) <|
    (upholds_iff.mp polls).mono fun _ works work found => upholds_iff.mp (works work found)

theorem filtering_exec (nesting : Nat) (body : Body) (context : Context) :
    Filtering filters (fun _ => True) (Render.exec nesting body context) := by
  induction nesting generalizing body context with
  | zero => exact .halt trivial
  | succ nesting ih =>
    have renders : ∀ body context, (filtering filters).rel (fun _ => True) (Render.exec nesting body context)
      (Render.exec nesting body context) := ih
    exact (filteringWhole filters).steps renders body context

theorem filters_of_run {α : Type} {V : α → Prop} {x : RenderM α} {s u : Stage} {outcome : Except Error α}
    (h : Filtering filters V x) (ran : x.run s = .ok (outcome, u)) (here : s.engine.filters = filters) :
    u.engine.filters = filters := (h s here fun _ _ => trivial).passes (passes_last ran)

end RenderM

namespace Render

open RenderM

theorem wroteEscaped_writeFiltered {own : List String} {value : Value} {s u : Stage}
    (plain : s.engine.filters = Filter.builtin)
    (ran : (writeFiltered value (own ++ [escapeFilter])).run s = .ok (.ok (), u)) : WroteEscaped own value s u := by
  unfold writeFiltered at ran
  split at ran
  · next empty =>
    cases ran
    exact Or.inl ⟨empty, rfl⟩
  · obtain ⟨outcome, m, filtered, ran⟩ := run_bind_eq_ok_ok.mp ran
    cases filtered
    obtain ⟨escaped, m, given, wrote⟩ := run_bind_eq_ok_ok.mp ran
    obtain ⟨done, rfl⟩ := run_ofExcept_eq_ok_ok.mp given
    obtain ⟨left, e, first, last⟩ := Engine.exists_left done
    have kept := Engine.applyFilters_eq own value s.engine
    rw [first] at kept
    have plain' : e.filters = Filter.builtin := (congrArg Engine.filters kept).trans plain
    exact Or.inr ⟨left, escaped, congrArg Prod.fst first, done, ⟨_, wrote⟩, Engine.inert_escaped_iff plain' last⟩

theorem reference_of_resolve {render : Renderer} {path : Path} {filters : List String} {context : Context} {value : Value}
    (found : context.resolve path = some value) (data : value.isFunction = false) :
    reference render path filters context = writeFiltered value filters := by
  unfold reference
  rw [found]
  cases value with
  | function id => cases data
  | null | bool | int | float | string | array | object => rfl

variable {nesting : Nat} {context : Context} {own : List String} {s u : Stage}

/-- What writes the reply of a call escaped, where the filters are those that every engine starts with. -/
theorem replied_of_call {helper : Helper} {name : String} {bodies : Bodies Body} {values : Params}
    {f : Reply → RenderM Unit} (writes : ∀ value, f (.value value) = writeFiltered value (own ++ [escapeFilter]))
    (written : f .written = pure ()) (plain : s.engine.filters = Filter.builtin)
    (ran : (call (exec nesting) helper name context bodies values >>= f).run s = .ok (.ok (), u)) :
    Replied nesting helper name context bodies values own s u := by
  obtain ⟨reply, v, called, ran⟩ := run_bind_eq_ok_ok.mp ran
  have replies : ((helper context bodies values).run (exec nesting)).run
      { s with engine := s.engine.called (.helper name context bodies values) } = .ok (.ok reply, v) :=
    run_mapError_eq_ok_ok.mp called
  have renders : ∀ body context, (filtering Filter.builtin).rel (fun _ => True) (exec nesting body context)
    (exec nesting body context) := filtering_exec nesting
  have plain' := filters_of_run ((filteringWhole Filter.builtin).program renders _) replies plain
  refine ⟨reply, v, replies, ?_⟩
  cases reply with
  | value value =>
    rw [writes] at ran
    exact wroteEscaped_writeFiltered plain' ran
  | written =>
    rw [written] at ran
    cases ran
    rfl

theorem referred_of_reference {path : Path} (plain : s.engine.filters = Filter.builtin)
    (ran : (reference (exec nesting) path (own ++ [escapeFilter]) context).run s = .ok (.ok (), u)) :
    Referred nesting path own context s u := by
  unfold Referred
  cases found : context.resolve path with
  | none =>
    unfold reference at ran
    rw [found] at ran
    cases ran
    rfl
  | some value =>
    cases value with
    | function id =>
      unfold reference at ran
      rw [found] at ran
      obtain ⟨helper, v, known, ran⟩ := run_bind_eq_ok_ok.mp ran
      cases known
      exact replied_of_call (fun _ => rfl) rfl plain ran
    | null | bool | int | float | string | array | object =>
      rw [reference_of_resolve found rfl] at ran
      exact wroteEscaped_writeFiltered plain ran

/-- The tag of a helper: the parameters are made, and the helper is called with them in the scope of the tag. -/
theorem replied_of_helperTag {name : String} {base : Option Path} {list : List (String × Operand Body)}
    {bodies : Bodies Body} {helper : Helper} (known : Dict.get? name s.engine.helpers = some helper)
    (plain : s.engine.filters = Filter.builtin)
    (ran : (helperTag (exec nesting) name base list bodies context).run s = .ok (.ok (), u)) :
    ∃ values v, (params (exec nesting) list context).run s = .ok (.ok values, v) ∧
      Replied nesting helper name (scope context base []) bodies values [] v u := by
  obtain ⟨found, v, same, ran⟩ := run_bind_eq_ok_ok.mp ran
  cases same
  rw [known] at ran
  obtain ⟨values, v, made, ran⟩ := run_bind_eq_ok_ok.mp ran
  have renders : ∀ body context, (filtering Filter.builtin).rel (fun _ => True) (exec nesting body context)
    (exec nesting body context) := filtering_exec nesting
  have plain' := filters_of_run (((filteringWhole Filter.builtin).renders renders).params trivial fun e _ => by
    cases e.2 <;> trivial) made plain
  exact ⟨values, v, made, replied_of_call (fun _ => rfl) rfl plain' ran⟩

end Render

open Render

/-- Let a template be compiled from a source where no reference declines the escape. Then with the filters that every
    engine starts with, what a reference writes of the data that it leads to, or of the reply of a callable there, is
    without markup, unless its own filters leave an array with a string that is not; and the same holds of what the tag of
    a helper writes of the reply, which has no filters of its own. -/
theorem text_inert_iff {source : String} {name : Option String} {whitespace : Bool} {nodes : List Node} {t : Template}
    (tree : Node.ofSource source = .ok nodes) (escaping : ∀ r ∈ Node.allReferences nodes, declineFilter ∉ r.2)
    (compiled : Template.compile source name whitespace = .ok t) :
    (∀ path filters, (path, filters) ∈ t.references → ∃ own, filters = own ++ [escapeFilter] ∧ declineFilter ∉ own ∧
      ∀ nesting context s u, s.engine.filters = Filter.builtin →
        (reference (exec nesting) path filters context).run s = .ok (.ok (), u) →
          Referred nesting path own context s u) ∧
    ∀ nesting context s u, s.engine.filters = Filter.builtin →
      ∀ tag helper base list bodies, Dict.get? tag s.engine.helpers = some helper →
        (helperTag (exec nesting) tag base list bodies context).run s = .ok (.ok (), u) →
          ∃ values v, (params (exec nesting) list context).run s = .ok (.ok values, v) ∧
            Replied nesting helper tag (scope context base []) bodies values [] v u := by
  refine ⟨fun path filters mem => ?_, fun _ _ _ _ plain _ _ _ _ _ known => replied_of_helperTag known plain⟩
  obtain ⟨own, rfl, escapes⟩ := Template.escapes_of_compile tree escaping compiled mem
  exact ⟨own, rfl, escapes, fun _ _ _ _ plain => referred_of_reference plain⟩

/-- A reference with a filter of its own inside a section, and one in quoted text. -/
def escapingSource : String :=
  "\x7b#list\x7d\x7bx|j\x7d\x7b@size key=\"\x7by|u\x7d\"/\x7d\x7b/list\x7d"

def xPath : Path := ⟨false, [.key "x"]⟩

/-- A render that writes to its first chunk. -/
def writingStage : Stage := { render := { config := {}, writers := [Chunks.root] } }

/-- Whether code ends well. -/
def endsWell (x : RenderM Unit) (s : Stage) : Bool := (x.run s).toOption.any (·.1.toOption.isSome)

theorem exists_of_endsWell {x : RenderM Unit} {s : Stage} (well : endsWell x s = true) :
    ∃ u, x.run s = .ok (.ok (), u) := by
  obtain ⟨⟨outcome, u⟩, ran, well⟩ := exists_eq_ok well
  cases outcome with
  | error error => cases well
  | ok _ => exact ⟨u, ran⟩

/-- Such a stage, with a helper that replies a tag. -/
def tagStage : Stage :=
  { writingStage with engine := { helpers := [("tag", Helper.ofContext fun _ => .string "<b>")] } }

/-- What a string of the data writes through a filter of its own and the escape, and what the reply of a helper does. -/
theorem text_inert_iff_escapingSource : ∃ nodes t, Node.ofSource escapingSource = .ok nodes ∧
    (∀ r ∈ Node.allReferences nodes, declineFilter ∉ r.2) ∧ Template.compile escapingSource none false = .ok t ∧
    (xPath, ["j", "h"]) ∈ t.references ∧
    (∃ u text, (reference (exec 1) xPath ["j", "h"] (.ofValue (.ofFields [("x", .string "<i>'")]))).run writingStage =
      .ok (.ok (), u) ∧ Wrote writingStage u text ∧ Inert text.toList) ∧
    ∃ u text, (helperTag (exec 1) "tag" none [] .empty {}).run tagStage = .ok (.ok (), u) ∧ Wrote tagStage u text ∧
      Inert text.toList := by
  have seen : (Node.ofSource escapingSource).toOption.any (fun nodes =>
      decide (∀ r ∈ Node.allReferences nodes, declineFilter ∉ r.2)) = true := by
    decide +kernel
  have seen' : (Template.compile escapingSource none false).toOption.any (fun t =>
      decide ((xPath, ["j", "h"]) ∈ t.references)) = true := by
    decide +kernel
  obtain ⟨nodes, tree, escaping⟩ := exists_eq_ok seen
  obtain ⟨t, compiled, mem⟩ := exists_eq_ok seen'
  obtain ⟨u, ran⟩ := exists_of_endsWell (x := reference (exec 1) xPath ["j", "h"]
    (.ofValue (.ofFields [("x", .string "<i>'")]))) (s := writingStage) (by decide +kernel)
  obtain ⟨u', ran'⟩ := exists_of_endsWell (x := helperTag (exec 1) "tag" none [] .empty {}) (s := tagStage)
    (by decide +kernel)
  refine ⟨nodes, t, tree, of_decide_eq_true escaping, compiled, of_decide_eq_true mem, ?_, ?_⟩
  · obtain ⟨own, same, -, writes⟩ := (text_inert_iff tree (of_decide_eq_true escaping) compiled).1 xPath ["j", "h"]
      (of_decide_eq_true mem)
    obtain rfl : ["j"] = own := List.append_cancel_right same
    rcases writes 1 _ writingStage u rfl ran with ⟨no, -⟩ | ⟨left, escaped, leaves, -, wrote, inert⟩
    · cases no
    · cases leaves
      exact ⟨u, escaped.text, ran, wrote, inert.mpr (List.forall_mem_nil _)⟩
  · have tags := (text_inert_iff tree (of_decide_eq_true escaping) compiled).2 1 {} tagStage u' rfl
    obtain ⟨values, v, made, reply, v', replies, wrote⟩ := tags "tag" _ none [] .empty rfl ran'
    cases made
    cases replies
    rcases wrote with ⟨no, -⟩ | ⟨left, escaped, leaves, -, wrote, inert⟩
    · cases no
    · cases leaves
      exact ⟨u', escaped.text, ran', wrote, inert.mpr (List.forall_mem_nil _)⟩

/-- An array passes the escape, so a string in it writes its markup. -/
theorem markup_in_array_written : ¬ ∀ (source : String) (name : Option String) (whitespace : Bool) (nodes : List Node)
    (t : Template), Node.ofSource source = .ok nodes → (∀ r ∈ Node.allReferences nodes, declineFilter ∉ r.2) →
    Template.compile source name whitespace = .ok t → ∀ path filters, (path, filters) ∈ t.references →
    ∀ render context value, context.resolve path = some value → value.FunctionFree → ∀ s u text,
    s.engine.filters = Filter.builtin → (reference render path filters context).run s = .ok (.ok (), u) →
    Wrote s u text → Inert text.toList := by
  intro safe
  have seen : (Node.ofSource "\x7bx\x7d").toOption.any (fun nodes =>
      decide (∀ r ∈ Node.allReferences nodes, declineFilter ∉ r.2)) = true := by
    decide +kernel
  have seen' : (Template.compile "\x7bx\x7d" none false).toOption.any (fun t =>
      decide ((xPath, ["h"]) ∈ t.references)) = true := by
    decide +kernel
  obtain ⟨nodes, tree, escaping⟩ := exists_eq_ok seen
  obtain ⟨t, compiled, mem⟩ := exists_eq_ok seen'
  let value : Value := .array [.string "<b>"]
  obtain ⟨u, ran⟩ := exists_of_endsWell (x := reference (exec 1) xPath ["h"] (.ofValue (.ofFields [("x", value)])))
    (s := writingStage) (by decide +kernel)
  have free : value.FunctionFree := .array fun v mem => by
    cases List.mem_singleton.mp mem
    exact .string _
  have writes : Referred 1 xPath [] (.ofValue (.ofFields [("x", value)])) writingStage u :=
    referred_of_reference rfl ran
  rcases writes with ⟨no, -⟩ | ⟨left, escaped, leaves, -, wrote, inert⟩
  · cases no
  · cases leaves
    have claimed := safe _ _ _ nodes t tree (of_decide_eq_true escaping) compiled xPath ["h"] (of_decide_eq_true mem)
      (exec 1) _ value rfl free writingStage u escaped.text rfl ran wrote
    exact (inert.mp claimed "<b>" List.mem_cons_self).delimiter '<' List.mem_cons_self (by decide)

end Stencil
