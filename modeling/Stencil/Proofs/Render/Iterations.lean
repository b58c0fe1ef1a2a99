import Stencil.Proofs.Render.Portions
import Stencil.Proofs.Source.Rereading

/-! Sections that go through items and mark their positions. The helpers that look at a position see that of the innermost
    section alone, so the first block comes once before all, the block between items between any two, and the last block
    once behind all, in the scope of the item that they stand at. -/

namespace Stencil

open RenderM Render Cursor

variable {hosts : Host → Prop} {e : Engine} {n : Nat} {s t : Stage} {body b : Body} {context : Context}
  {portions more : List Portion} {name : String}

/-! ### Helpers that render their block where a condition holds -/

/-- The stage with a call noted. -/
def Stage.calling (s : Stage) (call : Call) : Stage := { s with engine := s.engine.called call }

theorem RenderM.Ready.calling (ready : Ready hosts e s) (call : Call) : Ready hosts e (s.calling call) :=
  ⟨ready.pure.used (ready.pure.engine.called call), ready.sound, ready.writing⟩

theorem run_blockIf (render : Renderer) (condition : Bool) (context : Context) (body : Body) (reply : Reply) :
    ((Helper.blockIf condition context ⟨some body, []⟩).run render).run s = .ok (.ok reply, t) ↔
      reply = .written ∧ (if condition then render body context else pure ()).run s = .ok (.ok (), t) := by
  cases condition with
  | false =>
    constructor
    · intro ran
      cases ran
      exact ⟨rfl, rfl⟩
    · rintro ⟨rfl, ran⟩
      cases ran
      rfl
  | true =>
    constructor
    · intro ran
      obtain ⟨outcome, u, ran, replied⟩ := run_bind_eq_ok_ok.mp ran
      cases outcome with
      | error e => cases replied
      | ok _ =>
        cases replied
        exact ⟨rfl, run_attempt_eq_ok_ok.mp ran⟩
    · rintro ⟨rfl, ran⟩
      exact run_bind_of_ok (run_attempt_eq_ok_ok.mpr ran)

theorem run_helperTag {helper : Helper} {condition : Bool} (known : Dict.get? name s.engine.helpers = some helper)
    (shape : helper context ⟨some body, []⟩ [] = Helper.blockIf condition context ⟨some body, []⟩) (render : Renderer) :
    (helperTag render name none [] ⟨some body, []⟩ context).run s = .ok (.ok (), t) ↔
      (if condition then render body context else pure ()).run
        (s.calling (.helper name context ⟨some body, []⟩ [])) = .ok (.ok (), t) := by
  have found : (RenderM.helper? name).run s = .ok (.ok (some helper), s) := by
    rw [← known]
    rfl
  have called : (helperTag render name none [] ⟨some body, []⟩ context).run s = _ :=
    (run_bind_of_ok found).trans (run_bind_of_ok (run_pure s ([] : Params)))
  have replies (u : Stage) (reply : Reply) :
      (call render helper name context ⟨some body, []⟩ []).run s = .ok (.ok reply, u) ↔
        reply = .written ∧ (if condition then render body context else pure ()).run
          (s.calling (.helper name context ⟨some body, []⟩ [])) = .ok (.ok (), u) := by
    rw [← run_blockIf, ← shape]
    exact run_mapError_eq_ok_ok
  rw [called, run_bind_eq_ok_ok]
  constructor
  · rintro ⟨reply, u, ran, written⟩
    obtain ⟨rfl, rendered⟩ := (replies u reply).mp ran
    cases written
    exact rendered
  · exact fun rendered => ⟨.written, t, (replies t .written).mpr ⟨rfl, rendered⟩, rfl⟩

namespace Composes

theorem helperTag (pure : e.Pure hosts) {helper : Helper} {condition : Bool}
    (known : Dict.get? name e.helpers = some helper)
    (shape : helper context ⟨some body, []⟩ [] = Helper.blockIf condition context ⟨some body, []⟩) :
    Composes hosts e (exec · [.helperTag name none [] ⟨some body, []⟩] context)
      (if condition then [(body, context)] else []) := by
  have inside : Composes hosts e (fun n => if condition then exec n body context else Pure.pure ())
      (if condition then [(body, context)] else []) := by
    cases condition with
    | true => exact self pure body context
    | false => exact nothing
  refine of_run pure inside fun s ready => ⟨_, ready.calling (.helper name context ⟨some body, []⟩ []), rfl, fun n t => ?_⟩
  have alone : Equal (exec (n + 1) [.helperTag name none [] ⟨some body, []⟩] context)
      (Render.helperTag (exec n) name none [] ⟨some body, []⟩ context) := Equal.bind_pure _
  rw [equal_iff.mp alone s, run_helperTag (ready.pure.engine.same.helpers ▸ known) shape]

/-! ### Sections over items -/

theorem items (pure : e.Pure hosts) {xs : Path} {list : List Value} (found : context.resolve xs = some (.array list))
    (filled : list ≠ []) {portionsOf : Context → List Portion}
    (each : ∀ p ∈ list.zipIdx, Composes hosts e (exec · b (context.pushItem p.1 p.2 list.length))
      (portionsOf (context.pushItem p.1 p.2 list.length))) :
    Composes hosts e (exec · [.sectionTag .iterate xs none [] ⟨some b, []⟩] context)
      (list.zipIdx.flatMap fun p => portionsOf (context.pushItem p.1 p.2 list.length)) := by
  refine of_run pure (forM each) fun s ready => ⟨s, ready, rfl, fun n t => ?_⟩
  have dispatched : dispatch (exec n) .iterate (.array list) context ⟨some b, []⟩ =
      Render.items (exec n) b context list := by
    unfold dispatch
    rw [show (Value.array list).isEmpty = false from List.isEmpty_eq_false_iff.mpr filled]
  have resolved : (sectionTag (exec n) .iterate xs none [] ⟨some b, []⟩ context).run s =
      (Render.items (exec n) b context list).run s := by
    refine (run_bind_of_ok (run_pure s ([] : Params))).trans ?_
    dsimp only
    rw [found]
    exact congrArg (·.run s) dispatched
  have alone : Equal (exec (n + 1) [.sectionTag .iterate xs none [] ⟨some b, []⟩] context)
      (sectionTag (exec n) .iterate xs none [] ⟨some b, []⟩ context) := Equal.bind_pure _
  rw [equal_iff.mp alone s, resolved]
  rfl

/-! ### Programs of nodes -/

/-- The program of nodes before others is done before the program of these. -/
theorem equal_append (whitespace : Bool) (front back : List Node) (n : Nat) (context : Context) :
    Equal (exec n (Node.body whitespace (front ++ back)) context)
      (exec n (Node.body whitespace front) context >>= fun _ => exec n (Node.body whitespace back) context) := by
  cases n with
  | zero => exact .refl _
  | succ n =>
    induction front with
    | nil => exact .refl _
    | cons node front ih =>
      rw [List.cons_append, Node.body, Node.body]
      cases node.step? whitespace with
      | none => exact ih
      | some step =>
        have first := equal_prepend (exec n) context step (Node.body whitespace (front ++ back))
        have first' := equal_prepend (exec n) context step (Node.body whitespace front)
        refine Equal.trans first (Equal.trans (.bind (.refl _) fun _ => ih) ?_)
        exact Equal.trans (Equal.symm (.assoc _ _ _)) (.bind (Equal.symm first') fun _ => .refl _)

theorem nodes {whitespace : Bool} {front back : List Node}
    (hf : Composes hosts e (exec · (Node.body whitespace front) context) portions)
    (hb : Composes hosts e (exec · (Node.body whitespace back) context) more) :
    Composes hosts e (exec · (Node.body whitespace (front ++ back)) context) (portions ++ more) :=
  (hf.bind hb).of_equal (fun le => grows_exec le _ _) fun n => equal_append whitespace front back n context

end Composes

/-! ### Items and their positions -/

/-- The scopes of items. Each item is the current value in its scope, and has its position there. -/
def Context.items (c : Context) (list : List Value) : List Context :=
  list.zipIdx.map fun p => c.pushItem p.1 p.2 list.length

/-- A body in each of the scopes, and after it another one in all but the last. -/
def between (each dividing : Body) : List Context → List Portion
  | [] => []
  | [c] => [(each, c)]
  | c :: rest => (each, c) :: (dividing, c) :: between each dividing rest

/-- A body in the first of the scopes, bodies in all of them, and a body in the last. -/
def positioned (opening each dividing closing : Body) (scopes : List Context) : List Portion :=
  scopes.head?.toList.map (opening, ·) ++ between each dividing scopes ++ scopes.getLast?.toList.map (closing, ·)

/-- What the position in a scope calls for. -/
def portionsAt (opening each dividing closing : Body) (c : Context) : List Portion :=
  (if Helper.atFirst c then [(opening, c)] else []) ++ ([(each, c)] ++
    ((if !Helper.atLast c then [(dividing, c)] else []) ++ if Helper.atLast c then [(closing, c)] else []))

section

variable (opening each dividing closing : Body)

theorem portionsAt_pushItem (c : Context) (item : Value) (index count : Nat) :
    portionsAt opening each dividing closing (c.pushItem item index count) =
      (if index = 0 then [(opening, c.pushItem item index count)] else []) ++ (each, c.pushItem item index count) ::
        if index + 1 = count then [(closing, c.pushItem item index count)]
        else [(dividing, c.pushItem item index count)] := by
  have first : Helper.atFirst (c.pushItem item index count) = (index == 0) := rfl
  have last : Helper.atLast (c.pushItem item index count) = (index + 1 == count) := rfl
  unfold portionsAt
  rw [first, last]
  by_cases finish : index + 1 = count <;> simp [finish]

/-- By induction on the items that are left, of which the first has the index. -/
theorem flatMap_portionsAt_from (c : Context) {count index : Nat} {list : List Value} {scopes : List Context}
    (all : index + list.length = count) (here : scopes = (list.zipIdx index).map fun p => c.pushItem p.1 p.2 count) :
    scopes.flatMap (portionsAt opening each dividing closing) =
      (if index = 0 then scopes.head?.toList.map (opening, ·) else []) ++ between each dividing scopes ++
        scopes.getLast?.toList.map (closing, ·) := by
  induction list generalizing index scopes with
  | nil =>
    subst here
    by_cases start : index = 0 <;> simp [start, between]
  | cons item rest ih =>
    rw [List.length_cons] at all
    rw [List.zipIdx_cons, List.map_cons] at here
    cases rest with
    | nil =>
      have atEnd : index + 1 = count := all
      rw [here, List.zipIdx_nil, List.map_nil, List.flatMap_singleton, portionsAt_pushItem, if_pos atEnd]
      by_cases start : index = 0 <;> simp [start, between]
    | cons next rest =>
      have more := @ih (index + 1) _ (by omega) rfl
      rw [if_neg (Nat.succ_ne_zero index), List.nil_append] at more
      have before : index + 1 ≠ count := by
        rw [← all, List.length_cons]
        omega
      rw [here, List.flatMap_cons, portionsAt_pushItem, if_neg before, more, List.zipIdx_cons, List.map_cons]
      by_cases start : index = 0 <;> simp [start, between]

theorem flatMap_portionsAt (c : Context) (list : List Value) :
    list.zipIdx.flatMap (fun p => portionsAt opening each dividing closing (c.pushItem p.1 p.2 list.length)) =
      positioned opening each dividing closing (c.items list) := by
  have all := flatMap_portionsAt_from opening each dividing closing c (Nat.zero_add list.length) rfl
  rw [List.flatMap_map] at all
  exact all

end

/-- A helper with a block. -/
def Node.block (name : String) (nodes : List Node) : Node := .helperTag name none [] ⟨some nodes, []⟩

/-- A section over items with blocks for the first of them, between them, and for the last. -/
def Node.positioned (xs : Path) (opening each dividing closing : List Node) : Node :=
  .sectionTag .iterate xs none []
    ⟨some ([.block "first" opening] ++ (each ++ ([.block "sep" dividing] ++ [.block "last" closing]))), []⟩

theorem Context.resolve_pushItem (c : Context) (item : Value) (index count : Nat) :
    (c.pushItem item index count).resolve (keyPath "$idx") = some (.ofNat index) ∧
      (c.pushItem item index count).resolve (keyPath "$len") = some (.ofNat count) := by
  have idx : (c.pushItem item index count).find? "$idx" = some (.ofNat index) := by
    rw [find?_pushItem]
    rfl
  have len : (c.pushItem item index count).find? "$len" = some (.ofNat count) := by
    rw [find?_pushItem]
    rfl
  unfold keyPath resolve
  rw [idx, len]
  exact ⟨rfl, rfl⟩

theorem Context.getElem?_items (c : Context) {list : List Value} {index : Nat} {item : Value}
    (found : list[index]? = some item) : (c.items list)[index]? = some (c.pushItem item index list.length) := by
  unfold items
  rw [List.getElem?_map, List.getElem?_zipIdx, found]
  rw [Option.map_some, Option.map_some, Nat.zero_add]

/-- An engine has the helpers for positions that every engine starts with. -/
structure Engine.MarksPositions (e : Engine) : Prop where
  first : Dict.get? "first" e.helpers = some Helper.first
  sep : Dict.get? "sep" e.helpers = some Helper.sep
  last : Dict.get? "last" e.helpers = some Helper.last

namespace Composes

variable (pure : e.Pure hosts) (marks : e.MarksPositions) (whitespace : Bool) (opening each dividing closing : List Node)

include pure marks

theorem positionedBlock (context : Context) :
    Composes hosts e (exec · (Node.body whitespace ([.block "first" opening] ++ (each ++ ([.block "sep" dividing] ++
        [.block "last" closing])))) context)
      (portionsAt (Node.body whitespace opening) (Node.body whitespace each) (Node.body whitespace dividing)
        (Node.body whitespace closing) context) :=
  nodes (helperTag pure marks.first rfl) <| nodes (self pure _ context) <|
    nodes (helperTag pure marks.sep rfl) (helperTag pure marks.last rfl)

theorem positioned {xs : Path} {list : List Value} (found : context.resolve xs = some (.array list)) (filled : list ≠ []) :
    Composes hosts e (exec · (Node.body whitespace [.positioned xs opening each dividing closing]) context)
      (Stencil.positioned (Node.body whitespace opening) (Node.body whitespace each) (Node.body whitespace dividing)
        (Node.body whitespace closing) (context.items list)) := by
  rw [← flatMap_portionsAt]
  exact items pure found filled fun p _ => positionedBlock pure marks whitespace opening each dividing closing _

end Composes

/-- Let a section go through items, with blocks for the first of them, between them, and for the last, wherever it stands
    in a program. Then the block of the first item is rendered once before all, the nodes between the blocks for each item
    in order, the block between items after each but the last, and the last block once behind all. Each is rendered where
    the item is the current value and knows its position among all. Work may be put off; if none of these renderings
    fails, the program does not fail. What is heard of it is at every moment the front of their texts, one after the other,
    and all of that text once it is complete. -/
theorem iteration_marks_positions (pure : e.Pure hosts) (marks : e.MarksPositions) {xs : Path} {list : List Value}
    (found : context.resolve xs = some (.array list)) (filled : list ≠ []) (whitespace : Bool)
    (front opening each dividing closing back : List Node) :
    let program := Node.body whitespace
    let nodes := front ++ ([.positioned xs opening each dividing closing] ++ back)
    let portions := [(program front, context)] ++
      (positioned (program opening) (program each) (program dividing) (program closing) (context.items list) ++
        [(program back, context)])
    (context.items list).length = list.length ∧
    (∀ index item, list[index]? = some item → ∃ scope : Context, (context.items list)[index]? = some scope ∧
      scope.current = some item ∧ scope.resolve (keyPath "$idx") = some (.ofNat index) ∧
      scope.resolve (keyPath "$len") = some (.ofNat list.length)) ∧
    Composes hosts e (exec · (program nodes) context) portions ∧
    ∀ name c listeners l w o, context = c.enter (.ofNodes name whitespace nodes) → listeners.count l = 1 →
      (∀ text, l.kind.hears (.data text) = true) →
      Scheduled hosts e (.template (.ofNodes name whitespace nodes) c) listeners w o →
      (∀ shown, ShowAll hosts e portions shown → ∃ rest, shown = o.heard l ++ rest) ∧
      (o.progress = .complete → ∀ shown, ShowAll hosts e portions shown ↔ shown = o.output l) := by
  intro program nodes portions
  have composes : Composes hosts e (exec · (program nodes) context) portions :=
    (Composes.self pure (program front) context).nodes <|
      (Composes.positioned pure marks whitespace opening each dividing closing found filled).nodes
        (Composes.self pure (program back) context)
  refine ⟨by simp [Context.items], fun index item there => ?_, composes, ?_⟩
  · obtain ⟨idx, len⟩ := context.resolve_pushItem item index list.length
    exact ⟨_, context.getElem?_items there, rfl, idx, len⟩
  · rintro name c listeners l w o rfl once hears scheduled
    exact ⟨fun _ => composes.front pure once hears scheduled, composes.output_iff pure once hears scheduled⟩

/-- Rows of cells, one of them empty, and after each row the text of a gate. -/
def rowsSource : String :=
  "\x7b#rows\x7d\x7b@first\x7d[\x7b/first\x7d" ++
    "\x7b#.\x7d\x7b$idx\x7d\x7b@sep\x7d,\x7b/sep\x7d\x7b/.\x7d\x7b@g/\x7d" ++
    "\x7b@sep\x7d;\x7b/sep\x7d\x7b@last\x7d]\x7b/last\x7d\x7b/rows\x7d"

/-- What stands between the blocks of a row. -/
def rowsEach : List Node :=
  [.sectionTag .iterate ⟨true, []⟩ none []
    ⟨some [.piece (.reference (keyPath "$idx") []), .block "sep" [.piece (.text ",")]], []⟩,
    .helperTag "g" none [] .empty]

/-- The section over the rows. -/
def rowsNode : Node :=
  .positioned (keyPath "rows") [.piece (.text "[")] rowsEach [.piece (.text ";")] [.piece (.text "]")]

def rowsTemplate : Template := .ofNodes none false [rowsNode]

def rowsEngine : Engine := { helpers := Dict.insert "g" (gateText "g") Helper.builtin }

/-- The gate is closed, or open with one text. -/
def rowsHosts (host : Host) : Prop := (Future.gate "g").Settles (· = host) (.ok "x")

def rows : List Value := [.array [.string "a", .string "b"], .array [], .array [.null]]

def rowsContext : Context := .ofValue (.ofFields [("rows", .array rows)])

/-- The template rendered while the gate is closed, and on once it is open. -/
def rowsRun : Except Halt (World × OutputStream) := do
  let stream : OutputStream :=
    { OutputStream.new rowsEngine (.template rowsTemplate rowsContext) with listeners := [⟨0, .data⟩] }
  let (_, w, o) ← stream.runUntilStalled 20 { engine := rowsEngine }
  let (_, late) ← o.runUntilStalled 20 { w with host := Host.openGate {} "g" (.ok "x") }
  pure late

theorem pure_rowsEngine : rowsEngine.Pure rowsHosts where
  helpers {name helper} found := by
    by_cases gate : name = "g"
    · subst gate
      rw [show Dict.get? "g" rowsEngine.helpers = some (gateText "g") from Dict.get?_insert_self ..] at found
      cases found
      exact fun _ _ _ => ⟨⟨_, fun host here => here host rfl⟩, fun _ => ⟨fun _ => rfl, trivial⟩, fun _ => rfl, trivial⟩
    · rw [show Dict.get? name rowsEngine.helpers = Dict.get? name Helper.builtin from Dict.get?_insert_of_ne gate ..] at found
      exact Helper.pure_builtin found
  functions _ _ _ _ := trivial
  loader no := by cases no

theorem iteration_marks_positions_rows :
    (∃ t, Template.compile rowsSource none false = .ok t ∧ t.beq rowsTemplate = true) ∧
    ∃ w o, rowsRun = .ok (w, o) ∧ o.progress = .complete ∧ o.output ⟨0, .data⟩ = "[0,1x;x;0x]" ∧
      ShowAll rowsHosts rowsEngine ([([], rowsContext.enter rowsTemplate)] ++
        (positioned [.write "["] (Node.body false rowsEach) [.write ";"] [.write "]"]
          ((rowsContext.enter rowsTemplate).items rows) ++ [([], rowsContext.enter rowsTemplate)])) "[0,1x;x;0x]" := by
  let l : Listener := ⟨0, .data⟩
  have compiled : (Template.compile rowsSource none false).toOption.any (·.beq rowsTemplate) = true := by decide +kernel
  have seen : rowsRun.toOption.any (fun r => decide (r.2.progress = .complete) &&
      decide (r.2.output l = "[0,1x;x;0x]")) = true := by decide +kernel
  obtain ⟨⟨w, o⟩, done, seen⟩ := exists_eq_ok seen
  simp only [Bool.and_eq_true, decide_eq_true_eq] at seen
  obtain ⟨complete, told⟩ := seen
  have run := done
  unfold rowsRun at run
  obtain ⟨⟨_, w', o'⟩, ran, run⟩ := bind_eq_ok.mp run
  obtain ⟨⟨_, late⟩, ran', run⟩ := bind_eq_ok.mp run
  cases run
  have closed : rowsHosts {} := by
    rintro _ rfl
    exact Or.inl rfl
  have opened : rowsHosts (Host.openGate {} "g" (.ok "x")) := by
    rintro _ rfl
    exact Or.inr rfl
  have begun : Scheduled rowsHosts rowsEngine _ [l] w' o' := .runUntilStalled (.new closed) ran
  have scheduled : Scheduled rowsHosts rowsEngine _ [l] w o := .runUntilStalled (begun.wait opened) ran'
  have marks : rowsEngine.MarksPositions := ⟨rfl, rfl, rfl⟩
  have found : (rowsContext.enter rowsTemplate).resolve (keyPath "rows") = some (.array rows) := rfl
  obtain ⟨-, -, -, shows⟩ := iteration_marks_positions pure_rowsEngine marks found (List.cons_ne_nil _ _) false []
    [.piece (.text "[")] rowsEach [.piece (.text ";")] [.piece (.text "]")] []
  refine ⟨exists_eq_ok compiled, w, o, done, complete, told, ?_⟩
  exact ((shows none rowsContext [l] l w o rfl rfl (fun _ => rfl) scheduled).2 complete _).mpr told.symm

end Stencil
