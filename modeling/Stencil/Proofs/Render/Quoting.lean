import Stencil.Proofs.Render.Escaping
import Stencil.Proofs.Render.Meaning
import Stencil.Proofs.Source.Rereading

/-! Quoted text around a reference. The reference is escaped like any other, so where the quoted text is a parameter, the
    escape has been applied once before the parameter is written, which applies it again; and where the quoted text is the
    name of a partial, the name that is looked up holds the escaped text. -/

namespace Stencil

open RenderM Render Text.Html Cursor

variable {l r v p : String} {x k : Path} {kind : SectionKind} {rest : List Char} {c : Cursor}

/-- Text that stands in quotes as it is. -/
def Literal (text : String) : Prop := ∀ ch ∈ text.toList, ch ≠ '\x7b' ∧ ch ≠ '"' ∧ ch ≠ '\\'

instance (text : String) : Decidable (Literal text) :=
  decidable_of_iff (text.toList.all (fun ch => decide (ch ≠ '\x7b' ∧ ch ≠ '"' ∧ ch ≠ '\\')) = true)
    (List.all_eq_true.trans (forall₂_congr fun _ _ => decide_eq_true_iff))

/-- Quoted text around a reference, as it is written. -/
def quoting (l : String) (x : Path) (r : String) : String := "\"" ++ l ++ "\x7b" ++ x.text ++ "\x7d" ++ r ++ "\""

/-- The program of quoted text around a reference. -/
def quotingBody (l : String) (x : Path) (r : String) : Body :=
  (Step.write l).prepend (.reference x [escapeFilter] :: (Step.write r).prepend [])

/-- A section with a parameter, which its block writes. -/
def carrying (kind : SectionKind) (k : Path) (p quoted : String) : String :=
  "\x7b" ++ String.singleton (Print.sigil kind) ++ k.text ++ " " ++ p ++ "=" ++ quoted ++ "\x7d\x7b" ++ p ++ "\x7d\x7b/" ++
    k.text ++ "\x7d"

/-- What such a section compiles to. -/
def carryingStep (kind : SectionKind) (k : Path) (p : String) (o : Operand Body) : Step :=
  .sectionTag kind k none [(p, o)] ⟨some [.reference (keyPath p) [escapeFilter]], []⟩

/-- A partial whose name stands in quotes. -/
def including (quoted : String) : String := "\x7b>" ++ quoted ++ "/\x7d"

/-! ### Reading -/

namespace Cursor

theorem flatMap_quotedChar (literal : Literal l) : l.toList.flatMap Print.quotedChar = l.toList := by
  refine (List.flatMap_congr fun ch mem => ?_).trans (List.flatMap_singleton' l.toList)
  obtain ⟨brace, quote, -⟩ := literal ch mem
  unfold Print.quotedChar
  split
  · exact absurd rfl brace
  · exact absurd rfl quote
  · rfl

theorem Quotes.literal {input : List Char} {body : Body} (next : Quotes input body rest) (literal : Literal l) :
    Quotes (l.toList ++ input) ((Step.write l).prepend body) rest := by
  have read := next.chars (l := l.toList) fun last => absurd rfl (literal _ (List.mem_of_getLast? last)).2.2
  rwa [flatMap_quotedChar literal, String.ofList_toList] at read

theorem quoting_yields (literal : Literal l) (literal' : Literal r) (proper : x.Proper)
    (here : c.rest = (quoting l x r).toList ++ rest) :
    Yields c.quoted fun q => Piece.body q.value = quotingBody l x r ∧ q.cursor.rest = rest := by
  have inside : c.rest = '"' :: (l.toList ++ '\x7b' :: (x.text.toList ++ (Print.filters [] ++
      '\x7d' :: (r.toList ++ '"' :: rest)))) := by
    rw [here]
    simp [quoting, Print.filters]
  refine .bind (expect_yields "\"" inside) ?_
  rintro ⟨_, c₁, h₁⟩ ⟨-, here₁⟩
  have quotes := ((Quotes.close rest).literal literal').filtered [] proper (List.forall_mem_nil _)
  refine .bind (quotes.literal literal c₁ [] here₁) ?_
  rintro ⟨_, c₂, h₂⟩ ⟨same, here₂⟩
  exact .ok ⟨same.trans (Step.prepend_empty _), here₂⟩

theorem static?_quoting {pieces : List Piece} (same : Piece.body pieces = quotingBody l x r) :
    Piece.static? pieces = none := by
  unfold Piece.static?
  rw [same]
  unfold quotingBody
  rcases Step.prepend_cases (.write l) (.reference x [escapeFilter] :: (Step.write r).prepend []) with
    ⟨-, apart⟩ | ⟨_, _, _, -, no, -⟩ | apart
  · rw [apart]
  · cases no
  · rw [apart]

theorem startsWith_quoting (here : c.rest = (quoting l x r).toList ++ rest) : c.startsWith "\"" = true :=
  startsWith_iff.mpr ⟨l.toList ++ '\x7b' :: (x.text.toList ++ '\x7d' :: (r.toList ++ '"' :: rest)), by
    rw [here]
    simp [quoting]⟩

theorem paramValue_quoting (literal : Literal l) (literal' : Literal r) (proper : x.Proper)
    (here : c.rest = (quoting l x r).toList ++ rest) :
    Yields c.paramValue fun q => q.value.operand = .body (quotingBody l x r) ∧ q.cursor.rest = rest := by
  unfold paramValue
  rw [if_pos (startsWith_quoting here)]
  refine .bind (quoting_yields literal literal' proper here) ?_
  rintro ⟨pieces, c₁, h₁⟩ ⟨same, here₁⟩
  refine .ok ⟨?_, here₁⟩
  dsimp only [ParamValue.operand] at same ⊢
  rw [static?_quoting same, same]

theorem partialName_quoting (literal : Literal l) (literal' : Literal r) (proper : x.Proper)
    (here : c.rest = (quoting l x r).toList ++ rest) :
    Yields c.partialName fun q => PartialName.ofPieces q.value = .dynamic (quotingBody l x r) ∧ q.cursor.rest = rest := by
  unfold Cursor.partialName
  rw [if_pos (startsWith_quoting here)]
  refine (quoting_yields literal literal' proper here).mono ?_
  rintro _ ⟨same, here₁⟩
  refine ⟨?_, here₁⟩
  unfold PartialName.ofPieces
  rw [static?_quoting same, same]

end Cursor

theorem compile_carrying (literal : Literal l) (literal' : Literal r) (proper : x.Proper) (proper' : k.Proper)
    (key : IsKey p) (kind : SectionKind) (name : Option String) (whitespace : Bool) :
    Template.compile (carrying kind k p (quoting l x r)) name whitespace =
      .ok ⟨name, [carryingStep kind k p (.body (quotingBody l x r))], []⟩ := by
  let o : Operand Body := .body (quotingBody l x r)
  let params : List Char := ' ' :: (p.toList ++ '=' :: (quoting l x r).toList)
  let close : List Char := '\x7b' :: '/' :: (k.text.toList ++ ['\x7d'])
  let behind : List Char := closing false ++ '\x7b' :: (p.toList ++ (Print.filters [] ++ '\x7d' :: close))
  let opening : List Char := k.text.toList ++ (Print.context none ++ (params ++ behind))
  have text : (carrying kind k p (quoting l x r)).toList = '\x7b' :: Print.sigil kind :: opening := by
    -- Not by its equation: to make one, the strings in it are compared letter by letter.
    delta carrying
    simp [opening, params, behind, close, Print.context, closing, Print.filters]
  have block : Compiles ('\x7b' :: (p.toList ++ (Print.filters [] ++ '\x7d' :: close)))
      [.reference (keyPath p) [escapeFilter]] [] (.close k.text) [] := by
    have proper : (keyPath p).Proper := ⟨key, trivial⟩
    have tag := tag_filtered [] proper (List.forall_mem_nil _) close
    rw [text_keyPath] at tag
    exact .tagged tag (.stopped (tag_close proper'))
  have read (c : Cursor) (here : c.rest = params ++ behind) :
      Yields c.params fun q => operands q.value = [(p, o)] ∧ q.cursor.rest = behind := by
    refine (params_cons (P := (·.operand = o)) (Q := (· = [])) key
      (fun c here => paramValue_quoting literal literal' proper here)
      (fun c (here : c.rest = behind) => params_none (tagEnds_closing false) here) (by rw [here]; simp [params])).mono ?_
    rintro ⟨_, c₁, h₁⟩ ⟨⟨value, _, rfl, same, rfl⟩, here₁⟩
    exact ⟨congrArg (fun o => [(p, o)]) same, here₁⟩
  have tag : TagGives ('\x7b' :: Print.sigil kind :: opening) (some (carryingStep kind k p o)) [] [] := by
    refine tag_of_opened fun c here => ?_
    refine (head_yields (P := (operands · = [(p, o)])) (fun here ends => path_yields k proper' here ends)
      (solid_of_proper proper') fitted_nothing.proper (.inr rfl) read here).mono ?_
    rintro ⟨head, c₁, h₁⟩ ⟨is, here₁⟩
    refine ⟨is.name, is.context, is.params, ?_⟩
    dsimp only
    rw [is.closed, is.written, String.ofList_toList]
    exact block_yields block here₁
  have compiles := Compiles.tagged tag Compiles.sourceEnd
  rw [← text] at compiles
  exact compiles.compile name whitespace

theorem compile_including (literal : Literal l) (literal' : Literal r) (proper : x.Proper) (name : Option String)
    (whitespace : Bool) : Template.compile (including (quoting l x r)) name whitespace =
      .ok ⟨name, [.partialTag (.dynamic (quotingBody l x r)) none []], []⟩ := by
  have quoted : ∃ inner, (quoting l x r).toList = '"' :: inner :=
    ⟨l.toList ++ '\x7b' :: (x.text.toList ++ '\x7d' :: (r.toList ++ ['"'])), by simp [quoting]⟩
  have text : (including (quoting l x r)).toList =
      '\x7b' :: '>' :: ((quoting l x r).toList ++ (Print.context none ++ ([] ++ ['/', '\x7d']))) := by
    simp [including, Print.context]
  have tag : TagGives ('\x7b' :: '>' :: ((quoting l x r).toList ++ (Print.context none ++ ([] ++ ['/', '\x7d']))))
      (some (.partialTag (.dynamic (quotingBody l x r)) none [])) [] [] := by
    rintro ⟨_, offset, line, start⟩ more here
    cases here
    unfold tag
    refine .bind (partialTag_yields (c := skip 2 _) (P := (PartialName.ofPieces · = .dynamic (quotingBody l x r)))
      (Q := (· = [])) fitted_nothing.proper quoted (fun c rest here => partialName_quoting literal literal' proper here)
      (.inl rfl) (fun c here => params_none (.inl rfl) here) rfl) ?_
    rintro ⟨_, c₁, h₁⟩ ⟨⟨pieces, params, rfl, same, rfl⟩, here₁⟩
    refine .ok ⟨⟨_, rfl, fun _ => ?_, fun _ => rfl⟩, here₁⟩
    rw [Node.step?, same]
    rfl
  have compiles := Compiles.tagged tag Compiles.sourceEnd
  rw [← text] at compiles
  exact compiles.compile name whitespace

/-! ### Rendering -/

/-- The engine with other notes of readings and calls. -/
def Engine.noting (e : Engine) (readings : List Reading) (calls : List Call) : Engine := { e with readings, calls }

/-- The stage with other notes of readings and calls. -/
def Stage.noting (s : Stage) (readings : List Reading) (calls : List Call) : Stage :=
  { s with engine := s.engine.noting readings calls }

/-- From this stage the first code does what the second does, and notes readings and calls besides. -/
def ComesTo {α : Type} (a b : RenderM α) (s : Stage) : Prop :=
  ∃ readings calls, a.run s = b.run (s.noting readings calls)

namespace ComesTo

variable {α β : Type} {s : Stage} {a : RenderM α} {b : α}

theorem bind {f : α → RenderM β} {g : RenderM β} (h : ComesTo a (pure b) s)
    (next : ∀ readings calls, ComesTo (f b) g (s.noting readings calls)) : ComesTo (a >>= f) g s := by
  obtain ⟨readings, calls, ran⟩ := h
  obtain ⟨readings', calls', ran'⟩ := next readings calls
  exact ⟨readings', calls', (run_bind_of_ok ran).trans ran'⟩

theorem map (f : α → β) (h : ComesTo a (pure b) s) : ComesTo (f <$> a) (pure (f b)) s := by
  obtain ⟨readings, calls, ran⟩ := h
  exact ⟨readings, calls, run_bind_of_ok ran⟩

theorem bind_pure {a b : RenderM Unit} (h : ComesTo a b s) : ComesTo (a >>= fun _ => pure ()) b s := by
  obtain ⟨readings, calls, ran⟩ := h
  exact ⟨readings, calls, (equal_iff.mp (.bind_pure a) s).trans ran⟩

end ComesTo

section

variable {s : Stage} {context : Context} {render : Renderer}

/-- A reference to a string writes it escaped. -/
theorem comesTo_reference (found : context.resolve x = some (.string v))
    (plain : Dict.get? escapeFilter s.engine.filters = some (Filter.onString escape)) :
    ComesTo (reference render x [escapeFilter] context) (RenderM.write (escape v)) s := by
  rw [reference_of_resolve found rfl]
  unfold writeFiltered
  by_cases empty : v = ""
  · rw [empty]
    exact ⟨s.engine.readings, s.engine.calls, rfl⟩
  · have full : ¬ (Value.string v).isEmpty = true := by simpa [Value.isEmpty] using empty
    have filtered : Engine.applyFilters [escapeFilter] (.string v) s.engine =
        (.ok (.string (escape v)), s.engine.called (.filter escapeFilter (.string v))) := by
      unfold Engine.applyFilters
      rw [plain]
      rfl
    rw [if_neg full]
    refine ⟨s.engine.readings, s.engine.calls ++ [.filter escapeFilter (.string v)], ?_⟩
    unfold withEngine
    rw [run_bind, run_bind_of_ok (run_get s), filtered]
    rfl

variable (render) in
/-- On the side the quoted text writes what it refers to escaped. -/
theorem run_quotingBody_side (engine : Engine) (found : context.resolve x = some (.string v))
    (plain : Dict.get? escapeFilter engine.filters = some (Filter.onString escape)) : ∃ readings calls,
      ((quotingBody l x r).forM (Render.step render context)).run (side s engine "") =
        .ok (.ok (), side s (engine.noting readings calls) (l ++ escape v ++ r)) := by
  obtain ⟨readings, calls, ran⟩ : ComesTo (reference render x [escapeFilter] context) (RenderM.write (escape v))
    (side s engine l) := comesTo_reference found plain
  have written : (reference render x [escapeFilter] context).run (side s engine l) =
      .ok (.ok (), side s (engine.noting readings calls) (l ++ escape v)) :=
    ran.trans (run_write_side s (engine.noting readings calls) l (escape v))
  have front : (Render.step render context (.write l)).run (side s engine "") = .ok (.ok (), side s engine l) :=
    (run_write_side s engine "" l).trans (by rw [String.empty_append])
  refine ⟨readings, calls, ?_⟩
  unfold quotingBody
  rw [equal_iff.mp (equal_prepend _ _ _ _), run_bind_of_ok front]
  refine (run_bind_of_ok written).trans ?_
  rw [equal_iff.mp (equal_prepend _ _ _ _)]
  exact run_bind_of_ok (run_write_side s (engine.noting readings calls) (l ++ escape v) r)

/-- What the quoted text gives as a parameter, or as the name of a partial. -/
theorem comesTo_toText (found : context.resolve x = some (.string v))
    (plain : Dict.get? escapeFilter s.engine.filters = some (Filter.onString escape)) (nesting : Nat)
    (template : Option String) :
    ComesTo (toText template (exec (nesting + 1) (quotingBody l x r) context)) (pure (l ++ escape v ++ r)) s := by
  obtain ⟨readings, calls, written⟩ := run_quotingBody_side (l := l) (r := r) (s := s) (exec nesting)
    (s.engine.read (.aside s.engine.config.cache s.engine.config.maxPartialDepth)) found plain
  exact ⟨readings, calls, run_toText_of_side written template⟩

/-- A section over what is true, which carries a parameter of this string, writes it escaped where its block refers to it. -/
theorem comesTo_carryingStep {o : Operand Body} {given : String} {nesting : Nat}
    (value : ComesTo (operand (exec (nesting + 1)) context o) (pure (.string given)) s)
    (plain : Dict.get? escapeFilter s.engine.filters = some (Filter.onString escape)) (shown : kind ≠ .absent)
    (bound : context.resolve k = some (.bool true)) :
    ComesTo (Render.step (exec (nesting + 1)) context (carryingStep kind k p o)) (RenderM.write (escape given)) s := by
  have inserted : ComesTo (operand (exec (nesting + 1)) context o >>= fun value => pure (Dict.insert p value []))
      (pure [(p, .string given)]) s := value.bind fun readings calls => ⟨readings, calls, rfl⟩
  have values : ComesTo (Render.params (exec (nesting + 1)) [(p, o)] context) (pure [(p, .string given)]) s :=
    inserted.bind (f := pure) fun readings calls => ⟨readings, calls, rfl⟩
  have there : (context.push (.object [(p, .string given)])).resolve (keyPath p) = some (.string given) := by
    have found : (context.push (.object [(p, .string given)])).find? p = some (.string given) := by
      rw [Context.find?_push, Value.fields?, Option.bind_some, Dict.get?, if_pos rfl]
      rfl
    unfold keyPath Context.resolve
    rw [found]
    rfl
  refine values.bind fun readings calls => ?_
  have referred : ComesTo (reference (exec nesting) (keyPath p) [escapeFilter] (context.push (.object [(p, .string given)])))
      (RenderM.write (escape given)) (s.noting readings calls) := comesTo_reference there plain
  have block : ComesTo (exec (nesting + 1) [.reference (keyPath p) [escapeFilter]]
      (context.push (.object [(p, .string given)]))) (RenderM.write (escape given)) (s.noting readings calls) :=
    referred.bind_pure
  dsimp only
  rw [bound]
  cases kind with
  | iterate => exact block
  | present => exact block
  | absent => exact absurd rfl shown

/-- Let a path lead to a string, and let it stand in quotes between two literals. As the value of a parameter the quoted
    text gives the string escaped between the literals; a section over what is true that carries the parameter writes this
    escaped once more where its block refers to it. As the name of a partial the quoted text leads to the template whose
    name holds the string escaped. So data comes through quotes as it is, and is escaped once where it is written, exactly
    if it has neither markup nor an ampersand. -/
theorem quoted_reference_escaped (literal : Literal l) (literal' : Literal r) (proper : x.Proper) (proper' : k.Proper)
    (key : IsKey p) (name : Option String) (whitespace : Bool) (found : context.resolve x = some (.string v))
    (plain : Dict.get? escapeFilter s.engine.filters = some (Filter.onString escape)) (nesting : Nat) :
    let given := l ++ escape v ++ r
    (∃ o, (∀ kind, Template.compile (carrying kind k p (quoting l x r)) name whitespace =
        .ok ⟨name, [carryingStep kind k p o], []⟩) ∧
      ComesTo (operand (exec (nesting + 1)) context o) (pure (.string given)) s ∧
      ∀ kind, kind ≠ .absent → context.resolve k = some (.bool true) →
        ComesTo (exec (nesting + 2) [carryingStep kind k p o] context) (RenderM.write (escape given)) s) ∧
    (∃ step, Template.compile (including (quoting l x r)) name whitespace = .ok ⟨name, [step], []⟩ ∧
      ComesTo (exec (nesting + 2) [step] context) (named (exec (nesting + 1)) given context) s) ∧
    (given = l ++ v ++ r ↔ ∀ c ∈ v.toList, IsPlain c) ∧
    (escape given = escape (l ++ v ++ r) ↔ ∀ c ∈ v.toList, IsPlain c) := by
  intro given
  have text := comesTo_toText (l := l) (r := r) found plain nesting context.templateName
  have value : ComesTo (operand (exec (nesting + 1)) context (.body (quotingBody l x r))) (pure (.string given)) s :=
    text.map Value.string
  refine ⟨⟨.body (quotingBody l x r), fun kind => compile_carrying literal literal' proper proper' key kind name whitespace,
    value, fun kind shown bound => (comesTo_carryingStep value plain shown bound).bind_pure⟩,
    ⟨_, compile_including literal literal' proper name whitespace,
      ComesTo.bind_pure (text.bind fun readings calls => ⟨readings, calls, rfl⟩)⟩, ?_, ?_⟩
  · rw [← escape_eq_self_iff, String.append_left_inj, String.append_right_inj]
  · rw [escape_append, escape_append, escape_append, escape_append, String.append_left_inj, String.append_right_inj,
      escape_escape_eq_iff]

end

/-- A scope of a flag and a string with markup. -/
def markedContext : Context := .ofValue (.ofFields [("k", .bool true), ("x", .string "a<b")])

/-- A string with markup in a parameter. -/
theorem quoted_reference_escaped_markedContext : ∃ t,
    Template.compile (carrying .iterate (keyPath "k") "p" (quoting "l" xPath "r")) none false = .ok t ∧
    ComesTo (exec 2 t.body markedContext) (RenderM.write "la&amp;lt;br") writingStage ∧ "la&lt;br" ≠ "l" ++ "a<b" ++ "r" := by
  obtain ⟨⟨o, compiled, -, written⟩, -⟩ := quoted_reference_escaped (l := "l") (r := "r") (x := xPath) (k := keyPath "k")
    (p := "p") (v := "a<b") (s := writingStage) (by decide) (by decide) ⟨by decide, trivial⟩ ⟨by decide, trivial⟩ (by decide)
    none false (show markedContext.resolve xPath = _ from rfl) Engine.get?_escapeFilter 0
  exact ⟨_, compiled .iterate, written .iterate nofun rfl, by decide⟩

/-- An engine that keeps an empty template under a name with markup. -/
def markedEngine : Engine := { templates := [("a<b", ⟨none, [], []⟩)] }

/-- What a source is collected as in that scope. -/
def collected (source : String) : Except Halt (Option (Except Error String) × World × Collector) :=
  Collector.poll 9 { engine := markedEngine } ⟨markedEngine.streamSource source markedContext, ""⟩

/-- The string of the data is escaped twice, and no template is found under it. -/
theorem data_escaped_in_quotes :
    (∃ w c, collected "\x7b#k p=\"l\x7bx\x7dr\"\x7d\x7bp\x7d\x7b/k\x7d" = .ok (some (.ok "la&amp;lt;br"), w, c)) ∧
    "la&amp;lt;br" ≠ escape ("l" ++ "a<b" ++ "r") ∧
    (∃ w c, collected "\x7b>\"\x7bx\x7d\"/\x7d" = .ok (some (.error (.templateNotFound "a&lt;b" none)), w, c)) ∧
    (markedEngine.getTemplate "a<b").isSome = true := by
  have seen : (collected "\x7b#k p=\"l\x7bx\x7dr\"\x7d\x7bp\x7d\x7b/k\x7d").toOption.any (fun r =>
      decide (r.1 = some (.ok "la&amp;lt;br"))) = true := by decide +kernel
  have seen' : (collected "\x7b>\"\x7bx\x7d\"/\x7d").toOption.any (fun r =>
      decide (r.1 = some (.error (.templateNotFound "a&lt;b" none)))) = true := by decide +kernel
  obtain ⟨⟨_, w, c⟩, polled, seen⟩ := exists_eq_ok seen
  obtain rfl := of_decide_eq_true seen
  obtain ⟨⟨_, w', c'⟩, polled', seen'⟩ := exists_eq_ok seen'
  obtain rfl := of_decide_eq_true seen'
  exact ⟨⟨w, c, polled⟩, by decide, ⟨w', c', polled'⟩, rfl⟩

end Stencil
