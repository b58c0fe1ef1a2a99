import Stencil.Proofs.Source.Heads

/-! Reading what is printed: programs. -/

namespace Stencil

/-- What a node makes, whether line breaks are kept or not. -/
structure Node.Makes (n : Node) (s : Option Step) (table : List (String × Body)) : Prop where
  step? : ∀ whitespace, n.step? whitespace = s
  table : ∀ whitespace, n.inlinePartials.map (fun e => (e.1, Node.body whitespace e.2)) = table

/-- What nodes make, whether line breaks are kept or not. -/
structure Node.MakeAll (nodes : List Node) (b : Body) (table : List (String × Body)) : Prop where
  body : ∀ whitespace, Node.body whitespace nodes = b
  table : ∀ whitespace, (Node.allInlinePartials nodes).map (fun e => (e.1, Node.body whitespace e.2)) = table

theorem Node.MakeAll.cons {n : Node} {nodes : List Node} {s : Option Step} {b : Body} {table more : List (String × Body)}
    (h : n.Makes s table) (rest : Node.MakeAll nodes b more) :
    Node.MakeAll (n :: nodes) (s.elim b (·.prepend b)) (table ++ more) where
  body whitespace := by
    rw [Node.body, h.step?, rest.body]
    cases s <;> rfl
  table whitespace := by
    rw [Node.allInlinePartials, List.map_append, h.table, rest.table]

theorem Node.MakeAll.plain {nodes : List Node} {b : Body} (all : Node.MakeAll nodes b []) :
    Node.allInlinePartials nodes = [] := List.map_eq_nil_iff.mp (all.table true)

namespace Cursor

/-- The nodes from these characters on make a program and a table, up to what stops them. -/
def Compiles (input : List Char) (b : Body) (table : List (String × Body)) (stop : Stop) (rest : List Char) : Prop :=
  ∀ c : Cursor, c.rest = input → Yields c.nodes fun r =>
    Node.MakeAll r.nodes b table ∧ r.stop = stop ∧ r.cursor.rest = rest

/-! ### Tags -/

theorem tag_close {path : Path} {rest : List Char} (proper : path.Proper) (c : Cursor) (more : c.rest ≠ [])
    (here : c.rest = '\x7b' :: '/' :: (path.text.toList ++ '\x7d' :: rest)) :
    Yields (c.tag more) (Read.Is (.stop (.close path.text)) rest) := by
  obtain ⟨_, offset, line, start⟩ := c
  cases here
  unfold tag
  refine .bind (closingTag_yields (c := skip 2 _) proper rfl) ?_
  rintro ⟨_, c₁, h₁⟩ ⟨rfl, here₁⟩
  exact .ok ⟨rfl, here₁⟩

theorem tag_separator {name : String} {rest : List Char} (key : IsKey name) (c : Cursor) (more : c.rest ≠ [])
    (here : c.rest = '\x7b' :: ':' :: (name.toList ++ '\x7d' :: rest)) :
    Yields (c.tag more) (Read.Is (.stop (.separator name)) rest) := by
  obtain ⟨_, offset, line, start⟩ := c
  cases here
  unfold tag
  refine .bind (separatorTag_yields (c := skip 2 _) key rfl) ?_
  rintro ⟨_, c₁, h₁⟩ ⟨same, here₁⟩
  exact .ok ⟨congrArg (fun name => Tag.stop (.separator name)) same, here₁⟩

/-- The tag that starts with these characters reads as a node. -/
def TagGives (input : List Char) (s : Option Step) (table : List (String × Body)) (rest : List Char) : Prop :=
  ∀ (c : Cursor) (more : c.rest ≠ []), c.rest = input → Yields (c.tag more) fun r =>
    (∃ n : Node, r.value = .node n ∧ n.Makes s table) ∧ r.cursor.rest = rest

theorem tag_special (s : Special) (rest : List Char) :
    TagGives (Print.special s ++ rest) (some (.write s.text)) [] rest := by
  have text : Print.special s ++ rest = '\x7b' :: '~' :: (s.name.toList ++ '\x7d' :: rest) := by simp [Print.special]
  rw [text]
  rintro ⟨_, offset, line, start⟩ more here
  cases here
  unfold tag
  refine .bind (special_yields (c := skip 1 _) (s := s) rfl) ?_
  rintro ⟨_, c₁, h₁⟩ ⟨rfl, here₁⟩
  exact .ok ⟨⟨_, rfl, fun _ => rfl, fun _ => rfl⟩, here₁⟩

/-- A reference with its filters as written. -/
theorem tag_filtered {path : Path} (list : List String) (proper : path.Proper) (keys : ∀ f ∈ list, IsKey f)
    (rest : List Char) : TagGives ('\x7b' :: (path.text.toList ++ (Print.filters list ++ '\x7d' :: rest)))
      (some (.reference path (effectiveFilters list))) [] rest := by
  intro c more here
  have behind : (c.skip 1).rest = path.text.toList ++ (Print.filters list ++ '\x7d' :: rest) := by
    rw [skip_rest, here]
    rfl
  obtain ⟨⟨_, c₁, h₁⟩, read, rfl, here₁⟩ := reference?_eq_some proper keys behind
  have plain {ch : Char} {tail : List Char} (first : c.rest.drop 1 = ch :: tail) : ch = '.' ∨ isKeyStart ch = true := by
    obtain ⟨ch', tail', letters, start⟩ := exists_of_proper proper
    rw [here, letters] at first
    cases first
    exact start
  unfold tag
  split
  case h_13 =>
    rw [read]
    exact .ok ⟨⟨_, rfl, fun _ => rfl, fun _ => rfl⟩, here₁⟩
  all_goals
    next first => exact absurd (plain first) (by decide)

theorem tag_reference {path : Path} {list : List String} (inline : (Step.reference path list).Inline) (rest : List Char) :
    TagGives (Print.reference path list ++ rest) (some (.reference path list)) [] rest := by
  obtain ⟨proper, keys, kept⟩ := inline
  have text : Print.reference path list ++ rest =
      '\x7b' :: (path.text.toList ++ (Print.filters (list ++ [declineFilter]) ++ '\x7d' :: rest)) := by
    simp [Print.reference]
  have all : ∀ f ∈ list ++ [declineFilter], IsKey f := by
    simpa [or_imp, forall_and] using ⟨keys, isKey_declineFilter⟩
  have read := tag_filtered _ proper all rest
  rwa [effectiveFilters_decline kept, ← text] at read

theorem tag_partial {write : Float → List Char} (reads : ∀ x, Readable x → Positional (write x) ∧
    Decimal.Numeral.float? (write x) = some x) {name : PartialName Body} {own : Option Path} {list : List (String × Operand Body)}
    (canonical : name.Canonical) (fitted : Fitted own list) (rest : List Char) :
    TagGives (Print.step write (.partialTag name own list) ++ rest) (some (.partialTag name own list)) [] rest := by
  have text : Print.step write (.partialTag name own list) ++ rest = '\x7b' :: '>' ::
      (Print.partialName name ++ (Print.context own ++ (Print.params write list ++ ('/' :: '\x7d' :: rest)))) := by
    simp [Print.step, Print.opening]
  rw [text]
  rintro ⟨_, offset, line, start⟩ more here
  cases here
  unfold tag
  refine .bind (partialTag_yields (c := skip 2 _) (P := (PartialName.ofPieces · = name)) (Q := (operands · = list))
    fitted.proper (by cases name <;> exact ⟨_, rfl⟩) (fun c rest here => partialName_yields canonical here)
    (spaced_params write list) (fun c here => params_yields reads fitted.keys fitted.canonical (.inl rfl) here) rfl) ?_
  rintro ⟨_, c₁, h₁⟩ ⟨⟨pieces, params, rfl, rfl, rfl⟩, here₁⟩
  exact .ok ⟨⟨_, rfl, fun _ => rfl, fun _ => rfl⟩, here₁⟩

namespace Compiles

variable {input rest : List Char} {b : Body} {table : List (String × Body)} {stop : Stop}

theorem sourceEnd : Compiles [] [] [] .sourceEnd [] := by
  intro c here
  unfold Cursor.nodes
  rw [dif_pos here]
  exact .ok ⟨⟨fun _ => rfl, fun _ => rfl⟩, rfl, here⟩

theorem stopped {tail : List Char} (tag : ∀ (c : Cursor) (more : c.rest ≠ []), c.rest = '\x7b' :: tail →
    Yields (c.tag more) (Read.Is (.stop stop) rest)) : Compiles ('\x7b' :: tail) [] [] stop rest := by
  intro c here
  have more : c.rest ≠ [] := by simp [here]
  have brace : c.startsWith "\x7b" = true := startsWith_iff.mpr ⟨tail, here.symm⟩
  unfold Cursor.nodes
  rw [dif_neg more, if_pos brace]
  refine .bind (tag c more here) ?_
  rintro ⟨_, c₁, h₁⟩ ⟨rfl, here₁⟩
  exact .ok ⟨⟨fun _ => rfl, fun _ => rfl⟩, rfl, here₁⟩

theorem tagged {tail more : List Char} {s : Option Step} {table' : List (String × Body)}
    (tag : TagGives ('\x7b' :: tail) s table' more) (next : Compiles more b table stop rest) :
    Compiles ('\x7b' :: tail) (s.elim b (·.prepend b)) (table' ++ table) stop rest := by
  intro c here
  have more : c.rest ≠ [] := by simp [here]
  have brace : c.startsWith "\x7b" = true := startsWith_iff.mpr ⟨tail, here.symm⟩
  unfold Cursor.nodes
  rw [dif_neg more, if_pos brace]
  refine .bind (tag c more here) ?_
  rintro ⟨_, c₁, h₁⟩ ⟨⟨n, rfl, makes⟩, here₁⟩
  refine .bind (next c₁ here₁) ?_
  rintro ⟨nodes, _, c₂, h₂, h₂'⟩ ⟨all, same, here₂⟩
  exact .ok ⟨.cons makes all, same, here₂⟩

omit stop in
theorem textLength_cons_of_ne {d : Char} {tail : List Char} (h : textLength (d :: tail) ≠ 0) :
    textLength (d :: tail) = textLength tail + 1 := by
  rw [textLength]
  · rintro rfl
    exact h rfl
  · rintro rfl
    exact h rfl
  · rintro l rfl rfl
    exact h rfl

omit stop in
/-- A run of plain text is one node. -/
theorem nodes_text {c : Cursor} {ch : Char} {tail : List Char} (here : c.rest = ch :: tail)
    (plain : textLength (ch :: tail) = textLength tail + 1) {Q : List Node → Stop → List Char → Prop} :
    (Yields c.nodes fun r => Q r.nodes r.stop r.cursor.rest) ↔
      Yields (c.walk (textLength tail + 1)).nodes fun r =>
        Q (.piece (.text (c.text (textLength tail + 1))) :: r.nodes) r.stop r.cursor.rest := by
  have more : c.rest ≠ [] := by simp [here]
  have brace : c.startsWith "\x7b" = false := by
    have ne : '\x7b' ≠ ch := by
      rintro rfl
      cases plain
    simp [startsWith, here, List.isPrefixOf, ne]
  have read : c.textOrBreak more = ⟨.piece (.text (c.text (textLength tail + 1))), c.walk (textLength tail + 1),
      forward_walk more (Nat.succ_pos _)⟩ := by
    unfold textOrBreak
    split
    · next nil => exact absurd nil more
    · next first =>
      cases here.symm.trans first
      cases plain
    · next first =>
      cases here.symm.trans first
      cases plain
    · next first =>
      cases here.symm.trans first
      rfl
  rw [Cursor.nodes, dif_neg more, if_neg (by simp [brace]), read]
  constructor
  · intro h
    refine (Yields.bind_iff.mp h).mono ?_
    rintro ⟨nodes, stop, c₁, h₁, h₁'⟩ ⟨_, same, q⟩
    cases same
    exact q
  · intro h
    refine .bind h ?_
    rintro ⟨nodes, stop, c₁, h₁, h₁'⟩ q
    exact .ok q

/-- A character of plain text. -/
theorem char {ch : Char} (plain : ch ≠ '\x7b' ∧ ch ≠ '\n' ∧ ch ≠ '\r') (next : Compiles input b table stop rest) :
    Compiles (ch :: input) ((Step.write (.ofList [ch])).prepend b) table stop rest := by
  intro c here
  have behind : (c.walk 1).rest = input := walk_eq (l := [ch]) here rfl
  have length : textLength (ch :: input) = textLength input + 1 := by
    rw [textLength]
    · exact plain.1
    · exact plain.2.1
    · rintro _ rfl
      exact absurd rfl plain.2.2
  refine (nodes_text (Q := fun nodes stop' rest' => Node.MakeAll nodes ((Step.write (.ofList [ch])).prepend b) table ∧
    stop' = stop ∧ rest' = rest) here length).mpr ?_
  have first : c.text (textLength input + 1) = .ofList [ch] ++ (c.walk 1).text (textLength input) := by
    rw [text, text, here, behind, ← String.ofList_append]
    rfl
  rw [first]
  show Yields ((c.walk 1).walk (textLength input)).nodes _
  by_cases none : textLength input = 0
  · have empty : (c.walk 1).text (textLength input) = "" := by
      rw [none]
      rfl
    rw [empty, none, String.append_empty]
    refine (next _ behind).mono ?_
    rintro r ⟨all, same⟩
    exact ⟨⟨fun w => congrArg (Step.prepend _) (all.body w), all.table⟩, same⟩
  · obtain ⟨d, tail, rfl⟩ : ∃ d tail, input = d :: tail := by
      cases input with
      | nil => exact absurd rfl none
      | cons d tail => exact ⟨d, tail, rfl⟩
    have longer := textLength_cons_of_ne none
    have run := (nodes_text (Q := fun nodes stop' rest' => Node.MakeAll nodes b table ∧ stop' = stop ∧ rest' = rest)
      behind longer).mp (next _ behind)
    rw [longer]
    refine run.mono ?_
    rintro r ⟨all, same⟩
    refine ⟨⟨fun w => ?_, all.table⟩, same⟩
    rw [← all.body w]
    exact Step.prepend_append _ _ _

theorem plain (text : String) (next : Compiles input b table stop rest) :
    Compiles (Print.plain text ++ input) ((Step.write text).prepend b) table stop rest := by
  have chars (l : List Char) : Compiles (l.flatMap Print.plainChar ++ input) ((Step.write (.ofList l)).prepend b) table
      stop rest := by
    induction l with
    | nil => simpa [Step.prepend_empty] using next
    | cons ch l ih =>
      rw [List.flatMap_cons, List.append_assoc, ← List.singleton_append, String.ofList_append, Step.prepend_append]
      unfold Print.plainChar
      split
      · exact tagged (tag_special .leftBrace _) ih
      · exact tagged (tag_special .newline _) ih
      · exact tagged (tag_special .carriageReturn _) ih
      · next brace line return_ => exact char ⟨brace, line, return_⟩ ih
  have all := chars text.toList
  rwa [String.ofList_toList] at all

end Compiles

/-! ### Bodies -/

section

variable (write : Float → List Char)

/-- A program is read where it is printed, whatever comes behind it. -/
def Reads (b : Body) : Prop := ∀ {input rest : List Char} {more : Body} {table : List (String × Body)} {stop : Stop},
  Compiles input more table stop rest →
    Compiles (Print.body write b ++ input) (b.foldr Step.prepend more) table stop rest

/-- Bodies with names, as printed. -/
def namedText (named : List (String × Body)) : List Char :=
  (Print.namedBodies write named).flatMap fun e => '\x7b' :: ':' :: e.1.toList ++ '\x7d' :: e.2

end

variable {write : Float → List Char}

/-- What nodes in bodies make, whether line breaks are kept or not. -/
structure MakeBodies (nodes : Bodies (List Node)) (bodies : Bodies Body) : Prop where
  block : ∀ w, Node.blockBody w nodes.block = bodies.block
  named : ∀ w, Node.namedBodies w nodes.named = bodies.named
  plain : Node.blockInlinePartials nodes.block = [] ∧ Node.namedInlinePartials nodes.named = []

theorem namedBodies_yields {path : Path} (proper : path.Proper) {rest : List Char} (named : List (String × Body))
    (fit : ∀ e ∈ named, IsKey e.1 ∧ Canonical e.2 ∧ Reads write e.2) (name : String) {b : Body} (canonical : Canonical b)
    (reads : Reads write b) {c : Cursor} (here : c.rest = Print.body write b ++ (namedText write named ++
      ('\x7b' :: '/' :: (path.text.toList ++ '\x7d' :: rest)))) :
    Yields (c.namedBodies path.text name) fun r => MakeBodies ⟨none, r.value⟩ ⟨none, (name, b) :: named⟩ ∧
      r.cursor.rest = rest := by
  induction named generalizing name b c with
  | nil =>
    have nodes := reads (Compiles.stopped (tag_close proper)) c here
    rw [canonical.merged] at nodes
    unfold Cursor.namedBodies
    refine .bind nodes ?_
    rintro ⟨nodes, _, c₁, h₁, h₁'⟩ ⟨all, rfl, here₁⟩
    dsimp only
    rw [if_pos rfl]
    refine .ok ⟨⟨fun _ => rfl, fun w => ?_, rfl, ?_⟩, here₁⟩
    · rw [Node.namedBodies, all.body]
      rfl
    · rw [Node.namedInlinePartials, all.plain]
      rfl
  | cons e named ih =>
    obtain ⟨next, b'⟩ := e
    obtain ⟨key, canonical', reads'⟩ := fit _ List.mem_cons_self
    have there : c.rest = Print.body write b ++ ('\x7b' :: ':' :: (next.toList ++ '\x7d' :: (Print.body write b' ++
        (namedText write named ++ ('\x7b' :: '/' :: (path.text.toList ++ '\x7d' :: rest)))))) := by
      rw [here]
      simp [namedText, Print.namedBodies]
    have nodes := reads (Compiles.stopped (tag_separator key)) c there
    rw [canonical.merged] at nodes
    unfold Cursor.namedBodies
    refine .bind nodes ?_
    rintro ⟨nodes, _, c₁, h₁, h₁'⟩ ⟨all, rfl, here₁⟩
    refine .bind (ih (fun e mem => fit e (List.mem_cons_of_mem _ mem)) next canonical' reads' here₁) ?_
    rintro ⟨more, c₂, h₂⟩ ⟨make, here₂⟩
    refine .ok ⟨⟨fun _ => rfl, fun w => ?_, rfl, ?_⟩, here₂⟩
    · rw [Node.namedBodies, all.body, make.named]
    · rw [Node.namedInlinePartials, all.plain]
      exact make.plain.2

/-- A block with nothing but the closing tag behind it. -/
theorem block_yields {path : Path} {input rest : List Char} {b : Body}
    (compiles : Compiles input b [] (.close path.text) rest) {c : Cursor} (here : c.rest = input) :
    Yields (c.bodies path.text) fun r => MakeBodies r.value ⟨some b, []⟩ ∧ r.cursor.rest = rest := by
  unfold Cursor.bodies
  refine .bind (compiles c here) ?_
  rintro ⟨nodes, _, c₁, h₁, h₁'⟩ ⟨all, rfl, here₁⟩
  dsimp only
  rw [if_pos rfl]
  exact .ok ⟨⟨fun w => congrArg some (all.body w), fun _ => rfl, all.plain, rfl⟩, here₁⟩

theorem bodies_yields {path : Path} (proper : path.Proper) {rest : List Char} (named : List (String × Body))
    (fit : ∀ e ∈ named, IsKey e.1 ∧ Canonical e.2 ∧ Reads write e.2) {b : Body} (canonical : Canonical b)
    (reads : Reads write b) {c : Cursor} (here : c.rest = Print.body write b ++ (namedText write named ++
      ('\x7b' :: '/' :: (path.text.toList ++ '\x7d' :: rest)))) :
    Yields (c.bodies path.text) fun r => MakeBodies r.value ⟨some b, named⟩ ∧ r.cursor.rest = rest := by
  cases named with
  | nil =>
    have close : Compiles ('\x7b' :: '/' :: (path.text.toList ++ '\x7d' :: rest)) [] [] (.close path.text) rest :=
      .stopped (tag_close proper)
    have nodes := reads close
    rw [canonical.merged] at nodes
    exact block_yields nodes here
  | cons e named =>
    obtain ⟨next, b'⟩ := e
    obtain ⟨key, canonical', reads'⟩ := fit _ List.mem_cons_self
    have there : c.rest = Print.body write b ++ ('\x7b' :: ':' :: (next.toList ++ '\x7d' :: (Print.body write b' ++
        (namedText write named ++ ('\x7b' :: '/' :: (path.text.toList ++ '\x7d' :: rest)))))) := by
      rw [here]
      simp [namedText, Print.namedBodies]
    have nodes := reads (Compiles.stopped (tag_separator key)) c there
    rw [canonical.merged] at nodes
    unfold Cursor.bodies
    refine .bind nodes ?_
    rintro ⟨nodes, _, c₁, h₁, h₁'⟩ ⟨all, rfl, here₁⟩
    refine .bind (namedBodies_yields proper named (fun e mem => fit e (List.mem_cons_of_mem _ mem)) next canonical' reads'
      here₁) ?_
    rintro ⟨more, c₂, h₂⟩ ⟨make, here₂⟩
    exact .ok ⟨⟨fun w => congrArg some (all.body w), make.named, all.plain, make.plain.2⟩, here₂⟩

variable (write) in
/-- What stands behind an opening tag. -/
def behind (path : Path) (bodies : Bodies Body) (rest : List Char) : List Char :=
  match bodies.block with
  | none => rest
  | some b => Print.body write b ++ (namedText write bodies.named ++
      ('\x7b' :: '/' :: (path.text.toList ++ '\x7d' :: rest)))

theorem enclosed_eq {path : Path} {bodies : Bodies Body} (fit : bodies.Fit) (rest : List Char) :
    Print.enclosed path.text.toList (Print.block? write bodies.block) (Print.namedBodies write bodies.named) ++ rest =
      closing bodies.block.isNone ++ behind write path bodies rest := by
  obtain ⟨block, named⟩ := bodies
  cases block with
  | none =>
    cases fit.block rfl
    rfl
  | some b => simp [Print.enclosed, Print.block?, closing, behind, namedText]

/-- The bodies of a tag, if it has any. -/
theorem behind_yields {α : Type} {head : Head α} {path : Path} (proper : path.Proper) {bodies : Bodies Body}
    (fit : bodies.Fit) (inner : ∀ b, b ∈ bodies.block.toList ++ bodies.named.map (·.2) → Canonical b ∧ Reads write b)
    (closed : head.closed = bodies.block.isNone) (written : head.written = path.text) {c : Cursor} {rest : List Char}
    (here : c.rest = behind write path bodies rest) :
    Yields (if head.closed then pure ⟨.empty, c, .refl c⟩ else c.bodies head.written : Except ParseError (Pass c _))
      fun r => MakeBodies r.value bodies ∧ r.cursor.rest = rest := by
  obtain ⟨block, named⟩ := bodies
  cases block with
  | none =>
    cases fit.block rfl
    rw [closed]
    exact .ok ⟨⟨fun _ => rfl, fun _ => rfl, rfl, rfl⟩, here⟩
  | some b =>
    obtain ⟨canonical, reads⟩ := inner b (by simp)
    rw [closed, written]
    refine bodies_yields proper named (fun e mem => ⟨fit.keys e mem, inner e.2 ?_⟩) canonical reads here
    exact List.mem_append_right _ (List.mem_map_of_mem mem)

/-! ### Tags with bodies -/

variable (reads : ∀ x, Readable x → Positional (write x) ∧ Decimal.Numeral.float? (write x) = some x)

include reads

/-- An opening tag with what it encloses. -/
theorem opened_yields {α : Type} {name : (c : Cursor) → Except ParseError (Read c α)} {value : α} (path : Path)
    (named : ∀ {c : Cursor} {rest : List Char}, c.rest = path.text.toList ++ rest → pathEnds rest = true →
      Yields (name c) (Read.Is value rest)) (proper : path.Proper) {own : Option Path}
    {list : List (String × Operand Body)} (fitted : Fitted own list) {bodies : Bodies Body} (fit : bodies.Fit)
    (inner : ∀ b, b ∈ bodies.block.toList ++ bodies.named.map (·.2) → Canonical b ∧ Reads write b) {c : Cursor}
    {rest : List Char} (here : c.rest = path.text.toList ++ (Print.context own ++ (Print.params write list ++
      (Print.enclosed path.text.toList (Print.block? write bodies.block) (Print.namedBodies write bodies.named) ++ rest)))) :
    Yields (c.head name) fun r => r.value.name = value ∧ r.value.context = own ∧ operands r.value.params = list ∧
      Yields (if r.value.closed then pure ⟨.empty, r.cursor, .refl r.cursor⟩ else r.cursor.bodies r.value.written :
        Except ParseError (Pass r.cursor _)) fun r => MakeBodies r.value bodies ∧ r.cursor.rest = rest := by
  rw [enclosed_eq fit] at here
  refine (head_yields (P := (operands · = list)) named (solid_of_proper proper) fitted.proper
    (spaced_params write list) (fun c here => params_yields reads fitted.keys fitted.canonical (tagEnds_closing _) here) here).mono ?_
  rintro ⟨head, c₁, h₁⟩ ⟨is, here₁⟩
  exact ⟨is.name, is.context, is.params,
    behind_yields proper fit inner is.closed (is.written.trans String.ofList_toList) here₁⟩

omit reads in
/-- A section is read where its opening tag and what it encloses are. -/
theorem tag_of_opened {kind : SectionKind} {key : Path} {own : Option Path} {list : List (String × Operand Body)}
    {bodies : Bodies Body} {input rest : List Char} (opened : ∀ c : Cursor, c.rest = input → Yields (c.head Cursor.path)
      fun r => r.value.name = key ∧ r.value.context = own ∧ operands r.value.params = list ∧
        Yields (if r.value.closed then pure ⟨.empty, r.cursor, .refl r.cursor⟩ else r.cursor.bodies r.value.written :
          Except ParseError (Pass r.cursor _)) fun r => MakeBodies r.value bodies ∧ r.cursor.rest = rest) :
    TagGives ('\x7b' :: Print.sigil kind :: input) (some (.sectionTag kind key own list bodies)) [] rest := by
  rintro ⟨_, offset, line, start⟩ more here
  cases here
  have read : Yields (sectionTag ⟨_, offset, line, start⟩ more kind) fun r =>
      (∃ n : Node, r.value = .node n ∧ n.Makes (some (.sectionTag kind key own list bodies)) []) ∧
        r.cursor.rest = rest := by
    unfold sectionTag
    refine .bind (opened (skip 2 _) (by rw [skip_rest]; rfl)) ?_
    rintro ⟨head, c₁, h₁⟩ ⟨name, context, params, within⟩
    dsimp only at name context params
    refine .ite_bind within ?_
    rintro ⟨⟨block, named⟩, c₂, h₂⟩ ⟨make, here₂⟩
    refine .ok ⟨⟨_, rfl, fun w => ?_, fun w => ?_⟩, here₂⟩
    · rw [Node.step?, make.block, make.named, name, context, params]
    · rw [Node.inlinePartials, make.plain.1, make.plain.2]
      rfl
  unfold tag
  cases kind <;> exact read

theorem tag_section {kind : SectionKind} {key : Path} {own : Option Path} {list : List (String × Operand Body)}
    {bodies : Bodies Body} (proper : key.Proper) (fitted : Fitted own list) (fit : bodies.Fit)
    (inner : ∀ b, b ∈ bodies.block.toList ++ bodies.named.map (·.2) → Canonical b ∧ Reads write b) (rest : List Char) :
    TagGives (Print.step write (.sectionTag kind key own list bodies) ++ rest)
      (some (.sectionTag kind key own list bodies)) [] rest := by
  have text : Print.step write (.sectionTag kind key own list bodies) ++ rest = '\x7b' :: Print.sigil kind ::
      (key.text.toList ++ (Print.context own ++ (Print.params write list ++ (Print.enclosed key.text.toList
        (Print.block? write bodies.block) (Print.namedBodies write bodies.named) ++ rest)))) := by
    simp [Print.step, Print.opening]
  rw [text]
  exact tag_of_opened fun c here =>
    opened_yields reads key (fun here ends => path_yields key proper here ends) proper fitted fit inner here

/-- A key as a path. -/
def keyPath (name : String) : Path := ⟨false, [.key name]⟩

omit reads in
theorem text_keyPath (name : String) : (keyPath name).text = name := by
  simp [keyPath, Path.text, Segment.leadingText, Segment.texts]

theorem openedKey_yields {name : String} (key : IsKey name) {own : Option Path} {list : List (String × Operand Body)}
    (fitted : Fitted own list) (bodies : Bodies Body) (fit : bodies.Fit)
    (inner : ∀ b, b ∈ bodies.block.toList ++ bodies.named.map (·.2) → Canonical b ∧ Reads write b) {c : Cursor}
    {rest : List Char} (here : c.rest = name.toList ++ (Print.context own ++ (Print.params write list ++
      (Print.enclosed name.toList (Print.block? write bodies.block) (Print.namedBodies write bodies.named) ++ rest)))) :
    Yields (c.head Cursor.key) fun r => r.value.name = name ∧ r.value.context = own ∧ operands r.value.params = list ∧
      Yields (if r.value.closed then pure ⟨.empty, r.cursor, .refl r.cursor⟩ else r.cursor.bodies r.value.written :
        Except ParseError (Pass r.cursor _)) fun r => MakeBodies r.value bodies ∧ r.cursor.rest = rest := by
  have text := text_keyPath name
  refine opened_yields reads (keyPath name) (fun here ends => ?_) ⟨key, trivial⟩ fitted fit inner ?_
  · rw [text] at here
    exact key_yields here key (not_keyChar_of_ends ends)
  · rw [here, text]

theorem tag_helper {name : String} {own : Option Path} {list : List (String × Operand Body)} {bodies : Bodies Body}
    (key : IsKey name) (fitted : Fitted own list) (fit : bodies.Fit)
    (inner : ∀ b, b ∈ bodies.block.toList ++ bodies.named.map (·.2) → Canonical b ∧ Reads write b) (rest : List Char) :
    TagGives (Print.step write (.helperTag name own list bodies) ++ rest) (some (.helperTag name own list bodies)) []
      rest := by
  have text : Print.step write (.helperTag name own list bodies) ++ rest = '\x7b' :: '@' :: (name.toList ++
      (Print.context own ++ (Print.params write list ++ (Print.enclosed name.toList (Print.block? write bodies.block)
        (Print.namedBodies write bodies.named) ++ rest)))) := by
    simp [Print.step, Print.opening]
  rw [text]
  rintro ⟨_, offset, line, start⟩ more here
  cases here
  unfold tag
  refine .bind (openedKey_yields (c := skip 2 _) reads key fitted bodies fit inner rfl) ?_
  rintro ⟨head, c₁, h₁⟩ ⟨name, context, params, within⟩
  dsimp only at name context params
  refine .ite_bind within ?_
  rintro ⟨⟨block, named⟩, c₂, h₂⟩ ⟨make, here₂⟩
  refine .ok ⟨⟨_, rfl, fun w => ?_, fun w => ?_⟩, here₂⟩
  · rw [Node.step?, make.block, make.named, name, context, params]
  · rw [Node.inlinePartials, make.plain.1, make.plain.2]
    rfl

theorem tag_slot {name : String} {default : Option Body} (key : IsKey name)
    (inner : ∀ b, b ∈ default.toList → Canonical b ∧ Reads write b) (rest : List Char) :
    TagGives (Print.step write (.slot name default) ++ rest) (some (.slot name default)) [] rest := by
  have text : Print.step write (.slot name default) ++ rest = '\x7b' :: '+' :: (name.toList ++
      (Print.context none ++ (Print.params write [] ++ (Print.enclosed name.toList (Print.block? write default)
        (Print.namedBodies write []) ++ rest)))) := by
    simp [Print.step, Print.opening, Print.namedBodies]
  rw [text]
  rintro ⟨_, offset, line, start⟩ more here
  cases here
  unfold tag
  refine .bind (openedKey_yields (c := skip 2 _) reads key fitted_nothing ⟨default, []⟩
    (.block_only _) (by simpa using inner) rfl) ?_
  rintro ⟨head, c₁, h₁⟩ ⟨name, context, params, within⟩
  dsimp only at name
  refine .ite_bind within ?_
  rintro ⟨⟨block, named⟩, c₂, h₂⟩ ⟨make, here₂⟩
  refine .ok ⟨⟨_, rfl, fun w => ?_, fun w => ?_⟩, here₂⟩
  · rw [Node.step?, make.block, name]
  · rw [Node.inlinePartials, make.plain.1]
    rfl

theorem tag_inlinePartial {name : String} {b : Body} (key : IsKey name) (canonical : Canonical b)
    (here : Reads write b) (rest : List Char) :
    TagGives (Print.inlinePartial write name b ++ rest) none [(name, b)] rest := by
  have text : Print.inlinePartial write name b ++ rest = '\x7b' :: '<' :: (name.toList ++
      (Print.context none ++ (Print.params write [] ++ (Print.enclosed name.toList (Print.block? write (some b))
        (Print.namedBodies write []) ++ rest)))) := by
    simp [Print.inlinePartial, Print.opening, Print.namedBodies, Print.block?]
  rw [text]
  rintro ⟨_, offset, line, start⟩ more there
  cases there
  unfold tag
  refine .bind (openedKey_yields (c := skip 2 _) reads key fitted_nothing ⟨some b, []⟩
    (.block_only _) (by simpa using ⟨canonical, here⟩) rfl) ?_
  rintro ⟨head, c₁, h₁⟩ ⟨name, context, params, within⟩
  dsimp only at name
  refine .ite_bind within ?_
  rintro ⟨⟨block, named⟩, c₂, h₂⟩ ⟨make, here₂⟩
  refine .ok ⟨⟨_, rfl, fun w => rfl, fun w => ?_⟩, here₂⟩
  cases block with
  | none => exact absurd (make.block w) nofun
  | some nodes =>
    have plain : Node.allInlinePartials nodes = [] := make.plain.1
    have same : Node.body w nodes = b := Option.some.inj (make.block w)
    rw [Option.getD_some, Node.inlinePartials, plain, List.nil_append, List.map_singleton, same, name]

/-! ### Programs -/

theorem compiles_step {s : Step} (fit : s.Fit) (inner : ∀ b ∈ s.inner, Canonical b ∧ Reads write b)
    {input rest : List Char} {b : Body} {table : List (String × Body)} {stop : Stop}
    (next : Compiles input b table stop rest) :
    Compiles (Print.step write s ++ input) (s.prepend b) table stop rest := by
  cases s with
  | write text => exact next.plain text
  | reference path list => exact .tagged (tag_reference fit input) next
  | sectionTag kind key own list bodies =>
    exact .tagged (tag_section reads fit.1 fit.2.1 fit.2.2 inner input) next
  | helperTag name own list bodies =>
    exact .tagged (tag_helper reads fit.1 fit.2.1 fit.2.2 inner input) next
  | partialTag name own list => exact .tagged (tag_partial reads fit.1 fit.2 input) next
  | slot name default => exact .tagged (tag_slot reads fit inner input) next

/-- A program that comes from a source is read back from where it is printed. -/
theorem reads_of_canonical {b : Body} (canonical : Canonical b) : Reads write b := by
  induction canonical with
  | nil => exact fun next => next
  | @cons s rest fit inner _ _ ih ih' =>
    intro input rest' more table stop next
    rw [Print.body, List.append_assoc]
    exact compiles_step reads fit (fun b mem => ⟨inner b mem, ih b mem⟩) (ih' next)

theorem compiles_table (table : List (String × Body)) (fit : ∀ e ∈ table, IsKey e.1 ∧ Canonical e.2) :
    Compiles (table.flatMap fun e => Print.inlinePartial write e.1 e.2) [] table .sourceEnd [] := by
  induction table with
  | nil => exact .sourceEnd
  | cons e table ih =>
    obtain ⟨key, canonical⟩ := fit e List.mem_cons_self
    rw [List.flatMap_cons]
    exact .tagged (tag_inlinePartial reads key canonical (reads_of_canonical reads canonical) _)
      (ih fun e mem => fit e (List.mem_cons_of_mem _ mem))

end Cursor

/-- What a source compiles to is what its nodes make. -/
theorem Cursor.Compiles.compile {source : String} {b : Body} {table : List (String × Body)}
    (compiles : Compiles source.toList b table .sourceEnd []) (name : Option String) (whitespace : Bool) :
    Template.compile source name whitespace = .ok ⟨name, b, Dict.ofList table⟩ := by
  obtain ⟨⟨nodes, _, c, h, h'⟩, read, all, rfl, -⟩ := compiles (.start source) rfl
  have parsed : Node.ofSource source = .ok nodes := by
    unfold Node.ofSource
    rw [read]
    rfl
  unfold Template.compile Template.ofNodes
  rw [parsed]
  dsimp only
  rw [all.body, all.table]

theorem compile_print {t : Template} (canonical : t.Canonical) {write : Float → List Char}
    (reads : ∀ x, Readable x → Positional (write x) ∧ Decimal.Numeral.float? (write x) = some x) (whitespace : Bool) :
    Template.compile (t.print write) t.name whitespace = .ok t := by
  have read := Cursor.reads_of_canonical reads canonical.body (Cursor.compiles_table reads t.blocks canonical.table)
  rw [canonical.body.merged, ← String.toList_ofList (l := _ ++ _)] at read
  rw [Template.print, read.compile, Dict.ofList_of_sorted canonical.sorted]

end Stencil
