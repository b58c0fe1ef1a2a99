import Stencil.Proofs.Render.Meaning
import Stencil.Proofs.Render.Rounds
import Stencil.Proofs.Source.Reading
import Stencil.Proofs.Source.Rereading

/-! Text outside tags. A brace is plain text if no sigil and no reference stands behind it. A source with no other braces
    compiles to its own text, or to the text without its line breaks and the blanks behind them, and this is what a render
    gives, whatever the scope, the engine and the world are. -/

namespace Stencil

/-- The characters that make a tag of a brace before them, whatever comes behind. -/
def sigils : List Char := ['!', '\x60', '~', '#', '?', '^', '@', '+', '<', '>', '/', ':']

/-- A reference behind its opening brace: a path, the filters and the closing brace. -/
def IsReference (text : List Char) : Prop :=
  ∃ (s : PathSpelling) (filters : List String), (∀ f ∈ filters, IsKey f) ∧ text = s.chars ++ (Print.filters filters ++ ['\x7d'])

/-- What stands behind a brace makes no tag of it: it starts neither with a sigil nor with a reference. -/
def Harmless (rest : List Char) : Prop :=
  (∀ ch ∈ rest.head?, ch ∉ sigils) ∧ ∀ text, IsReference text → ¬ text <+: rest

/-- No brace starts a tag. -/
def Transparent (source : List Char) : Prop :=
  ∀ front rest, source = front ++ '\x7b' :: rest → Harmless rest

theorem Transparent.behind {source rest : List Char} (h : Transparent source) (suffix : rest <:+ source) :
    Transparent rest := by
  obtain ⟨front, rfl⟩ := suffix
  exact fun front' rest' same => h (front ++ front') rest' (by rw [same, List.append_assoc])

/-- A text without its line breaks and the blanks that directly follow them. -/
def unbroken : List Char → List Char
  | [] => []
  | '\n' :: rest => unbroken (rest.dropWhile Text.isBlank)
  | '\r' :: '\n' :: rest => unbroken (rest.dropWhile Text.isBlank)
  | ch :: rest => ch :: unbroken rest
termination_by text => text.length
decreasing_by
  · exact Nat.lt_succ_of_le (List.length_dropWhile_le ..)
  · exact Nat.lt_succ_of_le (Nat.le_succ_of_le (List.length_dropWhile_le ..))
  · exact Nat.lt_succ_self _

/-- What is kept of a text: all of it, or all but the line breaks and the blanks behind them. -/
def keptText (whitespace : Bool) (text : List Char) : List Char :=
  if whitespace then text else unbroken text

/-! ### Deciding it -/

theorem Cursor.reference?_isSome_iff {c : Cursor} :
    c.reference?.isSome = true ↔ ∃ text, IsReference text ∧ text <+: c.rest := by
  constructor
  · intro read
    obtain ⟨r, read⟩ := Option.isSome_iff_exists.mp read
    obtain ⟨s, list, -, keys, letters⟩ := spelled_of_reference? read
    exact ⟨_, ⟨s, list, keys, rfl⟩, r.cursor.rest, by simp [letters]⟩
  · rintro ⟨_, ⟨s, list, keys, rfl⟩, rest, letters⟩
    have here : c.rest = s.chars ++ (Print.filters list ++ '\x7d' :: rest) := by simp [← letters]
    obtain ⟨r, read, -⟩ := reference?_spelled s keys here
    exact Option.isSome_iff_exists.mpr ⟨r, read⟩

instance (rest : List Char) : Decidable (Harmless rest) :=
  decidable_of_iff (rest.head?.all (fun ch => !sigils.contains ch) = true ∧
      (Cursor.reference? ⟨rest, 0, 0, 0⟩).isSome = false)
    (and_congr (by simp [Option.all_eq_true]) (by
      rw [Bool.eq_false_iff, ne_eq, Cursor.reference?_isSome_iff]
      simp))

theorem transparent_cons {ch : Char} {rest : List Char} :
    Transparent (ch :: rest) ↔ (ch = '\x7b' → Harmless rest) ∧ Transparent rest := by
  constructor
  · exact fun h => ⟨fun brace => h [] rest (by rw [brace]; rfl), h.behind (List.suffix_cons _ _)⟩
  · rintro ⟨first, others⟩ front rest' same
    cases front with
    | nil =>
      obtain ⟨brace, rfl⟩ := List.cons.inj same
      exact first brace
    | cons _ front => exact others front rest' (List.cons.inj same).2

instance decidableTransparent : (source : List Char) → Decidable (Transparent source)
  | [] => .isTrue fun _ _ same => absurd same.symm (List.append_ne_nil_of_right_ne_nil _ (List.cons_ne_nil _ _))
  | _ :: rest =>
    have := decidableTransparent rest
    decidable_of_iff _ transparent_cons.symm

/-! ### What is kept -/

theorem unbroken_of_break {text : List Char} (h : ∃ rest, text = '\n' :: rest ∨ text = '\r' :: '\n' :: rest) :
    unbroken text = unbroken (text.dropWhile Text.isBlank) := by
  have line : Text.isBlank '\n' = true := by decide
  have return_ : Text.isBlank '\r' = true := by decide
  obtain ⟨rest, rfl | rfl⟩ := h
  · rw [unbroken, List.dropWhile_cons_of_pos line]
  · rw [unbroken, List.dropWhile_cons_of_pos return_, List.dropWhile_cons_of_pos line]

theorem keptText_of_break (whitespace : Bool) {text : List Char}
    (h : ∃ rest, text = '\n' :: rest ∨ text = '\r' :: '\n' :: rest) :
    keptText whitespace text = (if whitespace then text.takeWhile Text.isBlank else []) ++
      keptText whitespace (text.dropWhile Text.isBlank) := by
  cases whitespace
  · exact unbroken_of_break h
  · exact List.takeWhile_append_dropWhile.symm

theorem keptText_brace (whitespace : Bool) (rest : List Char) :
    keptText whitespace ('\x7b' :: rest) = '\x7b' :: keptText whitespace rest := by
  cases whitespace
  · show unbroken _ = '\x7b' :: unbroken rest
    rw [unbroken]
    · decide
    · exact fun _ same => absurd same (by decide)
  · rfl

/-- A run of plain text holds no line break. -/
theorem unbroken_plain (text : List Char) :
    unbroken text = text.take (Cursor.textLength text) ++ unbroken (text.drop (Cursor.textLength text)) := by
  induction text with
  | nil => rfl
  | cons ch tail ih =>
    by_cases none : Cursor.textLength (ch :: tail) = 0
    · rw [none]
      rfl
    · have plain : unbroken (ch :: tail) = ch :: unbroken tail := by
        rw [unbroken]
        · rintro rfl
          exact none rfl
        · rintro _ rfl rfl
          exact none rfl
      rw [Cursor.Compiles.textLength_cons_of_ne none, plain, ih]
      rfl

theorem keptText_plain (whitespace : Bool) (text : List Char) :
    keptText whitespace text = text.take (Cursor.textLength text) ++
      keptText whitespace (text.drop (Cursor.textLength text)) := by
  cases whitespace
  · exact unbroken_plain text
  · exact (List.take_append_drop _ text).symm

/-! ### The tree and the program -/

/-- The nodes write what is kept of a text, and leave nothing for the table. -/
structure Node.Plainly (nodes : List Node) (text : List Char) : Prop where
  body : ∀ whitespace, Node.body whitespace nodes = (Step.write (.ofList (keptText whitespace text))).prepend []
  table : Node.allInlinePartials nodes = []

/-- A node that writes a text goes first. -/
theorem Node.Plainly.cons {n : Node} {nodes : List Node} {text more : List Char} (rest : Node.Plainly nodes more)
    (front : Bool → List Char) (step : ∀ whitespace, n.step? whitespace = some (.write (.ofList (front whitespace))) ∨
      n.step? whitespace = none ∧ front whitespace = []) (table : n.inlinePartials = [])
    (kept : ∀ whitespace, keptText whitespace text = front whitespace ++ keptText whitespace more) :
    Node.Plainly (n :: nodes) text where
  body whitespace := by
    rw [Node.body, rest.body, kept, String.ofList_append, Step.prepend_append]
    rcases step whitespace with writes | ⟨nothing, empty⟩
    · rw [writes]
    · rw [nothing, empty]
      exact (Step.prepend_empty _).symm
  table := by rw [Node.allInlinePartials, table, rest.table, List.append_nil]

namespace Cursor

/-- A brace with neither a sigil nor a reference behind it is plain text. -/
theorem tag_of_transparent {c : Cursor} {tail : List Char} (here : c.rest = '\x7b' :: tail) (more : c.rest ≠ [])
    (h : Transparent c.rest) : Yields (c.tag more) (Read.Is (.node brace) tail) := by
  obtain ⟨free, apart⟩ := h [] tail here
  have behind : (c.skip 1).rest = tail := skip_eq (l := ['\x7b']) here rfl
  have read : (c.skip 1).reference? = none := Option.not_isSome_iff_eq_none.mp fun read => by
    obtain ⟨text, isReference, front⟩ := reference?_isSome_iff.mp read
    exact apart text isReference (behind ▸ front)
  have plain {ch : Char} {rest : List Char} (first : c.rest.drop 1 = ch :: rest) : ch ∉ sigils := by
    rw [here] at first
    exact free ch (by rw [show tail = _ from first]; rfl)
  unfold tag
  split
  case h_13 =>
    rw [read]
    exact .ok ⟨rfl, behind⟩
  all_goals
    next first => exact absurd (by decide) (plain first)

/-- Where no tag starts there is a line break with the blanks behind it, or a run of plain text. -/
theorem textOrBreak_cases {c : Cursor} (more : c.rest ≠ []) (other : c.startsWith "\x7b" = false) :
    (∃ rest, c.rest = '\n' :: rest ∨ c.rest = '\r' :: '\n' :: rest) ∧
      (c.textOrBreak more).value = .lineBreak (.ofList (c.rest.takeWhile Text.isBlank)) ∧
      (c.textOrBreak more).cursor.rest = c.rest.dropWhile Text.isBlank ∨
    (c.textOrBreak more).value = .piece (.text (.ofList (c.rest.take (textLength c.rest)))) ∧
      (c.textOrBreak more).cursor.rest = c.rest.drop (textLength c.rest) := by
  have broken (blank : c.sees Text.isBlank = true) : (c.lineBreak blank).value =
        .lineBreak (.ofList (c.rest.takeWhile Text.isBlank)) ∧
      (c.lineBreak blank).cursor.rest = c.rest.dropWhile Text.isBlank := by
    refine ⟨congrArg Node.lineBreak (c.text_run _), (List.append_right_inj (c.rest.takeWhile Text.isBlank)).mp ?_⟩
    exact (c.takeWhile_append_walk _).trans List.takeWhile_append_dropWhile.symm
  unfold textOrBreak
  split
  · next nil => exact absurd nil more
  · next rest first => exact .inl ⟨⟨rest, .inl first⟩, broken _⟩
  · next rest first => exact .inl ⟨⟨rest, .inr first⟩, broken _⟩
  · next ch tail line return_ first =>
    have length : textLength c.rest = textLength tail + 1 := by
      rw [first, textLength]
      · rintro rfl
        rw [startsWith, first] at other
        cases other
      · exact line
      · exact return_
    exact .inr ⟨by rw [length]; rfl, by rw [length]; exact walk_rest _ _⟩

theorem nodes_of_transparent (c : Cursor) (h : Transparent c.rest) :
    Yields c.nodes fun r => r.stop = .sourceEnd ∧ Node.Plainly r.nodes c.rest := by
  unfold Cursor.nodes
  split
  · next nothing =>
    rw [nothing]
    exact .ok ⟨rfl, fun whitespace => by cases whitespace <;> simp [keptText, unbroken, Node.body, Step.prepend_empty], rfl⟩
  · next more =>
    split
    · next brace =>
      obtain ⟨tail, here⟩ := startsWith_iff.mp brace
      refine .bind (tag_of_transparent (show c.rest = '\x7b' :: tail from here.symm) more h) ?_
      rintro ⟨_, c₁, h₁⟩ ⟨rfl, here₁⟩
      have rest : Transparent c₁.rest := here₁ ▸ h.behind ⟨['\x7b'], here⟩
      refine .bind (nodes_of_transparent c₁ rest) ?_
      rintro ⟨nodes, _, c₂, h₂, _⟩ ⟨rfl, plainly⟩
      refine .ok ⟨rfl, plainly.cons (fun _ => ['\x7b']) (fun _ => .inl rfl) rfl fun whitespace => ?_⟩
      rw [← here, here₁]
      exact keptText_brace whitespace tail
    · next other =>
      have cases := textOrBreak_cases more (Bool.eq_false_iff.mpr other)
      generalize c.textOrBreak more = r at cases ⊢
      obtain ⟨node, c₁, h₁⟩ := r
      dsimp only at cases ⊢
      rcases cases with ⟨broken, rfl, there⟩ | ⟨rfl, there⟩
      · have rest : Transparent c₁.rest := there ▸ h.behind (List.dropWhile_suffix _)
        refine .bind (nodes_of_transparent c₁ rest) ?_
        rintro ⟨nodes, _, c₂, h₂, _⟩ ⟨rfl, plainly⟩
        rw [there] at plainly
        refine .ok ⟨rfl, plainly.cons _ (fun whitespace => ?_) rfl fun whitespace => keptText_of_break whitespace broken⟩
        cases whitespace
        · exact .inr ⟨rfl, rfl⟩
        · exact .inl rfl
      · have rest : Transparent c₁.rest := there ▸ h.behind (List.drop_suffix _ _)
        refine .bind (nodes_of_transparent c₁ rest) ?_
        rintro ⟨nodes, _, c₂, h₂, _⟩ ⟨rfl, plainly⟩
        rw [there] at plainly
        exact .ok ⟨rfl, plainly.cons _ (fun _ => .inl rfl) rfl fun whitespace => keptText_plain whitespace c.rest⟩
termination_by c.rest.length
decreasing_by
  · exact h₁
  · exact h₁
  · exact h₁

end Cursor

theorem Template.compile_of_transparent {source : String} (h : Transparent source.toList) (name : Option String)
    (whitespace : Bool) : Template.compile source name whitespace =
      .ok ⟨name, (Step.write (.ofList (keptText whitespace source.toList))).prepend [], []⟩ := by
  obtain ⟨⟨nodes, _, c, _, _⟩, run, rfl, plainly⟩ := Cursor.nodes_of_transparent (.start source) h
  have tree : Node.ofSource source = .ok nodes := by
    rw [Node.ofSource, run]
    rfl
  rw [compile, tree]
  refine congrArg Except.ok ?_
  rw [ofNodes, plainly.body, plainly.table]
  rfl

/-! ### What a render gives -/

/-- The stage in which a stream of an engine begins. -/
def Engine.opening (e : Engine) (w : World) : Stage := { engine := e, host := w.host, render := { config := e.config } }

/-- A render whose one chunk has ended with a text. -/
def Render.ending (config : Config) (text : String) : Render :=
  { config, chunks := ⟨#[{ text, ended := true }], some Chunks.root⟩ }

/-- The render when the text has been handed out. -/
def Render.handed (config : Config) (text : String) : Render :=
  { config
    chunks := ⟨#[{ ended := true }], none⟩
    events := (if text.isEmpty then [] else [.data text]) ++ [.finished]
    progress := .complete }

theorem Render.flush_ending (config : Config) (text : String) : (ending config text).flush = handed config text := by
  have flushed : (ending config text).chunks.flush = (text, ⟨#[{ ended := true }], none⟩) := by
    show (text ++ "", _) = _
    rw [String.append_empty]
    rfl
  unfold Render.flush
  rw [flushed]
  by_cases empty : text.isEmpty = true <;> simp [handed, ending, Chunks.isFlushed, empty]

section

open RenderM Render

variable {e : Engine} {w : World} {job : Job} {text : String} {steps : Nat}

/-- A job that writes a text to its first chunk and does nothing else is done at once. -/
theorem OutputStream.advance_of_written
    (ran : (job.run (exec (steps + 1))).run (side (e.opening w) w.engine "") =
      .ok (.ok (), side (e.opening w) w.engine text)) :
    (OutputStream.new e job).advance (steps + 1) w =
      .ok (w, { OutputStream.new e job with job := none, render := handed e.config text }) := by
  change (job.run (exec (steps + 1))).run { w with render := { config := e.config, writers := [Chunks.root] } } = _ at ran
  have within : (within Chunks.root (job.run (exec (steps + 1)))).run { w with render := { config := e.config } } =
      .ok (.ok (), { w with render := ending e.config text }) := by
    unfold RenderM.within RenderM.enter modifyRender
    rw [run_bind_of_ok (run_modify ..), run_bind, run_attempt, ran]
    rfl
  have started : (start (job.run (exec (steps + 1)))).run { w with render := { config := e.config } } =
      .ok (.ok (), { w with render := handed e.config text }) := by
    unfold start
    rw [run_bind, run_attempt, within, ← flush_ending]
    rfl
  unfold OutputStream.advance OutputStream.work drive
  dsimp only [OutputStream.new]
  have ended : (handed e.config text).progress ≠ .pending := Progress.noConfusion
  rw [run_bind_of_ok started, run_settle_of_ended ended]
  rfl

/-- The text is collected. -/
theorem Collector.poll_of_written
    (ran : (job.run (exec (steps + 2))).run (side (e.opening w) w.engine "") =
      .ok (.ok (), side (e.opening w) w.engine text)) :
    ∃ c, Collector.poll (steps + 2) w { stream := .new e job } = .ok (some (.ok text), w, c) := by
  have advanced := OutputStream.advance_of_written ran
  unfold Collector.poll takeItems OutputStream.pollNext
  rw [if_neg (by simp [OutputStream.new]), advanced]
  by_cases empty : text = ""
  · subst empty
    exact ⟨_, rfl⟩
  · have full : text.isEmpty = false := by simpa using empty
    simp only [OutputStream.nextEvent, handed, full]
    exact ⟨_, by rw [← String.empty_append (s := text)]; rfl⟩

/-- A template that writes one text does so in every scope that is not too deep. -/
theorem Render.run_template_writing {name : Option String} {context : Context}
    (shallow : context.depth ≤ e.config.maxPartialDepth) :
    (Render.template (exec (steps + 1)) ⟨name, (Step.write text).prepend [], []⟩ context).run
      (side (e.opening w) w.engine "") = .ok (.ok (), side (e.opening w) w.engine text) := by
  have limit : ¬ (side (e.opening w) w.engine "").render.config.maxPartialDepth < context.depth := Nat.not_lt.mpr shallow
  unfold Render.template depthLimit
  rw [run_bind_of_ok (run_bind_of_ok (run_get _)), if_neg limit]
  change (((Step.write text).prepend []).forM (Render.step (exec steps) (context.enter _))).run _ = _
  rw [equal_iff.mp (equal_prepend _ _ _ _)]
  refine (run_bind_of_ok (run_write_side (e.opening w) w.engine "" text)).trans ?_
  rw [String.empty_append]
  rfl

end

/-- A source whose braces start no tags compiles under every name and setting. Where line breaks are kept, a render gives
    the source as it is, and where they are not, it gives the source without each line break and the blanks that directly
    follow it. -/
theorem transparent_source_written {source : String} (transparent : Transparent source.toList) :
    (∀ name whitespace, ∃ t, Template.compile source name whitespace = .ok t ∧
      ∀ (e : Engine) (w : World) (context : Context) (steps : Nat), context.depth ≤ e.config.maxPartialDepth →
        ∃ c, Collector.poll (steps + 2) w { stream := e.stream (.template t) context } =
          .ok (some (.ok (if whitespace then source else .ofList (unbroken source.toList))), w, c)) ∧
    ∀ (e : Engine) (w : World) (context : Context) (steps : Nat), context.depth ≤ e.config.maxPartialDepth →
      ∃ c, Collector.poll (steps + 2) w { stream := e.streamSource source context } =
        .ok (some (.ok (if e.config.whitespace then source else .ofList (unbroken source.toList))), w, c) := by
  have kept (whitespace : Bool) : String.ofList (keptText whitespace source.toList) =
      if whitespace then source else .ofList (unbroken source.toList) := by
    cases whitespace
    · rfl
    · exact String.ofList_toList
  have compiled (name : Option String) (whitespace : Bool) := Template.compile_of_transparent transparent name whitespace
  refine ⟨fun name whitespace => ⟨_, compiled name whitespace, fun e w context steps shallow => ?_⟩,
    fun e w context steps shallow => ?_⟩
  · rw [← kept]
    exact Collector.poll_of_written (Render.run_template_writing shallow)
  · rw [← kept]
    unfold Engine.streamSource Engine.compile
    rw [compiled]
    exact Collector.poll_of_written (Render.run_template_writing shallow)

/-- A rule, an object and words in braces, with a lone carriage return, blanks of many kinds and both line breaks. -/
def bracedSource : String :=
  "p \x7b color: red; \x7d\r\n\u3000\r\t\x7b\"k\": \x7b1\x7d\x7d\r\x7b\x7ba.b[\x7d\n\n end\x7b"

theorem transparent_source_written_bracedSource : Transparent bracedSource.toList ∧ ∃ c c',
    Collector.poll 9 {} { stream := Engine.streamSource { config := { whitespace := true } } bracedSource {} } =
      .ok (some (.ok bracedSource), {}, c) ∧
    Collector.poll 9 {} { stream := Engine.streamSource { config := { whitespace := false } } bracedSource {} } =
      .ok (some (.ok "p \x7b color: red; \x7d\x7b\"k\": \x7b1\x7d\x7d\r\x7b\x7ba.b[\x7dend\x7b"), {}, c') := by
  have transparent : Transparent bracedSource.toList := by decide +kernel
  have text : String.ofList (unbroken bracedSource.toList) =
      "p \x7b color: red; \x7d\x7b\"k\": \x7b1\x7d\x7d\r\x7b\x7ba.b[\x7dend\x7b" := by decide +kernel
  obtain ⟨-, written⟩ := transparent_source_written transparent
  obtain ⟨c, kept⟩ := written { config := { whitespace := true } } {} {} 7 (by decide)
  obtain ⟨c', dropped⟩ := written { config := { whitespace := false } } {} {} 7 (by decide)
  exact ⟨transparent, c, c', kept, text ▸ dropped⟩

end Stencil
