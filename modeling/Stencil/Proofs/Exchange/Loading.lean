import Stencil.Proofs.Exchange.Programs

/-! Programs kept as text and loaded again: which come back, and that they come back the same. -/

namespace Stencil

open Json Cursor

/-! ### Comparing a program with itself -/

namespace Step

mutual

/-- A step is the same as itself, if its numbers are. -/
theorem beq_self : ∀ s : Step, s.toJson.Finite → s.beq s = true
  | .write _, _ => by simp [Step.beq]
  | .reference .., _ => by simp [Step.beq]
  | .sectionTag kind key own list ⟨block, named⟩, finite => by
    obtain ⟨⟨inside, inside'⟩, params⟩ : ((blockToJson block).Finite ∧ (Json.array (namedToJson named)).Finite) ∧
        (Json.array (paramsToJson list)).Finite := by
      simp only [toJson, Form.variant, finite_object_cons] at finite
      tauto
    simp [Step.beq, beqParams_self list params, beqBlock_self block inside, beqNamed_self named inside']
  | .helperTag name own list ⟨block, named⟩, finite => by
    obtain ⟨⟨inside, inside'⟩, params⟩ : ((blockToJson block).Finite ∧ (Json.array (namedToJson named)).Finite) ∧
        (Json.array (paramsToJson list)).Finite := by
      simp only [toJson, Form.variant, finite_object_cons] at finite
      tauto
    simp [Step.beq, beqParams_self list params, beqBlock_self block inside, beqNamed_self named inside']
  | .partialTag (.static _) own list, finite => by
    have params : (Json.array (paramsToJson list)).Finite := by
      simp only [toJson, Form.variant, finite_object_cons] at finite
      tauto
    simp [Step.beq, beqParams_self list params]
  | .partialTag (.dynamic body) own list, finite => by
    obtain ⟨inside, params⟩ : (Json.array (toJsons body)).Finite ∧ (Json.array (paramsToJson list)).Finite := by
      simp only [toJson, Form.variant, finite_object_cons] at finite
      tauto
    simp [Step.beq, beqParams_self list params, beqAll_self body inside]
  | .slot name default, finite => by
    have inside : (blockToJson default).Finite := by
      simp only [toJson, Form.variant, finite_object_cons] at finite
      tauto
    simp [Step.beq, beqBlock_self default inside]

theorem beqAll_self : ∀ l : List Step, (Json.array (toJsons l)).Finite → beqAll l l = true
  | [], _ => by simp [beqAll]
  | s :: rest, finite => by
    obtain ⟨first, others⟩ := finite_array_cons.mp finite
    simp [beqAll, beq_self s first, beqAll_self rest others]

theorem beqBlock_self : ∀ o : Option (List Step), (blockToJson o).Finite → beqBlock o o = true
  | none, _ => by simp [beqBlock]
  | some body, finite => by simp [beqBlock, beqAll_self body finite]

theorem beqNamed_self : ∀ l : List (String × List Step), (Json.array (namedToJson l)).Finite → beqNamed l l = true
  | [], _ => by simp [beqNamed]
  | (name, body) :: rest, finite => by
    obtain ⟨first, others⟩ := finite_array_cons.mp finite
    simp [beqNamed, beqAll_self body (finite_array_cons.mp (finite_array_cons.mp first).2).1, beqNamed_self rest others]

theorem beqParams_self : ∀ l : List (String × Operand (List Step)), (Json.array (paramsToJson l)).Finite →
    beqParams l l = true
  | [], _ => by simp [beqParams]
  | (key, operand) :: rest, finite => by
    obtain ⟨first, others⟩ := finite_array_cons.mp finite
    have inside : (operandToJson operand).Finite := finite_object.mp first ("value", operandToJson operand) (by simp)
    simp [beqParams, beqOperand_self operand inside, beqParams_self rest others]

theorem beqOperand_self : ∀ o : Operand (List Step), (operandToJson o).Finite → beqOperand o o = true
  | .text _, _ => by simp [beqOperand]
  | .int _, _ => by simp [beqOperand]
  | .float x, finite => by simp [beqOperand, beq_self_of_isFinite (finite x (List.mem_singleton_self x))]
  | .path _, _ => by simp [beqOperand]
  | .body body, finite => by
    simp [beqOperand, beqAll_self body (finite_object.mp finite ("Body", .array (toJsons body)) (by simp))]

end

end Step

namespace Template

theorem beq_self {t : Template} (finite : t.toJson.Finite) : t.beq t = true := by
  rw [toJson_eq] at finite
  obtain ⟨-, rest⟩ := finite_object_cons.mp finite
  obtain ⟨body, rest⟩ := finite_object_cons.mp rest
  obtain ⟨blocks, -⟩ := finite_object_cons.mp rest
  rw [finite_object, List.forall_mem_map] at blocks
  have named : (Json.array (Step.namedToJson t.blocks)).Finite := by
    rw [Step.namedToJson_eq, finite_array, List.forall_mem_map]
    intro e mem
    simpa [Step.namedBodyToJson, finite_array] using blocks e mem
  simp [beq, Step.beqAll_self t.body body, Step.beqNamed_self t.blocks named]

/-- A program can be kept as text: its numbers have texts, and the text nests no deeper than the reader follows. -/
def Storable (t : Template) : Prop := t.toJson.Finite ∧ t.toJson.nesting ≤ maxTextNesting

instance (t : Template) : Decidable t.Storable :=
  inferInstanceAs (Decidable (t.toJson.Finite ∧ t.toJson.nesting ≤ maxTextNesting))

theorem Canonical.ofText?_toText {t : Template} (canonical : t.Canonical) (exact : t.toJson.Exact) :
    ofText? t.toText = if t.Storable then some t else none := by
  have restored := canonical.restores
  have read : Json.parse? maxTextNesting t.toText = reading maxTextNesting t.toJson := restored.fair.parse?_text exact _
  show (Json.parse? maxTextNesting t.toText).bind ofJson? = _
  rw [read]
  exact (bind_of_ite rfl restored.reads).trans (if_congr and_comm rfl rfl)

end Template

/-! ### Numbers and nesting -/

/-- A section with a number as its parameter. -/
def numbering (text : List Char) : String := "\x7b#a x=" ++ .ofList text ++ "/\x7d"

/-- What such a section compiles to. -/
def numbered (x : Float) : Template := ⟨none, [.sectionTag .iterate (keyPath "a") none [("x", .float x)] .empty], []⟩

theorem canonical_numbered {x : Float} (readable : Readable x) : (numbered x).Canonical where
  body := by
    refine .cons ⟨⟨by decide, trivial⟩, ⟨nofun, ?_, ?_⟩, .block_only none⟩ nofun rfl .nil
    · exact List.forall_mem_singleton.mpr (show IsKey "x" by decide)
    · exact List.forall_mem_singleton.mpr readable
  table := nofun
  sorted := .nil

theorem exists_writer : ∃ write : Float → List Char, ∀ x, Readable x →
    Positional (write x) ∧ Decimal.Numeral.float? (write x) = some x := by
  have each (x : Float) : ∃ text, Readable x → Positional text ∧ Decimal.Numeral.float? text = some x := by
    by_cases readable : Readable x
    · exact readable.imp fun text reads _ => reads
    · exact ⟨[], fun is => absurd is readable⟩
  exact Classical.skolem.mp each

theorem compile_numbering {text : List Char} {x : Float} (positional : Positional text)
    (reads : Decimal.Numeral.float? text = some x) (whitespace : Bool) :
    Template.compile (numbering text) none whitespace = .ok (numbered x) := by
  obtain ⟨others, all⟩ := exists_writer
  -- The printer writes this number as the text at hand, and every other number as any text that reads back.
  let write (y : Float) : List Char := if y = x then text else others y
  have here : write x = text := if_pos rfl
  have all' (y : Float) (readable : Readable y) : Positional (write y) ∧ Decimal.Numeral.float? (write y) = some y := by
    by_cases same : y = x
    · rw [same, here]
      exact ⟨positional, reads⟩
    · have there : write y = others y := if_neg same
      rw [there]
      exact all y readable
  have printed : (numbered x).print write = numbering text := by
    rw [← String.toList_inj]
    simp [Template.print, numbered, numbering, Print.body, Print.step, Print.opening, Print.enclosed, Print.block?,
      Print.sigil, Print.context, Print.params, Print.operand, Print.namedBodies, text_keyPath, here, Bodies.empty]
  rw [← printed]
  exact compile_print (canonical_numbered ⟨text, positional, reads⟩) all' whitespace

/-- Sections within each other. -/
def nestedText : Nat → List Char
  | 0 => []
  | depth + 1 => "\x7b#a\x7d".toList ++ nestedText depth ++ "\x7b/a\x7d".toList

theorem nestedText_succ (depth : Nat) :
    nestedText (depth + 1) = "\x7b#a\x7d".toList ++ nestedText depth ++ "\x7b/a\x7d".toList := rfl

/-- What they compile to. -/
def nestedBody : Nat → Body
  | 0 => []
  | depth + 1 => [.sectionTag .iterate (keyPath "a") none [] ⟨some (nestedBody depth), []⟩]

theorem canonical_nestedBody (depth : Nat) : Canonical (nestedBody depth) := by
  induction depth with
  | zero => exact .nil
  | succ depth ih =>
    refine .cons ⟨⟨by decide, trivial⟩, fitted_nothing, .block_only _⟩ (fun b mem => ?_) rfl .nil
    obtain rfl : b = nestedBody depth := by simpa [Step.inner] using mem
    exact ih

theorem print_nestedBody (write : Float → List Char) (depth : Nat) :
    Print.body write (nestedBody depth) = nestedText depth := by
  induction depth with
  | zero =>
    rw [nestedBody, Print.body]
    rfl
  | succ depth ih =>
    simp [nestedBody, nestedText_succ, Print.body, Print.step, Print.opening, Print.enclosed, Print.block?, Print.sigil,
      Print.context, Print.params, Print.namedBodies, text_keyPath, ih]

theorem compile_nested (depth : Nat) (whitespace : Bool) :
    Template.compile (.ofList (nestedText depth)) none whitespace = .ok ⟨none, nestedBody depth, []⟩ := by
  obtain ⟨write, reads⟩ := exists_writer
  have canonical : (Template.mk none (nestedBody depth) []).Canonical := ⟨canonical_nestedBody depth, nofun, .nil⟩
  have printed : (Template.mk none (nestedBody depth) []).print write = .ofList (nestedText depth) := by
    simp [Template.print, print_nestedBody]
  rw [← printed]
  exact compile_print canonical reads whitespace

theorem nesting_nestedBody (depth : Nat) : (Step.bodyToJson (nestedBody (depth + 1))).nesting = 4 * depth + 6 := by
  induction depth with
  | zero => decide
  | succ depth ih =>
    have inner : (Step.blockToJson (some (nestedBody (depth + 1)))).nesting = 4 * depth + 6 := ih
    have path : (keyPath "a").toJson.nesting = 3 := by decide
    show (Json.array [Step.toJson _]).nesting = _
    rw [Step.toJson_section]
    simp only [Form.variant, Step.bodiesToJson, Json.nesting, nesting.nestings, nesting.memberNestings, inner, path,
      Form.nullable, Step.namedToJson, Step.paramsToJson]
    omega

theorem finite_nestedBody (depth : Nat) : (Step.bodyToJson (nestedBody depth)).Finite := by
  induction depth with
  | zero => exact nofun
  | succ depth ih =>
    have inner : (Step.blockToJson (some (nestedBody depth))).Finite := ih
    have path : (keyPath "a").toJson.Finite := by decide
    refine finite_array.mpr (List.forall_mem_singleton.mpr ?_)
    rw [Step.toJson_section]
    simp [Form.variant, Step.bodiesToJson, finite_object, finite_array, inner, path, Form.nullable, Step.namedToJson,
      Step.paramsToJson]

theorem toJson_body (b : Body) : (Template.mk none b []).toJson =
    .object [("name", .null), ("body", Step.bodyToJson b), ("blocks", .object [])] := rfl

/-- Thirty-one sections within each other come back, and no more. -/
theorem storable_nestedBody_iff (depth : Nat) : (Template.mk none (nestedBody depth) []).Storable ↔ depth ≤ 31 := by
  have finite : (Template.mk none (nestedBody depth) []).toJson.Finite := by
    rw [toJson_body]
    simp [finite_object, finite_nestedBody]
  have nesting : (Template.mk none (nestedBody depth) []).toJson.nesting =
      max 1 (Step.bodyToJson (nestedBody depth)).nesting + 1 := by
    rw [toJson_body]
    simp only [Json.nesting, nesting.memberNestings]
    omega
  unfold Template.Storable Template.maxTextNesting
  rw [nesting, and_iff_right finite]
  cases depth with
  | zero => decide
  | succ depth =>
    rw [nesting_nestedBody]
    omega

/-- One half. -/
def half : Float := Decimal.Numeral.nearest false 5 (-1)

theorem compile_half : Template.compile (numbering ['0', '.', '5']) none false = .ok (numbered half) :=
  compile_numbering ⟨[], ['0'], ['5'], rfl, .inr ⟨rfl, List.cons_ne_nil _ _⟩, List.forall_mem_singleton.mpr rfl,
    List.forall_mem_singleton.mpr rfl, List.cons_ne_nil _ _⟩ rfl false

/-- A number beyond all finite ones. -/
def hugeText : List Char := '1' :: List.replicate 400 '0' ++ ['.', '0']

theorem float?_hugeText : Decimal.Numeral.float? hugeText = some (Decimal.Numeral.infinity false) := by decide +kernel

theorem hugeText_positional : Positional hugeText := by
  refine ⟨[], '1' :: List.replicate 400 '0', ['0'], rfl, .inr ⟨rfl, List.cons_ne_nil _ _⟩, ?_,
    List.forall_mem_singleton.mpr rfl, List.cons_ne_nil _ _⟩
  exact List.forall_mem_cons.mpr ⟨rfl, fun ch mem => List.eq_of_mem_replicate mem ▸ rfl⟩

theorem compile_huge :
    Template.compile (numbering hugeText) none false = .ok (numbered (Decimal.Numeral.infinity false)) :=
  compile_numbering hugeText_positional float?_hugeText false

theorem not_loaded_of_compiled {source : String} {t : Template} (compiled : Template.compile source none false = .ok t)
    (flat : ∀ x ∈ t.toJson.floats, x.isFinite = false) (not : ¬ t.Storable) : Template.ofText? t.toText = none := by
  have exact : t.toJson.Exact := fun x mem finite => absurd finite (by simp [flat x mem])
  exact ((canonical_of_compile compiled).1.ofText?_toText exact).trans (if_neg not)

/-! ### Loading -/

/-- What a source compiles to comes back from its text, the same in every part, if its floating-point numbers are finite
    and the text nests no deeper than the reader follows; otherwise the text cannot be loaded. The texts of its finite
    numbers are taken to read back. -/
theorem Template.loaded_iff_storable {source : String} {name : Option String} {whitespace : Bool} {t : Template}
    (compiled : Template.compile source name whitespace = .ok t)
    (exact : ∀ x ∈ t.toJson.floats, x.isFinite = true → ReadsBack x) :
    (t.Storable → ofText? t.toText = some t ∧ t.beq t = true) ∧ (¬ t.Storable → ofText? t.toText = none) := by
  have read := (canonical_of_compile compiled).1.ofText?_toText exact
  exact ⟨fun storable => ⟨read.trans (if_pos storable), beq_self storable.1⟩, fun not => read.trans (if_neg not)⟩

/-- A program with a number that has a text. -/
theorem loaded_iff_storable_half : ∃ t, Template.compile (numbering ['0', '.', '5']) none false = .ok t ∧
    t.toJson.floats = [half] ∧ Template.ofText? t.toText = some t ∧ t.beq t = true := by
  have exact : ∀ x ∈ (numbered half).toJson.floats, x.isFinite = true → ReadsBack x := by decide +kernel
  exact ⟨_, compile_half, rfl, (Template.loaded_iff_storable compile_half exact).1 (by decide +kernel)⟩

/-- Two programs are compiled that cannot be loaded. -/
theorem compiled_not_loaded :
    (∃ t, Template.compile (numbering hugeText) none false = .ok t ∧ Template.ofText? t.toText = none) ∧
    (∃ t, Template.compile (.ofList (nestedText 32)) none false = .ok t ∧ Template.ofText? t.toText = none) := by
  refine ⟨⟨_, compile_huge, not_loaded_of_compiled compile_huge (by decide +kernel) (by decide +kernel)⟩,
    ⟨_, compile_nested 32 false, not_loaded_of_compiled (compile_nested 32 false) (by decide +kernel) ?_⟩⟩
  rw [storable_nestedBody_iff]
  decide

end Stencil
