import Stencil.Proofs.Source.Spelling

/-! What is read from a source is as the sources of programs are: keys are keys, no backslash stands before a closing quote,
    and text that stands together is one step. -/

namespace Stencil

open Decimal

namespace Cursor

variable {c : Cursor} {p : Char → Bool}

/-! ### References and quoted text -/

theorem spelled_of_filters? {c : Cursor} {r : Pass c (List String)} (read : c.filters? = some r) :
    (∀ f ∈ r.value, IsKey f) ∧ c.rest = Print.filters r.value ++ r.cursor.rest := by
  unfold Cursor.filters? at read
  split at read
  · next bar =>
    have starts : c.rest = '|' :: (c.skip 1).rest := rest_of_startsWith bar
    obtain ⟨⟨name, c₁, h₁⟩, found, read⟩ := Option.bind_eq_some_iff.mp read
    obtain ⟨⟨more, c₂, h₂⟩, filters, read⟩ := Option.bind_eq_some_iff.mp read
    cases read
    obtain ⟨key, here₁⟩ := (key_apart _).of_toOption found
    obtain ⟨keys, here₂⟩ := spelled_of_filters? filters
    refine ⟨List.forall_mem_cons.mpr ⟨key, keys⟩, ?_⟩
    rw [starts, here₁]
    dsimp only at here₂ ⊢
    rw [here₂]
    simp [Print.filters]
  · cases read
    exact ⟨nofun, rfl⟩
termination_by c.rest.length
decreasing_by exact (onward_skip 1 c).trans_forward h₁

theorem spelled_of_reference? {c : Cursor} {r : Read c Piece} (read : c.reference? = some r) :
    ∃ (s : PathSpelling) (list : List String), r.value = .reference s.path list ∧ (∀ f ∈ list, IsKey f) ∧
      c.rest = s.chars ++ (Print.filters list ++ '\x7d' :: r.cursor.rest) := by
  unfold Cursor.reference? at read
  obtain ⟨⟨_, c₁, h₁⟩, found, read⟩ := Option.bind_eq_some_iff.mp read
  obtain ⟨⟨list, c₂, h₂⟩, filters, read⟩ := Option.bind_eq_some_iff.mp read
  dsimp only at filters read
  obtain ⟨s, rfl, here₁⟩ := (spelled_of_path c).of_toOption found
  obtain ⟨keys, here₂⟩ := spelled_of_filters? filters
  split at read
  · next brace =>
    cases read
    refine ⟨s, list, rfl, keys, here₁.trans (congrArg _ (here₂.trans (congrArg _ ?_)))⟩
    exact rest_of_startsWith brace
  · cases read

theorem inline_reference {path : Path} {list : List String} (proper : path.Proper) (keys : ∀ f ∈ list, IsKey f) :
    (Piece.step (.reference path list)).Inline := by
  have escape : IsKey escapeFilter := by decide
  refine ⟨proper, fun f mem => ?_, fun mem => ?_⟩
  · unfold effectiveFilters at mem
    split at mem
    · exact keys f (List.mem_filter.mp mem).1
    · rcases List.mem_append.mp mem with mem | mem
      · exact keys f mem
      · cases List.mem_singleton.mp mem
        exact escape
  · unfold effectiveFilters at mem
    split at mem
    · exact absurd (List.mem_filter.mp mem).2 (by simp)
    · next declined =>
      rcases List.mem_append.mp mem with mem | mem
      · exact declined (List.contains_iff_mem.mpr mem)
      · exact absurd (List.mem_singleton.mp mem) (by decide)

theorem exists_of_reference? {c : Cursor} {r : Read c Piece} (read : c.reference? = some r) :
    ∃ path list, r.value = .reference path list ∧ path.Proper ∧ ∀ f ∈ list, IsKey f := by
  obtain ⟨s, list, same, keys, -⟩ := spelled_of_reference? read
  exact ⟨s.path, list, same, s.proper, keys⟩

theorem ensures_special (c : Cursor) : Ensures c.special fun r => ∃ s, r.value = .special s := by
  refine .bind (.any _) ?_
  rintro ⟨_, c₁, h₁⟩ -
  refine .bind (.any _) ?_
  rintro ⟨name, c₂, h₂⟩ -
  dsimp only
  split
  · exact .error
  · next s _ =>
    refine .bind (.any _) ?_
    rintro ⟨_, c₃, h₃⟩ -
    exact .ok ⟨s, rfl⟩

/-- What pieces are printed as in quotes. -/
def printed (pieces : List Piece) : List Char := pieces.flatMap fun p => Print.quotedStep p.step

/-- Pieces may stand in quotes, and no backslash comes last. -/
structure Fine (pieces : List Piece) : Prop where
  inline : ∀ p ∈ pieces, p.step.Inline
  ends : (printed pieces).getLast? ≠ some '\\'

theorem getLast?_append_ne {α : Type} {a b : List α} {x : α} (h : a.getLast? ≠ some x) (h' : b.getLast? ≠ some x) :
    (a ++ b).getLast? ≠ some x := by
  rw [List.getLast?_append]
  cases last : b.getLast? with
  | none => simpa using h
  | some y => rwa [last] at h'

theorem Fine.cons {piece : Piece} {pieces : List Piece} (inline : piece.step.Inline)
    (ends : (Print.quotedStep piece.step).getLast? ≠ some '\\') (rest : Fine pieces) : Fine (piece :: pieces) where
  inline := List.forall_mem_cons.mpr ⟨inline, rest.inline⟩
  ends := by
    rw [printed, List.flatMap_cons]
    exact getLast?_append_ne ends rest.ends

theorem printed_literal (reversed : List Char) (pieces : List Piece) :
    printed (literal reversed ++ pieces) = reversed.reverse.flatMap Print.quotedChar ++ printed pieces := by
  unfold literal
  cases reversed with
  | nil => rfl
  | cons ch reversed => simp [printed, Piece.step, Print.quotedStep]

theorem quotedChar_ne_nil (ch : Char) : Print.quotedChar ch ≠ [] := by
  unfold Print.quotedChar
  split <;> simp [Print.special]

theorem quotedText_ne_nil {reversed : List Char} (some : reversed ≠ []) :
    reversed.reverse.flatMap Print.quotedChar ≠ [] := by
  obtain ⟨ch, tail, rfl⟩ := List.exists_cons_of_ne_nil some
  simp [quotedChar_ne_nil]

theorem Fine.literal {reversed : List Char} {pieces : List Piece} (rest : Fine pieces) (some : printed pieces ≠ []) :
    Fine (literal reversed ++ pieces) where
  inline p mem := by
    rcases List.mem_append.mp mem with mem | mem
    · unfold Cursor.literal at mem
      split at mem
      · cases mem
      · cases List.mem_singleton.mp mem
        trivial
    · exact rest.inline p mem
  ends := by
    rw [printed_literal, List.getLast?_append]
    cases last : (printed pieces).getLast? with
    | none => exact absurd (List.getLast?_eq_none_iff.mp last) some
    | some y =>
      have ends := rest.ends
      rwa [last] at ends

theorem printed_literal_ne {reversed : List Char} {pieces : List Piece} (some : printed pieces ≠ []) :
    printed (Cursor.literal reversed ++ pieces) ≠ [] := by
  rw [printed_literal]
  exact List.append_ne_nil_of_right_ne_nil _ some

theorem getLast?_quotedText_ne {l : List Char} (h : l.getLast? ≠ some '\\') :
    (l.flatMap Print.quotedChar).getLast? ≠ some '\\' := by
  rcases List.eq_nil_or_concat l with rfl | ⟨front, ch, rfl⟩
  · simp
  rw [List.concat_eq_append, List.flatMap_append, List.flatMap_singleton, List.getLast?_append]
  unfold Print.quotedChar
  split
  · have brace : (Print.special .leftBrace).getLast? = some '\x7d' := List.getLast?_concat
    rw [brace]
    simp
  · simp
  · simpa using h

theorem printed_literal_nil (reversed : List Char) :
    printed (Cursor.literal reversed) = reversed.reverse.flatMap Print.quotedChar := by
  have text := printed_literal reversed []
  have nothing : printed [] = [] := rfl
  rwa [List.append_nil, nothing, List.append_nil] at text

/-- Literal text that ends in front of a quote. -/
theorem fine_literal {reversed : List Char} (last : reversed.head? ≠ some '\\') : Fine (Cursor.literal reversed) where
  inline p mem := by
    unfold Cursor.literal at mem
    split at mem
    · cases mem
    · cases List.mem_singleton.mp mem
      trivial
  ends := by
    rw [printed_literal_nil]
    exact getLast?_quotedText_ne (by rwa [List.getLast?_reverse])

theorem fine_special (s : Special) {pieces : List Piece} (rest : Fine pieces) :
    Fine (.special s :: pieces) ∧ printed (.special s :: pieces) ≠ [] := by
  have text : Print.quotedStep (Piece.special s).step ≠ [] ∧
      (Print.quotedStep (Piece.special s).step).getLast? ≠ some '\\' := by
    cases s <;> (simp [Piece.step, Print.quotedStep, Special.text]; decide)
  exact ⟨rest.cons trivial text.2, List.append_ne_nil_of_left_ne_nil text.1 _⟩

theorem fine_reference {path : Path} {list : List String} (proper : path.Proper) (keys : ∀ f ∈ list, IsKey f)
    {pieces : List Piece} (rest : Fine pieces) :
    Fine (.reference path list :: pieces) ∧ printed (.reference path list :: pieces) ≠ [] := by
  have brace : (Print.reference path (effectiveFilters list)).getLast? = some '\x7d' := List.getLast?_concat
  refine ⟨rest.cons (inline_reference proper keys) ?_, List.append_ne_nil_of_left_ne_nil (by simp [Piece.step, Print.quotedStep, Print.reference]) _⟩
  show (Print.reference path (effectiveFilters list)).getLast? ≠ _
  rw [brace]
  decide

/-- Quoted text behind a place, where some literal characters come before it. -/
theorem ensures_pieces (c : Cursor) (reversed : List Char)
    (unescaping : reversed.head? = some '\\' → c.rest.head? ≠ some '"') : Ensures (c.pieces reversed) fun r =>
      Fine r.value ∧ (reversed ≠ [] → printed r.value ≠ []) := by
  unfold Cursor.pieces
  split
  · exact .error
  · next tail first =>
    refine .ok ⟨fine_literal fun last => unescaping last (by rw [first]; rfl), fun some => ?_⟩
    rw [printed_literal_nil]
    exact quotedText_ne_nil some
  · next tail first =>
    have moved : c.Forward (c.skip 2) := forward_skip (rest_ne_nil first) Nat.two_pos
    refine .bind (ensures_pieces (c.skip 2) ['"'] (by simp)) ?_
    rintro ⟨more, c₁, h₁⟩ ⟨fine, some⟩
    exact .ok ⟨fine.literal (some (List.cons_ne_nil _ _)), fun _ => printed_literal_ne (some (List.cons_ne_nil _ _))⟩
  · next tail first =>
    have moved : c.Forward (c.skip 1) := forward_skip (rest_ne_nil first) Nat.one_pos
    split
    · refine .bind (ensures_special _) ?_
      rintro ⟨_, c₁, h₁⟩ ⟨s, rfl⟩
      refine .bind (ensures_pieces c₁ [] (by simp)) ?_
      rintro ⟨more, c₂, h₂⟩ ⟨fine, -⟩
      obtain ⟨fine, some⟩ := fine_special s fine
      exact .ok ⟨fine.literal some, fun _ => printed_literal_ne some⟩
    · split
      · next piece c₁ h₁ read =>
        have behind : c.Forward c₁ := moved.trans h₁
        obtain ⟨path, list, rfl, proper, keys⟩ := exists_of_reference? read
        refine .bind (ensures_pieces c₁ [] (by simp)) ?_
        rintro ⟨more, c₂, h₂⟩ ⟨fine, -⟩
        obtain ⟨fine, some⟩ := fine_reference proper keys fine
        exact .ok ⟨fine.literal some, fun _ => printed_literal_ne some⟩
      · refine .bind (ensures_pieces (c.skip 1) ['\x7b'] (by simp)) ?_
        rintro ⟨more, c₁, h₁⟩ ⟨fine, some⟩
        exact .ok ⟨fine.literal (some (List.cons_ne_nil _ _)), fun _ => printed_literal_ne (some (List.cons_ne_nil _ _))⟩
  · next ch tail other quote brace first =>
    have moved : c.Forward (c.walk 1) := forward_walk (rest_ne_nil first) Nat.one_pos
    refine .bind (ensures_pieces (c.walk 1) (ch :: reversed) ?_) ?_
    · intro last next
      rw [walk_rest, first] at next
      obtain ⟨tail', rfl⟩ := List.head?_eq_some_iff.mp next
      exact quote tail' (Option.some.inj last) rfl
    rintro ⟨more, c₁, h₁⟩ ⟨fine, some⟩
    exact .ok ⟨fine, fun _ => some (List.cons_ne_nil _ _)⟩
termination_by c.rest.length
decreasing_by
  · exact moved
  · exact behind
  · exact moved
  · exact moved.trans h₁
  · exact moved

theorem quotedSteps_prepend (s : Step) (b : Body) :
    (s.prepend b).flatMap Print.quotedStep = Print.quotedStep s ++ b.flatMap Print.quotedStep := by
  rcases s.prepend_cases b with ⟨rfl, same⟩ | ⟨text, more, rest, rfl, rfl, joined⟩ | apart
  · rw [same]
    rfl
  · rw [joined]
    simp [Print.quotedStep]
  · rw [apart, List.flatMap_cons]

theorem quotable_body {pieces : List Piece} (fine : Fine pieces) : Quotable (Piece.body pieces) where
  inline := by
    have inline := fine.inline
    clear fine
    induction pieces with
    | nil => exact nofun
    | cons p pieces ih =>
      obtain ⟨first, rest⟩ := List.forall_mem_cons.mp inline
      exact Step.forall_prepend (fun _ => trivial) first (ih rest)
  ends := by
    have text : (Piece.body pieces).flatMap Print.quotedStep = printed pieces := by
      clear fine
      induction pieces with
      | nil => rfl
      | cons p pieces ih =>
        show (p.step.prepend (Piece.body pieces)).flatMap Print.quotedStep = _
        rw [quotedSteps_prepend, ih]
        rfl
    rw [text]
    exact fine.ends

theorem merged_body (pieces : List Piece) : (Piece.body pieces).foldr Step.prepend [] = Piece.body pieces := by
  induction pieces with
  | nil => rfl
  | cons p pieces ih =>
    show (p.step.prepend (Piece.body pieces)).foldr Step.prepend [] = p.step.prepend (Piece.body pieces)
    rw [Step.foldr_prepend, ih]

theorem quotable_of_static? {pieces : List Piece} {text : String} (fine : Fine pieces)
    (known : Piece.static? pieces = some text) : Quotable [.write text] := by
  have quotable := quotable_body fine
  unfold Piece.static? at known
  split at known
  · next nothing =>
    cases known
    exact ⟨by simp [Step.Inline], by simp [Print.quotedStep]⟩
  · next single =>
    cases known
    rwa [single] at quotable
  · cases known

theorem dynamic_of_static? {pieces : List Piece} (fine : Fine pieces) (unknown : Piece.static? pieces = none) :
    Dynamic (Piece.body pieces) := by
  refine ⟨quotable_body fine, merged_body pieces, ?_, ?_⟩
  · intro nothing
    rw [Piece.static?, nothing] at unknown
    cases unknown
  · intro text single
    rw [Piece.static?, single] at unknown
    cases unknown

theorem canonical_operand {pieces : List Piece} (fine : Fine pieces) : (ParamValue.quoted pieces).operand.Canonical := by
  dsimp only [ParamValue.operand]
  split
  · next known => exact quotable_of_static? fine known
  · next unknown => exact dynamic_of_static? fine unknown

theorem canonical_partialName {pieces : List Piece} (fine : Fine pieces) : (PartialName.ofPieces pieces).Canonical := by
  unfold PartialName.ofPieces
  split
  · next known => exact quotable_of_static? fine known
  · next unknown => exact dynamic_of_static? fine unknown

theorem ensures_quoted (c : Cursor) : Ensures c.quoted fun r => Fine r.value := by
  refine .bind (.any _) ?_
  rintro ⟨_, c₁, h₁⟩ -
  refine .bind (ensures_pieces c₁ [] nofun) ?_
  rintro ⟨pieces, c₂, h₂⟩ ⟨fine, -⟩
  exact .ok fine

/-! ### Tags -/

theorem take_behind (c : Cursor) (i j : Nat) : c.rest.take (i + j) = c.rest.take i ++ (c.skip i).rest.take j := by
  rw [List.take_add, skip_rest]

theorem takeWhile_ne_nil (h : c.sees p = true) : c.rest.takeWhile p ≠ [] :=
  List.ne_nil_of_length_pos (run_pos h fun _ h => h)

/-- The text of a number with a fraction. A sign may be missing, or the digits behind it. -/
theorem positional_of_numberLength {c : Cursor} (starts : (c.sees fun ch => ch.isDigit || ch = '-') = true)
    (fraction : c.numberLength.2 = true) : Positional (c.text c.numberLength.1).toList := by
  unfold numberLength at fraction ⊢
  dsimp only at fraction ⊢
  generalize length : (if c.startsWith "-" = true then 1 else 0) = sign at fraction ⊢
  generalize whole : sign + (c.skip sign).run Char.isDigit = behind at fraction ⊢
  split
  case isFalse rest =>
    rw [if_neg rest] at fraction
    cases fraction
  case isTrue rest =>
  obtain ⟨dot, digit⟩ := Bool.and_eq_true_iff.mp rest
  obtain ⟨tail, point⟩ := List.isPrefixOf_iff_prefix.mp dot
  replace point : (c.skip behind).rest = '.' :: ((c.skip behind).skip 1).rest := by
    rw [skip_rest 1, ← point]
    rfl
  have parts : c.rest.take (behind + 1 + ((c.skip behind).skip 1).run Char.isDigit) = c.rest.take sign ++
      ((c.skip sign).rest.takeWhile Char.isDigit ++ '.' ::
        ((c.skip behind).skip 1).rest.takeWhile Char.isDigit) := by
    rw [Nat.add_assoc, take_behind, point, Nat.add_comm 1, List.take_succ_cons, take_run, ← whole, take_behind,
      take_run, List.append_assoc]
  refine ⟨_, _, _, (String.toList_ofList).trans parts, ?_, fun _ => List.mem_takeWhile_imp,
    fun _ => List.mem_takeWhile_imp, takeWhile_ne_nil digit⟩
  split at length
  · next minus =>
    subst length
    obtain ⟨tail, first⟩ := List.isPrefixOf_iff_prefix.mp minus
    rw [← first]
    exact .inl rfl
  · next other =>
    subst length
    refine .inr ⟨rfl, takeWhile_ne_nil (p := Char.isDigit) (c := c) ?_⟩
    unfold sees startsWith at *
    cases first : c.rest with
    | nil =>
      rw [first] at starts
      cases starts
    | cons ch tail =>
      rw [first] at starts other
      rcases Bool.or_eq_true_iff.mp starts with digit | minus
      · exact digit
      · cases of_decide_eq_true minus
        exact absurd rfl other

theorem ensures_number (c : Cursor) (starts : (c.sees fun ch => ch.isDigit || ch = '-') = true) :
    Ensures c.number fun r => r.value.operand.Canonical := by
  unfold number
  split
  next length isFloat numeral =>
  have positional : isFloat = true → Positional (c.text length).toList := by
    have positional := positional_of_numberLength starts
    rwa [numeral] at positional
  dsimp only
  split
  · next value found =>
    refine .ok ?_
    split at found
    · next fraction =>
      obtain ⟨x, known, rfl⟩ := Option.map_eq_some_iff.mp found
      exact ⟨_, positional fraction, known⟩
    · obtain ⟨n, -, rfl⟩ := Option.map_eq_some_iff.mp found
      trivial
  · exact .error

theorem ensures_paramValue (c : Cursor) : Ensures c.paramValue fun r => r.value.operand.Canonical := by
  unfold paramValue
  split
  · refine .bind (ensures_quoted c) ?_
    rintro ⟨pieces, c₁, h₁⟩ fine
    exact .ok (canonical_operand fine)
  · split
    · next starts => exact ensures_number c starts
    · refine .bind (ensures_path c) ?_
      rintro ⟨path, c₁, h₁⟩ proper
      exact .ok proper

theorem ensures_params (c : Cursor) :
    Ensures c.params fun r => ∀ e ∈ r.value, IsKey e.1 ∧ e.2.operand.Canonical := by
  unfold Cursor.params
  split
  · refine .bind (ensures_key _) ?_
    rintro ⟨key, c₁, h₁⟩ ⟨isKey, -⟩
    have moved : c.Forward c₁ := c.onward_skipBlanks.trans_forward h₁
    refine .bind (.any _) ?_
    rintro ⟨_, c₂, h₂⟩ -
    refine .bind (ensures_paramValue c₂) ?_
    rintro ⟨value, c₃, h₃⟩ canonical
    refine .bind (ensures_params c₃) ?_
    rintro ⟨more, c₄, h₄⟩ rest
    exact .ok (List.forall_mem_cons.mpr ⟨⟨isKey, canonical⟩, rest⟩)
  · exact .ok nofun
termination_by c.rest.length
decreasing_by exact (moved.trans_onward h₂).trans_onward h₃

theorem ensures_context (c : Cursor) : Ensures c.context fun r => ∀ p, r.value = some p → p.Proper := by
  unfold Cursor.context
  split
  · refine .bind (ensures_path _) ?_
    rintro ⟨path, c₁, h₁⟩ proper
    refine .ok ?_
    rintro _ ⟨⟩
    exact proper
  · exact .ok nofun

theorem fitted_of {own : Option Path} {list : List (String × ParamValue)} (proper : ∀ p, own = some p → p.Proper)
    (params : ∀ e ∈ list, IsKey e.1 ∧ e.2.operand.Canonical) : Fitted own (operands list) where
  proper := proper
  keys e mem := by
    obtain ⟨f, found, rfl⟩ := List.mem_map.mp mem
    exact (params f found).1
  canonical e mem := by
    obtain ⟨f, found, rfl⟩ := List.mem_map.mp mem
    exact (params f found).2

theorem ensures_head {α : Type} {name : (c : Cursor) → Except ParseError (Read c α)} {P : α → Prop}
    (named : ∀ c, Ensures (name c) fun r => P r.value) (c : Cursor) :
    Ensures (c.head name) fun r => P r.value.name ∧ Fitted r.value.context (operands r.value.params) := by
  refine .bind (named _) ?_
  rintro ⟨value, c₁, h₁⟩ isP
  refine .bind (ensures_context c₁) ?_
  rintro ⟨own, c₂, h₂⟩ proper
  refine .bind (ensures_params c₂) ?_
  rintro ⟨list, c₃, h₃⟩ params
  refine .bind (.any _) ?_
  rintro ⟨_, c₄, h₄⟩ -
  exact .ok ⟨isP, fitted_of proper params⟩

theorem ensures_partialName (c : Cursor) : Ensures c.partialName fun r => Fine r.value := by
  unfold Cursor.partialName
  split
  · exact ensures_quoted c
  · refine .bind (ensures_key c) ?_
    rintro ⟨_, c₁, h₁⟩ ⟨-, rfl⟩
    have parts := (c.takeWhile_append_walk isKeyChar).symm
    rw [← takeWhile_append_walk (c.walk _) fun ch => isKeyChar ch || ch = '.', ← List.append_assoc] at parts
    refine .ok ?_
    dsimp only
    rw [upTo_eq parts rfl]
    refine ⟨fun p mem => ?_, ?_⟩
    · cases List.mem_singleton.mp mem
      trivial
    · show (([Piece.text _]).flatMap fun p => Print.quotedStep p.step).getLast? ≠ _
      rw [List.flatMap_singleton]
      refine getLast?_quotedText_ne fun last => ?_
      rw [String.toList_ofList] at last
      rcases List.mem_append.mp (List.mem_of_getLast? last) with mem | mem
      · exact absurd (List.mem_takeWhile_imp mem) (by decide)
      · exact absurd (List.mem_takeWhile_imp mem) (by decide)

theorem ensures_partialTag (c : Cursor) : Ensures c.partialTag fun r => ∃ pieces own list,
    r.value = .partialTag pieces own list ∧ (PartialName.ofPieces pieces).Canonical ∧ Fitted own (operands list) := by
  refine .bind (ensures_partialName _) ?_
  rintro ⟨pieces, c₁, h₁⟩ fine
  refine .bind (ensures_context c₁) ?_
  rintro ⟨own, c₂, h₂⟩ proper
  refine .bind (ensures_params c₂) ?_
  rintro ⟨list, c₃, h₃⟩ params
  refine .bind (.any _) ?_
  rintro ⟨_, c₄, h₄⟩ -
  exact .ok ⟨pieces, own, list, rfl, canonical_partialName fine, fitted_of proper params⟩

end Cursor
end Stencil
