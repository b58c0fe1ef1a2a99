import Stencil.Proofs.Source.Spelling

/-! Reading what is printed: references, specials and quoted text. -/

namespace Stencil

theorem Special.ofName?_name (s : Special) : ofName? s.name = some s := by cases s <;> rfl

theorem Special.isKey_name (s : Special) : IsKey s.name := by cases s <;> decide

theorem isKey_declineFilter : IsKey declineFilter := by decide

theorem effectiveFilters_decline {list : List String} (kept : declineFilter ∉ list) :
    effectiveFilters (list ++ [declineFilter]) = list := by
  unfold effectiveFilters
  rw [if_pos (by simp), List.filter_append, filter_decline kept]
  simp

namespace Cursor

variable {c : Cursor} {input rest : List Char} {body : Body}

/-! ### References -/

theorem filters?_eq_some (list : List String) (keys : ∀ f ∈ list, IsKey f) {c : Cursor}
    (here : c.rest = Print.filters list ++ '\x7d' :: rest) :
    ∃ r, c.filters? = some r ∧ r.Is list ('\x7d' :: rest) := by
  induction list generalizing c with
  | nil =>
    have none : c.startsWith "|" = false := by simp [startsWith, here, Print.filters, List.isPrefixOf]
    unfold Cursor.filters?
    rw [none]
    exact ⟨_, rfl, rfl, here⟩
  | cons f more ih =>
    have bar : c.startsWith "|" = true := by simp [startsWith, here, Print.filters]
    have behind : (c.skip 1).rest = f.toList ++ (Print.filters more ++ '\x7d' :: rest) := by
      rw [skip_rest, here]
      simp [Print.filters]
    have ends : (Print.filters more ++ '\x7d' :: rest).head?.any isKeyChar = false := by
      cases more <;> rfl
    obtain ⟨⟨_, c₁, h₁⟩, key, rfl, here₁⟩ := (key_yields behind (keys f List.mem_cons_self) ends).toOption
    obtain ⟨⟨_, c₂, h₂⟩, filters, rfl, here₂⟩ := ih (fun g mem => keys g (List.mem_cons_of_mem _ mem)) here₁
    unfold Cursor.filters?
    rw [if_pos bar, key, Option.bind_eq_bind, Option.bind_some]
    dsimp only at filters ⊢
    rw [filters]
    exact ⟨_, rfl, rfl, here₂⟩

theorem reference?_spelled (s : PathSpelling) {list : List String} (keys : ∀ f ∈ list, IsKey f)
    (here : c.rest = s.chars ++ (Print.filters list ++ '\x7d' :: rest)) :
    ∃ r, c.reference? = some r ∧ r.Is (.reference s.path list) rest := by
  have ends : pathEnds (Print.filters list ++ '\x7d' :: rest) = true := by
    cases list <;> rfl
  obtain ⟨⟨_, c₁, h₁⟩, read, rfl, here₁⟩ := (path_spelled s here ends).toOption
  obtain ⟨⟨_, c₂, h₂⟩, filters, rfl, here₂⟩ := filters?_eq_some list keys here₁
  have closing : c₂.startsWith "\x7d" = true := startsWith_iff.mpr ⟨rest, here₂.symm⟩
  unfold Cursor.reference?
  rw [read, Option.bind_eq_bind, Option.bind_some]
  dsimp only at filters ⊢
  rw [filters, Option.bind_eq_bind, Option.bind_some]
  dsimp only
  rw [if_pos closing]
  exact ⟨_, rfl, rfl, skip_eq (l := ['\x7d']) here₂ rfl⟩

theorem reference?_eq_some {path : Path} {list : List String} (proper : path.Proper) (keys : ∀ f ∈ list, IsKey f)
    (here : c.rest = path.text.toList ++ (Print.filters list ++ '\x7d' :: rest)) :
    ∃ r, c.reference? = some r ∧ r.Is (.reference path list) rest := by
  obtain ⟨s, rfl, letters⟩ := proper.exists_spelling
  exact reference?_spelled s keys (letters ▸ here)

theorem special_yields {s : Special} (here : c.rest = '~' :: (s.name.toList ++ '\x7d' :: rest)) :
    Yields c.special (Read.Is (.special s) rest) := by
  refine .bind (expect_yields "~" here) ?_
  rintro ⟨_, c₁, h₁⟩ ⟨-, here₁⟩
  refine .bind (key_yields here₁ s.isKey_name rfl) ?_
  rintro ⟨_, c₂, h₂⟩ ⟨rfl, here₂⟩
  dsimp only
  rw [s.ofName?_name]
  refine .bind (expect_yields "\x7d" here₂) ?_
  rintro ⟨_, c₃, h₃⟩ ⟨-, here₃⟩
  exact .ok ⟨rfl, here₃⟩

/-! ### Quoted text -/

theorem body_literal (reversed : List Char) (more : List Piece) :
    Piece.body (literal reversed ++ more) = (Step.write (.ofList reversed.reverse)).prepend (Piece.body more) := by
  unfold literal
  cases reversed with
  | nil => exact (Step.prepend_empty _).symm
  | cons ch reversed => rfl

/-- Quoted text from these characters on is a program, up to a rest behind the closing quote. What was read before and
    is plain text so far comes in front. -/
def Quotes (input : List Char) (body : Body) (rest : List Char) : Prop :=
  ∀ (c : Cursor) (reversed : List Char), c.rest = input → Yields (c.pieces reversed) fun r =>
    Piece.body r.value = (Step.write (.ofList reversed.reverse)).prepend body ∧ r.cursor.rest = rest

namespace Quotes

theorem close (rest : List Char) : Quotes ('"' :: rest) [] rest := by
  rintro ⟨_, offset, line, start⟩ reversed here
  cases here
  unfold Cursor.pieces
  refine .ok ⟨?_, ?_⟩
  · simpa [Piece.body] using body_literal reversed []
  · simp

variable (next : Quotes input body rest)

include next

theorem char {ch : Char} (plain : ch ≠ '"' ∧ ch ≠ '\x7b') (unescaping : ch = '\\' → input.head? ≠ some '"') :
    Quotes (ch :: input) ((Step.write (.ofList [ch])).prepend body) rest := by
  rintro ⟨_, offset, line, start⟩ reversed here
  cases here
  have more := next (walk 1 ⟨ch :: input, offset, line, start⟩) (ch :: reversed) (by simp)
  unfold Cursor.pieces
  split
  · next h => cases h
  · next h =>
    cases h
    exact absurd rfl plain.1
  · next h =>
    cases h
    exact absurd rfl (unescaping rfl)
  · next h =>
    cases h
    exact absurd rfl plain.2
  · next h =>
    cases h
    refine .bind more ?_
    rintro ⟨_, c₁, h₁⟩ ⟨same, here₁⟩
    refine .ok ⟨?_, here₁⟩
    rw [same, ← Step.prepend_append, ← String.ofList_append, List.reverse_cons]

theorem quote : Quotes ('\\' :: '"' :: input) ((Step.write "\"").prepend body) rest := by
  rintro ⟨_, offset, line, start⟩ reversed here
  cases here
  have more := next (skip 2 ⟨'\\' :: '"' :: input, offset, line, start⟩) ['"'] (by simp)
  unfold Cursor.pieces
  refine .bind more ?_
  rintro ⟨_, c₁, h₁⟩ ⟨same, here₁⟩
  refine .ok ⟨?_, here₁⟩
  dsimp only
  rw [body_literal, same]
  rfl

theorem special (s : Special) : Quotes (Print.special s ++ input) ((Step.write s.text).prepend body) rest := by
  have text : Print.special s ++ input = '\x7b' :: '~' :: (s.name.toList ++ '\x7d' :: input) := by simp [Print.special]
  rw [text]
  rintro ⟨_, offset, line, start⟩ reversed here
  cases here
  unfold Cursor.pieces
  show Yields (ite _ _ _) _
  rw [if_pos (startsWith_iff.mpr ⟨_, rfl⟩)]
  refine .bind (special_yields (c := skip 1 _) (s := s) rfl) ?_
  rintro ⟨_, c₁, h₁⟩ ⟨rfl, here₁⟩
  refine .bind (next c₁ [] here₁) ?_
  rintro ⟨_, c₂, h₂⟩ ⟨same, here₂⟩
  refine .ok ⟨?_, here₂⟩
  dsimp only at same ⊢
  rw [body_literal, ← same.trans (Step.prepend_empty _)]
  rfl

/-- A reference with its filters as written. -/
theorem filtered {path : Path} (list : List String) (proper : path.Proper) (keys : ∀ f ∈ list, IsKey f) :
    Quotes ('\x7b' :: (path.text.toList ++ (Print.filters list ++ '\x7d' :: input)))
      (.reference path (effectiveFilters list) :: body) rest := by
  rintro ⟨_, offset, line, start⟩ reversed here
  cases here
  have behind : (skip 1 ⟨'\x7b' :: (path.text.toList ++ (Print.filters list ++ '\x7d' :: input)), offset, line,
      start⟩).rest = path.text.toList ++ (Print.filters list ++ '\x7d' :: input) := by
    simp
  obtain ⟨⟨_, c₁, h₁⟩, read, rfl, here₁⟩ := reference?_eq_some proper keys behind
  have plain := startsWith_of_proper "~" proper behind rfl (by decide) (by decide)
  unfold Cursor.pieces
  show Yields (ite _ _ _) _
  rw [if_neg (by rw [plain]; decide), read]
  refine .bind (next c₁ [] here₁) ?_
  rintro ⟨_, c₂, h₂⟩ ⟨same, here₂⟩
  refine .ok ⟨?_, here₂⟩
  dsimp only at same ⊢
  rw [body_literal, ← same.trans (Step.prepend_empty _)]
  rfl

theorem reference {path : Path} {list : List String} (proper : path.Proper) (keys : ∀ f ∈ list, IsKey f)
    (kept : declineFilter ∉ list) : Quotes (Print.reference path list ++ input) (.reference path list :: body) rest := by
  have text : Print.reference path list ++ input =
      '\x7b' :: (path.text.toList ++ (Print.filters (list ++ [declineFilter]) ++ '\x7d' :: input)) := by
    simp [Print.reference]
  have all : ∀ f ∈ list ++ [declineFilter], IsKey f := by
    simpa [or_imp, forall_and] using ⟨keys, isKey_declineFilter⟩
  have read := next.filtered _ proper all
  rwa [effectiveFilters_decline kept, ← text] at read

omit next in
theorem head?_quotedChar (ch : Char) (more : List Char) : (Print.quotedChar ch ++ more).head? ≠ some '"' := by
  unfold Print.quotedChar
  split
  · simp [Print.special]
  · simp
  · next other => simpa using other

/-- Plain text. A backslash at its end must not meet a quote. -/
theorem chars {l : List Char} (unescaping : l.getLast? = some '\\' → input.head? ≠ some '"') :
    Quotes (l.flatMap Print.quotedChar ++ input) ((Step.write (.ofList l)).prepend body) rest := by
  induction l with
  | nil => simpa [Step.prepend_empty] using next
  | cons ch l ih =>
    have rest := ih fun last => unescaping (by rw [List.getLast?_cons, last]; rfl)
    rw [List.flatMap_cons, List.append_assoc, ← List.singleton_append, String.ofList_append, Step.prepend_append]
    by_cases brace : ch = '\x7b'
    · subst brace
      exact rest.special .leftBrace
    by_cases quote : ch = '"'
    · subst quote
      exact rest.quote
    have plain : Print.quotedChar ch = [ch] := by
      unfold Print.quotedChar
      split
      · exact absurd rfl brace
      · exact absurd rfl quote
      · rfl
    rw [plain]
    refine rest.char ⟨quote, brace⟩ fun backslash => ?_
    cases l with
    | nil => exact unescaping (by rw [backslash]; rfl)
    | cons x l =>
      rw [List.flatMap_cons, List.append_assoc]
      exact head?_quotedChar x _

end Quotes

theorem head?_quotedText (l : List Char) {more : List Char} (next : more.head? ≠ some '"') :
    (l.flatMap Print.quotedChar ++ more).head? ≠ some '"' := by
  cases l with
  | nil => exact next
  | cons ch l =>
    rw [List.flatMap_cons, List.append_assoc]
    exact Quotes.head?_quotedChar ch _

theorem head?_quotedSteps (steps : Body) : (steps.flatMap Print.quotedStep).head? ≠ some '"' := by
  induction steps with
  | nil => simp
  | cons s steps ih =>
    rw [List.flatMap_cons]
    cases s with
    | write text => exact head?_quotedText text.toList ih
    | reference path list => simp [Print.quotedStep, Print.reference]
    | _ => exact ih

theorem getLast?_quotedText {l : List Char} (last : l.getLast? = some '\\') :
    (l.flatMap Print.quotedChar).getLast? = some '\\' := by
  obtain ⟨front, rfl⟩ := List.getLast?_eq_some_iff.mp last
  rw [List.flatMap_append]
  exact List.getLast?_concat

theorem quotes_steps {steps : Body} (inline : ∀ s ∈ steps, s.Inline)
    (ends : (steps.flatMap Print.quotedStep).getLast? ≠ some '\\') (rest : List Char) :
    Quotes (steps.flatMap Print.quotedStep ++ '"' :: rest) (steps.foldr Step.prepend []) rest := by
  induction steps with
  | nil => exact .close rest
  | cons s steps ih =>
    have more := ih (fun t mem => inline t (List.mem_cons_of_mem _ mem)) fun last => ends (by
      rw [List.flatMap_cons, List.getLast?_append, last]
      rfl)
    rw [List.flatMap_cons, List.append_assoc, List.foldr_cons]
    cases s with
    | write text =>
      have front := more.chars (l := text.toList) fun last => by
        cases behind : steps.flatMap Print.quotedStep with
        | nil =>
          refine absurd ?_ ends
          rw [List.flatMap_cons, behind, List.append_nil]
          exact getLast?_quotedText last
        | cons ch l =>
          have other := head?_quotedSteps steps
          rw [behind] at other
          exact other
      rwa [String.ofList_toList] at front
    | reference path list =>
      obtain ⟨proper, keys, kept⟩ := inline _ List.mem_cons_self
      exact more.reference proper keys kept
    | _ => exact absurd (inline _ List.mem_cons_self) id

theorem quoted_yields {steps : Body} (inline : ∀ s ∈ steps, s.Inline)
    (ends : (steps.flatMap Print.quotedStep).getLast? ≠ some '\\') (here : c.rest = Print.quoted steps ++ rest) :
    Yields c.quoted fun r => Piece.body r.value = steps.foldr Step.prepend [] ∧ r.cursor.rest = rest := by
  have text : c.rest = '"' :: (steps.flatMap Print.quotedStep ++ '"' :: rest) := by
    rw [here]
    simp [Print.quoted]
  refine .bind (expect_yields "\"" text) ?_
  rintro ⟨_, c₁, h₁⟩ ⟨-, here₁⟩
  refine .bind (quotes_steps inline ends rest c₁ [] here₁) ?_
  rintro ⟨_, c₂, h₂⟩ ⟨same, here₂⟩
  exact .ok ⟨same.trans (Step.prepend_empty _), here₂⟩

end Cursor
end Stencil
