import Stencil.Proofs.Source.Quotes

/-! Reading what is printed: numbers, parameters and the insides of tags. -/

namespace Stencil

open Decimal

namespace Cursor

variable {c : Cursor} {rest : List Char}

/-! ### Numbers -/

theorem signLength {sign digits : List Char} (here : c.rest = sign ++ (digits ++ rest))
    (signed : sign = ['-'] ∨ sign = [] ∧ digits ≠ []) (all : ∀ ch ∈ digits, ch.isDigit = true) :
    (if c.startsWith "-" then 1 else 0) = sign.length := by
  rcases signed with rfl | ⟨rfl, some⟩
  · exact if_pos (startsWith_iff.mpr ⟨_, here.symm⟩)
  · obtain ⟨ch, tail, rfl⟩ := List.exists_cons_of_ne_nil some
    have ne : '-' ≠ ch := fun same => absurd (all ch List.mem_cons_self) (by rw [← same]; decide)
    simp [startsWith, here, List.isPrefixOf, ne]

theorem sees_number {sign digits : List Char} (here : c.rest = sign ++ (digits ++ rest))
    (signed : sign = ['-'] ∨ sign = [] ∧ digits ≠ []) (all : ∀ ch ∈ digits, ch.isDigit = true) :
    c.startsWith "\"" = false ∧ (c.sees fun ch => ch.isDigit || ch = '-') = true := by
  rcases signed with rfl | ⟨rfl, some⟩
  · simp [startsWith, sees, here, List.isPrefixOf]
  · obtain ⟨ch, tail, rfl⟩ := List.exists_cons_of_ne_nil some
    have digit := all ch List.mem_cons_self
    have ne : '"' ≠ ch := fun same => absurd digit (by rw [← same]; decide)
    simp [startsWith, sees, here, List.isPrefixOf, ne, digit]

theorem not_digit_of_ends (ends : pathEnds rest = true) : rest.head?.any Char.isDigit = false := by
  cases rest with
  | nil => rfl
  | cons ch tail =>
    refine Bool.eq_false_iff.mpr fun digit => absurd (pathEnds_cons.mp ends).1 ?_
    have digit : ch.isDigit = true := digit
    simp [isKeyChar, digit]

theorem numberLength_int {sign digits : List Char} (here : c.rest = sign ++ (digits ++ rest))
    (signed : sign = ['-'] ∨ sign = [] ∧ digits ≠ []) (all : ∀ ch ∈ digits, ch.isDigit = true)
    (ends : pathEnds rest = true) : c.numberLength = ((sign ++ digits).length, false) := by
  have run := run_eq (skip_eq here rfl) all (not_digit_of_ends ends)
  have behind : (c.skip (sign.length + digits.length)).rest = rest := by
    rw [← List.append_assoc] at here
    exact skip_eq here List.length_append.symm
  unfold numberLength
  rw [signLength here signed all]
  dsimp only
  rw [run, (startsWith_of_ends behind ends).1, List.length_append]
  rfl

theorem numberLength_float {sign whole places : List Char} (here : c.rest = sign ++ (whole ++ '.' :: (places ++ rest)))
    (signed : sign = ['-'] ∨ sign = [] ∧ whole ≠ []) (all : ∀ ch ∈ whole, ch.isDigit = true)
    (all' : ∀ ch ∈ places, ch.isDigit = true) (some : places ≠ []) (ends : pathEnds rest = true) :
    c.numberLength = ((sign ++ (whole ++ '.' :: places)).length, true) := by
  have run := run_eq (skip_eq here rfl) all (p := Char.isDigit) rfl
  have point : (c.skip (sign.length + whole.length)).rest = '.' :: (places ++ rest) := by
    rw [← List.append_assoc] at here
    exact skip_eq here List.length_append.symm
  have behind : ((c.skip (sign.length + whole.length)).skip 1).rest = places ++ rest := by
    rw [skip_rest, point]
    rfl
  have sees : ((c.skip (sign.length + whole.length)).skip 1).sees Char.isDigit = true := by
    obtain ⟨ch, tail, rfl⟩ := List.exists_cons_of_ne_nil some
    exact sees_of_rest behind (all' ch List.mem_cons_self)
  have run' := run_eq behind all' (not_digit_of_ends ends)
  unfold numberLength
  rw [signLength here signed all]
  dsimp only
  rw [run, startsWith_iff.mpr ⟨_, point.symm⟩, sees, run']
  simp
  omega

/-- The text of a whole number is a sign and digits that read back. -/
theorem exists_of_int (i : Int) : ∃ sign digits, (toString i).toList = sign ++ digits ∧
    (sign = ['-'] ∨ sign = [] ∧ digits ≠ []) ∧ (∀ ch ∈ digits, ch.isDigit = true) ∧
    Numeral.int? (sign ++ digits) = some i := by
  cases i with
  | ofNat n =>
    refine ⟨[], Nat.toDigits 10 n, Nat.toList_repr, .inr ⟨rfl, Nat.toDigits_ne_nil⟩, isDigit_of_toDigits, ?_⟩
    rw [List.nil_append]
    unfold Numeral.int?
    split
    · next same => exact absurd (isDigit_of_toDigits '-' (same ▸ List.mem_cons_self)) (by decide)
    · next same => exact absurd (isDigit_of_toDigits '+' (same ▸ List.mem_cons_self)) (by decide)
    · rw [digits?_toDigits]
      rfl
  | negSucc n =>
    refine ⟨['-'], Nat.toDigits 10 (n + 1), ?_, .inl rfl, isDigit_of_toDigits, ?_⟩
    · have text : toString (Int.negSucc n) = "-" ++ Nat.repr (n + 1) := rfl
      rw [text, String.toList_append, Nat.toList_repr]
      rfl
    · simp only [Numeral.int?, List.cons_append, List.nil_append, digits?_toDigits]
      rfl

theorem word?_toInt (n : Int64) : Numeral.word? n.toInt = some n := by
  have low := n.le_toInt
  have high := n.toInt_lt
  unfold Numeral.word?
  rw [if_pos ⟨low, high⟩, Int64.ofInt_toInt]

theorem number_int {n : Int64} (here : c.rest = (toString n.toInt).toList ++ rest) (ends : pathEnds rest = true) :
    Yields c.number (Pass.Is (.int n) rest) := by
  obtain ⟨sign, digits, text, signed, all, reads⟩ := exists_of_int n.toInt
  rw [text] at here
  have length := numberLength_int (by simpa using here) signed all ends
  unfold number
  rw [length]
  dsimp only
  rw [text_eq here rfl, String.toList_ofList, reads, if_neg (by decide), Option.bind_some, word?_toInt]
  exact .ok ⟨rfl, skip_eq here rfl⟩

theorem number_float {text : List Char} {x : Float} (positional : Positional text)
    (reads : Numeral.float? text = some x) (here : c.rest = text ++ rest) (ends : pathEnds rest = true) :
    Yields c.number (Pass.Is (.float x) rest) := by
  obtain ⟨sign, whole, places, rfl, signed, all, all', some⟩ := positional
  have length := numberLength_float (by simpa using here) signed all all' some ends
  unfold number
  rw [length]
  dsimp only
  rw [text_eq here rfl, String.toList_ofList, reads, if_pos rfl]
  exact .ok ⟨rfl, skip_eq here rfl⟩

/-! ### Parameters -/

theorem static?_of_dynamic {pieces : List Piece} {steps : Body} (dynamic : Dynamic steps)
    (same : Piece.body pieces = steps.foldr Step.prepend []) :
    Piece.static? pieces = none ∧ Piece.body pieces = steps := by
  rw [dynamic.merged] at same
  refine ⟨?_, same⟩
  unfold Piece.static?
  rw [same]
  split
  · exact absurd rfl dynamic.unknown.1
  · exact absurd rfl (dynamic.unknown.2 _)
  · rfl

/-- A tag ends here, with or without bodies. -/
def TagEnds (rest : List Char) : Prop := rest.head? = some '/' ∨ rest.head? = some '\x7d'

theorem TagEnds.pathEnds (ends : TagEnds rest) : pathEnds rest = true := by
  unfold Stencil.pathEnds
  rcases ends with same | same
  · rw [same]
    decide
  · rw [same]
    decide

/-- Parameters, if there are any, stand apart from what comes before. -/
def Spaced (params : List Char) : Prop := params = [] ∨ params.head? = some ' '

theorem spaced_params (write : Float → List Char) (list : List (String × Operand Body)) :
    Spaced (Print.params write list) := by
  cases list with
  | nil => exact .inl rfl
  | cons e more => exact .inr rfl

theorem Spaced.pathEnds {params : List Char} (spaced : Spaced params) (ends : TagEnds rest) :
    Stencil.pathEnds (params ++ rest) = true := by
  rcases spaced with rfl | blank
  · exact ends.pathEnds
  · obtain ⟨params, rfl⟩ := List.head?_eq_some_iff.mp blank
    rfl

theorem Spaced.not_colon {params : List Char} (spaced : Spaced params) (ends : TagEnds rest) :
    (params ++ rest).head? ≠ some ':' := by
  intro colon
  rcases spaced with rfl | blank
  · have colon : rest.head? = some ':' := colon
    rcases ends with same | same <;> (rw [same] at colon; cases colon)
  · obtain ⟨params, rfl⟩ := List.head?_eq_some_iff.mp blank
    cases colon

theorem skipBlanks_rest {l : List Char} (here : c.rest = l ++ rest) (blank : ∀ ch ∈ l, Text.isBlank ch = true)
    (ends : rest.head?.any Text.isBlank = false) : c.run Text.isBlank = l.length ∧ c.skipBlanks.rest = rest :=
  ⟨run_eq here blank ends, walk_eq here (run_eq here blank ends)⟩

variable {write : Float → List Char} (reads : ∀ x, Readable x → Positional (write x) ∧ Numeral.float? (write x) = some x)

include reads

theorem paramValue_yields {o : Operand Body} (canonical : o.Canonical) (here : c.rest = Print.operand write o ++ rest)
    (ends : pathEnds rest = true) :
    Yields c.paramValue fun r => r.value.operand = o ∧ r.cursor.rest = rest := by
  unfold paramValue
  cases o with
  | text s =>
    have quote : c.startsWith "\"" = true := startsWith_iff.mpr ⟨_, here.symm⟩
    rw [if_pos quote]
    refine .bind (quoted_yields canonical.inline canonical.ends here) ?_
    rintro ⟨_, c₁, h₁⟩ ⟨same, here₁⟩
    refine .ok ⟨?_, here₁⟩
    dsimp only [ParamValue.operand]
    rw [Piece.static?_of_text same]
  | int n =>
    obtain ⟨sign, digits, text, signed, all, -⟩ := exists_of_int n.toInt
    have there : c.rest = sign ++ (digits ++ rest) := by
      rw [here, Print.operand, text, List.append_assoc]
    obtain ⟨quote, number⟩ := sees_number there signed all
    rw [if_neg (by simp [quote]), if_pos number]
    refine (number_int here ends).mono ?_
    rintro _ ⟨same, here₁⟩
    exact ⟨by rw [same]; rfl, here₁⟩
  | float x =>
    obtain ⟨positional, same⟩ := reads x canonical
    obtain ⟨sign, whole, places, text, signed, all, -⟩ := positional
    have there : c.rest = sign ++ (whole ++ ('.' :: places ++ rest)) := by
      rw [here, Print.operand, text, List.append_assoc, List.append_assoc]
    obtain ⟨quote, number⟩ := sees_number there signed all
    rw [if_neg (by simp [quote]), if_pos number]
    refine (number_float (reads x canonical).1 same here ends).mono ?_
    rintro _ ⟨same, here₁⟩
    exact ⟨by rw [same]; rfl, here₁⟩
  | path path =>
    have quote := startsWith_of_proper "\"" canonical here rfl (by decide) (by decide)
    have number : (c.sees fun ch => ch.isDigit || ch = '-') = false := by
      obtain ⟨ch, tail, letters, start⟩ := exists_of_proper canonical
      have here : c.rest = ch :: (tail ++ rest) := by rw [here, Print.operand, letters]; rfl
      unfold sees
      rw [here]
      rcases start with rfl | start
      · rfl
      · have minus : ch ≠ '-' := fun same => absurd (same ▸ start) (by decide)
        simp [isDigit_of_isKeyStart start, minus]
    rw [if_neg (by simp [quote]), if_neg (by simp [number])]
    refine .bind (path_yields path canonical here ends) ?_
    rintro ⟨_, c₁, h₁⟩ ⟨rfl, here₁⟩
    exact .ok ⟨rfl, here₁⟩
  | body b =>
    have quote : c.startsWith "\"" = true := startsWith_iff.mpr ⟨_, here.symm⟩
    rw [if_pos quote]
    refine .bind (quoted_yields canonical.inline canonical.ends here) ?_
    rintro ⟨_, c₁, h₁⟩ ⟨same, here₁⟩
    refine .ok ⟨?_, here₁⟩
    obtain ⟨unknown, same⟩ := static?_of_dynamic canonical same
    dsimp only [ParamValue.operand] at same unknown ⊢
    rw [unknown, same]

omit reads in
theorem params_none (ends : TagEnds rest) (here : c.rest = rest) : Yields c.params (Pass.Is [] rest) := by
  have blank : rest.head?.any Text.isBlank = false := by
    rcases ends with same | same <;> (rw [same]; decide)
  unfold Cursor.params
  rw [(skipBlanks_rest (l := []) here nofun blank).1]
  exact .ok ⟨rfl, here⟩

omit reads in
/-- One parameter and those behind it. -/
theorem params_cons {key : String} (isKey : IsKey key) {text behind : List Char} {P : ParamValue → Prop}
    {Q : List (String × ParamValue) → Prop}
    (value : ∀ c : Cursor, c.rest = text ++ behind → Yields c.paramValue fun r => P r.value ∧ r.cursor.rest = behind)
    (more : ∀ c : Cursor, c.rest = behind → Yields c.params fun r => Q r.value ∧ r.cursor.rest = rest)
    (here : c.rest = ' ' :: (key.toList ++ '=' :: (text ++ behind))) : Yields c.params fun r =>
      (∃ value more, r.value = (key, value) :: more ∧ P value ∧ Q more) ∧ r.cursor.rest = rest := by
  have letter : (key.toList ++ '=' :: (text ++ behind)).head?.any Text.isBlank = false := by
    obtain ⟨ch, tail, letters, start⟩ := exists_of_isKey isKey
    rw [letters]
    exact isBlank_of_isKeyStart start
  obtain ⟨blank, there⟩ := skipBlanks_rest (l := [' ']) here (by simp; decide) letter
  unfold Cursor.params
  rw [blank, if_pos (by rw [seesKey_of_isKey there isKey]; rfl)]
  refine .bind (key_yields there isKey rfl) ?_
  rintro ⟨_, c₁, h₁⟩ ⟨rfl, here₁⟩
  refine .bind (expect_yields "=" here₁) ?_
  rintro ⟨_, c₂, h₂⟩ ⟨-, here₂⟩
  refine .bind (value c₂ here₂) ?_
  rintro ⟨value, c₃, h₃⟩ ⟨is, here₃⟩
  refine .bind (more c₃ here₃) ?_
  rintro ⟨more, c₄, h₄⟩ ⟨are, here₄⟩
  exact .ok ⟨⟨value, more, rfl, is, are⟩, here₄⟩

theorem params_yields {list : List (String × Operand Body)} (keys : ∀ e ∈ list, IsKey e.1)
    (canonical : ∀ e ∈ list, e.2.Canonical) (ends : TagEnds rest) {c : Cursor}
    (here : c.rest = Print.params write list ++ rest) :
    Yields c.params fun r => operands r.value = list ∧ r.cursor.rest = rest := by
  induction list generalizing c with
  | nil =>
    refine (params_none ends here).mono ?_
    rintro _ ⟨same, here₁⟩
    exact ⟨by rw [same]; rfl, here₁⟩
  | cons e more ih =>
    obtain ⟨key, o⟩ := e
    have text : c.rest = ' ' :: (key.toList ++ '=' :: (Print.operand write o ++ (Print.params write more ++ rest))) := by
      rw [here]
      simp [Print.params]
    have behind (c : Cursor) := ih (fun e mem => keys e (List.mem_cons_of_mem _ mem))
      (fun e mem => canonical e (List.mem_cons_of_mem _ mem)) (c := c)
    refine (params_cons (P := (·.operand = o)) (Q := (operands · = more)) (keys _ List.mem_cons_self) (fun c here =>
      paramValue_yields reads (canonical _ List.mem_cons_self) here ((spaced_params ..).pathEnds ends)) behind text).mono ?_
    rintro ⟨_, c₁, h₁⟩ ⟨⟨value, more, rfl, rfl, rfl⟩, here₁⟩
    exact ⟨rfl, here₁⟩

/-! ### Tags -/

omit reads

theorem context_yields {own : Option Path} (proper : ∀ p, own = some p → p.Proper)
    (here : c.rest = Print.context own ++ rest) (ends : pathEnds rest = true) (other : rest.head? ≠ some ':') :
    Yields c.context (Pass.Is own rest) := by
  unfold Cursor.context
  cases own with
  | none =>
    have colon : c.startsWith ":" = false := by
      have here : c.rest = rest := here
      cases rest with
      | nil => simp [startsWith, here]
      | cons ch tail =>
        have ne : ':' ≠ ch := fun same => other (by rw [same]; rfl)
        simp [startsWith, here, List.isPrefixOf, ne]
    rw [colon]
    exact .ok ⟨rfl, here⟩
  | some path =>
    have colon : c.startsWith ":" = true := startsWith_iff.mpr ⟨_, here.symm⟩
    rw [if_pos colon]
    refine .bind (path_yields path (proper path rfl) (skip_eq (l := [':']) here rfl) ends) ?_
    rintro ⟨_, c₁, h₁⟩ ⟨rfl, here₁⟩
    exact .ok ⟨rfl, here₁⟩

/-- An opening tag, as it is read. -/
structure Head.Is {α : Type} (value : α) (text : List Char) (own : Option Path) (P : List (String × ParamValue) → Prop)
    (closed : Bool) (head : Head α) : Prop where
  name : head.name = value
  written : head.written = .ofList text
  context : head.context = own
  params : P head.params
  closed : head.closed = closed

/-- The end of an opening tag. -/
def closing (closed : Bool) : List Char := if closed then ['/', '\x7d'] else ['\x7d']

theorem tagEnds_closing (closed : Bool) : TagEnds (closing closed ++ rest) := by
  cases closed
  · exact .inr rfl
  · exact .inl rfl

/-- Between a name and the end of a tag the context comes first. -/
theorem pathEnds_context {own : Option Path} (ends : pathEnds rest = true) : pathEnds (Print.context own ++ rest) = true := by
  cases own with
  | none => exact ends
  | some path => rfl

theorem skipBlanks_stay {ch : Char} {tail : List Char} (here : c.rest = ch :: tail) (solid : Text.isBlank ch = false) :
    c.skipBlanks.rest = c.rest := by
  rw [here]
  exact (skipBlanks_rest (l := []) here nofun solid).2

theorem TagEnds.skipBlanks (ends : TagEnds rest) (here : c.rest = rest) : c.skipBlanks.rest = rest := by
  have blank : rest.head?.any Text.isBlank = false := by
    rcases ends with same | same <;> (rw [same]; decide)
  exact (skipBlanks_rest (l := []) here nofun blank).2

theorem head_yields {α : Type} {name : (c : Cursor) → Except ParseError (Read c α)} {value : α} {text params : List Char}
    (named : ∀ {c : Cursor} {rest : List Char}, c.rest = text ++ rest → pathEnds rest = true →
      Yields (name c) (Read.Is value rest)) (start : ∃ ch tail, text = ch :: tail ∧ Text.isBlank ch = false)
    {own : Option Path} (proper : ∀ p, own = some p → p.Proper) {P : List (String × ParamValue) → Prop} {closed : Bool}
    (spaced : Spaced params) (read : ∀ c : Cursor, c.rest = params ++ (closing closed ++ rest) →
      Yields c.params fun r => P r.value ∧ r.cursor.rest = closing closed ++ rest)
    (here : c.rest = text ++ (Print.context own ++ (params ++ (closing closed ++ rest)))) :
    Yields (c.head name) fun r => r.value.Is value text own P closed ∧ r.cursor.rest = rest := by
  have ends : TagEnds (closing closed ++ rest) := tagEnds_closing closed
  have stay : c.skipBlanks.rest = c.rest := by
    obtain ⟨ch, tail, rfl, solid⟩ := start
    exact skipBlanks_stay here solid
  have there := stay.trans here
  unfold head
  refine .bind (named there (pathEnds_context (spaced.pathEnds ends))) ?_
  rintro ⟨_, c₁, h₁⟩ ⟨rfl, here₁⟩
  refine .bind (context_yields proper here₁ (spaced.pathEnds ends) (spaced.not_colon ends)) ?_
  rintro ⟨_, c₂, h₂⟩ ⟨rfl, here₂⟩
  refine .bind (read c₂ here₂) ?_
  rintro ⟨_, c₃, h₃⟩ ⟨are, here₃⟩
  have behind : c₃.skipBlanks.rest = closing closed ++ rest := ends.skipBlanks here₃
  have slash : c₃.skipBlanks.startsWith "/" = closed := by
    cases closed <;> simp [startsWith, behind, closing, List.isPrefixOf]
  have last : (c₃.skipBlanks.skip (if c₃.skipBlanks.startsWith "/" then 1 else 0)).rest = '\x7d' :: rest := by
    rw [slash, skip_rest, behind]
    cases closed <;> rfl
  refine .bind (expect_yields "\x7d" last) ?_
  rintro ⟨_, c₄, h₄⟩ ⟨-, here₄⟩
  exact .ok ⟨⟨rfl, upTo_eq there here₁, rfl, are, slash⟩, here₄⟩

theorem solid_of_proper {path : Path} (proper : path.Proper) :
    ∃ ch tail, path.text.toList = ch :: tail ∧ Text.isBlank ch = false := by
  obtain ⟨ch, tail, letters, start⟩ := exists_of_proper proper
  refine ⟨ch, tail, letters, ?_⟩
  rcases start with rfl | start
  · decide
  · exact isBlank_of_isKeyStart start

theorem closingTag_yields {path : Path} (proper : path.Proper) (here : c.rest = path.text.toList ++ '\x7d' :: rest) :
    Yields c.closingTag (Pass.Is path.text rest) := by
  have there : c.skipBlanks.rest = path.text.toList ++ '\x7d' :: rest := by
    obtain ⟨ch, tail, letters, solid⟩ := solid_of_proper proper
    exact (skipBlanks_stay (c := c) (by rw [here, letters]; rfl) solid).trans here
  refine .bind (path_yields path proper there rfl) ?_
  rintro ⟨_, c₁, h₁⟩ ⟨rfl, here₁⟩
  have behind : c₁.skipBlanks.rest = '\x7d' :: rest := TagEnds.skipBlanks (.inr rfl) here₁
  refine .bind (expect_yields "\x7d" behind) ?_
  rintro ⟨_, c₂, h₂⟩ ⟨-, here₂⟩
  exact .ok ⟨(upTo_eq there here₁).trans String.ofList_toList, here₂⟩

theorem separatorTag_yields {name : String} (key : IsKey name) (here : c.rest = name.toList ++ '\x7d' :: rest) :
    Yields c.separatorTag (Pass.Is name rest) := by
  refine .bind (key_yields here key rfl) ?_
  rintro ⟨_, c₁, h₁⟩ ⟨rfl, here₁⟩
  refine .bind (expect_yields "\x7d" here₁) ?_
  rintro ⟨_, c₂, h₂⟩ ⟨-, here₂⟩
  exact .ok ⟨rfl, here₂⟩

theorem partialName_yields {name : PartialName Body} (canonical : name.Canonical)
    (here : c.rest = Print.partialName name ++ rest) :
    Yields c.partialName fun r => PartialName.ofPieces r.value = name ∧ r.cursor.rest = rest := by
  unfold Cursor.partialName PartialName.ofPieces
  cases name with
  | static name =>
    rw [if_pos (startsWith_iff.mpr ⟨_, here.symm⟩)]
    refine (quoted_yields canonical.inline canonical.ends here).mono ?_
    rintro _ ⟨same, here₁⟩
    rw [Piece.static?_of_text same]
    exact ⟨rfl, here₁⟩
  | dynamic b =>
    rw [if_pos (startsWith_iff.mpr ⟨_, here.symm⟩)]
    refine (quoted_yields canonical.inline canonical.ends here).mono ?_
    rintro _ ⟨same, here₁⟩
    obtain ⟨unknown, same⟩ := static?_of_dynamic canonical same
    rw [unknown, same]
    exact ⟨rfl, here₁⟩

/-- The tag of a partial whose name stands in quotes. -/
theorem partialTag_yields {own : Option Path} (proper : ∀ p, own = some p → p.Proper) {name params : List Char}
    {P : List Piece → Prop} {Q : List (String × ParamValue) → Prop}
    (quoted : ∃ inner, name = '"' :: inner) (named : ∀ (c : Cursor) (rest : List Char), c.rest = name ++ rest →
      Yields c.partialName fun r => P r.value ∧ r.cursor.rest = rest) (spaced : Spaced params)
    (read : ∀ c : Cursor, c.rest = params ++ ('/' :: '\x7d' :: rest) →
      Yields c.params fun r => Q r.value ∧ r.cursor.rest = '/' :: '\x7d' :: rest)
    (here : c.rest = name ++ (Print.context own ++ (params ++ ('/' :: '\x7d' :: rest)))) :
    Yields c.partialTag fun r => (∃ pieces params, r.value = .partialTag pieces own params ∧ P pieces ∧ Q params) ∧
      r.cursor.rest = rest := by
  have ends : TagEnds ('/' :: '\x7d' :: rest) := .inl rfl
  have there : c.skipBlanks.rest = c.rest := by
    obtain ⟨inner, rfl⟩ := quoted
    exact skipBlanks_stay here (by decide)
  refine .bind (named _ _ (there.trans here)) ?_
  rintro ⟨pieces, c₁, h₁⟩ ⟨is, here₁⟩
  refine .bind (context_yields proper here₁ (spaced.pathEnds ends) (spaced.not_colon ends)) ?_
  rintro ⟨_, c₂, h₂⟩ ⟨rfl, here₂⟩
  refine .bind (read c₂ here₂) ?_
  rintro ⟨params, c₃, h₃⟩ ⟨are, here₃⟩
  refine .bind (expect_yields "/\x7d" (ends.skipBlanks here₃)) ?_
  rintro ⟨_, c₄, h₄⟩ ⟨-, here₄⟩
  exact .ok ⟨⟨pieces, params, rfl, is, are⟩, here₄⟩

end Cursor
end Stencil
