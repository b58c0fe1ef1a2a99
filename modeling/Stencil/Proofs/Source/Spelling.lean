import Stencil.Proofs.Source.Lexemes

/-! How paths are written. A spelling derives a text by the rules of paths: a dot alone, or a key that may have a dot before
    it, with keys behind dots and indexes or paths in brackets behind it. What is read as a path has a spelling, whatever has
    one is read, no text has two, and every path that is read is printed as a text with a spelling of its own. -/

namespace Stencil

open Decimal

/-- The digits of an index, as they are written. -/
structure Digits where
  chars : List Char
  some : chars ≠ []
  digits : ∀ ch ∈ chars, ch.isDigit = true
  bound : Numeral.value chars ≤ Numeral.maxIndex

mutual

/-- How a path is written. -/
inductive PathSpelling where
  /-- A dot alone. -/
  | current
  | keyed (dotted : Bool) (name : String) (key : IsKey name) (more : List SegmentSpelling)

/-- How a segment behind another is written. -/
inductive SegmentSpelling where
  | key (name : String) (key : IsKey name)
  | index (digits : Digits)
  | dynamic (path : PathSpelling)

end

mutual

/-- The characters of a path. -/
def PathSpelling.chars : PathSpelling → List Char
  | .current => ['.']
  | .keyed dotted name _ more => (if dotted then ['.'] else []) ++ (name.toList ++ SegmentSpelling.allChars more)

/-- The characters of a segment. -/
def SegmentSpelling.chars : SegmentSpelling → List Char
  | .key name _ => '.' :: name.toList
  | .index digits => '[' :: (digits.chars ++ [']'])
  | .dynamic path => '[' :: (path.chars ++ [']'])

/-- The characters of segments. -/
def SegmentSpelling.allChars : List SegmentSpelling → List Char
  | [] => []
  | segment :: more => segment.chars ++ SegmentSpelling.allChars more

end

mutual

/-- The path that is written. -/
def PathSpelling.path : PathSpelling → Path
  | .current => ⟨true, []⟩
  | .keyed dotted name _ more => ⟨dotted, .key name :: SegmentSpelling.segments more⟩

/-- The segment that is written. -/
def SegmentSpelling.segment : SegmentSpelling → Segment
  | .key name _ => .key name
  | .index digits => .index (Numeral.value digits.chars)
  | .dynamic path => .dynamic path.path

/-- The segments that are written. -/
def SegmentSpelling.segments : List SegmentSpelling → List Segment
  | [] => []
  | segment :: more => segment.segment :: SegmentSpelling.segments more

end

theorem PathSpelling.keyed_append (dotted : Bool) (name : String) (key : IsKey name) (more : List SegmentSpelling)
    (rest : List Char) : (PathSpelling.keyed dotted name key more).chars ++ rest =
      (if dotted then ['.'] else []) ++ (name.toList ++ (SegmentSpelling.allChars more ++ rest)) := by
  simp [PathSpelling.chars]

namespace SegmentSpelling

variable (more : List SegmentSpelling) (rest : List Char)

theorem key_append (name : String) (key : IsKey name) : allChars (.key name key :: more) ++ rest =
    '.' :: (name.toList ++ (allChars more ++ rest)) := by
  simp [allChars, chars]

theorem index_append (digits : Digits) : allChars (.index digits :: more) ++ rest =
    '[' :: (digits.chars ++ ']' :: (allChars more ++ rest)) := by
  simp [allChars, chars]

theorem dynamic_append (path : PathSpelling) : allChars (.dynamic path :: more) ++ rest =
    '[' :: (path.chars ++ ']' :: (allChars more ++ rest)) := by
  simp [allChars, chars]

end SegmentSpelling

/-! ### Where spellings start and end -/

theorem pathEnds_cons {ch : Char} {tail : List Char} :
    pathEnds (ch :: tail) = true ↔ isKeyChar ch = false ∧ ch ≠ '.' ∧ ch ≠ '[' := by
  simp [pathEnds, and_assoc]

theorem not_keyChar_of_ends {rest : List Char} (ends : pathEnds rest = true) : rest.head?.any isKeyChar = false := by
  cases rest with
  | nil => rfl
  | cons ch tail => exact (pathEnds_cons.mp ends).1

/-- A path starts with a dot or a key. -/
theorem PathSpelling.exists_start (s : PathSpelling) :
    ∃ ch tail, s.chars = ch :: tail ∧ (ch = '.' ∨ isKeyStart ch = true) := by
  match s with
  | .current => exact ⟨'.', [], rfl, .inl rfl⟩
  | .keyed true name _ more => exact ⟨'.', name.toList ++ SegmentSpelling.allChars more, rfl, .inl rfl⟩
  | .keyed false name key more =>
    obtain ⟨ch, tail, letters, start⟩ := Cursor.exists_of_isKey key
    exact ⟨ch, tail ++ SegmentSpelling.allChars more, by simp [PathSpelling.chars, letters], .inr start⟩

/-- A segment behind another starts with a dot or a bracket. -/
theorem SegmentSpelling.exists_start (s : SegmentSpelling) : ∃ ch tail, s.chars = ch :: tail ∧ (ch = '.' ∨ ch = '[') := by
  cases s with
  | key name _ => exact ⟨_, _, rfl, .inl rfl⟩
  | index digits => exact ⟨_, _, rfl, .inr rfl⟩
  | dynamic path => exact ⟨_, _, rfl, .inr rfl⟩

theorem SegmentSpelling.not_keyChar_allChars (list : List SegmentSpelling) {rest : List Char} (ends : pathEnds rest = true) :
    (allChars list ++ rest).head?.any isKeyChar = false := by
  cases list with
  | nil => exact not_keyChar_of_ends ends
  | cons segment more =>
    obtain ⟨ch, tail, letters, rfl | rfl⟩ := segment.exists_start <;> (rw [allChars, letters]; rfl)

namespace Cursor

variable {c : Cursor} {rest : List Char}

/-! ### What has a spelling is read -/

theorem startsWith_of_ends (here : c.rest = rest) (ends : pathEnds rest = true) :
    c.startsWith "." = false ∧ c.startsWith "[" = false := by
  unfold startsWith
  rw [here]
  cases rest with
  | nil => exact ⟨rfl, rfl⟩
  | cons ch tail =>
    obtain ⟨-, dot, bracket⟩ := pathEnds_cons.mp ends
    simp [List.isPrefixOf, dot.symm, bracket.symm]

theorem seesKey_of_ends (here : c.rest = rest) (ends : pathEnds rest = true) : c.seesKey = false := by
  unfold seesKey sees
  rw [here]
  cases rest with
  | nil => rfl
  | cons ch tail =>
    exact Bool.eq_false_iff.mpr fun start =>
      absurd (isKeyChar_of_isKeyStart ch start) (by simp [(pathEnds_cons.mp ends).1])

/-- The digits of an index have its value, and it has bounds. -/
theorem index?_eq_some_iff {digits : List Char} (all : ∀ ch ∈ digits, ch.isDigit = true) {i : Nat} :
    Numeral.index? digits = some i ↔ digits ≠ [] ∧ Numeral.value digits = i ∧ i ≤ Numeral.maxIndex := by
  have plain : Numeral.index? digits = (Numeral.digits? digits).bind fun n =>
      if n ≤ Numeral.maxIndex then some n else none := by
    unfold Numeral.index?
    split
    · exact absurd (all '+' List.mem_cons_self) (by decide)
    · rfl
  have every : digits.all Numeral.isDigit = true := List.all_eq_true.mpr all
  rw [plain, Option.bind_eq_some_iff]
  unfold Numeral.digits?
  rw [every]
  cases digits with
  | nil => simp
  | cons ch tail =>
    constructor
    · rintro ⟨n, same, found⟩
      cases same
      split at found
      · next bound =>
        cases found
        exact ⟨List.cons_ne_nil _ _, rfl, bound⟩
      · cases found
    · rintro ⟨-, rfl, bound⟩
      exact ⟨_, rfl, if_pos bound⟩

theorem index_spelled (digits : Digits) (here : c.rest = digits.chars ++ ']' :: rest) :
    Yields c.index (Pass.Is (.index (Numeral.value digits.chars)) (']' :: rest)) := by
  have length := run_eq here digits.digits (p := Char.isDigit) rfl
  have found : Numeral.index? (c.text (c.run Char.isDigit)).toList = some (Numeral.value digits.chars) := by
    rw [text_eq here length, String.toList_ofList]
    exact (index?_eq_some_iff digits.digits).mpr ⟨digits.some, rfl, digits.bound⟩
  unfold index
  dsimp only
  rw [found]
  exact .ok ⟨rfl, walk_eq here length⟩

mutual

theorem path_spelled : ∀ (s : PathSpelling) {c : Cursor} {rest : List Char} (_ : c.rest = s.chars ++ rest)
    (_ : pathEnds rest = true), Yields c.path (Read.Is s.path rest)
  | .current, c, rest, here, ends => by
    have behind : (c.skip 1).rest = rest := skip_eq (l := ['.']) here rfl
    have dot : c.startsWith "." = true := startsWith_iff.mpr ⟨rest, here.symm⟩
    unfold Cursor.path
    rw [dif_pos dot, seesKey_of_ends behind ends]
    exact .ok ⟨rfl, behind⟩
  | .keyed true name key more, c, rest, here, ends => by
    have starts : c.rest = ['.'] ++ (name.toList ++ (SegmentSpelling.allChars more ++ rest)) :=
      here.trans (PathSpelling.keyed_append true name key more rest)
    have behind := skip_eq starts (n := 1) rfl
    have dot : c.startsWith "." = true := startsWith_iff.mpr ⟨_, starts.symm⟩
    unfold Cursor.path
    rw [dif_pos dot, if_pos (seesKey_of_isKey behind key)]
    refine .bind (key_yields behind key (SegmentSpelling.not_keyChar_allChars more ends)) ?_
    rintro ⟨_, c₁, h₁⟩ ⟨rfl, here₁⟩
    refine .bind (segments_spelled more here₁ ends) ?_
    rintro ⟨_, c₂, h₂⟩ ⟨rfl, here₂⟩
    exact .ok ⟨rfl, here₂⟩
  | .keyed false name key more, c, rest, here, ends => by
    have starts : c.rest = name.toList ++ (SegmentSpelling.allChars more ++ rest) :=
      here.trans (PathSpelling.keyed_append false name key more rest)
    obtain ⟨ch, tail, letters, start⟩ := exists_of_isKey key
    have dot : c.startsWith "." = false := by
      have ne : '.' ≠ ch := fun same => absurd (same ▸ start) (by decide)
      simp [startsWith, starts, letters, List.isPrefixOf, ne]
    unfold Cursor.path
    rw [dif_neg (by simp [dot])]
    refine .bind (key_yields starts key (SegmentSpelling.not_keyChar_allChars more ends)) ?_
    rintro ⟨_, c₁, h₁⟩ ⟨rfl, here₁⟩
    refine .bind (segments_spelled more here₁ ends) ?_
    rintro ⟨_, c₂, h₂⟩ ⟨rfl, here₂⟩
    exact .ok ⟨rfl, here₂⟩

theorem segments_spelled : ∀ (list : List SegmentSpelling) {c : Cursor} {rest : List Char}
    (_ : c.rest = SegmentSpelling.allChars list ++ rest) (_ : pathEnds rest = true),
    Yields c.segments (Pass.Is (SegmentSpelling.segments list) rest)
  | [], c, rest, here, ends => by
    obtain ⟨dot, bracket⟩ := startsWith_of_ends (here.trans rfl) ends
    unfold Cursor.segments
    simp only [dot, bracket]
    exact .ok ⟨rfl, here⟩
  | .key name key :: more, c, rest, here, ends => by
    have starts : c.rest = ['.'] ++ (name.toList ++ (SegmentSpelling.allChars more ++ rest)) :=
      here.trans (SegmentSpelling.key_append more rest name key)
    have behind := skip_eq starts (n := 1) rfl
    have dot : c.startsWith "." = true := startsWith_iff.mpr ⟨_, starts.symm⟩
    unfold Cursor.segments
    rw [if_pos (by rw [dot, seesKey_of_isKey behind key]; rfl)]
    refine .bind (key_yields behind key (SegmentSpelling.not_keyChar_allChars more ends)) ?_
    rintro ⟨_, c₁, h₁⟩ ⟨rfl, here₁⟩
    refine .bind (segments_spelled more here₁ ends) ?_
    rintro ⟨_, c₂, h₂⟩ ⟨rfl, here₂⟩
    exact .ok ⟨rfl, here₂⟩
  | .index digits :: more, c, rest, here, ends => by
    have starts : c.rest = ['['] ++ (digits.chars ++ ']' :: (SegmentSpelling.allChars more ++ rest)) :=
      here.trans (SegmentSpelling.index_append more rest digits)
    have behind := skip_eq starts (n := 1) rfl
    have dot : c.startsWith "." = false := by simp [startsWith, starts, List.isPrefixOf]
    have bracket : c.startsWith "[" = true := startsWith_iff.mpr ⟨_, starts.symm⟩
    have digit : (c.skip 1).sees Char.isDigit = true := by
      obtain ⟨ch, tail, letters⟩ := List.exists_cons_of_ne_nil digits.some
      rw [letters] at behind
      exact sees_of_rest behind (digits.digits ch (letters ▸ List.mem_cons_self))
    unfold Cursor.segments
    rw [if_neg (by simp [dot]), dif_pos bracket]
    dsimp only
    rw [if_pos digit]
    refine .bind (index_spelled digits behind) ?_
    rintro ⟨_, c₁, h₁⟩ ⟨rfl, here₁⟩
    refine .bind (expect_yields "]" here₁) ?_
    rintro ⟨_, c₂, h₂⟩ ⟨rfl, here₂⟩
    refine .bind (segments_spelled more here₂ ends) ?_
    rintro ⟨_, c₃, h₃⟩ ⟨rfl, here₃⟩
    exact .ok ⟨rfl, here₃⟩
  | .dynamic path :: more, c, rest, here, ends => by
    have starts : c.rest = ['['] ++ (path.chars ++ ']' :: (SegmentSpelling.allChars more ++ rest)) :=
      here.trans (SegmentSpelling.dynamic_append more rest path)
    have behind := skip_eq starts (n := 1) rfl
    have dot : c.startsWith "." = false := by simp [startsWith, starts, List.isPrefixOf]
    have bracket : c.startsWith "[" = true := startsWith_iff.mpr ⟨_, starts.symm⟩
    have digit : (c.skip 1).sees Char.isDigit = false := by
      obtain ⟨ch, tail, letters, start⟩ := path.exists_start
      rw [sees, behind, letters]
      rcases start with rfl | start
      · rfl
      · exact isDigit_of_isKeyStart start
    unfold Cursor.segments
    rw [if_neg (by simp [dot]), dif_pos bracket]
    dsimp only
    rw [if_neg (by simp [digit])]
    refine .bind (path_spelled path behind rfl) ?_
    rintro ⟨_, c₁, h₁⟩ ⟨rfl, here₁⟩
    rw [pure_bind]
    refine .bind (expect_yields "]" here₁) ?_
    rintro ⟨_, c₂, h₂⟩ ⟨rfl, here₂⟩
    refine .bind (segments_spelled more here₂ ends) ?_
    rintro ⟨_, c₃, h₃⟩ ⟨rfl, here₃⟩
    exact .ok ⟨rfl, here₃⟩

end

/-! ### What is read has a spelling -/

theorem rest_of_startsWith {text : String} (h : c.startsWith text = true) :
    c.rest = text.toList ++ (c.skip text.length).rest := by
  obtain ⟨tail, first⟩ := startsWith_iff.mp h
  rw [skip_eq first.symm String.length_toList.symm, first]

theorem ensures_expect (text : String) (c : Cursor) :
    Ensures (c.expect text) fun r => c.rest = text.toList ++ r.cursor.rest := by
  unfold expect
  split
  · next starts => exact .ok (rest_of_startsWith starts)
  · split
    · exact .error
    · exact .error

theorem key_apart (c : Cursor) : Ensures c.key fun r => IsKey r.value ∧ c.rest = r.value.toList ++ r.cursor.rest := by
  intro r read
  obtain ⟨key, there⟩ := ensures_key c r read
  refine ⟨key, ?_⟩
  unfold Cursor.key at read
  split at read
  · cases read
    dsimp only
    rw [text_run, String.toList_ofList, takeWhile_append_walk]
  · cases read

theorem spelled_of_index (c : Cursor) : Ensures c.index fun r =>
    ∃ digits : Digits, r.value = .index (Numeral.value digits.chars) ∧ c.rest = digits.chars ++ r.cursor.rest := by
  unfold index
  dsimp only
  split
  · next i found =>
    rw [text_run, String.toList_ofList] at found
    have all : ∀ ch ∈ c.rest.takeWhile Char.isDigit, ch.isDigit = true := fun _ => List.mem_takeWhile_imp
    obtain ⟨some, rfl, bound⟩ := (index?_eq_some_iff all).mp found
    exact .ok ⟨⟨_, some, all, bound⟩, rfl, (c.takeWhile_append_walk _).symm⟩
  · exact .error

mutual

theorem spelled_of_path (c : Cursor) : Ensures c.path fun r =>
    ∃ s : PathSpelling, r.value = s.path ∧ c.rest = s.chars ++ r.cursor.rest := by
  unfold Cursor.path
  split
  · next dot =>
    have starts : c.rest = '.' :: (c.skip 1).rest := rest_of_startsWith dot
    split
    · refine .bind (key_apart _) ?_
      rintro ⟨name, c₁, h₁⟩ ⟨key, here₁⟩
      refine .bind (spelled_of_segments c₁) ?_
      rintro ⟨_, c₂, h₂⟩ ⟨more, rfl, here₂⟩
      refine .ok ⟨.keyed true name key more, rfl, ?_⟩
      rw [PathSpelling.keyed_append, ← here₂, ← here₁]
      exact starts
    · exact .ok ⟨.current, rfl, starts⟩
  · refine .bind (key_apart _) ?_
    rintro ⟨name, c₁, h₁⟩ ⟨key, here₁⟩
    refine .bind (spelled_of_segments c₁) ?_
    rintro ⟨_, c₂, h₂⟩ ⟨more, rfl, here₂⟩
    refine .ok ⟨.keyed false name key more, rfl, ?_⟩
    rw [PathSpelling.keyed_append, ← here₂]
    exact here₁
termination_by c.rest.length
decreasing_by
  · exact h₁
  · exact (onward_skip 1 c).trans_forward h₁

theorem spelled_of_segments (c : Cursor) : Ensures c.segments fun r =>
    ∃ list, r.value = SegmentSpelling.segments list ∧ c.rest = SegmentSpelling.allChars list ++ r.cursor.rest := by
  unfold Cursor.segments
  split
  · next seen =>
    have starts : c.rest = '.' :: (c.skip 1).rest := rest_of_startsWith (Bool.and_eq_true_iff.mp seen).1
    refine .bind (key_apart _) ?_
    rintro ⟨name, c₁, h₁⟩ ⟨key, here₁⟩
    refine .bind (spelled_of_segments c₁) ?_
    rintro ⟨_, c₂, h₂⟩ ⟨more, rfl, here₂⟩
    refine .ok ⟨.key name key :: more, rfl, ?_⟩
    rw [SegmentSpelling.key_append, ← here₂, ← here₁]
    exact starts
  · split
    · next opens =>
      have starts : c.rest = '[' :: (c.skip 1).rest := rest_of_startsWith opens
      have opened : c.Forward (c.skip 1) := forward_skip (rest_ne_nil_of_startsWith opens Nat.one_pos) Nat.one_pos
      dsimp only
      split
      · refine .bind (spelled_of_index _) ?_
        rintro ⟨_, c₁, h₁⟩ ⟨digits, rfl, here₁⟩
        refine .bind (ensures_expect "]" c₁) ?_
        rintro ⟨_, c₂, h₂⟩ here₂
        refine .bind (spelled_of_segments c₂) ?_
        rintro ⟨_, c₃, h₃⟩ ⟨more, rfl, here₃⟩
        refine .ok ⟨.index digits :: more, rfl, ?_⟩
        rw [SegmentSpelling.index_append, ← here₃]
        exact starts.trans (congrArg _ (here₁.trans (congrArg _ here₂)))
      · refine .bind (spelled_of_path (c.skip 1)) ?_
        rintro ⟨_, c₁, h₁⟩ ⟨path, rfl, here₁⟩
        rw [pure_bind]
        refine .bind (ensures_expect "]" c₁) ?_
        rintro ⟨_, c₂, h₂⟩ here₂
        refine .bind (spelled_of_segments c₂) ?_
        rintro ⟨_, c₃, h₃⟩ ⟨more, rfl, here₃⟩
        refine .ok ⟨.dynamic path :: more, rfl, ?_⟩
        rw [SegmentSpelling.dynamic_append, ← here₃]
        exact starts.trans (congrArg _ (here₁.trans (congrArg _ here₂)))
    · exact .ok ⟨[], rfl, rfl⟩
termination_by c.rest.length
decreasing_by
  · exact opened
  · exact (opened.trans h₁).trans_onward h₂
  · exact (opened.trans_onward h₁).trans_onward h₂
  · exact (onward_skip 1 c).trans_forward h₁

end

end Cursor

/-! ### No text has two spellings -/

theorem IsKey.unique {name name' : String} {rest rest' : List Char} (key : IsKey name) (key' : IsKey name')
    (same : name.toList ++ rest = name'.toList ++ rest') (ends : rest.head?.any isKeyChar = false)
    (ends' : rest'.head?.any isKeyChar = false) : name = name' ∧ rest = rest' := by
  obtain ⟨letters, behind⟩ := Cursor.run_unique same key.2 ends key'.2 ends'
  exact ⟨String.toList_inj.mp letters, behind⟩

/-- A dot before a key is written, or there is none. -/
theorem dotted_unique {dotted dotted' : Bool} {name name' : String} {rest rest' : List Char} (key : IsKey name)
    (key' : IsKey name') (same : (if dotted then ['.'] else []) ++ (name.toList ++ rest) =
      (if dotted' then ['.'] else []) ++ (name'.toList ++ rest')) :
    dotted = dotted' ∧ name.toList ++ rest = name'.toList ++ rest' := by
  obtain ⟨ch, tail, letters, start⟩ := Cursor.exists_of_isKey key
  obtain ⟨ch', tail', letters', start'⟩ := Cursor.exists_of_isKey key'
  have ne : ch ≠ '.' := fun same => absurd (same ▸ start) (by decide)
  have ne' : ch' ≠ '.' := fun same => absurd (same ▸ start') (by decide)
  rw [letters, letters'] at same ⊢
  cases dotted <;> cases dotted'
  · exact ⟨rfl, same⟩
  · exact absurd (List.cons.inj same).1 ne
  · exact absurd (List.cons.inj same).1.symm ne'
  · exact ⟨rfl, (List.cons.inj same).2⟩

/-- A dot alone is no dot before a key. -/
theorem PathSpelling.ne_current {dotted : Bool} {name : String} {key : IsKey name} {more : List SegmentSpelling}
    {rest rest' : List Char} (ends : pathEnds rest = true) :
    PathSpelling.current.chars ++ rest ≠ (keyed dotted name key more).chars ++ rest' := by
  intro same
  obtain ⟨ch, tail, letters, start⟩ := Cursor.exists_of_isKey key
  rw [keyed_append, letters] at same
  cases dotted
  · exact absurd ((List.cons.inj same).1 ▸ start) (by decide)
  · obtain rfl := (List.cons.inj same).2
    exact absurd (isKeyChar_of_isKeyStart ch start) (by simp [(pathEnds_cons.mp ends).1])

/-- Where no path goes on no segment starts. -/
theorem SegmentSpelling.pathEnds_allChars (segment : SegmentSpelling) (more : List SegmentSpelling) (rest : List Char) :
    pathEnds (allChars (segment :: more) ++ rest) = false := by
  obtain ⟨ch, tail, letters, rfl | rfl⟩ := segment.exists_start <;> (rw [allChars, letters]; rfl)

theorem Digits.eq_of_chars {digits digits' : Digits} (same : digits.chars = digits'.chars) : digits = digits' := by
  cases digits
  cases digits'
  cases same
  rfl

/-- No path starts with a digit. -/
theorem Digits.ne_path (digits : Digits) (path : PathSpelling) {rest rest' : List Char} :
    digits.chars ++ rest ≠ path.chars ++ rest' := by
  intro same
  obtain ⟨ch, tail, first⟩ := List.exists_cons_of_ne_nil digits.some
  obtain ⟨ch', tail', first', start⟩ := path.exists_start
  have digit := digits.digits ch (first ▸ List.mem_cons_self)
  rw [first, first'] at same
  obtain rfl := (List.cons.inj same).1
  rcases start with rfl | start
  · exact absurd digit (by decide)
  · exact absurd digit (by simp [isDigit_of_isKeyStart start])

mutual

theorem PathSpelling.unique : ∀ (s t : PathSpelling) {rest rest' : List Char} (_ : s.chars ++ rest = t.chars ++ rest')
    (_ : pathEnds rest = true) (_ : pathEnds rest' = true), s = t ∧ rest = rest'
  | .current, .current, _, _, same, _, _ => ⟨rfl, (List.cons.inj same).2⟩
  | .current, .keyed _ _ _ _, _, _, same, ends, _ => absurd same (PathSpelling.ne_current ends)
  | .keyed _ _ _ _, .current, _, _, same, _, ends' => absurd same.symm (PathSpelling.ne_current ends')
  | .keyed dotted name key more, .keyed dotted' name' key' more', rest, rest', same, ends, ends' => by
    rw [PathSpelling.keyed_append, PathSpelling.keyed_append] at same
    obtain ⟨rfl, letters⟩ := dotted_unique key key' same
    obtain ⟨rfl, behind⟩ := key.unique key' letters (SegmentSpelling.not_keyChar_allChars more ends)
      (SegmentSpelling.not_keyChar_allChars more' ends')
    obtain ⟨rfl, last⟩ := SegmentSpelling.all_unique more more' behind ends ends'
    exact ⟨rfl, last⟩

theorem SegmentSpelling.all_unique : ∀ (l m : List SegmentSpelling) {rest rest' : List Char}
    (_ : SegmentSpelling.allChars l ++ rest = SegmentSpelling.allChars m ++ rest') (_ : pathEnds rest = true)
    (_ : pathEnds rest' = true), l = m ∧ rest = rest'
  | [], [], _, _, same, _, _ => ⟨rfl, same⟩
  | [], segment :: more, rest, rest', same, ends, _ => by
    cases (same ▸ segment.pathEnds_allChars more rest').symm.trans ends
  | segment :: more, [], rest, rest', same, _, ends' => by
    cases (same ▸ segment.pathEnds_allChars more rest).symm.trans ends'
  | .key name key :: more, .key name' key' :: more', rest, rest', same, ends, ends' => by
    rw [SegmentSpelling.key_append, SegmentSpelling.key_append] at same
    obtain ⟨rfl, behind⟩ := key.unique key' (List.cons.inj same).2 (SegmentSpelling.not_keyChar_allChars more ends)
      (SegmentSpelling.not_keyChar_allChars more' ends')
    obtain ⟨rfl, last⟩ := SegmentSpelling.all_unique more more' behind ends ends'
    exact ⟨rfl, last⟩
  | .index digits :: more, .index digits' :: more', rest, rest', same, ends, ends' => by
    rw [SegmentSpelling.index_append, SegmentSpelling.index_append] at same
    obtain ⟨alike, behind⟩ :=
      Cursor.run_unique (List.cons.inj same).2 digits.digits (p := Char.isDigit) rfl digits'.digits rfl
    obtain rfl := Digits.eq_of_chars alike
    obtain ⟨rfl, last⟩ := SegmentSpelling.all_unique more more' (List.cons.inj behind).2 ends ends'
    exact ⟨rfl, last⟩
  | .dynamic path :: more, .dynamic path' :: more', rest, rest', same, ends, ends' => by
    rw [SegmentSpelling.dynamic_append, SegmentSpelling.dynamic_append] at same
    obtain ⟨rfl, behind⟩ := PathSpelling.unique path path' (List.cons.inj same).2 rfl rfl
    obtain ⟨rfl, last⟩ := SegmentSpelling.all_unique more more' (List.cons.inj behind).2 ends ends'
    exact ⟨rfl, last⟩
  | .index digits :: more, .dynamic path :: more', rest, rest', same, _, _ => by
    rw [SegmentSpelling.index_append, SegmentSpelling.dynamic_append] at same
    exact absurd (List.cons.inj same).2 (digits.ne_path path)
  | .dynamic path :: more, .index digits :: more', rest, rest', same, _, _ => by
    rw [SegmentSpelling.index_append, SegmentSpelling.dynamic_append] at same
    exact absurd (List.cons.inj same).2.symm (digits.ne_path path)
  | .key _ _ :: _, .index _ :: _, _, _, same, _, _ | .key _ _ :: _, .dynamic _ :: _, _, _, same, _, _
  | .index _ :: _, .key _ _ :: _, _, _, same, _, _ | .dynamic _ :: _, .key _ _ :: _, _, _, same, _, _ => by
    cases (List.cons.inj same).1

end

/-! ### The spelling that is printed -/

/-- The digits of a number. -/
def Digits.of (i : Nat) (bound : i ≤ Numeral.maxIndex) : Digits where
  chars := Nat.toDigits 10 i
  some := Nat.toDigits_ne_nil
  digits := Cursor.isDigit_of_toDigits
  bound := (Cursor.value_toDigits i).symm ▸ bound

mutual

theorem Path.Proper.exists_spelling : ∀ {path : Path} (_ : path.Proper),
    ∃ s : PathSpelling, s.path = path ∧ s.chars = path.text.toList
  | ⟨true, []⟩, _ => ⟨.current, rfl, by simp [PathSpelling.chars, Path.text, Segment.leadingText]⟩
  | ⟨dotted, .key name :: _⟩, ⟨key, rest⟩ => by
    obtain ⟨more, rfl, letters⟩ := Segment.AllProper.exists_spellings rest
    refine ⟨.keyed dotted name key more, rfl, ?_⟩
    rw [PathSpelling.chars, letters]
    cases dotted <;> simp [Path.text, Segment.leadingText]

theorem Segment.AllProper.exists_spellings : ∀ {list : List Segment} (_ : Segment.AllProper list),
    ∃ l, SegmentSpelling.segments l = list ∧ SegmentSpelling.allChars l = (Segment.texts list).toList
  | [], _ => ⟨[], rfl, by simp [SegmentSpelling.allChars, Segment.texts]⟩
  | .key name :: _, ⟨key, rest⟩ => by
    obtain ⟨more, rfl, letters⟩ := Segment.AllProper.exists_spellings rest
    refine ⟨.key name key :: more, rfl, ?_⟩
    simp [SegmentSpelling.allChars, SegmentSpelling.chars, letters, Segment.texts]
  | .index i :: _, ⟨bound, rest⟩ => by
    obtain ⟨more, rfl, letters⟩ := Segment.AllProper.exists_spellings rest
    refine ⟨.index (.of i bound) :: more, ?_, ?_⟩
    · simp [SegmentSpelling.segments, SegmentSpelling.segment, Digits.of, Cursor.value_toDigits]
    · simp [SegmentSpelling.allChars, SegmentSpelling.chars, letters, Segment.texts, Digits.of, Nat.toString_eq_repr]
  | .dynamic _ :: _, ⟨proper, rest⟩ => by
    obtain ⟨path, rfl, text⟩ := Path.Proper.exists_spelling proper
    obtain ⟨more, rfl, letters⟩ := Segment.AllProper.exists_spellings rest
    refine ⟨.dynamic path :: more, rfl, ?_⟩
    simp [SegmentSpelling.allChars, SegmentSpelling.chars, text, letters, Segment.texts]

end

mutual

theorem PathSpelling.proper : ∀ s : PathSpelling, s.path.Proper
  | .current => rfl
  | .keyed _ _ key more => ⟨key, SegmentSpelling.all_proper more⟩

theorem SegmentSpelling.all_proper : ∀ list : List SegmentSpelling, Segment.AllProper (SegmentSpelling.segments list)
  | [] => trivial
  | .key _ key :: more => ⟨key, SegmentSpelling.all_proper more⟩
  | .index digits :: more => ⟨digits.bound, SegmentSpelling.all_proper more⟩
  | .dynamic path :: more => ⟨path.proper, SegmentSpelling.all_proper more⟩

end

namespace Cursor

variable {c : Cursor} {rest : List Char}

theorem path_yields (path : Path) (proper : path.Proper) (here : c.rest = path.text.toList ++ rest)
    (ends : pathEnds rest = true) : Yields c.path (Read.Is path rest) := by
  obtain ⟨s, rfl, letters⟩ := proper.exists_spelling
  exact path_spelled s (letters ▸ here) ends

theorem ensures_path (c : Cursor) : Ensures c.path fun r => r.value.Proper := fun r read => by
  obtain ⟨s, same, -⟩ := spelled_of_path c r read
  exact same ▸ s.proper

/-- A path starts with a dot or a key. -/
theorem exists_of_proper {path : Path} (proper : path.Proper) :
    ∃ ch tail, path.text.toList = ch :: tail ∧ (ch = '.' ∨ isKeyStart ch = true) := by
  obtain ⟨s, -, letters⟩ := proper.exists_spelling
  exact letters ▸ s.exists_start

/-- What no path starts with. -/
theorem startsWith_of_proper {path : Path} (mark : String) {ch : Char} (proper : path.Proper)
    (here : c.rest = path.text.toList ++ rest) (letters : mark.toList = [ch]) (dot : ch ≠ '.')
    (other : isKeyStart ch = false) : c.startsWith mark = false := by
  obtain ⟨first, tail, text, start⟩ := exists_of_proper proper
  have ne : ch ≠ first := by
    rintro rfl
    rcases start with rfl | start
    · exact dot rfl
    · rw [other] at start
      cases start
  simp [startsWith, here, text, letters, List.isPrefixOf, ne]

end Cursor

/-! ### Whole texts -/

theorem Path.ofText_eq_ok_iff {text : String} {path : Path} :
    Path.ofText text = .ok path ↔ ∃ s : PathSpelling, s.chars = text.toList ∧ s.path = path := by
  constructor
  · intro read
    unfold Path.ofText at read
    cases run : (Cursor.start text).path with
    | error e =>
      rw [run] at read
      cases read
    | ok r =>
      obtain ⟨s, same, letters⟩ := Cursor.spelled_of_path _ r run
      obtain ⟨_, c, h⟩ := r
      rw [run] at read
      change (if c.atEnd then _ else _) = _ at read
      split at read
      · next nothing =>
        cases read
        refine ⟨s, ?_, same.symm⟩
        change text.toList = s.chars ++ c.rest at letters
        rw [letters, List.isEmpty_iff.mp nothing, List.append_nil]
      · cases read
  · rintro ⟨s, letters, rfl⟩
    have here : (Cursor.start text).rest = s.chars ++ [] := by
      rw [List.append_nil, letters]
      rfl
    obtain ⟨⟨_, c, h⟩, run, rfl, nothing⟩ := Cursor.path_spelled s here rfl
    have atEnd : c.atEnd = true := List.isEmpty_iff.mpr nothing
    rw [Path.ofText, run]
    exact if_pos atEnd

/-- A text is read as a path exactly if it has a spelling, which is its only one, and the path is the one that is written. The
    text that a path is printed as is read as the path. -/
theorem path_read_iff_spelled (text : String) :
    (∀ path, Path.ofText text = .ok path ↔ ∃ s : PathSpelling, s.chars = text.toList ∧ s.path = path) ∧
    (∀ s t : PathSpelling, s.chars = text.toList → t.chars = text.toList → s = t) ∧
    (∀ path, Path.ofText text = .ok path → Path.ofText path.text = .ok path) := by
  refine ⟨fun _ => Path.ofText_eq_ok_iff, fun s t letters letters' => ?_, fun path read => ?_⟩
  · exact (s.unique t (congrArg (· ++ []) (letters.trans letters'.symm)) rfl rfl).1
  · obtain ⟨s, -, rfl⟩ := Path.ofText_eq_ok_iff.mp read
    obtain ⟨t, same, letters⟩ := s.proper.exists_spelling
    exact Path.ofText_eq_ok_iff.mpr ⟨t, letters, same⟩

/-- A path with paths in brackets, zeros in front of one index and the greatest of all in another. -/
def nestedSpelling : PathSpelling :=
  .keyed true "user" (by decide)
    [.index ⟨"007".toList, by decide, List.all_eq_true.mp (by decide), by decide⟩,
      .dynamic (.keyed true "at" (by decide) [.dynamic (.keyed false "x-y" (by decide) []), .key "$" (by decide)]),
      .index ⟨"18446744073709551615".toList, by decide, List.all_eq_true.mp (by decide), by decide⟩, .dynamic .current]

theorem path_read_iff_spelled_nestedSpelling :
    Path.ofText ".user[007][.at[x-y].$][18446744073709551615][.]" = .ok nestedSpelling.path ∧
    Path.ofText ".user[7][.at[x-y].$][18446744073709551615][.]" = .ok nestedSpelling.path ∧
    ∀ s : PathSpelling, s.chars = ".user[007][.at[x-y].$][18446744073709551615][.]".toList → s = nestedSpelling := by
  have letters : nestedSpelling.chars = ".user[007][.at[x-y].$][18446744073709551615][.]".toList := by decide
  obtain ⟨spelled, one, again⟩ := path_read_iff_spelled ".user[007][.at[x-y].$][18446744073709551615][.]"
  have read := (spelled _).mpr ⟨nestedSpelling, letters, rfl⟩
  have printed : nestedSpelling.path.text = ".user[7][.at[x-y].$][18446744073709551615][.]" := by decide +kernel
  exact ⟨read, printed ▸ again _ read, fun s here => one s _ here letters⟩

/-- No index is past the bound. -/
example : ∀ path, Path.ofText "a[18446744073709551616]" ≠ .ok path := by
  have fault : (Path.ofText "a[18446744073709551616]").toOption.isNone = true := by decide +kernel
  intro path read
  rw [read] at fault
  cases fault

end Stencil
