import Stencil.Proofs.Render.Scoping
import Stencil.Proofs.Source.Spelling

/-! Three ways to say an index. Behind a path with a key, brackets hold the digits of an index, or a path to the index as a
    number, or a path to its decimal as text. The digits are read as a number with a bound; a number has to be no less than
    zero; a text is a key, which an array reads as digits and an object takes for a name. All three lead to what the value in
    front of the brackets holds at the index. -/

namespace Stencil

open Decimal

/-- Every word that counts is an index. -/
theorem Decimal.Numeral.le_maxIndex {i : Nat} (word : i < wordEnd) : i ≤ maxIndex :=
  Nat.le_of_lt (Nat.lt_trans word (by decide))

/-! ### What a value holds at an index -/

/-- What a value holds at an index: an array the item with so many before it, an object the field named by the decimal of the
    index, any other value nothing. -/
inductive Value.HoldsAt (i : Nat) : Value → Value → Prop
  | item {items before after : List Value} {held : Value} (place : items = before ++ held :: after)
      (count : before.length = i) : HoldsAt i (.array items) held
  | field {fields : List (String × Value)} {held : Value} (found : Dict.get? (toString i) fields = some held) :
      HoldsAt i (.object fields) held

namespace Value

variable {i : Nat}

theorem item?_eq_some_iff {value held : Value} : value.item? i = some held ↔ value.HoldsAt i held := by
  constructor
  · intro found
    cases value with
    | array items =>
      obtain ⟨lt, rfl⟩ := List.getElem?_eq_some_iff.mp found
      have place : items = items.take i ++ items[i] :: items.drop (i + 1) := by
        rw [List.getElem_cons_drop, List.take_append_drop]
      exact .item place (List.length_take_of_le (Nat.le_of_lt lt))
    | object fields => exact .field found
    | _ => cases found
  · rintro (⟨rfl, rfl⟩ | found)
    · simp [item?]
    · exact found

theorem index?_toString (bound : i ≤ Numeral.maxIndex) : Numeral.index? (toString i).toList = some i := by
  rw [Nat.toString_eq_repr, Nat.toList_repr]
  exact (Cursor.index?_eq_some_iff Cursor.isDigit_of_toDigits).mpr ⟨Nat.toDigits_ne_nil, Cursor.value_toDigits i, bound⟩

/-- Of all keys the decimal of an index alone finds in every value what the index finds. Arrays know the index by other
    spellings too, objects do not. -/
theorem get?_eq_item?_iff {name : String} (bound : i ≤ Numeral.maxIndex) :
    (∀ value : Value, value.get? name = value.item? i) ↔ name = toString i := by
  constructor
  · intro same
    -- An object with that one field tells the decimal from all other keys.
    have field : Dict.get? name [(toString i, null)] = some null := (same (.object [(toString i, .null)])).trans (if_pos rfl)
    by_contra ne
    cases (if_neg (Ne.symm ne)).symm.trans field
  · rintro rfl value
    cases value with
    | array items => simp only [get?, item?, index?_toString bound, Option.bind_some]
    | _ => rfl

/-- A sign and a zero in front still spell the index of an item, but name another field. -/
example : ((array [null, bool true]).get? "+01").isSome = true ∧ ((object [("1", null)]).get? "+01").isNone = true := by
  decide

end Value

/-! ### Paths that go on -/

/-- A path with a segment behind it. -/
def Path.followedBy (path : Path) (segment : Segment) : Path :=
  { path with segments := path.segments ++ [segment] }

namespace SegmentSpelling

variable (front back : List SegmentSpelling)

theorem allChars_append : allChars (front ++ back) = allChars front ++ allChars back := by
  induction front with
  | nil => rfl
  | cons segment front ih => simp only [List.cons_append, allChars, ih, List.append_assoc]

theorem segments_append : segments (front ++ back) = segments front ++ segments back := by
  induction front with
  | nil => rfl
  | cons segment front ih => simp only [List.cons_append, segments, ih]

end SegmentSpelling

/-- Behind the text of a path with a key, a segment is read as the last one of the path. -/
theorem Path.ofText_append {text more : String} {path : Path} (read : Path.ofText text = .ok path)
    (keyed : path.segments ≠ []) {segment : SegmentSpelling} (letters : more.toList = segment.chars) :
    Path.ofText (text ++ more) = .ok (path.followedBy segment.segment) := by
  obtain ⟨spelling, start, rfl⟩ := Path.ofText_eq_ok_iff.mp read
  cases spelling with
  | current => exact absurd rfl keyed
  | keyed dotted name key segments =>
    refine Path.ofText_eq_ok_iff.mpr ⟨.keyed dotted name key (segments ++ [segment]), ?_, ?_⟩
    · rw [String.toList_append, ← start, letters]
      simp [PathSpelling.chars, SegmentSpelling.allChars_append, SegmentSpelling.allChars]
    · simp [PathSpelling.path, Path.followedBy, SegmentSpelling.segments_append, SegmentSpelling.segments]

theorem Path.ofText_index {text : String} {path : Path} (read : Path.ofText text = .ok path) (keyed : path.segments ≠ [])
    {i : Nat} (bound : i ≤ Numeral.maxIndex) :
    Path.ofText (text ++ ("[" ++ toString i ++ "]")) = .ok (path.followedBy (.index i)) := by
  have letters : ("[" ++ toString i ++ "]").toList = (SegmentSpelling.index (.of i bound)).chars := by
    simp [SegmentSpelling.chars, Digits.of, Nat.toString_eq_repr]
  have spelled := Path.ofText_append read keyed letters
  rwa [SegmentSpelling.segment, Digits.of, Cursor.value_toDigits] at spelled

theorem Path.ofText_dynamic {text k : String} {path inner : Path} (read : Path.ofText text = .ok path)
    (keyed : path.segments ≠ []) (readInner : Path.ofText k = .ok inner) :
    Path.ofText (text ++ ("[" ++ k ++ "]")) = .ok (path.followedBy (.dynamic inner)) := by
  obtain ⟨spelling, start, rfl⟩ := Path.ofText_eq_ok_iff.mp readInner
  have letters : ("[" ++ k ++ "]").toList = (SegmentSpelling.dynamic spelling).chars := by
    simp [SegmentSpelling.chars, start]
  exact Path.ofText_append read keyed letters

namespace Context

variable (c : Context)

theorem get?_of_ofText {text : String} {path : Path} (read : Path.ofText text = .ok path) : c.get? text = c.resolve path := by
  rw [get?, read]

theorem exists_of_get? {text : String} {value : Value} (found : c.get? text = some value) :
    ∃ path, Path.ofText text = .ok path ∧ c.resolve path = some value := by
  cases read : Path.ofText text with
  | ok path => exact ⟨path, rfl, c.get?_of_ofText read ▸ found⟩
  | error e =>
    rw [get?, read] at found
    cases found

/-- A path that goes on leads on from where it leads without its last segment. -/
theorem resolve_followedBy {path : Path} (keyed : path.segments ≠ []) (segment : Segment) :
    c.resolve (path.followedBy segment) = (c.resolve path).bind (c.follow [segment]) := by
  obtain ⟨current, segments⟩ := path
  cases current with
  | true =>
    simp only [Path.followedBy, resolve, Option.bind_assoc]
    exact Option.bind_congr fun value _ => c.follow_append segments [segment] value
  | false =>
    cases segments with
    -- Behind nothing the segment would be the first one, which is looked up in the scope and not in a value.
    | nil => exact absurd rfl keyed
    | cons first rest =>
      cases first with
      | key name =>
        simp only [Path.followedBy, List.cons_append, resolve, Option.bind_assoc]
        exact Option.bind_congr fun value _ => c.follow_append rest [segment] value
      | index i => rfl
      | dynamic inner => rfl

/-! ### What brackets do with what they hold -/

variable {i : Nat} {inner : Path} (value : Value)

theorem follow_index : c.follow [.index i] value = value.item? i := by
  simp only [follow]
  exact Option.bind_fun_some _

theorem follow_number {n : Int64} (bound : c.resolve inner = some (.int n)) (counts : 0 ≤ n) :
    c.follow [.dynamic inner] value = value.item? n.toInt.toNat := by
  simp only [follow, bound, Int64.not_lt.mpr counts, if_false]
  exact Option.bind_fun_some _

theorem follow_negative {n : Int64} (bound : c.resolve inner = some (.int n)) (negative : n < 0) :
    c.follow [.dynamic inner] value = none := by
  simp only [follow, bound, negative, if_true]

theorem follow_key {name : String} (bound : c.resolve inner = some (.string name)) :
    c.follow [.dynamic inner] value = value.get? name := by
  simp only [follow, bound]
  exact Option.bind_fun_some _

end Context

/-! ### The three ways agree -/

/-- Ways to look an index up agree. The literal leads to what the value in front holds at the index, a lookup in brackets that
    finds the index as a number or its decimal as text leads to where the literal leads, and one that finds a number below zero
    leads nowhere. -/
structure AgreeAt {κ : Type} (i : Nat) (look : κ → Option Value) (front literal : κ) (bracketed : κ → κ) : Prop where
  literal_iff : ∀ held, look literal = some held ↔ ∃ value, look front = some value ∧ value.HoldsAt i held
  number : ∀ k, look k = some (.int (.ofNat i)) → look (bracketed k) = look literal
  decimal : ∀ k, look k = some (.string (toString i)) → look (bracketed k) = look literal
  negative : ∀ k n, look k = some (.int n) → n < 0 → look (bracketed k) = none

theorem AgreeAt.of_resolve (c : Context) {path : Path} (keyed : path.segments ≠ []) {i : Nat} (word : i < Numeral.wordEnd) :
    AgreeAt i c.resolve path (path.followedBy (.index i)) fun k => path.followedBy (.dynamic k) := by
  have literal : c.resolve (path.followedBy (.index i)) = (c.resolve path).bind (Value.item? i) := by
    rw [c.resolve_followedBy keyed]
    exact Option.bind_congr fun value _ => c.follow_index value
  constructor
  case literal_iff =>
    intro held
    simp only [literal, Option.bind_eq_some_iff, Value.item?_eq_some_iff]
  case number =>
    intro k bound
    have whole : (Int64.ofNat i).toInt = i := Int64.toInt_ofNat_of_lt word
    have counts : 0 ≤ Int64.ofNat i := by
      rw [Int64.le_iff_toInt_le, whole]
      exact Int.natCast_nonneg i
    rw [literal, c.resolve_followedBy keyed]
    refine Option.bind_congr fun value _ => ?_
    rw [c.follow_number value bound counts, whole, Int.toNat_natCast]
  case decimal =>
    intro k bound
    rw [literal, c.resolve_followedBy keyed]
    refine Option.bind_congr fun value _ => ?_
    rw [c.follow_key value bound, (Value.get?_eq_item?_iff (Numeral.le_maxIndex word)).mpr rfl]
  case negative =>
    intro k n bound below
    rw [c.resolve_followedBy keyed]
    exact Option.bind_eq_none_iff.mpr fun value _ => c.follow_negative value bound below

/-- Where ways to look up paths agree, so do the ways to look up texts that are read as them. -/
theorem AgreeAt.texts {c : Context} {i : Nat} {front literal : Path} {bracketed : Path → Path}
    (agree : AgreeAt i c.resolve front literal bracketed) {text digits : String} {enclosed : String → String}
    (readFront : Path.ofText text = .ok front) (readLiteral : Path.ofText digits = .ok literal)
    (readBracketed : ∀ k inner, Path.ofText k = .ok inner → Path.ofText (enclosed k) = .ok (bracketed inner)) :
    AgreeAt i c.get? text digits enclosed := by
  have looked {k : String} {inner : Path} (readInner : Path.ofText k = .ok inner) :
      c.get? (enclosed k) = c.resolve (bracketed inner) := c.get?_of_ofText (readBracketed k inner readInner)
  constructor
  case literal_iff =>
    intro held
    rw [c.get?_of_ofText readLiteral, c.get?_of_ofText readFront]
    exact agree.literal_iff held
  case number =>
    intro k bound
    obtain ⟨inner, readInner, found⟩ := c.exists_of_get? bound
    rw [looked readInner, c.get?_of_ofText readLiteral]
    exact agree.number inner found
  case decimal =>
    intro k bound
    obtain ⟨inner, readInner, found⟩ := c.exists_of_get? bound
    rw [looked readInner, c.get?_of_ofText readLiteral]
    exact agree.decimal inner found
  case negative =>
    intro k n bound below
    obtain ⟨inner, readInner, found⟩ := c.exists_of_get? bound
    rw [looked readInner]
    exact agree.negative inner n found below

/-- Behind the text of a path with a key, the digits of an index that a word can hold and the texts of paths are read in
    brackets, and all ways to look the index up agree, for the paths that are read and for their texts. -/
theorem index_forms_agree (c : Context) {text : String} {path : Path} (read : Path.ofText text = .ok path)
    (keyed : path.segments ≠ []) {i : Nat} (word : i < Numeral.wordEnd) :
    Path.ofText (text ++ ("[" ++ toString i ++ "]")) = .ok (path.followedBy (.index i)) ∧
    (∀ k inner, Path.ofText k = .ok inner →
      Path.ofText (text ++ ("[" ++ k ++ "]")) = .ok (path.followedBy (.dynamic inner))) ∧
    (AgreeAt i c.resolve path (path.followedBy (.index i)) fun k => path.followedBy (.dynamic k)) ∧
    AgreeAt i c.get? text (text ++ ("[" ++ toString i ++ "]")) fun k => text ++ ("[" ++ k ++ "]") := by
  have literal := Path.ofText_index read keyed (Numeral.le_maxIndex word)
  have bracketed (k : String) (inner : Path) (readInner : Path.ofText k = .ok inner) :=
    Path.ofText_dynamic read keyed readInner
  have paths := AgreeAt.of_resolve c keyed word
  exact ⟨literal, bracketed, paths, paths.texts read literal bracketed⟩

/-- An array, an object with a field named by the greatest word, and globals that hold indexes of both. -/
def indexedScope : Context :=
  .push (.base (.object [("end", .string "9223372036854775807"), ("last", .int 9223372036854775807), ("low", .int (-1)),
      ("n", .int 1), ("s", .string "1")]))
    (.object [("ends", .object [("9223372036854775807", .string "z")]), ("rows", .array [.string "a", .string "b"])])

theorem index_forms_agree_indexedScope :
    (Path.ofText ".rows" = .ok ⟨true, [.key "rows"]⟩ ∧ indexedScope.get? ".rows[1]" = some (.string "b") ∧
      indexedScope.get? ".rows[n]" = some (.string "b") ∧ indexedScope.get? ".rows[s]" = some (.string "b") ∧
      indexedScope.get? ".rows[low]" = none) ∧
    Path.ofText "ends" = .ok ⟨false, [.key "ends"]⟩ ∧
      indexedScope.get? "ends[9223372036854775807]" = some (.string "z") ∧
      indexedScope.get? "ends[last]" = some (.string "z") ∧ indexedScope.get? "ends[end]" = some (.string "z") := by
  have read (name : String) (key : IsKey name) : Path.ofText name = .ok ⟨false, [.key name]⟩ :=
    Path.ofText_eq_ok_iff.mpr ⟨.keyed false name key [], by simp [PathSpelling.chars, SegmentSpelling.allChars], rfl⟩
  have readRows : Path.ofText ".rows" = .ok ⟨true, [.key "rows"]⟩ :=
    Path.ofText_eq_ok_iff.mpr ⟨.keyed true "rows" (by decide) [], by decide, rfl⟩
  have get (name : String) (key : IsKey name) : indexedScope.get? name = indexedScope.resolve ⟨false, [.key name]⟩ :=
    indexedScope.get?_of_ofText (read name key)
  obtain ⟨-, -, -, rows⟩ := index_forms_agree indexedScope readRows (List.cons_ne_nil _ _) (i := 1) (by decide)
  obtain ⟨-, -, -, ends⟩ :=
    index_forms_agree indexedScope (read "ends" (by decide)) (List.cons_ne_nil _ _) (i := 9223372036854775807) (by decide)
  have second : indexedScope.get? ".rows[1]" = some (.string "b") :=
    (rows.literal_iff _).mpr ⟨_, indexedScope.get?_of_ofText readRows, Value.item?_eq_some_iff.mp rfl⟩
  have greatest : indexedScope.get? "ends[9223372036854775807]" = some (.string "z") :=
    (ends.literal_iff _).mpr ⟨_, get "ends" (by decide), .field rfl⟩
  exact ⟨⟨readRows, second, (rows.number "n" (get "n" (by decide))).trans second,
      (rows.decimal "s" (get "s" (by decide))).trans second, rows.negative "low" (-1) (get "low" (by decide)) (by decide)⟩,
    read "ends" (by decide), greatest, (ends.number "last" (get "last" (by decide))).trans greatest,
      (ends.decimal "end" (get "end" (by decide))).trans greatest⟩

end Stencil
