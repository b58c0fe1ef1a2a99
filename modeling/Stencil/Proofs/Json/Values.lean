import Mathlib.Data.List.Basic
import Stencil.Exchange.Program
import Stencil.Proofs.Json.Scalars

/-! Values of JSON read back from their texts, if their containers nest no deeper than the reader follows. A number that
    has no text in the format comes back as nothing. -/

namespace Stencil.Json

open Decimal

variable {α β : Type} {rest : List Char}

/-! ### Parts of values -/

/-- The floating-point numbers in a value. -/
def floats : Json → List Float
  | .float x => [x]
  | .array items => itemFloats items
  | .object members => memberFloats members
  | .null | .bool _ | .int _ | .string _ => []
where
  /-- The floating-point numbers in items. -/
  itemFloats : List Json → List Float
    | [] => []
    | item :: rest => item.floats ++ itemFloats rest
  /-- The floating-point numbers in members. -/
  memberFloats : List (String × Json) → List Float
    | [] => []
    | (_, value) :: rest => value.floats ++ memberFloats rest

/-- A value as it is read of its text. -/
def written : Json → Json
  | .float x => if x.isFinite then .float x else .null
  | .array items => .array (itemsWritten items)
  | .object members => ofMembers (membersWritten members)
  | .null => .null
  | .bool b => .bool b
  | .int n => .int n
  | .string s => .string s
where
  /-- Items as they are read of their texts. -/
  itemsWritten : List Json → List Json
    | [] => []
    | item :: rest => item.written :: itemsWritten rest
  /-- Members as they are read of their texts. -/
  membersWritten : List (String × Json) → List (String × Json)
    | [] => []
    | (name, value) :: rest => (name, value.written) :: membersWritten rest

variable {items : List Json} {members : List (String × Json)} {x : Float}

theorem mem_floats_array : x ∈ (array items).floats ↔ ∃ item ∈ items, x ∈ item.floats := by
  show x ∈ floats.itemFloats items ↔ _
  induction items with
  | nil => simp [floats.itemFloats]
  | cons item items ih => simp [floats.itemFloats, ih]

theorem mem_floats_object : x ∈ (object members).floats ↔ ∃ member ∈ members, x ∈ member.2.floats := by
  show x ∈ floats.memberFloats members ↔ _
  induction members with
  | nil => simp [floats.memberFloats]
  | cons member members ih => simp [floats.memberFloats, ih]

theorem written_array (items : List Json) : (array items).written = .array (items.map written) := by
  refine congrArg array ?_
  induction items with
  | nil => rfl
  | cons item items ih => exact congrArg (item.written :: ·) ih

theorem written_object (members : List (String × Json)) :
    (object members).written = ofMembers (members.map fun member => (member.1, member.2.written)) := by
  refine congrArg ofMembers ?_
  induction members with
  | nil => rfl
  | cons member members ih => exact congrArg ((member.1, member.2.written) :: ·) ih

theorem nesting_array_le {depth : Nat} : (array items).nesting ≤ depth + 1 ↔ ∀ item ∈ items, item.nesting ≤ depth := by
  refine Nat.succ_le_succ_iff.trans ?_
  induction items with
  | nil => simp [nesting.nestings]
  | cons item items ih => simp only [nesting.nestings, Nat.max_le, List.forall_mem_cons, ih]

theorem nesting_object_le {depth : Nat} :
    (object members).nesting ≤ depth + 1 ↔ ∀ member ∈ members, member.2.nesting ≤ depth := by
  refine Nat.succ_le_succ_iff.trans ?_
  induction members with
  | nil => simp [nesting.memberNestings]
  | cons member members ih => simp only [nesting.memberNestings, Nat.max_le, List.forall_mem_cons, ih]

theorem itemTexts_eq (items : List Json) : itemTexts items = items.map text := by
  induction items with
  | nil => rfl
  | cons item items ih => exact congrArg (item.text :: ·) ih

/-- The text of a member. -/
def memberText (member : String × Json) : String := stringText member.1 ++ ":" ++ member.2.text

theorem memberTexts_eq (members : List (String × Json)) : memberTexts members = members.map memberText := by
  induction members with
  | nil => rfl
  | cons member members ih => exact congrArg (memberText member :: ·) ih

/-- Every number in a value has a text of its own. -/
def Finite (json : Json) : Prop := ∀ x ∈ json.floats, x.isFinite = true

instance (json : Json) : Decidable json.Finite :=
  inferInstanceAs (Decidable (∀ x ∈ json.floats, x.isFinite = true))

/-- Finite numbers in a value read back from their texts. -/
def Exact (json : Json) : Prop := ∀ x ∈ json.floats, x.isFinite = true → ReadsBack x

@[simp] theorem finite_null : Json.null.Finite := nofun

@[simp] theorem finite_string (s : String) : (Json.string s).Finite := nofun

theorem finite_array : (array items).Finite ↔ ∀ item ∈ items, item.Finite := by
  simp only [Finite, mem_floats_array]
  exact ⟨fun all item mem x inside => all x ⟨item, mem, inside⟩, fun all x ⟨item, mem, inside⟩ => all item mem x inside⟩

theorem finite_object : (object members).Finite ↔ ∀ member ∈ members, member.2.Finite := by
  simp only [Finite, mem_floats_object]
  exact ⟨fun all item mem x inside => all x ⟨item, mem, inside⟩, fun all x ⟨item, mem, inside⟩ => all item mem x inside⟩

theorem finite_array_cons {item : Json} : (array (item :: items)).Finite ↔ item.Finite ∧ (array items).Finite := by
  rw [finite_array, finite_array, List.forall_mem_cons]

theorem finite_object_cons {member : String × Json} :
    (object (member :: members)).Finite ↔ member.2.Finite ∧ (object members).Finite := by
  rw [finite_object, finite_object, List.forall_mem_cons]

theorem Exact.item (exact : (array items).Exact) : ∀ item ∈ items, item.Exact := fun item mem x inside =>
  exact x (mem_floats_array.mpr ⟨item, mem, inside⟩)

theorem Exact.member (exact : (object members).Exact) : ∀ member ∈ members, member.2.Exact :=
  fun member mem x inside => exact x (mem_floats_object.mpr ⟨member, mem, inside⟩)

/-- A value whose whole numbers are within the bounds of the format and whose members have a name each. -/
inductive Fair : Json → Prop
  | null : Fair .null
  | bool (b : Bool) : Fair (.bool b)
  | int {n : Int} : -(Numeral.wordEnd : Int) ≤ n → n ≤ Numeral.maxIndex → Fair (.int n)
  | float (x : Float) : Fair (.float x)
  | string (s : String) : Fair (.string s)
  | array {items : List Json} : (∀ item ∈ items, Fair item) → Fair (.array items)
  | object {members : List (String × Json)} : (Dict.keys members).Nodup → (∀ member ∈ members, Fair member.2) →
    Fair (.object members)

/-! ### Series -/

/-- What is read of the text of an item, whatever the end that follows. -/
def Gives (read : List Char → Option (β × List Char)) (text : List Char) (result : Option β) (close : Char) : Prop :=
  ∀ c rest, c = ',' ∨ c = close → read (text ++ c :: rest) = result.map (·, c :: rest)

theorem skipSpace_cons {c : Char} (shown : isSpace c = false) (rest : List Char) : skipSpace (c :: rest) = c :: rest := by
  unfold skipSpace
  rw [List.dropWhile_cons_of_neg (by simp [shown])]

section

variable {read : List Char → Option (β × List Char)} {close : Char} {count : Nat} {chars behind : List Char} {value : β}

theorem series?_end (shown : isSpace close = false) (found : read chars = some (value, close :: behind)) :
    series? read close (count + 1) chars = some ([value], behind) := by
  unfold series?
  simp only [found, Option.bind_eq_bind, Option.bind_some, skipSpace_cons shown, if_true]

theorem series?_more (apart : close ≠ ',') (found : read chars = some (value, ',' :: behind)) :
    series? read close (count + 1) chars = (series? read close count behind).map fun p => (value :: p.1, p.2) := by
  rw [series?]
  simp only [found, Option.bind_eq_bind, Option.bind_some, skipSpace_cons (show isSpace ',' = false from rfl), if_true]
  exact (if_neg apart.symm).trans Option.map_eq_bind.symm

theorem series?_none (missing : read chars = none) : series? read close (count + 1) chars = none := by
  unfold series?
  rw [missing]
  rfl

end

/-- A series of texts gives what the texts give, if each gives something. -/
theorem series?_intercalate {read : List Char → Option (β × List Char)} {text : α → List Char} {result : α → Option β}
    {close : Char} (apart : close ≠ ',') (shown : isSpace close = false) {items : List α} (some : items ≠ [])
    (each : ∀ item ∈ items, Gives read (text item) (result item) close) {count : Nat} (enough : items.length ≤ count)
    (rest : List Char) : series? read close count ([','].intercalate (items.map text) ++ close :: rest) =
      (items.mapM result).map (·, rest) := by
  induction items generalizing count with
  | nil => exact absurd rfl some
  | cons item items ih =>
    obtain ⟨first, others⟩ := List.forall_mem_cons.mp each
    obtain ⟨count, rfl⟩ := Nat.exists_eq_succ_of_ne_zero (Nat.ne_of_gt (Nat.lt_of_lt_of_le Nat.succ_pos' enough))
    rw [List.mapM_cons]
    -- The first item is followed by the closing character if it is the only one, and else by a comma.
    cases items with
    | nil =>
      have found : read (text item ++ close :: rest) = _ := first close rest (.inr rfl)
      rw [List.map_singleton, List.intercalate_singleton]
      cases gives : result item with
      | none =>
        rw [gives] at found
        exact series?_none found
      | some value =>
        rw [gives] at found
        exact series?_end shown found
    | cons next items =>
      have behind := ih (List.cons_ne_nil next items) others (Nat.succ_le_succ_iff.mp enough)
      have found := first ',' ([','].intercalate ((next :: items).map text) ++ close :: rest) (.inl rfl)
      have joined : [','].intercalate ((item :: next :: items).map text) ++ close :: rest =
          text item ++ ',' :: ([','].intercalate ((next :: items).map text) ++ close :: rest) := by
        simp [List.intercalate_cons_cons]
      rw [joined]
      cases gives : result item with
      | none =>
        rw [gives] at found
        exact series?_none found
      | some value =>
        rw [gives] at found
        rw [series?_more apart found, behind]
        cases (next :: items).mapM result <;> rfl

/-- A text starts with a character that neither is a blank nor closes. -/
def Starts (close : Char) (text : List Char) : Prop := ∃ c chars, text = c :: chars ∧ isSpace c = false ∧ c ≠ close

theorem Starts.append {close : Char} {text : List Char} (starts : Starts close text) (behind : List Char) :
    Starts close (text ++ behind) := by
  obtain ⟨c, chars, rfl, visible, apart⟩ := starts
  exact ⟨c, chars ++ behind, rfl, visible, apart⟩

theorem Starts.intercalate {close : Char} {text : List Char} (starts : Starts close text) (texts : List (List Char)) :
    Starts close ([','].intercalate (text :: texts)) := by
  cases texts with
  | nil => rwa [List.intercalate_singleton]
  | cons next texts =>
    rw [List.intercalate_cons_cons, List.append_assoc]
    exact starts.append _

theorem length_le_intercalate (texts : List (List Char)) : texts.length ≤ ([','].intercalate texts).length + 1 := by
  induction texts with
  | nil => exact Nat.zero_le _
  | cons text texts ih =>
    cases texts with
    | nil => exact Nat.succ_le_succ (Nat.zero_le _)
    | cons next texts =>
      rw [List.intercalate_cons_cons, List.length_append, List.length_append, List.length_singleton, List.length_cons]
      omega

/-- Items that are closed give what their texts give, if each gives something. -/
theorem items?_intercalate {read : List Char → Option (β × List Char)} {text : α → List Char} {result : α → Option β}
    {close : Char} (apart : close ≠ ',') (shown : isSpace close = false) {items : List α}
    (starts : ∀ item ∈ items, Starts close (text item))
    (each : ∀ item ∈ items, Gives read (text item) (result item) close) (rest : List Char) :
    items? read close ([','].intercalate (items.map text) ++ close :: rest) = (items.mapM result).map (·, rest) := by
  cases items with
  | nil =>
    rw [List.map_nil, List.intercalate_nil, List.nil_append, items?, skipSpace_cons shown]
    exact if_pos rfl
  | cons item items =>
    have series (count : Nat) (enough : (item :: items).length ≤ count) :
        series? read close count ([','].intercalate ((item :: items).map text) ++ close :: rest) = _ :=
      series?_intercalate apart shown (List.cons_ne_nil item items) each enough rest
    have length := length_le_intercalate ((item :: items).map text)
    obtain ⟨c, chars, joined, visible, other⟩ := (starts item List.mem_cons_self).intercalate (items.map text)
    rw [List.map_cons] at series length ⊢
    rw [joined] at series length ⊢
    rw [items?, List.cons_append, skipSpace_cons visible]
    refine (if_neg other).trans (series _ ?_)
    simp only [List.length_cons, List.length_map, List.length_append] at length ⊢
    omega

/-! ### Values -/

/-- A text as it is, unless it opens a container. -/
theorem value?_scalar {c : Char} (visible : isSpace c = false) (array : c ≠ '[') (object : c ≠ '\x7b') (chars : List Char)
    (depth : Nat) : value? depth (c :: chars) = scalar? (c :: chars) := by
  cases depth <;> simp [value?, skipSpace_cons visible, array, object]

theorem scalar?_number {c : Char} {chars : List Char} (starts : startsNumber c = true) :
    scalar? (c :: chars) = number? (c :: chars) := by
  unfold scalar?
  split
  case h_5 => rfl
  all_goals
    next same =>
      cases same
      exact absurd starts (by decide)

theorem isSpace_of_startsNumber {c : Char} (starts : startsNumber c = true) : isSpace c = false := by
  have apart (other : Char) (no : startsNumber other = false) : c ≠ other := fun same =>
    Bool.false_ne_true (no.symm.trans (same ▸ starts))
  simp [isSpace, apart ' ' rfl, apart '\t' rfl, apart '\n' rfl, apart '\r' rfl]

/-- A text of which a reader of numbers takes all starts like a number. -/
theorem starts_of_number? {text : List Char} {json : Json} (read : number? text = some (json, [])) {close : Char}
    (no : startsNumber close = false) : Starts close text := by
  cases text with
  | nil => cases head_of_number? read
  | cons c chars =>
    have starts : startsNumber c = true := head_of_number? read
    exact ⟨c, chars, rfl, isSpace_of_startsNumber starts, fun same => Bool.false_ne_true (no.symm.trans (same ▸ starts))⟩

theorem value?_number {text : List Char} {json : Json} (read : number? text = some (json, [])) (depth : Nat)
    (ends : EndsNumber rest) : value? depth (text ++ rest) = some (json, rest) := by
  cases text with
  | nil => cases head_of_number? read
  | cons c chars =>
    have starts : startsNumber c = true := head_of_number? read
    have array : c ≠ '[' := fun same => absurd (same ▸ starts) (by decide)
    have object : c ≠ '\x7b' := fun same => absurd (same ▸ starts) (by decide)
    rw [List.cons_append, value?_scalar (isSpace_of_startsNumber starts) array object, scalar?_number starts]
    exact extends_number? read rest ends

/-- Items of which each gives something under a condition give their results if all conditions hold. -/
theorem mapM_ite {read : α → Option β} {p : α → Prop} [DecidablePred p] {f : α → β} {items : List α}
    (each : ∀ item ∈ items, read item = if p item then some (f item) else none) :
    items.mapM read = if ∀ item ∈ items, p item then some (items.map f) else none := by
  induction items with
  | nil => simp
  | cons item items ih =>
    rw [List.mapM_cons, each item List.mem_cons_self, ih fun item mem => each item (List.mem_cons_of_mem _ mem)]
    by_cases first : p item
    · by_cases others : ∀ item ∈ items, p item
      · rw [if_pos others, if_pos first, if_pos (List.forall_mem_cons.mpr ⟨first, others⟩)]
        rfl
      · rw [if_neg others, if_pos first, if_neg fun all => others (List.forall_mem_cons.mp all).2]
        rfl
    · rw [if_neg first, if_neg fun all => first (List.forall_mem_cons.mp all).1]
      rfl

theorem endsNumber_nil : EndsNumber [] := nofun

theorem endsNumber_cons {c : Char} (ends : c = ',' ∨ c = ']' ∨ c = '\x7d') (rest : List Char) :
    EndsNumber (c :: rest) := by
  rintro _ ⟨⟩
  rcases ends with rfl | rfl | rfl <;> decide

theorem number?_intText {n : Int} (low : -(Numeral.wordEnd : Int) ≤ n) (high : n ≤ Numeral.maxIndex) :
    number? (int n).text.toList = some (.int n, []) := by
  have read := number?_int low high endsNumber_nil
  rwa [List.append_nil] at read

theorem toList_text_array (items : List Json) :
    (array items).text.toList = '[' :: ([','].intercalate (items.map fun item => item.text.toList) ++ [']']) := by
  simp [text, itemTexts_eq, String.toList_intercalate, Function.comp_def]

theorem toList_text_object (members : List (String × Json)) : (object members).text.toList =
    '\x7b' :: ([','].intercalate (members.map fun member => (memberText member).toList) ++ ['\x7d']) := by
  simp [text, memberTexts_eq, String.toList_intercalate, Function.comp_def]

theorem toList_memberText (member : String × Json) : (memberText member).toList =
    '"' :: (member.1.toList.flatMap escapeChar ++ '"' :: ':' :: member.2.text.toList) := by
  simp [memberText, toList_stringText]

theorem Fair.starts {json : Json} (fair : Fair json) (exact : json.Exact) {close : Char}
    (closes : close = ']' ∨ close = '\x7d') : Starts close json.text.toList := by
  have other : startsNumber close = false := by rcases closes with rfl | rfl <;> rfl
  have literal (c : Char) (chars : List Char) (visible : isSpace c = false) (square : c ≠ ']') (curly : c ≠ '\x7d') :
      Starts close (c :: chars) := ⟨c, chars, rfl, visible, by rcases closes with rfl | rfl <;> assumption⟩
  cases fair with
  | null => exact literal 'n' _ rfl (by decide) (by decide)
  | bool b => cases b <;> exact literal _ _ rfl (by decide) (by decide)
  | int low high => exact starts_of_number? (number?_intText low high) other
  | float x =>
    by_cases finite : x.isFinite = true
    · exact starts_of_number? (exact x (List.mem_singleton_self x) finite) other
    · have nothing : (Json.float x).text = "null" := floatText_of_not_isFinite finite
      rw [nothing]
      exact literal 'n' _ rfl (by decide) (by decide)
  | string s =>
    have quoted : (Json.string s).text.toList = _ := toList_stringText s
    rw [quoted]
    exact literal '"' _ rfl (by decide) (by decide)
  | array =>
    rw [toList_text_array]
    exact literal '[' _ rfl (by decide) (by decide)
  | object =>
    rw [toList_text_object]
    exact literal '\x7b' _ rfl (by decide) (by decide)

theorem member?_text {member : String × Json} {read : List Char → Option (Json × List Char)} {c : Char}
    {result : Option Json} (found : read (member.2.text.toList ++ c :: rest) = result.map (·, c :: rest)) :
    member? read ((memberText member).toList ++ c :: rest) = (result.map (member.1, ·)).map (·, c :: rest) := by
  have text : (memberText member).toList ++ c :: rest =
      '"' :: (member.1.toList.flatMap escapeChar ++ '"' :: ':' :: (member.2.text.toList ++ c :: rest)) := by
    rw [toList_memberText]
    simp
  unfold member?
  rw [text, skipSpace_cons rfl]
  simp only [string?_escaped, Option.bind_eq_bind, Option.bind_some, skipSpace_cons (show isSpace ':' = false from rfl),
    found]
  cases result <;> rfl

/-- What is read of the text of a value. -/
def reading (depth : Nat) (json : Json) : Option Json := if json.nesting ≤ depth then some json.written else none

theorem reading_of_nesting_eq_zero {json : Json} (flat : json.nesting = 0) (depth : Nat) :
    reading depth json = some json.written :=
  if_pos (flat ▸ Nat.zero_le depth)

theorem reading_array (depth : Nat) (items : List Json) :
    reading (depth + 1) (array items) = (items.mapM (reading depth)).map array := by
  have each : items.mapM (reading depth) = _ := mapM_ite fun item _ => rfl
  rw [each]
  unfold reading
  by_cases fits : ∀ item ∈ items, item.nesting ≤ depth
  · rw [if_pos (nesting_array_le.mpr fits), if_pos fits, written_array]
    rfl
  · rw [if_neg (mt nesting_array_le.mp fits), if_neg fits]
    rfl

theorem reading_object (depth : Nat) (members : List (String × Json)) :
    reading (depth + 1) (object members) =
      (members.mapM fun member => (reading depth member.2).map (member.1, ·)).map ofMembers := by
  rw [mapM_ite fun member _ => apply_ite (Option.map (member.1, ·)) _ _ _]
  unfold reading
  by_cases fits : ∀ member ∈ members, member.2.nesting ≤ depth
  · rw [if_pos (nesting_object_le.mpr fits), if_pos fits, written_object]
    rfl
  · rw [if_neg (mt nesting_object_le.mp fits), if_neg fits]
    rfl

theorem reading_zero_array (items : List Json) : reading 0 (array items) = none := if_neg (Nat.not_succ_le_zero _)

theorem reading_zero_object (members : List (String × Json)) : reading 0 (object members) = none :=
  if_neg (Nat.not_succ_le_zero _)

/-- The text of a fair value reads back, if its containers nest no deeper than the reader follows. -/
theorem Fair.value?_text {json : Json} (fair : Fair json) : json.Exact → ∀ {depth : Nat} {rest : List Char},
    EndsNumber rest → value? depth (json.text.toList ++ rest) = (reading depth json).map (·, rest) := by
  induction fair with
  | null =>
    intro exact depth rest ends
    rw [reading_of_nesting_eq_zero rfl]
    exact value?_scalar (c := 'n') rfl (by decide) (by decide) ('u' :: 'l' :: 'l' :: rest) depth
  | bool b =>
    intro exact depth rest ends
    rw [reading_of_nesting_eq_zero rfl]
    cases b with
    | true => exact value?_scalar (c := 't') rfl (by decide) (by decide) ('r' :: 'u' :: 'e' :: rest) depth
    | false => exact value?_scalar (c := 'f') rfl (by decide) (by decide) ('a' :: 'l' :: 's' :: 'e' :: rest) depth
  | int low high =>
    intro exact depth rest ends
    rw [reading_of_nesting_eq_zero rfl]
    exact value?_number (number?_intText low high) depth ends
  | float x =>
    intro exact depth rest ends
    rw [reading_of_nesting_eq_zero rfl]
    by_cases finite : x.isFinite = true
    · have same : (Json.float x).written = .float x := if_pos finite
      rw [same]
      exact value?_number (exact x (List.mem_singleton_self x) finite) depth ends
    · have nothing : (Json.float x).text = "null" := floatText_of_not_isFinite finite
      have same : (Json.float x).written = .null := if_neg finite
      rw [nothing, same]
      exact value?_scalar (c := 'n') rfl (by decide) (by decide) ('u' :: 'l' :: 'l' :: rest) depth
  | string s =>
    intro exact depth rest ends
    have quoted : (Json.string s).text.toList ++ rest = '"' :: (s.toList.flatMap escapeChar ++ '"' :: rest) := by
      have quoted : (Json.string s).text.toList = _ := toList_stringText s
      rw [quoted]
      simp
    rw [reading_of_nesting_eq_zero rfl, quoted, value?_scalar rfl (by decide) (by decide)]
    show (string? (s.toList.flatMap escapeChar ++ '"' :: rest)).map _ = _
    rw [string?_escaped]
    rfl
  | @array items all ih =>
    intro exact depth rest ends
    have opened : (Json.array items).text.toList ++ rest =
        '[' :: ([','].intercalate (items.map fun item => item.text.toList) ++ ']' :: rest) := by
      rw [toList_text_array]
      simp
    rw [opened]
    cases depth with
    | zero =>
      rw [reading_zero_array]
      rfl
    | succ depth =>
      have given : items? (value? depth) ']' ([','].intercalate (items.map fun item => item.text.toList) ++ ']' :: rest) =
          (items.mapM (reading depth)).map (·, rest) :=
        items?_intercalate (by decide) rfl (fun item mem => (all item mem).starts (exact.item item mem) (.inl rfl))
          (fun item mem c rest ends => ih item mem (exact.item item mem) (endsNumber_cons (by tauto) rest)) rest
      rw [reading_array]
      show (items? (value? depth) ']' _).bind _ = _
      rw [given]
      cases items.mapM (reading depth) <;> rfl
  | @object members _ all ih =>
    intro exact depth rest ends
    have opened : (Json.object members).text.toList ++ rest =
        '\x7b' :: ([','].intercalate (members.map fun member => (memberText member).toList) ++ '\x7d' :: rest) := by
      rw [toList_text_object]
      simp
    rw [opened]
    cases depth with
    | zero =>
      rw [reading_zero_object]
      rfl
    | succ depth =>
      have starts (member : String × Json) : Starts '\x7d' (memberText member).toList := by
        rw [toList_memberText]
        exact ⟨'"', _, rfl, rfl, by decide⟩
      have given : items? (member? (value? depth)) '\x7d'
          ([','].intercalate (members.map fun member => (memberText member).toList) ++ '\x7d' :: rest) =
          (members.mapM fun member => (reading depth member.2).map (member.1, ·)).map (·, rest) :=
        items?_intercalate (by decide) rfl (fun member _ => starts member) (fun member mem c rest ends =>
          member?_text (ih member mem (exact.member member mem) (endsNumber_cons (by tauto) rest))) rest
      rw [reading_object]
      show (items? (member? (value? depth)) '\x7d' _).bind _ = _
      rw [given]
      cases members.mapM fun member => (reading depth member.2).map (member.1, ·) <;> rfl

/-- The text of a fair value holds it, if its containers nest no deeper than the reader follows, and nothing otherwise. -/
theorem Fair.parse?_text {json : Json} (fair : Fair json) (exact : json.Exact) (depth : Nat) :
    parse? depth json.text = reading depth json := by
  have read : value? depth (json.text.toList ++ []) = (reading depth json).map (·, []) :=
    fair.value?_text exact endsNumber_nil
  rw [List.append_nil] at read
  unfold parse?
  rw [read]
  cases reading depth json <;> rfl

end Stencil.Json
