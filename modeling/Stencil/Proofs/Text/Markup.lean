import Stencil.Text.Html
import Stencil.Value.Text

/-! Text without markup. Where it stands between tags or in a quoted attribute, no character of it opens a tag, ends the
    attribute or begins a character reference that the text did not mean. Escaped text is such text, and so is the text of
    a value, unless a string in it is not. -/

namespace Stencil

namespace Text.Html

/-- The characters with a meaning in markup, the ampersand apart. -/
def delimiters : List Char := ['<', '>', '"', '\'']

/-- The character references that stand for characters with a meaning. -/
def entities : List (List Char) :=
  ["&amp;".toList, "&lt;".toList, "&gt;".toList, "&quot;".toList, "&#39;".toList]

/-- No delimiter, and each ampersand begins a character reference. -/
structure Inert (text : List Char) : Prop where
  delimiter : ∀ c ∈ text, c ∉ delimiters
  ampersand : ∀ rest, '&' :: rest <:+ text → ∃ entity ∈ entities, entity <+: '&' :: rest

/-- Neither a delimiter nor an ampersand. -/
def IsPlain (c : Char) : Prop := c ∉ '&' :: delimiters

instance (c : Char) : Decidable (IsPlain c) := inferInstanceAs (Decidable (c ∉ '&' :: delimiters))

namespace Inert

variable {text more : List Char}

theorem of_plain (plain : ∀ c ∈ text, IsPlain c) : Inert text where
  delimiter c mem isDelimiter := plain c mem (List.mem_cons_of_mem _ isDelimiter)
  ampersand _ suffix := absurd List.mem_cons_self (plain '&' (suffix.subset List.mem_cons_self))

theorem of_all (plain : text.all (decide <| IsPlain ·) = true) : Inert text :=
  of_plain fun c mem => of_decide_eq_true (List.all_eq_true.mp plain c mem)

theorem nil : Inert [] := of_plain fun _ no => absurd no List.not_mem_nil

theorem append (h : Inert text) (h' : Inert more) : Inert (text ++ more) where
  delimiter c mem := (List.mem_append.mp mem).elim (h.delimiter c) (h'.delimiter c)
  ampersand rest suffix := by
    obtain ⟨front, same⟩ := suffix
    rcases List.append_eq_append_iff.mp same with ⟨back, rfl, inside⟩ | ⟨back, rfl, behind⟩
    · cases back with
      | nil => exact h'.ampersand rest ⟨[], inside⟩
      | cons c back =>
        rw [List.cons_append, List.cons.injEq] at inside
        obtain ⟨rfl, rfl⟩ := inside
        obtain ⟨entity, mem, begins⟩ := h.ampersand back (List.suffix_append ..)
        exact ⟨entity, mem, begins.trans (List.prefix_append ('&' :: back) more)⟩
    · exact h'.ampersand rest ⟨back, behind.symm⟩

theorem of_append_right (h : Inert (text ++ more)) : Inert more where
  delimiter c mem := h.delimiter c (List.mem_append_right _ mem)
  ampersand rest suffix := h.ampersand rest (suffix.trans (List.suffix_append ..))

/-- A comma belongs to no character reference, so the text in front of it is by itself. -/
theorem of_append_comma (h : Inert (text ++ ',' :: more)) : Inert text where
  delimiter c mem := h.delimiter c (List.mem_append_left _ mem)
  ampersand rest suffix := by
    obtain ⟨front, rfl⟩ := suffix
    obtain ⟨entity, mem, begins⟩ := h.ampersand (rest ++ ',' :: more)
      ⟨front, by rw [List.append_assoc, List.cons_append]⟩
    refine ⟨entity, mem, ?_⟩
    have comma : ',' ∉ entity := by
      have none : ∀ entity ∈ entities, ',' ∉ entity := by decide
      exact none entity mem
    obtain ⟨tail, same⟩ := begins
    rw [← List.cons_append] at same
    rcases List.append_eq_append_iff.mp same with ⟨back, whole, -⟩ | ⟨back, rfl, long⟩
    · exact ⟨back, whole.symm⟩
    · cases back with
      | nil => exact (List.append_nil ('&' :: rest)).symm ▸ List.prefix_rfl
      | cons c back =>
        rw [List.cons_append, List.cons.injEq] at long
        obtain ⟨rfl, -⟩ := long
        exact absurd (List.mem_append_right _ List.mem_cons_self) comma

theorem append_comma_iff : Inert (text ++ ',' :: more) ↔ Inert text ∧ Inert more := by
  have plain : Inert [','] := of_all rfl
  constructor
  · intro h
    have behind : Inert ([','] ++ more) := of_append_right h
    exact ⟨h.of_append_comma, behind.of_append_right⟩
  · rintro ⟨h, h'⟩
    exact h.append (plain.append h')

end Inert

theorem inert_escapeChar (c : Char) : Inert (escapeChar c) := by
  have reference (entity : List Char) (mem : entity ∈ entities) : Inert entity := by
    have apart : entities.all (·.all (· ∉ delimiters)) = true := rfl
    refine ⟨fun c => ?_, fun rest suffix => ⟨entity, mem, ?_⟩⟩
    · exact fun inside => of_decide_eq_true (List.all_eq_true.mp (List.all_eq_true.mp apart entity mem) c inside)
    -- Only the first character of a character reference is an ampersand.
    obtain ⟨front, rfl⟩ := suffix
    cases front with
    | nil => exact List.prefix_rfl
    | cons d front =>
      have alone : ∀ entity ∈ entities, '&' ∉ entity.tail := by decide
      exact absurd (List.mem_append_right front List.mem_cons_self) (alone _ mem)
  unfold escapeChar
  split
  case h_6 amp lt gt quot apos =>
    refine Inert.of_plain fun d mem => ?_
    cases List.mem_singleton.mp mem
    simpa [IsPlain, delimiters] using ⟨amp, lt, gt, quot, apos⟩
  all_goals exact reference _ (by decide)

/-- Escaped text is without markup. -/
theorem inert_escape (text : String) : Inert (escape text).toList := by
  unfold escape
  rw [String.toList_ofList]
  generalize text.toList = chars
  induction chars with
  | nil => exact .nil
  | cons c chars ih => exact (inert_escapeChar c).append ih

/-! ### Text that the escape leaves alone -/

theorem escape_append (a b : String) : escape (a ++ b) = escape a ++ escape b := by
  unfold escape
  rw [String.toList_append, List.flatMap_append, String.ofList_append]

theorem escapeChar_of_plain {c : Char} (plain : IsPlain c) : escapeChar c = [c] := by
  unfold escapeChar
  split
  case h_6 => rfl
  all_goals exact absurd plain (by decide)

theorem exists_of_not_plain {c : Char} (marked : ¬ IsPlain c) : ∃ d rest, escapeChar c = '&' :: d :: rest := by
  have mem : c ∈ '&' :: delimiters := Decidable.not_not.mp marked
  simp only [delimiters, List.mem_cons, List.not_mem_nil, or_false] at mem
  rcases mem with rfl | rfl | rfl | rfl | rfl <;> exact ⟨_, _, rfl⟩

theorem length_le_escaped (chars : List Char) : chars.length ≤ (chars.flatMap escapeChar).length := by
  induction chars with
  | nil => exact Nat.le_refl 0
  | cons c chars ih =>
    have one : 1 ≤ (escapeChar c).length := by
      by_cases plain : IsPlain c
      · rw [escapeChar_of_plain plain]
        exact Nat.le_refl 1
      · obtain ⟨d, rest, same⟩ := exists_of_not_plain plain
        rw [same]
        exact Nat.succ_pos _
    rw [List.flatMap_cons, List.length_append, List.length_cons]
    omega

/-- The escape leaves nothing alone but text without markup and without ampersands. -/
theorem escape_eq_self_iff {text : String} : escape text = text ↔ ∀ c ∈ text.toList, IsPlain c := by
  unfold escape
  rw [← String.toList_inj, String.toList_ofList]
  induction text.toList with
  | nil => exact iff_of_true rfl (List.forall_mem_nil _)
  | cons c chars ih =>
    rw [List.flatMap_cons, List.forall_mem_cons]
    by_cases plain : IsPlain c
    · rw [escapeChar_of_plain plain, List.singleton_append, List.cons.injEq, ih]
      exact and_congr_left' (iff_of_true rfl plain)
    · -- Each character gives one at least, and this one gives more.
      obtain ⟨d, rest, same⟩ := exists_of_not_plain plain
      refine iff_of_false (fun same' => ?_) fun all => plain all.1
      have longer := length_le_escaped chars
      have lengths := congrArg List.length same'
      rw [same, List.length_append, List.length_cons, List.length_cons, List.length_cons] at lengths
      omega

/-- What has been escaped and holds an ampersand now is escaped again. -/
theorem escape_escape_eq_iff {text : String} : escape (escape text) = escape text ↔ ∀ c ∈ text.toList, IsPlain c := by
  constructor
  · intro same c mem
    refine Decidable.byContradiction fun marked => ?_
    obtain ⟨d, rest, entity⟩ := exists_of_not_plain marked
    have inside : '&' ∈ (escape text).toList := by
      unfold escape
      rw [String.toList_ofList]
      exact List.mem_flatMap.mpr ⟨c, mem, entity ▸ List.mem_cons_self⟩
    exact absurd (escape_eq_self_iff.mp same '&' inside) (by decide)
  · intro plain
    rw [escape_eq_self_iff.mpr plain, escape_eq_self_iff.mpr plain]

/-! ### Numbers -/

theorem isPlain_of_isDigit {c : Char} (digit : c.isDigit = true) : IsPlain c := by
  have none : ('&' :: delimiters).all (·.isDigit = false) = true := rfl
  exact fun mem => Bool.false_ne_true ((of_decide_eq_true (List.all_eq_true.mp none c mem)).symm.trans digit)

theorem isPlain_of_mem_toDigits {n : Nat} {c : Char} (mem : c ∈ Nat.toDigits 10 n) : IsPlain c :=
  isPlain_of_isDigit (Nat.isDigit_of_mem_toDigits (by decide) (by decide) mem)

theorem inert_toString (n : Int) : Inert (toString n).toList := by
  cases n with
  | ofNat n =>
    have digits : (toString (Int.ofNat n)).toList = Nat.toDigits 10 n := Nat.toList_repr
    rw [digits]
    exact .of_plain fun _ => isPlain_of_mem_toDigits
  | negSucc n =>
    have text : toString (Int.negSucc n) = "-" ++ Nat.repr (n + 1) := rfl
    rw [text, String.toList_append, Nat.toList_repr]
    exact .append (.of_all rfl) (.of_plain fun _ => isPlain_of_mem_toDigits)

/-- Digits with the point in its place are without markup. -/
theorem inert_plain (l : Decimal.Layout) {digits : List Char} (plain : ∀ c ∈ digits, IsPlain c) (exponent : Int) :
    Inert (l.plain digits exponent) := by
  have zeros (n : Nat) : Inert (List.replicate n '0') :=
    .of_plain fun c mem => List.eq_of_mem_replicate mem ▸ (by decide)
  have point : Inert ['.'] := .of_all rfl
  unfold Decimal.Layout.plain
  split
  · refine ((Inert.of_plain plain).append (zeros _)).append ?_
    split
    · exact .of_all rfl
    · exact .nil
  · dsimp only
    split
    · exact .append (.of_plain fun c mem => plain c (List.mem_of_mem_take mem))
        (.append point (.of_plain fun c mem => plain c (List.mem_of_mem_drop mem)))
    · have zero : Inert ['0', '.'] := .of_all rfl
      exact zero.append (.append (zeros _) (.of_plain plain))

theorem inert_ofFinite (negative : Bool) (x : Decimal.Binary) :
    Inert (Value.renderedLayout.ofFinite negative x).toList := by
  have magnitude : Inert (if x.mantissa = 0 then (if Value.renderedLayout.wholePoint then ['0', '.', '0'] else ['0'])
      else Value.renderedLayout.ofScientific (x.shortest Value.renderedLayout.tie)) := by
    split
    · exact .of_all rfl
    · exact inert_plain _ (fun _ => isPlain_of_mem_toDigits) _
  unfold Decimal.Layout.ofFinite
  dsimp only
  rw [String.toList_ofList]
  split
  · have sign : Inert ['-'] := .of_all rfl
    exact sign.append magnitude
  · exact magnitude

theorem inert_floatText (x : Float) : Inert (Value.floatText x).toList := by
  unfold Value.floatText
  split
  · exact .of_all rfl
  · exact .of_all rfl
  · exact .of_all rfl
  · split
    · exact inert_toString _
    · exact inert_ofFinite ..

end Text.Html

/-! ### Values -/

namespace Value

open Text.Html

mutual

/-- The strings that stand in the text of a value. -/
def strings : Value → List String
  | .string s => [s]
  | .array items => allStrings items
  | .null | .bool _ | .int _ | .float _ | .object _ | .function _ => []

/-- The strings that stand in the texts of items. -/
def allStrings : List Value → List String
  | [] => []
  | item :: rest => item.strings ++ allStrings rest

end

theorem inert_intercalate_iff (texts : List String) :
    Inert (",".intercalate texts).toList ↔ ∀ text ∈ texts, Inert text.toList := by
  rw [String.toList_intercalate]
  induction texts with
  | nil => exact iff_of_true .nil (List.forall_mem_nil _)
  | cons text rest ih =>
    cases rest with
    | nil => simp [List.intercalate]
    | cons next rest =>
      rw [List.map_cons, List.map_cons, List.intercalate_cons_cons, List.append_assoc, List.forall_mem_cons, ← ih]
      exact Inert.append_comma_iff

mutual

/-- The text of a value is without markup exactly if the strings in it are. -/
theorem inert_text_iff (v : Value) : Inert v.text.toList ↔ ∀ s ∈ v.strings, Inert s.toList := by
  cases v with
  | string s => exact (List.forall_mem_singleton (p := fun s : String => Inert s.toList)).symm
  | array items =>
    show Inert (",".intercalate (texts items)).toList ↔ ∀ s ∈ allStrings items, _
    rw [inert_intercalate_iff, inert_texts_iff]
  | null | function => exact iff_of_true .nil (List.forall_mem_nil _)
  | bool b => exact iff_of_true (by cases b <;> exact .of_all rfl) (List.forall_mem_nil _)
  | int n => exact iff_of_true (inert_toString _) (List.forall_mem_nil _)
  | float x => exact iff_of_true (inert_floatText x) (List.forall_mem_nil _)
  | object fields =>
    have plain : Inert "[object Object]".toList := .of_all (by decide)
    exact iff_of_true plain (List.forall_mem_nil _)

theorem inert_texts_iff (items : List Value) :
    (∀ text ∈ texts items, Inert text.toList) ↔ ∀ s ∈ allStrings items, Inert s.toList := by
  cases items with
  | nil => exact iff_of_true (List.forall_mem_nil _) (List.forall_mem_nil _)
  | cons item rest =>
    show (∀ text ∈ item.text :: texts rest, Inert text.toList) ↔ ∀ s ∈ item.strings ++ allStrings rest, Inert s.toList
    rw [List.forall_mem_cons, List.forall_mem_append, inert_text_iff item, inert_texts_iff rest]

end

end Value
end Stencil
