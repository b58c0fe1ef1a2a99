import Mathlib.Data.List.TakeWhile
import Stencil.Proofs.Source.Canonical
import Stencil.Source.Tree

/-! Reading what is printed: the smallest parts. A reader that starts at the text of a part gives the part and stops
    behind it, if what follows cannot belong to it. -/

namespace Stencil

/-- Code ends well, with a result that has a property. -/
def Yields {ε α : Type} (x : Except ε α) (P : α → Prop) : Prop := ∃ a, x = .ok a ∧ P a

namespace Yields

variable {ε α β : Type} {P : α → Prop} {Q : β → Prop} {x : Except ε α}

theorem ok {a : α} (h : P a) : Yields (.ok a : Except ε α) P := ⟨a, rfl, h⟩

theorem bind {f : α → Except ε β} (h : Yields x P) (hf : ∀ a, P a → Yields (f a) Q) : Yields (x >>= f) Q := by
  obtain ⟨a, rfl, ha⟩ := h
  exact hf a ha

theorem ite_bind {p : Prop} [Decidable p] {y : Except ε α} {f : α → Except ε β} (h : Yields (if p then x else y) P)
    (hf : ∀ a, P a → Yields (f a) Q) : Yields (if p then x >>= f else y >>= f) Q := by
  split at h
  · rw [if_pos ‹p›]
    exact h.bind hf
  · rw [if_neg ‹¬ p›]
    exact h.bind hf

theorem bind_iff {f : α → Except ε β} : Yields (x >>= f) Q ↔ Yields x fun a => Yields (f a) Q := by
  cases x with
  | error e =>
    constructor <;> exact fun ⟨_, same, _⟩ => by cases same
  | ok a => exact ⟨fun h => ⟨a, rfl, h⟩, fun ⟨_, same, h⟩ => by cases same; exact h⟩

theorem mono {P' : α → Prop} (h : Yields x P) (imp : ∀ a, P a → P' a) : Yields x P' := by
  obtain ⟨a, same, ha⟩ := h
  exact ⟨a, same, imp a ha⟩

theorem toOption {P : α → Prop} (h : Yields x P) : ∃ a, x.toOption = some a ∧ P a := by
  obtain ⟨a, rfl, ha⟩ := h
  exact ⟨a, rfl, ha⟩

end Yields

/-- What code that ends well ends with has a property. -/
def Ensures {ε α : Type} (x : Except ε α) (P : α → Prop) : Prop := ∀ a, x = .ok a → P a

namespace Ensures

variable {ε α β : Type} {P : α → Prop} {Q : β → Prop} {x : Except ε α}

theorem ok {a : α} (h : P a) : Ensures (.ok a : Except ε α) P := by
  rintro _ ⟨⟩
  exact h

theorem error {e : ε} : Ensures (.error e : Except ε α) P := nofun

theorem bind {f : α → Except ε β} (h : Ensures x P) (hf : ∀ a, P a → Ensures (f a) Q) : Ensures (x >>= f) Q := by
  cases x with
  | error e => exact nofun
  | ok a => exact hf a (h a rfl)

theorem ite_bind {p : Prop} [Decidable p] {y : Except ε α} {f : α → Except ε β} (h : Ensures (if p then x else y) P)
    (hf : ∀ a, P a → Ensures (f a) Q) : Ensures (if p then x >>= f else y >>= f) Q := by
  split at h
  · rw [if_pos ‹p›]
    exact h.bind hf
  · rw [if_neg ‹¬ p›]
    exact h.bind hf

theorem any (x : Except ε α) : Ensures x fun _ => True := fun _ _ => trivial

theorem of_toOption (h : Ensures x P) {a : α} (same : x.toOption = some a) : P a := by
  cases x with
  | error e => cases same
  | ok b =>
    cases same
    exact h _ rfl

end Ensures

/-- The value read, and the characters behind it. -/
def Read.Is {c : Cursor} {α : Type} (a : α) (rest : List Char) (r : Read c α) : Prop := r.value = a ∧ r.cursor.rest = rest

def Pass.Is {c : Cursor} {α : Type} (a : α) (rest : List Char) (r : Pass c α) : Prop := r.value = a ∧ r.cursor.rest = rest

/-- No path goes on with these characters. -/
def pathEnds (rest : List Char) : Bool := !rest.head?.any fun ch => isKeyChar ch || ch = '.' || ch = '['

/-- The code points that keys start with. -/
theorem toNat_of_isKeyStart {ch : Char} (h : isKeyStart ch = true) :
    65 ≤ ch.toNat ∧ ch.toNat ≤ 90 ∨ 97 ≤ ch.toNat ∧ ch.toNat ≤ 122 ∨ ch.toNat = 95 ∨ ch.toNat = 36 := by
  simp only [isKeyStart, Bool.or_eq_true, decide_eq_true_eq] at h
  rcases h with (alpha | rfl) | rfl
  · rcases Bool.or_eq_true_iff.mp alpha with upper | lower
    · exact .inl (of_decide_eq_true upper)
    · obtain ⟨above, below⟩ := Bool.and_eq_true_iff.mp lower
      exact .inr (.inl ⟨of_decide_eq_true above, of_decide_eq_true below⟩)
  · decide
  · decide

theorem isDigit_of_isKeyStart {ch : Char} (h : isKeyStart ch = true) : ch.isDigit = false := by
  have bounds := toNat_of_isKeyStart h
  refine Bool.eq_false_iff.mpr fun digit => ?_
  simp only [Char.isDigit, Bool.and_eq_true, decide_eq_true_eq] at digit
  have low : 48 ≤ ch.toNat := digit.1
  have high : ch.toNat ≤ 57 := digit.2
  omega

theorem isBlank_of_isKeyStart {ch : Char} (h : isKeyStart ch = true) : Text.isBlank ch = false := by
  have bounds := toNat_of_isKeyStart h
  refine Bool.eq_false_iff.mpr fun blank => ?_
  simp only [Text.isBlank, Text.inRanges, Text.blankRanges, List.any_cons, List.any_nil, Bool.or_false, Bool.or_eq_true,
    Bool.and_eq_true, decide_eq_true_eq] at blank
  omega

namespace Cursor

variable {c : Cursor} {l rest : List Char} {p : Char → Bool}

/-! ### Runs of characters -/

theorem takeWhile_eq (all : ∀ ch ∈ l, p ch = true) (ends : rest.head?.any p = false) : (l ++ rest).takeWhile p = l := by
  have none : rest.takeWhile p = [] := by
    cases rest with
    | nil => rfl
    | cons ch rest => exact List.takeWhile_cons_of_neg (by simpa using ends)
  rw [List.takeWhile_append_of_pos all, none, List.append_nil]

theorem run_eq (here : c.rest = l ++ rest) (all : ∀ ch ∈ l, p ch = true) (ends : rest.head?.any p = false) :
    c.run p = l.length := by
  rw [run, here, takeWhile_eq all ends]

/-- A run of characters of a class ends in one place only. -/
theorem run_unique {l' rest' : List Char} (same : l ++ rest = l' ++ rest') (all : ∀ ch ∈ l, p ch = true)
    (ends : rest.head?.any p = false) (all' : ∀ ch ∈ l', p ch = true) (ends' : rest'.head?.any p = false) :
    l = l' ∧ rest = rest' := by
  obtain rfl : l = l' := by rw [← takeWhile_eq all ends, same, takeWhile_eq all' ends']
  exact ⟨rfl, List.append_cancel_left same⟩

theorem take_run (c : Cursor) (p : Char → Bool) : c.rest.take (c.run p) = c.rest.takeWhile p :=
  (List.prefix_iff_eq_take.mp (List.takeWhile_prefix p)).symm

theorem text_run (c : Cursor) (p : Char → Bool) : c.text (c.run p) = .ofList (c.rest.takeWhile p) :=
  congrArg String.ofList (c.take_run p)

theorem takeWhile_append_walk (c : Cursor) (p : Char → Bool) :
    c.rest.takeWhile p ++ (c.walk (c.run p)).rest = c.rest := by
  rw [← take_run, walk_rest, List.take_append_drop]

theorem text_eq {n : Nat} (here : c.rest = l ++ rest) (length : n = l.length) : c.text n = .ofList l := by
  rw [text, here, length, List.take_left]

theorem walk_eq {n : Nat} (here : c.rest = l ++ rest) (length : n = l.length) : (c.walk n).rest = rest := by
  rw [walk_rest, here, length, List.drop_left]

theorem skip_eq {n : Nat} (here : c.rest = l ++ rest) (length : n = l.length) : (c.skip n).rest = rest := by
  rw [skip_rest, here, length, List.drop_left]

theorem startsWith_iff {text : String} : c.startsWith text = true ↔ text.toList <+: c.rest :=
  List.isPrefixOf_iff_prefix

theorem expect_yields (text : String) (here : c.rest = text.toList ++ rest) :
    Yields (c.expect text) (Pass.Is () rest) := by
  unfold expect
  rw [if_pos (startsWith_iff.mpr ⟨rest, here.symm⟩)]
  exact .ok ⟨rfl, skip_eq here String.length_toList.symm⟩

/-! ### Keys -/

theorem exists_of_isKey {name : String} (key : IsKey name) :
    ∃ ch tail, name.toList = ch :: tail ∧ isKeyStart ch = true := by
  have starts := key.1
  cases letters : name.toList with
  | nil =>
    rw [letters] at starts
    cases starts
  | cons ch tail =>
    rw [letters] at starts
    exact ⟨ch, tail, rfl, starts⟩

theorem seesKey_of_isKey {name : String} (here : c.rest = name.toList ++ rest) (key : IsKey name) : c.seesKey = true := by
  obtain ⟨ch, tail, letters, starts⟩ := exists_of_isKey key
  rw [letters] at here
  exact sees_of_rest here starts

theorem key_yields {name : String} (here : c.rest = name.toList ++ rest) (key : IsKey name)
    (ends : rest.head?.any isKeyChar = false) : Yields c.key (Read.Is name rest) := by
  unfold Cursor.key
  rw [dif_pos (seesKey_of_isKey here key)]
  have length := run_eq here key.2 ends
  exact .ok ⟨(text_eq here length).trans String.ofList_toList, walk_eq here length⟩

theorem ensures_key (c : Cursor) : Ensures c.key fun r => IsKey r.value ∧ r.cursor = c.walk (c.run isKeyChar) := by
  unfold Cursor.key
  split
  · next starts =>
    refine .ok ⟨⟨?_, fun ch mem => ?_⟩, rfl⟩
    · dsimp only
      rw [text_run, String.toList_ofList]
      unfold seesKey sees at starts
      cases first : c.rest with
      | nil =>
        rw [first] at starts
        cases starts
      | cons ch tail =>
        rw [first] at starts
        rw [List.takeWhile_cons_of_pos (isKeyChar_of_isKeyStart ch starts)]
        exact starts
    · dsimp only at mem
      rw [text_run, String.toList_ofList] at mem
      exact List.mem_takeWhile_imp mem
  · exact .error

/-! ### Digits -/

theorem isDigit_of_toDigits {n : Nat} : ∀ ch ∈ Nat.toDigits 10 n, ch.isDigit = true := fun _ mem =>
  Nat.isDigit_of_mem_toDigits (by decide) (by decide) mem

theorem value_toDigits (n : Nat) : Decimal.Numeral.value (Nat.toDigits 10 n) = n :=
  Nat.ofDigitChars_ten_toDigits

theorem digits?_toDigits (n : Nat) : Decimal.Numeral.digits? (Nat.toDigits 10 n) = some n := by
  have digits : (Nat.toDigits 10 n).all Decimal.Numeral.isDigit = true := List.all_eq_true.mpr isDigit_of_toDigits
  unfold Decimal.Numeral.digits?
  rw [digits, List.isEmpty_eq_false_iff.mpr Nat.toDigits_ne_nil]
  exact congrArg some (value_toDigits n)

end Cursor
end Stencil
