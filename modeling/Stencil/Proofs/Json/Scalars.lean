import Mathlib.Data.List.TakeWhile
import Stencil.Json.Reader
import Stencil.Json.Writer
import Stencil.Proofs.Source.Lexemes

/-! Strings and numbers of JSON read back from their texts, whatever follows that is no part of a number. -/

namespace Stencil.Json

open Decimal

variable {rest : List Char}

/-! ### Strings -/

theorem hexValue?_hexDigit : ∀ n < 16, hexValue? (hexDigit n) = some n := by decide

theorem unit?_hexDigit {n : Nat} (low : n < 0x20) : unit? '0' '0' (hexDigit (n / 16)) (hexDigit (n % 16)) = some n := by
  unfold unit?
  rw [hexValue?_hexDigit _ (by omega), hexValue?_hexDigit _ (by omega)]
  exact congrArg some (show (0 * 16 + 0) * 256 + n / 16 * 16 + n % 16 = n by omega)

theorem charOfUnit?_toNat {c : Char} (low : c.toNat < 0x20) : charOfUnit? c.toNat = some c := by
  unfold charOfUnit?
  rw [if_neg (by omega), Char.ofNat_toNat]

theorem stringChars?_plain {c : Char} (quote : c ≠ '"') (backslash : c ≠ '\\') (shown : ¬ c.toNat < 0x20)
    (rest : List Char) : stringChars? (c :: rest) = (stringChars? rest).map fun p => (c :: p.1, p.2) := by
  rw [stringChars?]
  · simp only [shown, backslash, or_self, if_false]
    exact Option.map_eq_bind.symm
  all_goals simp_all

theorem stringChars?_letter {letter c : Char} (apart : letter ≠ 'u') (means : unescape? letter = some c)
    (rest : List Char) : stringChars? ('\\' :: letter :: rest) = (stringChars? rest).map fun p => (c :: p.1, p.2) := by
  rw [stringChars?]
  · rw [means]
    exact Option.map_eq_bind.symm
  all_goals simp_all

/-- Four digits stand for their character, also in front of four other digits. -/
theorem stringChars?_unit {a b c d char : Char} {n : Nat} (unit : unit? a b c d = some n)
    (alone : charOfUnit? n = some char) (rest : List Char) :
    stringChars? ('\\' :: 'u' :: a :: b :: c :: d :: rest) = (stringChars? rest).map fun p => (char :: p.1, p.2) := by
  rw [stringChars?.eq_def]
  split
  · next same => cases same
  · next same => cases same
  · next same =>
    cases same
    simp only [unit, alone, Option.bind_eq_bind, Option.bind_some]
    exact Option.map_eq_bind.symm
  · next same =>
    cases same
    simp only [unit, alone, Option.bind_eq_bind, Option.bind_some]
    exact Option.map_eq_bind.symm
  · next apart same =>
    cases same
    exact absurd rfl (apart _ _ _ _ _ rfl)
  · next apart same =>
    cases same
    exact absurd rfl (apart _ _ rfl)

theorem stringChars?_escapeChar (c : Char) (rest : List Char) :
    stringChars? (escapeChar c ++ rest) = (stringChars? rest).map fun p => (c :: p.1, p.2) := by
  unfold escapeChar
  split_ifs with quote backslash b f n r t low
  any_goals subst c; exact stringChars?_letter (by decide) rfl rest
  · exact stringChars?_unit (unit?_hexDigit low) (charOfUnit?_toNat low) rest
  · exact stringChars?_plain quote backslash low rest

theorem stringChars?_escaped (chars rest : List Char) :
    stringChars? (chars.flatMap escapeChar ++ '"' :: rest) = some (chars, rest) := by
  induction chars with
  | nil => rfl
  | cons c chars ih => rw [List.flatMap_cons, List.append_assoc, stringChars?_escapeChar, ih, Option.map_some]

theorem toList_stringText (s : String) : (stringText s).toList = '"' :: (s.toList.flatMap escapeChar ++ ['"']) :=
  String.toList_ofList

/-- A string reads back. -/
theorem string?_escaped (s : String) (rest : List Char) :
    string? (s.toList.flatMap escapeChar ++ '"' :: rest) = some (s, rest) := by
  unfold string?
  rw [stringChars?_escaped]
  exact congrArg (fun s => some (s, rest)) String.ofList_toList

/-! ### Numbers -/

/-- What follows is no part of a number. -/
def EndsNumber (rest : List Char) : Prop :=
  ∀ c ∈ rest.head?, Numeral.isDigit c = false ∧ c ≠ '.' ∧ c ≠ 'e' ∧ c ≠ 'E'

/-- A reader takes what it took of a text also where more follows that is no part of a number. -/
def Extends {α : Type} (read : List Char → Option (α × List Char)) : Prop :=
  ∀ {text behind : List Char} {a : α}, read text = some (a, behind) → ∀ rest, EndsNumber rest →
    read (text ++ rest) = some (a, behind ++ rest)

theorem takeWhile_append_of_ends (text : List Char) (ends : EndsNumber rest) :
    (text ++ rest).takeWhile Numeral.isDigit = text.takeWhile Numeral.isDigit ∧
      (text ++ rest).dropWhile Numeral.isDigit = text.dropWhile Numeral.isDigit ++ rest := by
  induction text with
  | nil =>
    cases rest with
    | nil => exact ⟨rfl, rfl⟩
    | cons c rest =>
      have no : Numeral.isDigit c = false := (ends c rfl).1
      simp [no]
  | cons c text ih => cases digit : Numeral.isDigit c <;> simp [digit, ih]

theorem extends_digits? : Extends digits? := by
  intro text behind digits read rest ends
  obtain ⟨taken, left⟩ := takeWhile_append_of_ends text ends
  unfold digits? at read ⊢
  dsimp only at read ⊢
  rw [taken, left]
  split at read
  · cases read
  · next some =>
    cases read
    rw [if_neg some]

theorem extends_wholePart? : Extends wholePart? := by
  intro text behind digits read rest ends
  unfold wholePart? at read
  split at read
  · cases read
    rfl
  · next apart =>
    have digits := extends_digits? read rest ends
    cases text with
    | nil => cases read
    | cons c text =>
      unfold wholePart?
      split
      · next same =>
        obtain ⟨rfl, -⟩ := List.cons.inj same
        exact absurd rfl (apart text)
      · exact digits

theorem extends_fraction? : Extends fraction? := by
  intro text behind fraction read rest ends
  unfold fraction? at read
  split at read
  · next places =>
    obtain ⟨⟨digits, left⟩, found, same⟩ := Option.bind_eq_some_iff.mp read
    cases same
    show (digits? (places ++ rest)).bind _ = _
    rw [extends_digits? found rest ends]
    rfl
  · next apart =>
    cases read
    cases text with
    | nil =>
      unfold fraction?
      split
      · next same => exact absurd rfl (ends '.' (by rw [← List.nil_append rest, same]; rfl)).2.1
      · rfl
    | cons c text =>
      unfold fraction?
      split
      · next same =>
        obtain ⟨rfl, -⟩ := List.cons.inj same
        exact absurd rfl (apart text)
      · rfl

theorem extends_map {α β : Type} {read : List Char → Option (α × List Char)} (h : Extends read)
    {f : α × List Char → β × List Char} (frame : ∀ a behind rest, f (a, behind ++ rest) =
      ((f (a, behind)).1, (f (a, behind)).2 ++ rest)) : Extends fun text => (read text).map f := by
  intro text behind b found rest ends
  obtain ⟨⟨a, left⟩, taken, same⟩ := Option.map_eq_some_iff.mp found
  dsimp only
  rw [h taken rest ends, Option.map_some, frame, same]

theorem extends_signedPower? : Extends signedPower? := by
  intro text behind power read rest ends
  unfold signedPower? at read
  split at read
  · exact extends_map extends_digits? (fun _ _ _ => rfl) read rest ends
  · exact extends_map extends_digits? (fun _ _ _ => rfl) read rest ends
  · next minus plus =>
    have power := extends_map extends_digits? (fun _ _ _ => rfl) read rest ends
    cases text with
    | nil => cases read
    | cons c text =>
      unfold signedPower?
      split
      · next same =>
        obtain ⟨rfl, -⟩ := List.cons.inj same
        exact absurd rfl (minus text)
      · next same =>
        obtain ⟨rfl, -⟩ := List.cons.inj same
        exact absurd rfl (plus text)
      · exact power

theorem extends_power? : Extends power? := by
  intro text behind power read rest ends
  unfold power? at read
  split at read
  · next letter text =>
    show ite _ _ _ = _
    split at read
    · next marks =>
      rw [if_pos marks]
      exact extends_map extends_signedPower? (fun _ _ _ => rfl) read rest ends
    · next apart =>
      cases read
      rw [if_neg apart]
      rfl
  · cases read
    cases rest with
    | nil => rfl
    | cons c rest =>
      obtain ⟨-, -, low, high⟩ := ends c rfl
      exact if_neg (by simp [low, high])

/-- The number of parts that are read. -/
def numberOf? (negative : Bool) (whole : List Char) (fraction : Option (List Char)) (power : Option Int) : Option Json :=
  let kept := Stepwise.keep whole (fraction.getD [])
  let real := realNumber? negative ⟨kept.digits, kept.exponent + power.getD 0⟩
  if fraction.isNone && power.isNone then (wholeNumber? negative (Numeral.value whole)).or real else real

/-- A text without its sign. -/
def unsigned (text : List Char) : List Char :=
  if text.head? == some '-' then text.tail else text

theorem number?_eq (text : List Char) : number? text = (wholePart? (unsigned text)).bind fun whole =>
    (fraction? whole.2).bind fun fraction => (power? fraction.2).bind fun power =>
      (numberOf? (text.head? == some '-') whole.1 fraction.1 power.1).map (·, power.2) := by
  refine congrArg (Option.bind _) (funext fun whole => congrArg (Option.bind _) (funext fun fraction =>
    congrArg (Option.bind _) (funext fun power => ?_)))
  unfold numberOf?
  dsimp only
  split <;> exact Option.map_eq_bind.symm

theorem number?_eq_some_iff {text behind : List Char} {json : Json} : number? text = some (json, behind) ↔
    ∃ whole behindWhole fraction behindFraction power, wholePart? (unsigned text) = some (whole, behindWhole) ∧
      fraction? behindWhole = some (fraction, behindFraction) ∧ power? behindFraction = some (power, behind) ∧
      numberOf? (text.head? == some '-') whole fraction power = some json := by
  simp only [number?_eq, Option.bind_eq_some_iff, Option.map_eq_some_iff, Prod.exists, Prod.mk.injEq]
  constructor
  · rintro ⟨whole, r, taken, fraction, r', taken', power, _, taken'', _, number, rfl, rfl⟩
    exact ⟨whole, r, fraction, r', power, taken, taken', taken'', number⟩
  · rintro ⟨whole, r, fraction, r', power, taken, taken', taken'', number⟩
    exact ⟨whole, r, taken, fraction, r', taken', power, _, taken'', _, number, rfl, rfl⟩

theorem numberOf?_whole {negative : Bool} {whole : List Char} {json : Json}
    (fits : wholeNumber? negative (Numeral.value whole) = some json) :
    numberOf? negative whole none none = some json := by
  unfold numberOf?
  rw [fits]
  rfl

theorem head_of_digits? {text : List Char} {p : List Char × List Char} (found : digits? text = some p) :
    text.head?.any Numeral.isDigit = true := by
  cases text with
  | nil => cases found
  | cons c text =>
    unfold digits? at found
    cases digit : Numeral.isDigit c
    · simp [digit] at found
    · exact digit

theorem head_of_wholePart? {text : List Char} {p : List Char × List Char} (found : wholePart? text = some p) :
    text.head?.any Numeral.isDigit = true := by
  unfold wholePart? at found
  split at found
  · rfl
  · exact head_of_digits? found

/-- Numbers start with a digit or a sign. -/
def startsNumber (c : Char) : Bool := Numeral.isDigit c || c == '-'

theorem head_of_number? {text behind : List Char} {json : Json} (found : number? text = some (json, behind)) :
    text.head?.any startsNumber = true := by
  obtain ⟨_, _, _, _, _, whole, -⟩ := number?_eq_some_iff.mp found
  have head := head_of_wholePart? whole
  cases text with
  | nil => cases head
  | cons c text =>
    unfold unsigned at head
    split at head
    · next minus => exact Bool.or_eq_true_iff.mpr (.inr (by simpa using minus))
    · exact Bool.or_eq_true_iff.mpr (.inl head)

theorem extends_number? : Extends number? := by
  intro text behind json read rest ends
  cases text with
  | nil => cases head_of_number? read
  | cons c text =>
    obtain ⟨whole, r, fraction, r', power, taken, taken', taken'', number⟩ := number?_eq_some_iff.mp read
    have unsigned_append : unsigned (c :: text ++ rest) = unsigned (c :: text) ++ rest :=
      (apply_ite (· ++ rest) _ text (c :: text)).symm
    refine number?_eq_some_iff.mpr ⟨whole, r ++ rest, fraction, r' ++ rest, power, ?_,
      extends_fraction? taken' rest ends, extends_power? taken'' rest ends, number⟩
    rw [unsigned_append]
    exact extends_wholePart? taken rest ends

/-- Only zero starts with a zero. -/
theorem head?_toDigits {n : Nat} (positive : 0 < n) : (Nat.toDigits 10 n).head? ≠ some '0' := by
  induction n using Nat.strongRecOn with
  | ind n ih =>
    by_cases small : n < 10
    · have digits : ∀ m < 10, 0 < m → [m.digitChar].head? ≠ some '0' := by decide
      rw [Nat.toDigits_of_lt_base small]
      exact digits n small positive
    · rw [Nat.toDigits_of_base_le (by decide) (by omega), List.head?_append,
        Option.or_of_isSome (by simp [Nat.toDigits_ne_nil])]
      exact ih (n / 10) (by omega) (by omega)

theorem wholePart?_toDigits (n : Nat) : wholePart? (Nat.toDigits 10 n) = some (Nat.toDigits 10 n, []) := by
  rcases Nat.eq_zero_or_pos n with rfl | positive
  · rfl
  · have all : ∀ c ∈ Nat.toDigits 10 n, Numeral.isDigit c = true := Cursor.isDigit_of_toDigits
    unfold wholePart?
    split
    · next rest same => exact absurd (congrArg List.head? same) (head?_toDigits positive)
    · unfold digits?
      dsimp only
      rw [List.takeWhile_eq_self_iff.mpr all, List.dropWhile_eq_nil_iff.mpr all,
        if_neg (by simp [Nat.toDigits_ne_nil])]

theorem value_toDigits (n : Nat) : Numeral.value (Nat.toDigits 10 n) = n :=
  Nat.ofDigitChars_ten_toDigits

/-- A whole number within the bounds of the format reads back. -/
theorem number?_int {n : Int} (low : -(Numeral.wordEnd : Int) ≤ n) (high : n ≤ Numeral.maxIndex)
    (ends : EndsNumber rest) : number? ((toString n).toList ++ rest) = some (.int n, rest) := by
  suffices whole : number? (toString n).toList = some (.int n, []) from extends_number? whole rest ends
  cases n with
  | ofNat n =>
    have text : (toString (Int.ofNat n)).toList = Nat.toDigits 10 n := Nat.toList_repr
    have positive : ((Nat.toDigits 10 n).head? == some '-') = false := beq_eq_false_iff_ne.mpr fun same =>
      absurd (Cursor.isDigit_of_toDigits '-' (List.mem_of_head? same)) (by decide)
    have fits : wholeNumber? false n = some (.int n) := if_pos (Int.ofNat_le.mp high)
    rw [text]
    refine number?_eq_some_iff.mpr ⟨Nat.toDigits 10 n, [], none, [], none, ?_, rfl, rfl, ?_⟩
    · rw [unsigned, positive]
      exact wholePart?_toDigits n
    · rw [positive]
      exact numberOf?_whole ((value_toDigits n).symm ▸ fits)
  | negSucc n =>
    have text : (toString (Int.negSucc n)).toList = '-' :: Nat.toDigits 10 (n + 1) := by
      show ("-" ++ Nat.repr (n + 1)).toList = _
      rw [String.toList_append, Nat.toList_repr]
      rfl
    have fits : wholeNumber? true (n + 1) = some (.int (Int.negSucc n)) :=
      (if_pos rfl).trans (if_pos ⟨n.succ_pos, by omega⟩)
    rw [text]
    exact number?_eq_some_iff.mpr ⟨Nat.toDigits 10 (n + 1), [], none, [], none, wholePart?_toDigits (n + 1), rfl, rfl,
      numberOf?_whole ((value_toDigits (n + 1)).symm ▸ fits)⟩

/-! ### Floating-point numbers -/

section

open Float.Model UnpackedFloat

theorem unpacked_beq_self {u : Float.Model.UnpackedFloat} (finite : u.isFinite = true) : u.beq u = true := by
  cases u with
  | notANumber => cases finite
  | infinity => cases finite
  | zero => rfl
  | finite sign mantissa exponent =>
    have same : (compare exponent exponent).then (compare mantissa mantissa) = .eq :=
      Ordering.then_eq_eq.mpr ⟨Std.compare_self, Std.compare_self⟩
    cases sign with
    | positive => exact beq_iff_eq.mpr (congrArg some same)
    | negative => exact beq_iff_eq.mpr (congrArg some (congrArg Ordering.swap same))

/-- A finite number is the same as itself. -/
theorem beq_self_of_isFinite {x : Float} (finite : x.isFinite = true) : (x == x) = true :=
  unpacked_beq_self (u := x.toModel.unpack) finite

theorem toNat_unpackExponent (bits : UInt64) :
    (@unpackExponent Format.binary64 bits.toBitVec).toNat = bits.toNat / Nat.pow 2 52 % Nat.pow 2 11 := by
  unfold unpackExponent
  simp [BitVec.extractLsb, BitVec.extractLsb', Nat.shiftRight_eq_div_pow]

/-- Above the exponents of the finite numbers is one that the infinities and the numbers that are none share. -/
theorem isFinite_unpack_iff (b : BitVec Format.binary64.numBits) :
    (UnpackedFloat.unpack Format.binary64 b).isFinite = true ↔ (unpackExponent b).toNat < 2047 := by
  have bound : (unpackExponent b).toNat < 2 ^ 11 := (unpackExponent b).isLt
  unfold UnpackedFloat.unpack
  by_cases top : unpackExponent b = -BitVec.ofNat Format.binary64.exponentBits 1
  · refine iff_of_false ?_ (by rw [top]; decide)
    rw [if_pos top]
    by_cases infinity : unpackMantissa b = BitVec.ofNat _ 0
    · rw [if_pos infinity]
      exact Bool.false_ne_true
    · rw [if_neg infinity]
      exact Bool.false_ne_true
  · have apart : (unpackExponent b).toNat ≠ 2047 := fun same => top (BitVec.eq_of_toNat_eq same)
    refine iff_of_true ?_ (by omega)
    rw [if_neg top]
    by_cases bottom : unpackExponent b = BitVec.ofNat _ 0
    · rw [if_pos bottom]
      by_cases zero : unpackMantissa b = BitVec.ofNat _ 0
      · rw [dif_pos zero]
        rfl
      · rw [dif_neg zero]
        rfl
    · rw [if_neg bottom]
      rfl

theorem isFinite_iff (x : Float) :
    x.isFinite = true ↔ x.toBits.toNat / Nat.pow 2 52 % Nat.pow 2 11 < 2047 := by
  rw [← toNat_unpackExponent]
  exact isFinite_unpack_iff _

end

/-- What is no finite number is written as nothing. -/
theorem floatText_of_not_isFinite {x : Float} (infinite : ¬ x.isFinite = true) : floatText x = "null" := by
  have top : ¬ x.toBits.toNat / Nat.pow 2 52 % Nat.pow 2 11 < 2047 := mt (isFinite_iff x).mpr infinite
  unfold floatText FloatView.ofFloat FloatView.ofBits
  dsimp only
  rw [if_neg top]
  by_cases zero : x.toBits.toNat % Nat.pow 2 52 = 0
  · rw [if_pos zero]
  · rw [if_neg zero]

/-- The text of a number reads back to the very number. -/
def ReadsBack (x : Float) : Prop := number? (floatText x).toList = some (.float x, [])

instance (x : Float) : Decidable (ReadsBack x) :=
  match read : number? (floatText x).toList with
  | some (.float y, []) => decidable_of_iff (y = x) (by simp [ReadsBack, read])
  | none => isFalse (by simp [ReadsBack, read])
  | some (.null, _) | some (.bool _, _) | some (.int _, _) | some (.string _, _) | some (.array _, _)
  | some (.object _, _) | some (.float _, _ :: _) => isFalse (by simp [ReadsBack, read])

end Stencil.Json
