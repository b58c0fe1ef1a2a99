import Stencil.Filter
import Stencil.Proofs.Text.Markup

/-! Encoded text can be read back. Each of the three encodings has its decoder here, which knows the encoding as its readers
    do and not as it is written, and the characters that encoded text may hold. -/

namespace Stencil

namespace Text.Html

/-- What a reader of markup makes of text: each of the five character references is its character. -/
def decode : List Char → List Char
  | '&' :: 'a' :: 'm' :: 'p' :: ';' :: rest => '&' :: decode rest
  | '&' :: 'l' :: 't' :: ';' :: rest => '<' :: decode rest
  | '&' :: 'g' :: 't' :: ';' :: rest => '>' :: decode rest
  | '&' :: 'q' :: 'u' :: 'o' :: 't' :: ';' :: rest => '"' :: decode rest
  | '&' :: '#' :: '3' :: '9' :: ';' :: rest => '\'' :: decode rest
  | c :: rest => c :: decode rest
  | [] => []

theorem decode_cons {c : Char} (ne : c ≠ '&') (rest : List Char) : decode (c :: rest) = c :: decode rest := by
  rw [decode] <;> exact fun _ no => absurd no ne

theorem decode_escapeChar (c : Char) (rest : List Char) : decode (escapeChar c ++ rest) = c :: decode rest := by
  unfold escapeChar
  split
  case h_6 amp _ _ _ _ => exact decode_cons amp rest
  all_goals rfl

theorem decode_escape (text : String) : decode (escape text).toList = text.toList := by
  unfold escape
  rw [String.toList_ofList]
  induction text.toList with
  | nil => rfl
  | cons c chars ih => rw [List.flatMap_cons, decode_escapeChar, ih]

end Text.Html

/-! ### String literals of scripts -/

namespace Text.Script

/-- The characters that begin and end a literal. -/
def quotes : List Char := ['\'', '"']

/-- The characters that end a line. -/
def lineEnds : List Char := ['\n', '\r', '\u2028', '\u2029']

/-- The character that one behind a backslash stands for. Digits, line ends and the letters of the longer forms do not
    stand for one by themselves. -/
def letter? (c : Char) : Option Char :=
  match c with
  | 'b' => some '\x08'
  | 'f' => some '\x0c'
  | 'n' => some '\n'
  | 'r' => some '\r'
  | 't' => some '\t'
  | 'v' => some '\x0b'
  | c => if c.isDigit ∨ c = 'u' ∨ c = 'x' ∨ c ∈ lineEnds then none else some c

/-- The character of a form with four digits. -/
def unit? (a b c d : Char) : Option Char :=
  (Json.unit? a b c d).bind Json.charOfUnit?

/-- The text of a literal, given what stands between its quotes. There is none where the literal would end early or is
    none. Octal forms, joined lines and the forms of characters with two units are left out. -/
def decode? : List Char → Option (List Char)
  | '\\' :: 'u' :: a :: b :: c :: d :: rest => (unit? a b c d).bind fun char => (decode? rest).map (char :: ·)
  | '\\' :: 'x' :: a :: b :: rest => (unit? '0' '0' a b).bind fun char => (decode? rest).map (char :: ·)
  | '\\' :: l :: rest => (letter? l).bind fun char => (decode? rest).map (char :: ·)
  | c :: rest => if c = '\\' ∨ c = '\n' ∨ c = '\r' ∨ c ∈ quotes then none else (decode? rest).map (c :: ·)
  | [] => some []

/-- The characters that no backslash escapes. -/
def bare : List Char → List Char
  | '\\' :: _ :: rest => bare rest
  | c :: rest => c :: bare rest
  | [] => []

/-- Text that ends neither a literal, nor the line it stands on, nor the element around it. -/
structure Contained (text : List Char) : Prop where
  quote : ∀ c ∈ bare text, c ∉ quotes
  line : ∀ c ∈ text, c ∉ lineEnds
  closing : ¬ ['<', '/'] <:+: text

/-- The characters that are not written as they are. -/
def special : List Char := quotes ++ lineEnds ++ ['\\', '/', '\t', '\x08', '\x0c']

/-- A character is written as it is, as a backslash with a letter, or as a unit. -/
theorem escapeChar_cases (c : Char) :
    (escapeChar c = [c] ∧ c ∉ special) ∨ (∃ l, escapeChar c = ['\\', l] ∧ letter? l = some c) ∨
      ∃ d, (d = '8' ∨ d = '9') ∧ escapeChar c = ['\\', 'u', '2', '0', '2', d] ∧ unit? '2' '0' '2' d = some c := by
  by_cases mem : c ∈ special
  · right
    simp only [special, quotes, lineEnds, List.cons_append, List.nil_append, List.mem_cons, List.not_mem_nil,
      or_false] at mem
    rcases mem with rfl | rfl | rfl | rfl | rfl | rfl | rfl | rfl | rfl | rfl | rfl
    case inr.inr.inr.inr.inl => exact .inr ⟨'8', .inl rfl, rfl, by decide +kernel⟩
    case inr.inr.inr.inr.inr.inl => exact .inr ⟨'9', .inr rfl, rfl, by decide +kernel⟩
    all_goals exact .inl ⟨_, rfl, rfl⟩
  · refine .inl ⟨?_, mem⟩
    simp only [special, quotes, lineEnds, List.cons_append, List.nil_append, List.mem_cons, List.not_mem_nil, or_false,
      not_or] at mem
    simp only [escapeChar, mem, if_false]

/-! #### Reading back -/

/-- Digits, line ends and the letters of the longer forms. -/
theorem letter?_eq_none {c : Char} (h : c.isDigit ∨ c = 'u' ∨ c = 'x' ∨ c ∈ lineEnds) : letter? c = none := by
  unfold letter?
  split
  case h_7 => exact if_pos h
  all_goals exact absurd h (by decide)

theorem decode?_plain {c : Char} (plain : c ∉ special) (rest : List Char) :
    decode? (c :: rest) = (decode? rest).map (c :: ·) := by
  have other : c ≠ '\\' := fun same => plain (same ▸ by decide)
  have allowed : ¬(c = '\\' ∨ c = '\n' ∨ c = '\r' ∨ c ∈ quotes) := by
    have none : ['\\', '\n', '\r', '\'', '"'].all (· ∈ special) = true := rfl
    refine fun mem => plain (of_decide_eq_true (List.all_eq_true.mp none c ?_))
    simpa [quotes] using mem
  rw [decode?, if_neg allowed]
  · exact fun _ _ _ _ _ same _ => other same
  · exact fun _ _ _ same _ => other same
  · exact fun _ _ same _ => other same

theorem decode?_letter {l c : Char} (letter : letter? l = some c) (rest : List Char) :
    decode? ('\\' :: l :: rest) = (decode? rest).map (c :: ·) := by
  have other (c : Char) (h : c = 'u' ∨ c = 'x') : l ≠ c := by
    rintro rfl
    rw [letter?_eq_none (h.elim (fun u => .inr (.inl u)) fun x => .inr (.inr (.inl x)))] at letter
    cases letter
  rw [decode?, letter]
  · rfl
  · exact fun _ _ _ _ _ same _ => other 'u' (.inl rfl) same
  · exact fun _ _ _ same _ => other 'x' (.inr rfl) same

theorem decode?_unit {a b c d char : Char} (unit : unit? a b c d = some char) (rest : List Char) :
    decode? ('\\' :: 'u' :: a :: b :: c :: d :: rest) = (decode? rest).map (char :: ·) := by
  rw [decode?, unit]
  rfl

theorem decode?_escape (text : String) : decode? (escape text).toList = some text.toList := by
  unfold escape
  rw [String.toList_ofList]
  induction text.toList with
  | nil => rfl
  | cons c chars ih =>
    have step : decode? (escapeChar c ++ chars.flatMap escapeChar) =
        (decode? (chars.flatMap escapeChar)).map (c :: ·) := by
      rcases escapeChar_cases c with ⟨same, plain⟩ | ⟨l, same, letter⟩ | ⟨d, -, same, unit⟩ <;> rw [same]
      · exact decode?_plain plain _
      · exact decode?_letter letter _
      · exact decode?_unit unit _
    rw [List.flatMap_cons, step, ih]
    rfl

/-! #### Characters -/

theorem bare_cons {c : Char} (other : c ≠ '\\') (rest : List Char) : bare (c :: rest) = c :: bare rest := by
  rw [bare]
  exact fun _ _ same _ => other same

theorem not_mem_quotes_of_bare (chars : List Char) : ∀ c ∈ bare (chars.flatMap escapeChar), c ∉ quotes := by
  induction chars with
  | nil => exact List.forall_mem_nil _
  | cons c chars ih =>
    rw [List.flatMap_cons]
    rcases escapeChar_cases c with ⟨same, plain⟩ | ⟨l, same, -⟩ | ⟨d, rfl | rfl, same, -⟩ <;> rw [same]
    · have other : c ≠ '\\' := fun same => plain (same ▸ by decide)
      rw [List.singleton_append, bare_cons other]
      exact List.forall_mem_cons.mpr ⟨fun mem => plain (List.mem_append_left _ (List.mem_append_left _ mem)), ih⟩
    · exact ih
    · have digits : ∀ c ∈ ['2', '0', '2', '8'], c ∉ quotes := by simp [quotes]
      exact List.forall_mem_append.mpr ⟨digits, ih⟩
    · have digits : ∀ c ∈ ['2', '0', '2', '9'], c ∉ quotes := by simp [quotes]
      exact List.forall_mem_append.mpr ⟨digits, ih⟩

theorem not_mem_lineEnds (c : Char) : ∀ d ∈ escapeChar c, d ∉ lineEnds := by
  rcases escapeChar_cases c with ⟨same, plain⟩ | ⟨l, same, letter⟩ | ⟨d, rfl | rfl, same, -⟩ <;> rw [same]
  · exact List.forall_mem_singleton.mpr fun mem => plain (List.mem_append_left _ (List.mem_append_right _ mem))
  · refine List.forall_mem_cons.mpr ⟨by decide, List.forall_mem_singleton.mpr fun mem => ?_⟩
    rw [letter?_eq_none (.inr (.inr (.inr mem)))] at letter
    cases letter
  · simp [lineEnds]
  · simp [lineEnds]

/-- Each slash has a backslash before it. -/
def Slashed (text : List Char) : Prop :=
  ∀ front back, text = front ++ '/' :: back → ∃ ahead, front = ahead ++ ['\\']

theorem Slashed.append {text more : List Char} (h : Slashed text) (h' : Slashed more) : Slashed (text ++ more) := by
  intro front back same
  rcases List.append_eq_append_iff.mp same with ⟨middle, rfl, behind⟩ | ⟨middle, rfl, inside⟩
  · obtain ⟨ahead, rfl⟩ := h' middle back behind
    exact ⟨text ++ ahead, (List.append_assoc ..).symm⟩
  · cases middle with
    | nil =>
      obtain ⟨ahead, no⟩ := h' [] back inside.symm
      exact absurd no (List.ne_nil_of_length_pos (by simp)).symm
    | cons c middle =>
      obtain ⟨rfl, -⟩ := List.cons.inj inside
      exact h front middle rfl

theorem Slashed.of_not_mem {text : List Char} (none : '/' ∉ text) : Slashed text := by
  rintro front back rfl
  exact absurd (List.mem_append_right front List.mem_cons_self) none

theorem slashed_escapeChar (c : Char) : Slashed (escapeChar c) := by
  rcases escapeChar_cases c with ⟨same, plain⟩ | ⟨l, same, -⟩ | ⟨d, rfl | rfl, same, -⟩ <;> rw [same]
  · exact .of_not_mem fun mem => plain (List.mem_singleton.mp mem ▸ by decide)
  · intro front back split
    rcases List.cons_eq_append_iff.mp split with ⟨-, no⟩ | ⟨ahead, rfl, behind⟩
    · cases no
    · cases ahead with
      | nil => exact ⟨[], rfl⟩
      | cons c ahead => exact absurd (congrArg List.length behind) (by simp)
  · exact .of_not_mem (by decide)
  · exact .of_not_mem (by decide)

theorem contained_escape (text : String) : Contained (escape text).toList := by
  unfold escape
  rw [String.toList_ofList]
  refine ⟨not_mem_quotes_of_bare _, fun c mem => ?_, ?_⟩
  · obtain ⟨d, -, mem⟩ := List.mem_flatMap.mp mem
    exact not_mem_lineEnds d c mem
  · have slashed : Slashed (text.toList.flatMap escapeChar) := by
      induction text.toList with
      | nil => exact .of_not_mem List.not_mem_nil
      | cons c chars ih => exact (slashed_escapeChar c).append ih
    rintro ⟨front, back, same⟩
    obtain ⟨ahead, split⟩ := slashed (front ++ ['<']) back (by rw [← same, List.append_assoc, List.append_assoc]; rfl)
    exact absurd (List.append_inj_right' split rfl) (by decide)

end Text.Script

/-! ### Addresses -/

namespace Text.Percent

/-- The bytes that an address holds. A percent sign without two digits stands for itself. -/
def decode : List Char → List UInt8
  | '%' :: a :: b :: rest =>
    match Json.hexValue? a, Json.hexValue? b with
    | some high, some low => UInt8.ofNat (high * 16 + low) :: decode rest
    | _, _ => String.utf8EncodeChar '%' ++ decode (a :: b :: rest)
  | c :: rest => String.utf8EncodeChar c ++ decode rest
  | [] => []

/-- Characters of an alphabet, and percent signs with two digits. -/
inductive Written (alphabet : List Char) : List Char → Prop
  | nil : Written alphabet []
  | kept {c : Char} {rest : List Char} : c ∈ alphabet → Written alphabet rest → Written alphabet (c :: rest)
  | byte {a b : Char} {rest : List Char} : (Json.hexValue? a).isSome → (Json.hexValue? b).isSome →
    Written alphabet rest → Written alphabet ('%' :: a :: b :: rest)

/-- Letters and digits. -/
def alphanumerics : List Char := "ABCDEFGHIJKLMNOPQRSTUVWXYZabcdefghijklmnopqrstuvwxyz0123456789".toList

/-- The characters that a part of an address holds as they are. -/
def componentAlphabet : List Char := alphanumerics ++ "-_.!~*'()".toList

/-- The characters that a whole address holds as they are. -/
def addressAlphabet : List Char := componentAlphabet ++ ";,/?:@&=+$#".toList

variable {kept : Char → Bool} {alphabet : List Char}

theorem hexValue?_hexDigit {n : Nat} (lt : n < 16) : Json.hexValue? (hexDigit n) = some n := by
  have all : ∀ n < 16, Json.hexValue? (hexDigit n) = some n := by decide
  exact all n lt

theorem hexValue?_high (b : UInt8) : Json.hexValue? (hexDigit (b.toNat / 16)) = some (b.toNat / 16) :=
  hexValue?_hexDigit (by have := b.toNat_lt; omega)

theorem hexValue?_low (b : UInt8) : Json.hexValue? (hexDigit (b.toNat % 16)) = some (b.toNat % 16) :=
  hexValue?_hexDigit (Nat.mod_lt _ (by decide))

theorem decode_encodeByte (b : UInt8) (rest : List Char) : decode (encodeByte b ++ rest) = b :: decode rest := by
  show decode ('%' :: _ :: _ :: rest) = _
  rw [decode, hexValue?_high, hexValue?_low]
  show UInt8.ofNat (b.toNat / 16 * 16 + b.toNat % 16) :: decode rest = _
  rw [Nat.div_add_mod', UInt8.ofNat_toNat]

theorem decode_encodeBytes (bytes : List UInt8) (rest : List Char) :
    decode (bytes.flatMap encodeByte ++ rest) = bytes ++ decode rest := by
  induction bytes with
  | nil => rfl
  | cons b bytes ih => rw [List.flatMap_cons, List.append_assoc, decode_encodeByte, ih, List.cons_append]

theorem decode_cons {c : Char} (ne : c ≠ '%') (rest : List Char) :
    decode (c :: rest) = String.utf8EncodeChar c ++ decode rest := by
  rw [decode]
  exact fun _ _ _ same _ => ne same

/-- The percent sign must not be kept, or text could look encoded. -/
theorem decode_encode (percent : kept '%' = false) (text : String) :
    decode (encode kept text).toList = text.toList.flatMap String.utf8EncodeChar := by
  unfold encode
  rw [String.toList_ofList]
  induction text.toList with
  | nil => rfl
  | cons c chars ih =>
    rw [List.flatMap_cons, List.flatMap_cons, ← ih, encodeChar]
    split
    · next kept' =>
      have ne : c ≠ '%' := by
        rintro rfl
        rw [percent] at kept'
        cases kept'
      exact decode_cons ne _
    · exact decode_encodeBytes _ _

/-- The bytes of characters are the bytes of their text. -/
theorem toByteArray_flatMap (text : String) : (text.toList.flatMap String.utf8EncodeChar).toByteArray = text.toUTF8 :=
  String.utf8Encode_toList

theorem Written.bytes (bytes : List UInt8) {rest : List Char} (written : Written alphabet rest) :
    Written alphabet (bytes.flatMap encodeByte ++ rest) := by
  induction bytes with
  | nil => exact written
  | cons b bytes ih =>
    rw [List.flatMap_cons, List.append_assoc]
    exact .byte (hexValue?_high b ▸ rfl) (hexValue?_low b ▸ rfl) ih

theorem written_encode (inside : ∀ c, kept c = true → c ∈ alphabet) (text : String) :
    Written alphabet (encode kept text).toList := by
  unfold encode
  rw [String.toList_ofList]
  induction text.toList with
  | nil => exact .nil
  | cons c chars ih =>
    rw [List.flatMap_cons, encodeChar]
    split
    · next kept' => exact .kept (inside c kept') ih
    · exact ih.bytes _

theorem toNat_lt_of_isAlphanum {c : Char} (alphanum : c.isAlphanum = true) : c.toNat < 128 := by
  have within {last : Char} (le : c.val ≤ last.val) (small : last.toNat < 128) : c.toNat < 128 :=
    Nat.lt_of_le_of_lt (UInt32.le_iff_toNat_le.mp le) small
  rcases Bool.or_eq_true_iff.mp alphanum with letter | digit
  · rcases Bool.or_eq_true_iff.mp letter with upper | lower
    · exact within (of_decide_eq_true upper).2 (by decide)
    · exact within (of_decide_eq_true (Bool.and_eq_true_iff.mp lower).2) (by decide)
  · exact within (of_decide_eq_true (Bool.and_eq_true_iff.mp digit).2) (by decide)

theorem mem_alphanumerics {c : Char} (alphanum : c.isAlphanum = true) : c ∈ alphanumerics := by
  have all : ∀ n < 128, (Char.ofNat n).isAlphanum = true → Char.ofNat n ∈ alphanumerics := by decide +kernel
  have inside := all c.toNat (toNat_lt_of_isAlphanum alphanum)
  rw [Char.ofNat_toNat] at inside
  exact inside alphanum

theorem mem_componentAlphabet {c : Char} (kept : keptInComponent c = true) : c ∈ componentAlphabet := by
  rcases Bool.or_eq_true_iff.mp kept with alphanum | mark
  · exact List.mem_append_left _ (mem_alphanumerics alphanum)
  · exact List.mem_append_right _ (List.contains_iff_mem.mp mark)

theorem mem_addressAlphabet {c : Char} (kept : keptInAddress c = true) : c ∈ addressAlphabet := by
  rcases Bool.or_eq_true_iff.mp kept with component | separator
  · exact List.mem_append_left _ (mem_componentAlphabet component)
  · exact List.mem_append_right _ (List.contains_iff_mem.mp separator)

end Text.Percent

open Text

/-- What the filter of a name makes of a value. -/
def Filter.Gives (name : String) (value result : Value) : Prop :=
  ∃ filter, Dict.get? name builtin = some filter ∧ filter value = .ok result

/-- What the filters for markup, scripts and addresses make of a text holds nothing that has a meaning where it is put, and
    reads back as the text. -/
theorem encoders_lossless (text : String) :
    (∃ out, Filter.Gives "h" (.string text) (.string out) ∧ Html.decode out.toList = text.toList ∧
      Html.Inert out.toList) ∧
    (∃ out, Filter.Gives "j" (.string text) (.string out) ∧ Script.decode? out.toList = some text.toList ∧
      Script.Contained out.toList) ∧
    (∃ out, Filter.Gives "u" (.string text) (.string out) ∧ (Percent.decode out.toList).toByteArray = text.toUTF8 ∧
      Percent.Written Percent.addressAlphabet out.toList) ∧
    ∃ out, Filter.Gives "uc" (.string text) (.string out) ∧ (Percent.decode out.toList).toByteArray = text.toUTF8 ∧
      Percent.Written Percent.componentAlphabet out.toList := by
  refine ⟨⟨Html.escape text, ⟨_, rfl, rfl⟩, Html.decode_escape text, Html.inert_escape text⟩,
    ⟨Script.escape text, ⟨_, rfl, rfl⟩, Script.decode?_escape text, Script.contained_escape text⟩,
    ⟨Percent.encode Percent.keptInAddress text, ⟨_, rfl, rfl⟩, ?_,
      Percent.written_encode (fun _ => Percent.mem_addressAlphabet) text⟩,
    ⟨Percent.encode Percent.keptInComponent text, ⟨_, rfl, rfl⟩, ?_,
      Percent.written_encode (fun _ => Percent.mem_componentAlphabet) text⟩⟩
  · rw [Percent.decode_encode rfl, Percent.toByteArray_flatMap]
  · rw [Percent.decode_encode rfl, Percent.toByteArray_flatMap]

end Stencil
