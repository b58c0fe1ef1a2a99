import Mathlib.Data.List.DropRight
import Stencil.Source.Cursor

/-! Where a cursor stands. A place of a source lies behind some of its characters; the cursor is exact if its byte, its line
    and the start of its line are those that these characters give. Both moves of a cursor keep it exact: the checked one
    over any character, and the raw one over characters that take a byte each and end no line. -/

namespace Stencil

/-- How many bytes characters take. -/
def byteSize (l : List Char) : Nat :=
  (String.ofList l).utf8ByteSize

/-- The text from one byte of a source up to another, if both are at the ends of characters and in order. -/
def bytesBetween? (source : String) (a b : Nat) : Option String :=
  if h : (String.Pos.Raw.mk a).IsValid source ∧ (String.Pos.Raw.mk b).IsValid source ∧ a ≤ b then
    some (source.extract (source.pos ⟨a⟩ h.1) (source.pos ⟨b⟩ h.2.1))
  else none

/-- A character of a byte that ends no line. -/
def IsMark (ch : Char) : Prop :=
  ch.utf8Size = 1 ∧ ch ≠ '\n'

instance (ch : Char) : Decidable (IsMark ch) :=
  inferInstanceAs (Decidable (_ ∧ _))

/-- A fault is at a place of a source: its line and its byte in the line, both counted from one, are those of the place. -/
def ParseError.At (source : String) (e : ParseError) : Prop :=
  ∃ front back, source = front ++ back ∧ e.line = front.toList.count '\n' + 1 ∧
    e.column = byteSize (front.toList.rtakeWhile (· ≠ '\n')) + 1

section

variable {l l' : List Char} {ch : Char}

@[simp] theorem byteSize_append : byteSize (l ++ l') = byteSize l + byteSize l' := by
  rw [byteSize, String.ofList_append, String.utf8ByteSize_append]
  rfl

@[simp] theorem byteSize_singleton : byteSize [ch] = ch.utf8Size := by
  rw [byteSize, String.ofList_cons]
  simp

theorem byteSize_pos (h : l ≠ []) : 0 < byteSize l := by
  obtain ⟨ch, rest, rfl⟩ := List.exists_cons_of_ne_nil h
  rw [← List.singleton_append, byteSize_append, byteSize_singleton]
  exact Nat.add_pos_left ch.utf8Size_pos _

end

/-- Between two splits of a source stands the text that is in the middle. -/
theorem bytesBetween?_append (front text back : String) :
    bytesBetween? (front ++ text ++ back) front.utf8ByteSize (front.utf8ByteSize + text.utf8ByteSize) = some text := by
  have first : (String.Pos.Raw.mk front.utf8ByteSize).IsValid (front ++ text ++ back) :=
    String.Pos.Raw.isValid_iff_exists_append.mpr ⟨front, text ++ back, String.append_assoc, rfl⟩
  have last : (String.Pos.Raw.mk (front.utf8ByteSize + text.utf8ByteSize)).IsValid (front ++ text ++ back) := by
    refine String.Pos.Raw.isValid_iff_exists_append.mpr ⟨front ++ text, back, rfl, ?_⟩
    rw [← String.utf8ByteSize_append]
    rfl
  rw [bytesBetween?, dif_pos ⟨first, last, Nat.le_add_right _ _⟩]
  congr 1
  rw [← String.toByteArray_inj, String.toByteArray_extract, String.offset_pos, String.offset_pos, String.toByteArray_append,
    String.toByteArray_append, ByteArray.append_assoc, ← String.size_toByteArray, ← String.size_toByteArray]
  exact (ByteArray.extract_append_size_add (i := 0)).trans (ByteArray.extract_append_eq_left rfl)

namespace Cursor

/-- The place behind some characters and before others. -/
def between (front rest : List Char) : Cursor :=
  ⟨rest, byteSize front, front.count '\n' + 1, byteSize (front.rdropWhile (· ≠ '\n'))⟩

/-- The cursor is at a place of a source: as many bytes on as the characters before it take, in the line behind their line
    breaks, which starts behind the last of these. -/
def Exact (source : String) (c : Cursor) : Prop :=
  ∃ front, source.toList = front ++ c.rest ∧ c = between front c.rest

/-! ### Moves -/

section

variable {source : String} {c d : Cursor}

theorem exact_start (source : String) : Exact source (start source) :=
  ⟨[], rfl, rfl⟩

theorem next_between (front : List Char) (ch : Char) (rest : List Char) :
    (between front (ch :: rest)).next = between (front ++ [ch]) rest := by
  by_cases newline : ch = '\n'
  · subst newline
    simp [next, between, List.count_append]
  · simp [next, between, List.count_append, newline]

theorem Exact.next (h : Exact source c) : Exact source c.next := by
  obtain ⟨front, split, here⟩ := h
  cases rest : c.rest with
  | nil =>
    have stays : c.next = c := by simp [Cursor.next, rest]
    rw [stays]
    exact ⟨front, split, here⟩
  | cons ch tail =>
    rw [rest] at split here
    rw [here, next_between]
    exact ⟨front ++ [ch], by simpa [between] using split, rfl⟩

theorem Exact.walk (h : Exact source c) (count : Nat) : Exact source (c.walk count) := by
  induction count generalizing c with
  | zero => exact h
  | succ count ih => exact ih h.next

/-- Over characters of a byte each that end no line the raw move is the checked one. -/
theorem skip_eq_walk {count : Nat} (enough : count ≤ c.rest.length) (marks : ∀ ch ∈ c.rest.take count, IsMark ch) :
    c.skip count = c.walk count := by
  induction count generalizing c with
  | zero => rfl
  | succ count ih =>
    cases rest : c.rest with
    | nil => simp [rest] at enough
    | cons ch tail =>
      rw [rest, List.take_succ_cons, List.forall_mem_cons] at marks
      obtain ⟨⟨size, newline⟩, others⟩ := marks
      have moved : c.next = c.skip 1 := by
        simp [Cursor.next, skip, rest, size, newline]
      rw [Cursor.walk, ← ih (by simp [moved, rest] at enough ⊢; omega) (by simpa [moved, rest] using others), moved]
      simp [skip, rest, Nat.add_assoc, Nat.add_comm 1]

theorem skip_skip (c : Cursor) (m n : Nat) : (c.skip m).skip n = c.skip (m + n) := by
  simp [skip, Nat.add_assoc]

theorem skip_of_startsWith {text : String} (h : c.startsWith text = true) (marks : ∀ ch ∈ text.toList, IsMark ch) :
    c.skip text.length = c.walk text.length := by
  obtain ⟨behind, rest⟩ := List.isPrefixOf_iff_prefix.mp h
  have length : text.length = text.toList.length := String.length_toList.symm
  refine skip_eq_walk ?_ ?_
  · rw [← rest, length, List.length_append]
    exact Nat.le_add_right _ _
  · rwa [← rest, length, List.take_left]

/-! ### What is known at a place -/

theorem Exact.append_rest (h : Exact source c) : ∃ front, source = front ++ .ofList c.rest ∧ c.offset = front.utf8ByteSize := by
  obtain ⟨front, split, here⟩ := h
  refine ⟨.ofList front, ?_, by rw [here]; rfl⟩
  rw [← String.ofList_append, ← split, String.ofList_toList]

theorem Exact.isValid (h : Exact source c) : (String.Pos.Raw.mk c.offset).IsValid source := by
  obtain ⟨front, split, offset⟩ := h.append_rest
  exact String.Pos.Raw.isValid_iff_exists_append.mpr ⟨front, _, split, congrArg String.Pos.Raw.mk offset⟩

theorem Exact.offset_add (h : Exact source c) : c.offset + byteSize c.rest = source.utf8ByteSize := by
  obtain ⟨front, split, offset⟩ := h.append_rest
  rw [split, String.utf8ByteSize_append, offset]
  rfl

/-- What is between two places is what the first has before it and the second has not. -/
theorem Exact.exists_rest (h : Exact source c) (h' : Exact source d) (onward : c.Onward d) :
    ∃ l, c.rest = l ++ d.rest ∧ d.offset = c.offset + byteSize l := by
  have first := h.offset_add
  have last := h'.offset_add
  obtain ⟨front, split, -⟩ := h
  obtain ⟨front', split', -⟩ := h'
  obtain ⟨l, rest⟩ := List.suffix_of_suffix_length_le ⟨front', split'.symm⟩ ⟨front, split.symm⟩ onward
  rw [← rest, byteSize_append] at first
  exact ⟨l, rest.symm, by omega⟩

theorem Exact.offset_le (h : Exact source c) (h' : Exact source d) (onward : c.Onward d) : c.offset ≤ d.offset := by
  obtain ⟨l, -, offset⟩ := h.exists_rest h' onward
  omega

theorem Exact.offset_lt (h : Exact source c) (h' : Exact source d) (forward : c.Forward d) : c.offset < d.offset := by
  obtain ⟨l, rest, offset⟩ := h.exists_rest h' forward.onward
  have some : l ≠ [] := by
    rintro rfl
    exact absurd forward (by rw [Forward, rest]; exact Nat.lt_irrefl _)
  have := byteSize_pos some
  omega

/-- The source from a place on is what is still to be read there. -/
theorem Exact.bytesBetween?_rest (h : Exact source c) :
    bytesBetween? source c.offset source.utf8ByteSize = some (.ofList c.rest) := by
  obtain ⟨front, split, offset⟩ := h.append_rest
  have whole := bytesBetween?_append front (.ofList c.rest) ""
  rwa [String.append_empty, ← String.utf8ByteSize_append, ← split, ← offset] at whole

/-- The source between two places is the text that was read between them. -/
theorem Exact.bytesBetween?_upTo (h : Exact source c) (h' : Exact source d) (ordered : c.offset ≤ d.offset) :
    bytesBetween? source c.offset d.offset = some (c.upTo d) := by
  have onward : c.Onward d := Nat.not_lt.mp fun back => Nat.not_lt.mpr ordered (h'.offset_lt h back)
  obtain ⟨l, rest, later⟩ := h.exists_rest h' onward
  obtain ⟨front, split, offset⟩ := h.append_rest
  have middle := bytesBetween?_append front (.ofList l) (.ofList d.rest)
  rw [String.append_assoc, ← String.ofList_append, ← rest, ← split, ← offset] at middle
  rw [upTo_eq rest rfl, later]
  exact middle

/-- A fault at a place says where the place is. -/
theorem Exact.fault_at (h : Exact source c) (fault : Fault) : (c.fault fault).At source := by
  obtain ⟨front, split, here⟩ := h
  refine ⟨.ofList front, .ofList c.rest, ?_, ?_, ?_⟩
  · rw [← String.ofList_append, ← split, String.ofList_toList]
  · rw [here, String.toList_ofList]
    rfl
  · have parts : byteSize front =
        byteSize (front.rdropWhile (· ≠ '\n')) + byteSize (front.rtakeWhile (· ≠ '\n')) := by
      rw [← byteSize_append, List.rdropWhile_append_rtakeWhile]
    rw [here, String.toList_ofList, Cursor.fault, between, parts, Nat.add_sub_cancel_left]

end

end Cursor
end Stencil
