import Stencil.Error
import Stencil.Text.Blank

/-! A cursor in a template source: what is still to be read, and the place in bytes and lines. A move is a `walk`, which
    looks at each character for the end of a line, or a `skip` over marks of a byte each, which looks at none. Readers say
    how far they went in their types: a `Read` went forward, a `Pass` may have stayed, so that reading in a loop comes to
    an end. -/

namespace Stencil

/-- A place in a source and the characters behind it. -/
structure Cursor where
  rest : List Char
  /-- Bytes before the place. -/
  offset : Nat
  /-- The line of the place, counted from one. -/
  line : Nat
  /-- Bytes before the line of the place. -/
  lineStart : Nat

namespace Cursor

/-- The start of a source. -/
def start (source : String) : Cursor :=
  ⟨source.toList, 0, 1, 0⟩

/-- The place behind the next character. -/
def next (c : Cursor) : Cursor :=
  match c.rest with
  | [] => c
  | ch :: rest =>
    let offset := c.offset + ch.utf8Size
    if ch = '\n' then ⟨rest, offset, c.line + 1, offset⟩ else ⟨rest, offset, c.line, c.lineStart⟩

/-- The place behind the next characters. -/
def walk : (count : Nat) → Cursor → Cursor
  | 0, c => c
  | count + 1, c => walk count c.next

/-- The place some bytes on. The characters there are not looked at: each is one byte, and none ends a line. -/
def skip (count : Nat) (c : Cursor) : Cursor :=
  { c with rest := c.rest.drop count, offset := c.offset + count }

/-- A fault at this place. -/
def fault (c : Cursor) (fault : Fault) : ParseError :=
  { template := none, line := c.line, column := c.offset - c.lineStart + 1, fault }

/-- Whether the source ends here. -/
def atEnd (c : Cursor) : Bool :=
  c.rest.isEmpty

/-- Whether the next characters are these. -/
def startsWith (text : String) (c : Cursor) : Bool :=
  text.toList.isPrefixOf c.rest

/-- Whether the next character is of a class. -/
def sees (p : Char → Bool) (c : Cursor) : Bool :=
  c.rest.head?.any p

/-- How many characters of a class come next. -/
def run (p : Char → Bool) (c : Cursor) : Nat :=
  (c.rest.takeWhile p).length

/-- The next characters as text. -/
def text (count : Nat) (c : Cursor) : String :=
  String.ofList (c.rest.take count)

/-- The text between this place and a later one. -/
def upTo (c later : Cursor) : String :=
  c.text (c.rest.length - later.rest.length)

@[simp] theorem next_rest (c : Cursor) : c.next.rest = c.rest.drop 1 := by
  unfold next
  split
  · simp_all
  · split <;> simp_all

@[simp] theorem walk_rest (count : Nat) (c : Cursor) : (c.walk count).rest = c.rest.drop count := by
  induction count generalizing c with
  | zero => rfl
  | succ count ih => simp [walk, ih]

@[simp] theorem skip_rest (count : Nat) (c : Cursor) : (c.skip count).rest = c.rest.drop count := rfl

/-- The second place is the first one or behind it. -/
def Onward (c d : Cursor) : Prop :=
  d.rest.length ≤ c.rest.length

/-- The second place is behind the first one. -/
def Forward (c d : Cursor) : Prop :=
  d.rest.length < c.rest.length

section

variable {a b c : Cursor}

theorem Onward.refl (c : Cursor) : c.Onward c :=
  Nat.le_refl _

theorem Onward.trans (h : a.Onward b) (h' : b.Onward c) : a.Onward c :=
  Nat.le_trans h' h

theorem Onward.trans_forward (h : a.Onward b) (h' : b.Forward c) : a.Forward c :=
  Nat.lt_of_lt_of_le h' h

theorem Forward.trans_onward (h : a.Forward b) (h' : b.Onward c) : a.Forward c :=
  Nat.lt_of_le_of_lt h' h

theorem Forward.onward (h : a.Forward b) : a.Onward b :=
  Nat.le_of_lt h

theorem Forward.trans (h : a.Forward b) (h' : b.Forward c) : a.Forward c :=
  h.trans_onward h'.onward

theorem onward_walk (count : Nat) (c : Cursor) : c.Onward (c.walk count) := by
  simp [Onward]

theorem onward_skip (count : Nat) (c : Cursor) : c.Onward (c.skip count) := by
  simp [Onward]

theorem forward_walk {count : Nat} (more : c.rest ≠ []) (pos : 0 < count) : c.Forward (c.walk count) := by
  have := List.length_pos_iff.mpr more
  simp only [Forward, walk_rest, List.length_drop]
  omega

theorem forward_skip {count : Nat} (more : c.rest ≠ []) (pos : 0 < count) : c.Forward (c.skip count) := by
  have := List.length_pos_iff.mpr more
  simp only [Forward, skip_rest, List.length_drop]
  omega

theorem rest_ne_nil {ch : Char} {tail : List Char} (h : c.rest = ch :: tail) : c.rest ≠ [] := by
  simp [h]

theorem rest_ne_nil_of_startsWith {text : String} (h : c.startsWith text = true) (pos : 0 < text.length) :
    c.rest ≠ [] := by
  intro nil
  have := (List.isPrefixOf_iff_prefix.mp h).length_le
  simp only [nil, String.length_toList, List.length_nil] at this
  omega

theorem sees_of_rest {p : Char → Bool} {ch : Char} {tail : List Char} (h : c.rest = ch :: tail) (hp : p ch = true) :
    c.sees p = true := by
  simp [sees, h, hp]

theorem rest_ne_nil_of_sees {p : Char → Bool} (h : c.sees p = true) : c.rest ≠ [] := by
  intro nil
  simp [sees, nil] at h

theorem run_pos {p q : Char → Bool} (h : c.sees p = true) (weaker : ∀ ch, p ch = true → q ch = true) :
    0 < c.run q := by
  unfold sees at h
  unfold run
  cases rest : c.rest with
  | nil => simp [rest] at h
  | cons ch tail =>
    simp only [rest, List.head?_cons, Option.any_some] at h
    simp [weaker ch h]

theorem forward_walk_run {p q : Char → Bool} (h : c.sees p = true) (weaker : ∀ ch, p ch = true → q ch = true) :
    c.Forward (c.walk (c.run q)) :=
  forward_walk (rest_ne_nil_of_sees h) (run_pos h weaker)

theorem upTo_eq {d : Cursor} {l rest : List Char} (here : c.rest = l ++ rest) (there : d.rest = rest) :
    c.upTo d = .ofList l := by
  rw [upTo, text, here, there, List.length_append, Nat.add_sub_cancel, List.take_left]

end

end Cursor

/-- A value read between a place and one behind it. -/
structure Read (origin : Cursor) (α : Type) where
  value : α
  cursor : Cursor
  forward : origin.Forward cursor

/-- A value read between a place and the same or one behind it. -/
structure Pass (origin : Cursor) (α : Type) where
  value : α
  cursor : Cursor
  onward : origin.Onward cursor

/-- Reads these characters and no others. -/
def Cursor.expect (text : String) (c : Cursor) : Except ParseError (Pass c Unit) :=
  if c.startsWith text then .ok ⟨(), c.skip text.length, onward_skip _ c⟩
  else if c.atEnd then .error (c.fault (.endOfSource (some text)))
  else .error (c.fault (.expected ("'" ++ text ++ "', found '" ++ c.text (text.length + 10) ++ "'")))

/-- The place behind the blanks. -/
def Cursor.skipBlanks (c : Cursor) : Cursor :=
  c.walk (c.run Text.isBlank)

theorem Cursor.onward_skipBlanks (c : Cursor) : c.Onward c.skipBlanks :=
  onward_walk _ c

end Stencil
