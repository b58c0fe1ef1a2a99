import Stencil.Path
import Stencil.Decimal.Numeral
import Stencil.Source.Cursor

/-! Reads keys and paths. A key starts with a letter, `_` or `$`; a path is a key followed by keys behind dots and by
    indexes or paths in brackets. -/

namespace Stencil

/-- Characters that a key may start with. -/
def isKeyStart (c : Char) : Bool :=
  c.isAlpha || c = '_' || c = '$'

/-- Characters that a key may go on with. -/
def isKeyChar (c : Char) : Bool :=
  isKeyStart c || c.isDigit || c = '-'

theorem isKeyChar_of_isKeyStart (c : Char) (h : isKeyStart c = true) : isKeyChar c = true := by
  simp [isKeyChar, h]

namespace Cursor

/-- Whether a key starts here. -/
def seesKey (c : Cursor) : Bool :=
  c.sees isKeyStart

/-- Reads a key. -/
def key (c : Cursor) : Except ParseError (Read c String) :=
  if h : c.seesKey then
    let length := c.run isKeyChar
    .ok ⟨c.text length, c.walk length, forward_walk_run h isKeyChar_of_isKeyStart⟩
  else .error (c.fault (.expected "identifier"))

/-- Reads the digits of an index. -/
def index (c : Cursor) : Except ParseError (Pass c Segment) :=
  let length := c.run Char.isDigit
  let digits := c.text length
  match Decimal.Numeral.index? digits.toList with
  | some i => .ok ⟨.index i, c.walk length, onward_walk _ c⟩
  | none => .error ((c.walk length).fault (.invalidPath digits))

mutual

/-- Reads a path. A dot with no key behind it is the current frame itself. -/
def path (c : Cursor) : Except ParseError (Read c Path) :=
  if h : c.startsWith "." then
    if (c.skip 1).seesKey then do
      let ⟨name, c₁, h₁⟩ ← (c.skip 1).key
      let ⟨more, c₂, h₂⟩ ← c₁.segments
      pure ⟨⟨true, .key name :: more⟩, c₂, ((onward_skip 1 c).trans_forward h₁).trans_onward h₂⟩
    else
      pure ⟨⟨true, []⟩, c.skip 1, forward_skip (rest_ne_nil_of_startsWith h Nat.one_pos) Nat.one_pos⟩
  else do
    let ⟨name, c₁, h₁⟩ ← c.key
    let ⟨more, c₂, h₂⟩ ← c₁.segments
    pure ⟨⟨false, .key name :: more⟩, c₂, h₁.trans_onward h₂⟩
termination_by c.rest.length
decreasing_by
  · exact (onward_skip 1 c).trans_forward h₁
  · exact h₁

/-- Reads the segments behind a key. -/
def segments (c : Cursor) : Except ParseError (Pass c (List Segment)) :=
  if c.startsWith "." && (c.skip 1).seesKey then do
    let ⟨name, c₁, h₁⟩ ← (c.skip 1).key
    let ⟨more, c₂, h₂⟩ ← c₁.segments
    pure ⟨.key name :: more, c₂, ((onward_skip 1 c).trans_forward h₁).onward.trans h₂⟩
  else if h : c.startsWith "[" then do
    have opened : c.Forward (c.skip 1) := forward_skip (rest_ne_nil_of_startsWith h Nat.one_pos) Nat.one_pos
    let ⟨segment, c₁, h₁⟩ ←
      if (c.skip 1).sees Char.isDigit then (c.skip 1).index
      else do
        let ⟨inner, c₁, h₁⟩ ← (c.skip 1).path
        pure ⟨.dynamic inner, c₁, h₁.onward⟩
    let ⟨_, c₂, h₂⟩ ← c₁.expect "]"
    let ⟨more, c₃, h₃⟩ ← c₂.segments
    pure ⟨segment :: more, c₃, ((opened.trans_onward h₁).trans_onward h₂).onward.trans h₃⟩
  else pure ⟨[], c, .refl c⟩
termination_by c.rest.length
decreasing_by
  · exact (onward_skip 1 c).trans_forward h₁
  · exact (opened.trans_onward h₁).trans_onward h₂
  · exact opened

end

end Cursor

/-- The path that a text is, with nothing before or behind it. -/
def Path.ofText (text : String) : Except ParseError Path := do
  let ⟨path, c, _⟩ ← (Cursor.start text).path
  if c.atEnd then pure path else .error (c.fault (.invalidPath text))

end Stencil
