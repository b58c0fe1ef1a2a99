import Stencil.Source.Node
import Stencil.Source.Path

/-! Reads references, specials and quoted text. Braces that hold no reference are plain text, so reading a reference
    gives nothing rather than a fault. -/

namespace Stencil.Cursor

/-- Reads the filters behind a path. -/
def filters? (c : Cursor) : Option (Pass c (List String)) :=
  if c.startsWith "|" then do
    let ⟨name, c₁, h₁⟩ ← (c.skip 1).key.toOption
    let ⟨more, c₂, h₂⟩ ← c₁.filters?
    some ⟨name :: more, c₂, ((onward_skip 1 c).trans_forward h₁).onward.trans h₂⟩
  else some ⟨[], c, .refl c⟩
termination_by c.rest.length
decreasing_by exact (onward_skip 1 c).trans_forward h₁

/-- Reads a reference behind its opening brace. -/
def reference? (c : Cursor) : Option (Read c Piece) := do
  let ⟨path, c₁, h₁⟩ ← c.path.toOption
  let ⟨filters, c₂, h₂⟩ ← c₁.filters?
  if c₂.startsWith "\x7d" then
    some ⟨.reference path filters, c₂.skip 1, (h₁.trans_onward h₂).trans_onward (onward_skip 1 c₂)⟩
  else none

/-- Reads a special from its `~` on. -/
def special (c : Cursor) : Except ParseError (Read c Piece) := do
  let ⟨_, c₁, h₁⟩ ← c.expect "~"
  let ⟨name, c₂, h₂⟩ ← c₁.key
  match Special.ofName? name with
  | none => .error (c₂.fault (.unknownSpecial name))
  | some special =>
    let ⟨_, c₃, h₃⟩ ← c₂.expect "\x7d"
    pure ⟨.special special, c₃, (h₁.trans_forward h₂).trans_onward h₃⟩

/-- The piece of some literal characters, given from the last to the first. -/
def literal (reversed : List Char) : List Piece :=
  if reversed.isEmpty then [] else [.text (String.ofList reversed.reverse)]

/-- Reads quoted text behind its opening quote. A backslash before a quote makes it a character of the text. -/
def pieces (c : Cursor) (reversed : List Char) : Except ParseError (Read c (List Piece)) :=
  match h : c.rest with
  | [] => .error (c.fault (.unclosed "string"))
  | '"' :: _ => .ok ⟨literal reversed, c.skip 1, forward_skip (rest_ne_nil h) Nat.one_pos⟩
  | '\\' :: '"' :: _ => do
    have moved : c.Forward (c.skip 2) := forward_skip (rest_ne_nil h) Nat.two_pos
    let ⟨more, c₁, h₁⟩ ← (c.skip 2).pieces ['"']
    pure ⟨literal reversed ++ more, c₁, moved.trans h₁⟩
  | '\x7b' :: _ => do
    have moved : c.Forward (c.skip 1) := forward_skip (rest_ne_nil h) Nat.one_pos
    if (c.skip 1).startsWith "~" then
      let ⟨piece, c₁, h₁⟩ ← (c.skip 1).special
      let ⟨more, c₂, h₂⟩ ← c₁.pieces []
      pure ⟨literal reversed ++ piece :: more, c₂, (moved.trans h₁).trans h₂⟩
    else
      match (c.skip 1).reference? with
      | some ⟨piece, c₁, h₁⟩ =>
        let ⟨more, c₂, h₂⟩ ← c₁.pieces []
        pure ⟨literal reversed ++ piece :: more, c₂, (moved.trans h₁).trans h₂⟩
      | none =>
        let ⟨more, c₁, h₁⟩ ← (c.skip 1).pieces ['\x7b']
        pure ⟨literal reversed ++ more, c₁, moved.trans h₁⟩
  | ch :: _ => do
    have moved : c.Forward (c.walk 1) := forward_walk (rest_ne_nil h) Nat.one_pos
    let ⟨more, c₁, h₁⟩ ← (c.walk 1).pieces (ch :: reversed)
    pure ⟨more, c₁, moved.trans h₁⟩
termination_by c.rest.length
decreasing_by
  · exact moved
  · exact moved.trans h₁
  · exact moved.trans h₁
  · exact moved
  · exact moved

/-- Reads text in quotes. -/
def quoted (c : Cursor) : Except ParseError (Read c (List Piece)) := do
  let ⟨_, c₁, h₁⟩ ← c.expect "\""
  let ⟨pieces, c₂, h₂⟩ ← c₁.pieces []
  pure ⟨pieces, c₂, h₁.trans_forward h₂⟩

end Stencil.Cursor
