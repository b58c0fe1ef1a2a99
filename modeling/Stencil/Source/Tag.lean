import Stencil.Source.Quoted

/-! Reads the inside of a tag: parameters, the context, the closing brace. -/

namespace Stencil.Cursor

open Decimal

/-- How many characters of a number come next: a sign, digits, and a fraction of at least one digit. -/
def numberLength (c : Cursor) : Nat × Bool :=
  let sign := if c.startsWith "-" then 1 else 0
  let whole := sign + (c.skip sign).run Char.isDigit
  let behind := c.skip whole
  if behind.startsWith "." && (behind.skip 1).sees Char.isDigit then
    (whole + 1 + (behind.skip 1).run Char.isDigit, true)
  else (whole, false)

/-- Reads a number: a word, or with a fraction a floating-point number. -/
def number (c : Cursor) : Except ParseError (Pass c ParamValue) :=
  let (length, isFloat) := c.numberLength
  let text := c.text length
  let value? :=
    if isFloat then (Numeral.float? text.toList).map ParamValue.float
    else ((Numeral.int? text.toList).bind Numeral.word?).map ParamValue.int
  match value? with
  | some value => .ok ⟨value, c.skip length, onward_skip _ c⟩
  | none => .error ((c.skip length).fault (.expected ("number, found '" ++ text ++ "'")))

/-- Reads the value of a parameter. -/
def paramValue (c : Cursor) : Except ParseError (Pass c ParamValue) :=
  if c.startsWith "\"" then do
    let ⟨pieces, c₁, h₁⟩ ← c.quoted
    pure ⟨.quoted pieces, c₁, h₁.onward⟩
  else if c.sees fun ch => ch.isDigit || ch = '-' then c.number
  else do
    let ⟨path, c₁, h₁⟩ ← c.path
    pure ⟨.path path, c₁, h₁.onward⟩

/-- Reads parameters, each behind blanks. Blanks with no key behind them are left. -/
def params (c : Cursor) : Except ParseError (Pass c (List (String × ParamValue))) :=
  if 0 < c.run Text.isBlank && c.skipBlanks.seesKey then do
    let ⟨key, c₁, h₁⟩ ← c.skipBlanks.key
    have moved : c.Forward c₁ := c.onward_skipBlanks.trans_forward h₁
    let ⟨_, c₂, h₂⟩ ← c₁.expect "="
    let ⟨value, c₃, h₃⟩ ← c₂.paramValue
    let ⟨more, c₄, h₄⟩ ← c₃.params
    pure ⟨(key, value) :: more, c₄, ((moved.trans_onward h₂).trans_onward h₃).onward.trans h₄⟩
  else pure ⟨[], c, .refl c⟩
termination_by c.rest.length
decreasing_by exact (moved.trans_onward h₂).trans_onward h₃

/-- Reads the context of a tag, if it has one. -/
def context (c : Cursor) : Except ParseError (Pass c (Option Path)) :=
  if c.startsWith ":" then do
    let ⟨path, c₁, h₁⟩ ← (c.skip 1).path
    pure ⟨some path, c₁, (onward_skip 1 c).trans h₁.onward⟩
  else pure ⟨none, c, .refl c⟩

/-- An opening tag behind its sigil. -/
structure Head (α : Type) where
  name : α
  /-- The name as written, which the closing tag repeats. -/
  written : String
  context : Option Path
  params : List (String × ParamValue)
  /-- The tag has no bodies. -/
  closed : Bool

/-- Reads an opening tag behind its sigil. -/
def head {α : Type} (name : (c : Cursor) → Except ParseError (Read c α)) (c : Cursor) :
    Except ParseError (Read c (Head α)) := do
  let ⟨value, c₁, h₁⟩ ← name c.skipBlanks
  let ⟨context, c₂, h₂⟩ ← c₁.context
  let ⟨params, c₃, h₃⟩ ← c₂.params
  let behind := c₃.skipBlanks
  let closed := behind.startsWith "/"
  let last := behind.skip (if closed then 1 else 0)
  have h₄ : c₃.Onward last := c₃.onward_skipBlanks.trans (onward_skip _ behind)
  let ⟨_, c₄, h₅⟩ ← last.expect "\x7d"
  have moved : c.Forward c₃ := ((c.onward_skipBlanks.trans_forward h₁).trans_onward h₂).trans_onward h₃
  pure ⟨⟨value, c.skipBlanks.upTo c₁, context, params, closed⟩, c₄, (moved.trans_onward h₄).trans_onward h₅⟩

/-- Reads the name of a partial: quoted text, or a key that may hold dots. -/
def partialName (c : Cursor) : Except ParseError (Read c (List Piece)) :=
  if c.startsWith "\"" then c.quoted
  else do
    let ⟨_, c₁, h₁⟩ ← c.key
    let c₂ := c₁.walk (c₁.run fun ch => isKeyChar ch || ch = '.')
    pure ⟨[.text (c.upTo c₂)], c₂, h₁.trans_onward (onward_walk _ c₁)⟩

/-- Reads the tag of a partial behind its sigil. -/
def partialTag (c : Cursor) : Except ParseError (Read c Node) := do
  let ⟨name, c₁, h₁⟩ ← c.skipBlanks.partialName
  let ⟨context, c₂, h₂⟩ ← c₁.context
  let ⟨params, c₃, h₃⟩ ← c₂.params
  let ⟨_, c₄, h₄⟩ ← c₃.skipBlanks.expect "/\x7d"
  have moved : c.Forward c₃ := ((c.onward_skipBlanks.trans_forward h₁).trans_onward h₂).trans_onward h₃
  pure ⟨.partialTag name context params, c₄, (moved.trans_onward c₃.onward_skipBlanks).trans_onward h₄⟩

/-- How many characters come before the first place where a text stands. -/
def distance? (text : List Char) : List Char → Option Nat
  | [] => if text.isEmpty then some 0 else none
  | ch :: rest => if text.isPrefixOf (ch :: rest) then some 0 else (distance? text rest).map (· + 1)

/-- Reads everything up to a closing text. -/
def upToClosing (close what : String) (c : Cursor) : Except ParseError (Pass c String) :=
  match distance? close.toList c.rest with
  | some length =>
    let closing := c.walk length
    .ok ⟨c.text length, closing.skip close.length, (onward_walk length c).trans (onward_skip _ closing)⟩
  | none => .error ((c.walk c.rest.length).fault (.unclosed what))

/-- Reads a closing tag behind its slash: the name as written. -/
def closingTag (c : Cursor) : Except ParseError (Pass c String) := do
  let ⟨_, c₁, h₁⟩ ← c.skipBlanks.path
  let ⟨_, c₂, h₂⟩ ← c₁.skipBlanks.expect "\x7d"
  have moved : c.Onward c₁ := c.onward_skipBlanks.trans h₁.onward
  pure ⟨c.skipBlanks.upTo c₁, c₂, (moved.trans c₁.onward_skipBlanks).trans h₂⟩

/-- Reads a separator of bodies behind its colon. -/
def separatorTag (c : Cursor) : Except ParseError (Pass c String) := do
  let ⟨name, c₁, h₁⟩ ← c.key
  let ⟨_, c₂, h₂⟩ ← c₁.expect "\x7d"
  pure ⟨name, c₂, h₁.onward.trans h₂⟩

end Stencil.Cursor
