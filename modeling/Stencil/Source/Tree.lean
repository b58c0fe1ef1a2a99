import Stencil.Source.Tag

/-! Reads the tree of a source. Nodes follow each other until the source ends or a tag stops them: a separator of bodies
    or a closing tag. -/

namespace Stencil

/-- What stops a run of nodes. -/
inductive Stop where
  | sourceEnd
  | separator (name : String)
  | close (written : String)
deriving DecidableEq

/-- What an opening brace starts. -/
inductive Tag where
  | node (node : Node)
  | stop (stop : Stop)

theorem Stop.ne_sourceEnd_of_separator {stop : Stop} {name : String} (h : stop = .separator name) :
    stop ≠ .sourceEnd := by
  simp [h]

/-- A run of nodes. A tag that stops it is read too. -/
structure NodeRun (origin : Cursor) where
  nodes : List Node
  stop : Stop
  cursor : Cursor
  onward : origin.Onward cursor
  forward : stop ≠ .sourceEnd → origin.Forward cursor

namespace Cursor

/-- How many characters of plain text come next: up to a brace or a line break. -/
def textLength : List Char → Nat
  | [] => 0
  | '\x7b' :: _ => 0
  | '\n' :: _ => 0
  | '\r' :: '\n' :: _ => 0
  | _ :: rest => textLength rest + 1

/-- The plain brace that starts no tag. -/
def brace : Node :=
  .piece (.text "\x7b")

/-- Reads a line break and the blanks after it. -/
def lineBreak (c : Cursor) (blank : c.sees Text.isBlank = true) : Read c Node :=
  let length := c.run Text.isBlank
  ⟨.lineBreak (c.text length), c.walk length, forward_walk_run blank fun _ h => h⟩

/-- Reads a run of plain text or a line break, where no tag starts. -/
def textOrBreak (c : Cursor) (more : c.rest ≠ []) : Read c Node :=
  match h : c.rest with
  | [] => absurd h more
  | '\n' :: _ => c.lineBreak (sees_of_rest h rfl)
  | '\r' :: '\n' :: _ => c.lineBreak (sees_of_rest h rfl)
  | _ :: tail =>
    let length := textLength tail + 1
    ⟨.piece (.text (c.text length)), c.walk length, forward_walk more (Nat.succ_pos _)⟩

/-- A bound on the calls to come: a call either goes forward in the source or stays in place at a lower stage. -/
def rank (c : Cursor) (stage : Fin 4) : Nat :=
  4 * c.rest.length + stage

theorem Forward.rank_lt {c d : Cursor} (h : c.Forward d) (i j : Fin 4) : d.rank i < c.rank j := by
  unfold Forward at h
  unfold rank
  omega

theorem rank_lt_rank (c : Cursor) {i j : Fin 4} (h : i < j) : c.rank i < c.rank j :=
  Nat.add_lt_add_left h _

mutual

/-- Reads nodes until something stops them. -/
def nodes (c : Cursor) : Except ParseError (NodeRun c) :=
  if more : c.rest = [] then .ok ⟨[], .sourceEnd, c, .refl c, fun h => absurd rfl h⟩
  else if c.startsWith "\x7b" then do
    let ⟨tag, c₁, h₁⟩ ← c.tag more
    match tag with
    | .stop stop => pure ⟨[], stop, c₁, h₁.onward, fun _ => h₁⟩
    | .node node =>
      let ⟨nodes, stop, c₂, h₂, _⟩ ← c₁.nodes
      pure ⟨node :: nodes, stop, c₂, h₁.onward.trans h₂, fun _ => h₁.trans_onward h₂⟩
  else do
    let ⟨node, c₁, h₁⟩ := c.textOrBreak more
    let ⟨nodes, stop, c₂, h₂, _⟩ ← c₁.nodes
    pure ⟨node :: nodes, stop, c₂, h₁.onward.trans h₂, fun _ => h₁.trans_onward h₂⟩
termination_by c.rank 2
decreasing_by
  · exact c.rank_lt_rank (by decide)
  · exact h₁.rank_lt _ _
  · exact h₁.rank_lt _ _

/-- Reads what an opening brace starts. Without a sigil or a reference behind it the brace is plain text. -/
def tag (c : Cursor) (more : c.rest ≠ []) : Except ParseError (Read c Tag) :=
  have opened : c.Forward (c.skip 1) := forward_skip more Nat.one_pos
  have sigil : c.Forward (c.skip 2) := forward_skip more Nat.two_pos
  match c.rest.drop 1 with
  | '!' :: _ => do
    let ⟨text, c₁, h₁⟩ ← (c.skip 2).upToClosing "!\x7d" "comment"
    pure ⟨.node (.comment text), c₁, sigil.trans_onward h₁⟩
  | '\x60' :: _ => do
    let ⟨text, c₁, h₁⟩ ← (c.skip 2).upToClosing "\x60\x7d" "raw block"
    pure ⟨.node (.raw text), c₁, sigil.trans_onward h₁⟩
  | '~' :: _ => do
    let ⟨piece, c₁, h₁⟩ ← (c.skip 1).special
    pure ⟨.node (.piece piece), c₁, opened.trans h₁⟩
  | '#' :: _ => c.sectionTag more .iterate
  | '?' :: _ => c.sectionTag more .present
  | '^' :: _ => c.sectionTag more .absent
  | '@' :: _ => do
    let ⟨head, c₁, h₁⟩ ← (c.skip 2).head key
    let ⟨bodies, c₂, h₂⟩ ← if head.closed then pure ⟨.empty, c₁, .refl c₁⟩ else c₁.bodies head.written
    pure ⟨.node (.helperTag head.name head.context head.params bodies), c₂, (sigil.trans h₁).trans_onward h₂⟩
  | '+' :: _ => do
    let ⟨head, c₁, h₁⟩ ← (c.skip 2).head key
    let ⟨bodies, c₂, h₂⟩ ← if head.closed then pure ⟨.empty, c₁, .refl c₁⟩ else c₁.bodies head.written
    pure ⟨.node (.slot head.name bodies.block), c₂, (sigil.trans h₁).trans_onward h₂⟩
  | '<' :: _ => do
    let ⟨head, c₁, h₁⟩ ← (c.skip 2).head key
    let ⟨bodies, c₂, h₂⟩ ← if head.closed then pure ⟨.empty, c₁, .refl c₁⟩ else c₁.bodies head.written
    pure ⟨.node (.inlinePartial head.name (bodies.block.getD [])), c₂, (sigil.trans h₁).trans_onward h₂⟩
  | '>' :: _ => do
    let ⟨node, c₁, h₁⟩ ← (c.skip 2).partialTag
    pure ⟨.node node, c₁, sigil.trans h₁⟩
  | '/' :: _ => do
    let ⟨written, c₁, h₁⟩ ← (c.skip 2).closingTag
    pure ⟨.stop (.close written), c₁, sigil.trans_onward h₁⟩
  | ':' :: _ => do
    let ⟨name, c₁, h₁⟩ ← (c.skip 2).separatorTag
    pure ⟨.stop (.separator name), c₁, sigil.trans_onward h₁⟩
  | _ =>
    match (c.skip 1).reference? with
    | some ⟨piece, c₁, h₁⟩ => pure ⟨.node (.piece piece), c₁, opened.trans h₁⟩
    | none => pure ⟨.node brace, c.skip 1, opened⟩
termination_by c.rank 1
decreasing_by
  · exact c.rank_lt_rank (by decide)
  · exact c.rank_lt_rank (by decide)
  · exact c.rank_lt_rank (by decide)
  · exact (sigil.trans h₁).rank_lt _ _
  · exact (sigil.trans h₁).rank_lt _ _
  · exact (sigil.trans h₁).rank_lt _ _

/-- Reads a section from its opening brace on. -/
def sectionTag (c : Cursor) (more : c.rest ≠ []) (kind : SectionKind) : Except ParseError (Read c Tag) := do
  have sigil : c.Forward (c.skip 2) := forward_skip more Nat.two_pos
  let ⟨head, c₁, h₁⟩ ← (c.skip 2).head path
  let ⟨bodies, c₂, h₂⟩ ← if head.closed then pure ⟨.empty, c₁, .refl c₁⟩ else c₁.bodies head.written
  pure ⟨.node (.sectionTag kind head.name head.context head.params bodies), c₂, (sigil.trans h₁).trans_onward h₂⟩
termination_by c.rank 0
decreasing_by exact (sigil.trans h₁).rank_lt _ _

/-- Reads bodies up to the closing tag that repeats the opening one. The nodes before the first separator are the
    block. -/
def bodies (c : Cursor) (written : String) : Except ParseError (Pass c (Bodies (List Node))) := do
  let ⟨nodes, stop, c₁, h₁, moved⟩ ← c.nodes
  match h : stop with
  | .sourceEnd => .error (c₁.fault (.endOfSource (some ("\x7b/" ++ written ++ "\x7d"))))
  | .close found =>
    if found = written then pure ⟨⟨some nodes, []⟩, c₁, h₁⟩
    else .error (c₁.fault (.mismatchedClose written found))
  | .separator name =>
    have behind : c.Forward c₁ := moved (Stop.ne_sourceEnd_of_separator h)
    let ⟨named, c₂, h₂⟩ ← c₁.namedBodies written name
    pure ⟨⟨some nodes, named⟩, c₂, behind.onward.trans h₂⟩
termination_by c.rank 3
decreasing_by
  · exact c.rank_lt_rank (by decide)
  · exact behind.rank_lt _ _

/-- Reads the body of a name and those behind it. -/
def namedBodies (c : Cursor) (written name : String) :
    Except ParseError (Pass c (List (String × List Node))) := do
  let ⟨nodes, stop, c₁, h₁, moved⟩ ← c.nodes
  match h : stop with
  | .sourceEnd => .error (c₁.fault (.endOfSource (some ("\x7b/" ++ written ++ "\x7d"))))
  | .close found =>
    if found = written then pure ⟨[(name, nodes)], c₁, h₁⟩
    else .error (c₁.fault (.mismatchedClose written found))
  | .separator next =>
    have behind : c.Forward c₁ := moved (Stop.ne_sourceEnd_of_separator h)
    let ⟨named, c₂, h₂⟩ ← c₁.namedBodies written next
    pure ⟨(name, nodes) :: named, c₂, behind.onward.trans h₂⟩
termination_by c.rank 3
decreasing_by
  · exact c.rank_lt_rank (by decide)
  · exact behind.rank_lt _ _

end

end Cursor

/-- The nodes of a source. A tag that stops them has no place outside a section. -/
def Node.ofSource (source : String) : Except ParseError (List Node) := do
  let ⟨nodes, stop, c, _, _⟩ ← (Cursor.start source).nodes
  match stop with
  | .sourceEnd => pure nodes
  | .separator name => .error (c.fault (.unexpectedBody name))
  | .close written => .error (c.fault (.unmatchedClose written))

end Stencil
