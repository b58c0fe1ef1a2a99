import Stencil.Proofs.Source.Parts

/-! What the tree of a source retains of it: all nodes and separators that were read, exactly if no slot and no inline
    partial has a separator or pieces in its parameters. A separator that belongs to no tag is a fault. -/

namespace Stencil

/-! ### What the tree retains -/

/-- What may be lost: nodes, the pieces of quoted text among them, and separators of bodies. -/
inductive Content where
  | node (node : Node)
  | separator (name : String)

namespace Content

/-- The pieces of quoted text. -/
def ofPieces (pieces : List Piece) : List Content := pieces.map fun p => .node (.piece p)

/-- The pieces in the values of parameters. -/
def ofParams (params : List (String × ParamValue)) : List Content :=
  params.flatMap fun
    | (_, .quoted pieces) => ofPieces pieces
    | _ => []

end Content

namespace Node

mutual

/-- A node and all inside it, in the order of the source. -/
def contents : Node → List Content
  | .piece p => [.node (.piece p)]
  | .lineBreak text => [.node (.lineBreak text)]
  | .raw text => [.node (.raw text)]
  | .comment text => [.node (.comment text)]
  | .sectionTag kind key context params ⟨block, named⟩ =>
    .node (.sectionTag kind key context params ⟨block, named⟩) ::
      (Content.ofParams params ++ (blockContents block ++ namedContents named))
  | .helperTag name context params ⟨block, named⟩ =>
    .node (.helperTag name context params ⟨block, named⟩) ::
      (Content.ofParams params ++ (blockContents block ++ namedContents named))
  | .partialTag name context params =>
    .node (.partialTag name context params) :: (Content.ofPieces name ++ Content.ofParams params)
  | .slot name default => .node (.slot name default) :: blockContents default
  | .inlinePartial name body => .node (.inlinePartial name body) :: allContents body

/-- Nodes and all inside them. -/
def allContents : List Node → List Content
  | [] => []
  | node :: rest => node.contents ++ allContents rest

/-- What is inside a block. -/
def blockContents : Option (List Node) → List Content
  | none => []
  | some nodes => allContents nodes

/-- The separators of named bodies, each with what is inside its body. -/
def namedContents : List (String × List Node) → List Content
  | [] => []
  | (name, nodes) :: rest => .separator name :: (allContents nodes ++ namedContents rest)

end

end Node

namespace Written

mutual

/-- All that was read of a part, in the order of the source. -/
def contents : Written → List Content
  | .plain node => node.contents
  | .tag opening ⟨block, named⟩ => .node (opening.node ⟨blockNodes block, namedNodes named⟩) ::
      (Content.ofParams opening.params ++ (blockContents block ++ namedContents named))

/-- All that was read of parts. -/
def allContents : List Written → List Content
  | [] => []
  | part :: rest => part.contents ++ allContents rest

/-- All that was read of a block. -/
def blockContents : Option (List Written) → List Content
  | none => []
  | some parts => allContents parts

/-- All that was read of named bodies, with their separators. -/
def namedContents : List (String × List Written) → List Content
  | [] => []
  | (name, parts) :: rest => .separator name :: (allContents parts ++ namedContents rest)

end

mutual

/-- No slot and no inline partial in a part has a separator or pieces in its parameters. -/
def Undivided : Written → Prop
  | .plain _ => True
  | .tag opening ⟨block, named⟩ => (opening.Whole ∨ Content.ofParams opening.params = [] ∧ named = []) ∧
      BlockUndivided block ∧ NamedUndivided named

def AllUndivided : List Written → Prop
  | [] => True
  | part :: rest => part.Undivided ∧ AllUndivided rest

def BlockUndivided : Option (List Written) → Prop
  | none => True
  | some parts => AllUndivided parts

def NamedUndivided : List (String × List Written) → Prop
  | [] => True
  | (_, parts) :: rest => AllUndivided parts ∧ NamedUndivided rest

end

end Written

/-- Of what was read the tree retains some in its order, and all exactly under a condition. -/
structure Retains (retained read : List Content) (P : Prop) : Prop where
  sublist : retained.Sublist read
  eq_iff : retained = read ↔ P

namespace Retains

variable {a a' b b' : List Content} {P Q : Prop}

theorem refl (a : List Content) : Retains a a True := ⟨.refl _, iff_of_true rfl trivial⟩

theorem cons (x : Content) (h : Retains a a' P) : Retains (x :: a) (x :: a') P :=
  ⟨h.sublist.cons_cons x, by rw [List.cons.injEq, h.eq_iff, and_iff_right rfl]⟩

theorem append (h : Retains a a' P) (h' : Retains b b' Q) : Retains (a ++ b) (a' ++ b') (P ∧ Q) where
  sublist := h.sublist.append h'.sublist
  eq_iff := by
    rw [← h.eq_iff, ← h'.eq_iff]
    refine ⟨fun same => ?_, fun ⟨same, same'⟩ => same ▸ same' ▸ rfl⟩
    -- Neither part is longer than what it is part of, so both are as long.
    have lengths := congrArg List.length same
    rw [List.length_append, List.length_append] at lengths
    have le := h.sublist.length_le
    have le' := h'.sublist.length_le
    exact ⟨h.sublist.eq_of_length (by omega), h'.sublist.eq_of_length (by omega)⟩

/-- What stands in front and behind is lost. -/
theorem between (h : Retains a a' P) (front back : List Content) :
    Retains a (front ++ (a' ++ back)) ((front = [] ∧ back = []) ∧ P) where
  sublist := (h.sublist.trans (List.sublist_append_left _ _)).trans (List.sublist_append_right _ _)
  eq_iff := by
    rw [← h.eq_iff]
    refine ⟨fun same => ?_, fun ⟨⟨no, no'⟩, same⟩ => by rw [no, no', List.append_nil, same]; rfl⟩
    have lengths := congrArg List.length same
    rw [List.length_append, List.length_append] at lengths
    have le := h.sublist.length_le
    exact ⟨⟨List.eq_nil_of_length_eq_zero (by omega), List.eq_nil_of_length_eq_zero (by omega)⟩,
      h.sublist.eq_of_length (by omega)⟩

theorem congr (h : Retains a a' P) (same : P ↔ Q) : Retains a a' Q := ⟨h.sublist, h.eq_iff.trans same⟩

end Retains

namespace Written

theorem namedContents_eq_nil_iff {named : List (String × List Written)} : namedContents named = [] ↔ named = [] := by
  cases named with
  | nil => exact iff_of_true rfl rfl
  | cons e named => exact iff_of_false nofun nofun

/-- A section and a helper retain what their bodies do. -/
theorem retains_whole {a b b' c c' : List Content} {P Q : Prop} {opening : Opening} {lost : Prop} (x : Content)
    (whole : opening.Whole) (block : Retains b b' P) (named : Retains c c' Q) :
    Retains (x :: (a ++ (b ++ c))) (x :: (a ++ (b' ++ c'))) ((opening.Whole ∨ lost) ∧ P ∧ Q) :=
  (((Retains.refl a).append (block.append named)).cons x).congr
    ⟨fun ⟨_, both⟩ => ⟨.inl whole, both⟩, fun ⟨_, both⟩ => ⟨trivial, both⟩⟩

/-- A slot and an inline partial retain what their block does. -/
theorem retains_divided {a b b' : List Content} {P : Prop} {opening : Opening} {named : List (String × List Written)}
    (x : Content) (divided : ¬ opening.Whole) (block : Retains b b' P) :
    Retains (x :: b) (x :: (a ++ (b' ++ namedContents named)))
      ((opening.Whole ∨ a = [] ∧ named = []) ∧ P ∧ NamedUndivided named) := by
  refine ((block.between a (namedContents named)).cons x).congr ?_
  rw [namedContents_eq_nil_iff]
  constructor
  · rintro ⟨⟨no, rfl⟩, ok⟩
    exact ⟨.inr ⟨no, rfl⟩, ok, trivial⟩
  · rintro ⟨whole | no, ok, -⟩
    · exact absurd whole divided
    · exact ⟨no, ok⟩

mutual

theorem retains_contents : (w : Written) → Retains w.node.contents w.contents w.Undivided
  | .plain node => .refl _
  | .tag opening ⟨block, named⟩ => by
    have inBlock := retains_blockContents block
    have inNamed := retains_namedContents named
    cases opening with
    | sectionTag kind head => exact retains_whole _ trivial inBlock inNamed
    | helperTag head => exact retains_whole _ trivial inBlock inNamed
    | slot head => exact retains_divided _ id inBlock
    | inlinePartial head =>
      refine retains_divided _ id ?_
      cases block <;> exact inBlock

theorem retains_allContents : (parts : List Written) →
    Retains (Node.allContents (nodes parts)) (allContents parts) (AllUndivided parts)
  | [] => .refl _
  | part :: rest => (retains_contents part).append (retains_allContents rest)

theorem retains_blockContents : (block : Option (List Written)) →
    Retains (Node.blockContents (blockNodes block)) (blockContents block) (BlockUndivided block)
  | none => .refl _
  | some parts => retains_allContents parts

theorem retains_namedContents : (named : List (String × List Written)) →
    Retains (Node.namedContents (namedNodes named)) (namedContents named) (NamedUndivided named)
  | [] => .refl _
  | (name, parts) :: rest => ((retains_allContents parts).append (retains_namedContents rest)).cons (.separator name)

end

end Written

/-! ### A slot with a separator -/

deriving instance DecidableEq for Cursor

theorem Yields.of_any {ε α : Type} {x : Except ε α} {p : α → Bool} (h : x.toOption.any p = true) :
    Yields x fun a => p a = true := by
  cases x with
  | error e => cases h
  | ok a => exact .ok h

/-- A slot with a separator. -/
def dividedSlot : String := "\x7b+a\x7dx\x7b:y\x7dz\x7b/a\x7d"

/-- The head of the slot. -/
def dividedHead : Cursor.Head String := ⟨"a", "a", none, [], false⟩

/-- The source of the slot as it reads. -/
def dividedParts : List Written :=
  [.tag (.slot dividedHead) ⟨some [.plain (.piece (.text "x"))], [("y", [.plain (.piece (.text "z"))])]⟩]

/-- The stop that a tag is, read from one place to another. -/
theorem stop_of_any {c c₁ : Cursor} {stop : Stop} (more : c.rest ≠ [])
    (brace : c.startsWith "\x7b" = true) (seen : (c.tag more).toOption.any (fun r => match r.value with
      | .stop s => decide (s = stop ∧ r.cursor = c₁)
      | .node _ => false) = true) : c.ReadsAs [] stop c₁ := by
  obtain ⟨⟨node | s, c', h⟩, tagged, same⟩ := Yields.of_any seen
  · cases same
  · obtain ⟨rfl, rfl⟩ := of_decide_eq_true same
    exact .stop brace tagged

theorem reading_dividedSlot : Written.Reading dividedSlot dividedParts := by
  obtain ⟨⟨⟨name, written, context, params, closed⟩, c, h⟩, headed, same⟩ : Yields
      ((Cursor.skip 2 (.start dividedSlot)).head Cursor.key) fun r => decide (r.value.name = "a" ∧ r.value.written = "a" ∧
        r.value.context = none ∧ r.value.params.isEmpty ∧ r.value.closed = false ∧
        r.cursor = ⟨"x\x7b:y\x7dz\x7b/a\x7d".toList, 4, 1, 0⟩) = true := .of_any (by decide +kernel)
  obtain ⟨rfl, rfl, rfl, empty, rfl, rfl⟩ := of_decide_eq_true same
  obtain rfl := List.isEmpty_iff.mp empty
  have separator : Cursor.ReadsAs ⟨"\x7b:y\x7dz\x7b/a\x7d".toList, 5, 1, 0⟩ [] (.separator "y")
    ⟨"z\x7b/a\x7d".toList, 9, 1, 0⟩ := stop_of_any (by decide) rfl (by decide +kernel)
  have close : Cursor.ReadsAs ⟨"\x7b/a\x7d".toList, 10, 1, 0⟩ [] (.close "a") ⟨[], 14, 1, 0⟩ :=
    stop_of_any (by decide) rfl (by decide +kernel)
  exact ⟨_, .tag (.slot rfl headed) (.named rfl (.text (by decide) rfl separator) (.last (.text (by decide) rfl close)))
    (.sourceEnd rfl)⟩

/-- A separator with no tag around it. -/
theorem reading_straySeparator : (Cursor.start "x\x7b:y\x7dz").ReadsAs [.plain (.piece (.text "x"))] (.separator "y")
    ⟨['z'], 5, 1, 0⟩ := by
  have separator : Cursor.ReadsAs ⟨"\x7b:y\x7dz".toList, 1, 1, 0⟩ [] (.separator "y") ⟨['z'], 5, 1, 0⟩ :=
    stop_of_any (by decide) rfl (by decide +kernel)
  exact .text (by decide) rfl separator

/-- A source is accepted exactly if it reads as parts, it reads as parts in one way, and its tree is that of the parts. Of
    all nodes, pieces of quoted text and separators that were read the tree has some, in their order, and it has all of them
    exactly if no slot and no inline partial, however deep, has a separator or pieces in its parameters. A separator outside
    all tags is a fault. -/
theorem tree_retains_iff_undivided (source : String) :
    (∀ parts, Written.Reading source parts → Node.ofSource source = .ok (Written.nodes parts)) ∧
    (∀ nodes, Node.ofSource source = .ok nodes → ∃ parts, (∀ parts', Written.Reading source parts' ↔ parts' = parts) ∧
      nodes = Written.nodes parts ∧ (Node.allContents nodes).Sublist (Written.allContents parts) ∧
      (Node.allContents nodes = Written.allContents parts ↔ Written.AllUndivided parts)) ∧
    (∀ parts name c, (Cursor.start source).ReadsAs parts (.separator name) c →
      Node.ofSource source = .error (c.fault (.unexpectedBody name))) := by
  refine ⟨fun parts reads => Node.ofSource_eq_ok_iff.mpr ⟨parts, reads, rfl⟩, fun nodes accepted => ?_,
    fun _ _ _ => Node.ofSource_of_separator⟩
  obtain ⟨parts, reads, rfl⟩ := Node.ofSource_eq_ok_iff.mp accepted
  have retains := Written.retains_allContents parts
  refine ⟨parts, fun parts' => ⟨fun ⟨_, reads'⟩ => ?_, fun same => same ▸ reads⟩, rfl, retains.sublist, retains.eq_iff⟩
  obtain ⟨_, reads⟩ := reads
  exact reads'.unique reads

/-- A slot that loses a body, and a separator that belongs to no tag. -/
theorem tree_retains_iff_undivided_dividedSlot :
    Written.Reading dividedSlot dividedParts ∧ Node.ofSource dividedSlot = .ok (Written.nodes dividedParts) ∧
    (Node.allContents (Written.nodes dividedParts)).Sublist (Written.allContents dividedParts) ∧
    Node.allContents (Written.nodes dividedParts) ≠ Written.allContents dividedParts ∧
    Node.ofSource "x\x7b:y\x7dz" = .error ⟨none, 1, 6, .unexpectedBody "y"⟩ := by
  obtain ⟨accepted, retains, -⟩ := tree_retains_iff_undivided dividedSlot
  have tree := accepted _ reading_dividedSlot
  obtain ⟨parts, reading, -, some, all⟩ := retains _ tree
  obtain rfl := (reading _).mp reading_dividedSlot
  obtain ⟨-, -, stray⟩ := tree_retains_iff_undivided "x\x7b:y\x7dz"
  refine ⟨reading_dividedSlot, tree, some, fun same => ?_, stray _ _ _ reading_straySeparator⟩
  rcases (all.mp same).1.1 with whole | ⟨-, none⟩
  · exact whole
  · cases none

/-- The separator and the text behind it are read and accepted, and the tree has neither. -/
theorem slot_loses_body : Written.Reading dividedSlot dividedParts ∧
    Node.ofSource dividedSlot = .ok (Written.nodes dividedParts) ∧
    ∀ content ∈ [Content.separator "y", Content.node (.piece (.text "z"))],
      content ∈ Written.allContents dividedParts ∧ content ∉ Node.allContents (Written.nodes dividedParts) := by
  refine ⟨reading_dividedSlot, Node.ofSource_eq_ok_iff.mpr ⟨_, reading_dividedSlot, rfl⟩, ?_⟩
  have read : Written.allContents dividedParts = [.node (.slot "a" (some [.piece (.text "x")])), .node (.piece (.text "x")),
    .separator "y", .node (.piece (.text "z"))] := rfl
  have kept : Node.allContents (Written.nodes dividedParts) =
    [.node (.slot "a" (some [.piece (.text "x")])), .node (.piece (.text "x"))] := rfl
  rw [read, kept]
  simp

end Stencil
