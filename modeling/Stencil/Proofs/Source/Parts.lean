import Stencil.Proofs.Source.Reading

/-! A source as parts, each tag with all that was read of it: its head as written, its bodies with their separators. A source
    is accepted exactly if it reads as parts, it does so in one way, and its tree is that of the parts. -/

namespace Stencil

/-- An opening tag that may have bodies behind it. -/
inductive Opening where
  | sectionTag (kind : SectionKind) (head : Cursor.Head Path)
  | helperTag (head : Cursor.Head String)
  | slot (head : Cursor.Head String)
  | inlinePartial (head : Cursor.Head String)

namespace Opening

/-- The name as written, which the closing tag repeats. -/
def written : Opening → String
  | .sectionTag _ head => head.written
  | .helperTag head | .slot head | .inlinePartial head => head.written

/-- The tag has no bodies. -/
def closed : Opening → Bool
  | .sectionTag _ head => head.closed
  | .helperTag head | .slot head | .inlinePartial head => head.closed

def params : Opening → List (String × ParamValue)
  | .sectionTag _ head => head.params
  | .helperTag head | .slot head | .inlinePartial head => head.params

/-- The node of the tag with its bodies. -/
def node : Opening → Bodies (List Node) → Node
  | .sectionTag kind head, bodies => .sectionTag kind head.name head.context head.params bodies
  | .helperTag head, bodies => .helperTag head.name head.context head.params bodies
  | .slot head, bodies => .slot head.name bodies.block
  | .inlinePartial head, bodies => .inlinePartial head.name (bodies.block.getD [])

/-- The node has all bodies and parameters of the tag: a section or a helper. -/
def Whole : Opening → Prop
  | .sectionTag _ _ | .helperTag _ => True
  | .slot _ | .inlinePartial _ => False

end Opening

/-- What has no bodies behind it: text, a reference, a special, a line break, raw text, a comment, a partial. -/
def Node.Plain : Node → Prop
  | .piece _ | .lineBreak _ | .raw _ | .comment _ | .partialTag _ _ _ => True
  | .sectionTag _ _ _ _ _ | .helperTag _ _ _ _ | .slot _ _ | .inlinePartial _ _ => False

/-- A part of a source with all that was read of it. -/
inductive Written where
  | plain (node : Node)
  | tag (opening : Opening) (bodies : Bodies (List Written))

namespace Written

mutual

/-- The node that stands for a part in the tree. -/
def node : Written → Node
  | .plain node => node
  | .tag opening ⟨block, named⟩ => opening.node ⟨blockNodes block, namedNodes named⟩

/-- The nodes of parts. -/
def nodes : List Written → List Node
  | [] => []
  | part :: rest => part.node :: nodes rest

/-- The nodes of a block. -/
def blockNodes : Option (List Written) → Option (List Node)
  | none => none
  | some parts => some (nodes parts)

/-- The nodes of named bodies. -/
def namedNodes : List (String × List Written) → List (String × List Node)
  | [] => []
  | (name, parts) :: rest => (name, nodes parts) :: namedNodes rest

end

end Written

theorem Ensures.bind_of_ok {ε α β : Type} {x : Except ε α} {f : α → Except ε β} {Q : β → Prop}
    (h : ∀ a, x = .ok a → Ensures (f a) Q) : Ensures (x >>= f) Q := by
  cases x with
  | error e => exact nofun
  | ok a => exact h a rfl

namespace Cursor

/-- The opening tag from one place to another. -/
inductive Opens (c : Cursor) : Opening → Cursor → Prop
  | sectionTag {kind : SectionKind} {tail : List Char} {head : Head Path} {c₁ : Cursor} {h : (c.skip 2).Forward c₁} :
    c.rest = '\x7b' :: Print.sigil kind :: tail → (c.skip 2).head path = .ok ⟨head, c₁, h⟩ →
    Opens c (.sectionTag kind head) c₁
  | helperTag {tail : List Char} {head : Head String} {c₁ : Cursor} {h : (c.skip 2).Forward c₁} :
    c.rest = '\x7b' :: '@' :: tail → (c.skip 2).head key = .ok ⟨head, c₁, h⟩ → Opens c (.helperTag head) c₁
  | slot {tail : List Char} {head : Head String} {c₁ : Cursor} {h : (c.skip 2).Forward c₁} :
    c.rest = '\x7b' :: '+' :: tail → (c.skip 2).head key = .ok ⟨head, c₁, h⟩ → Opens c (.slot head) c₁
  | inlinePartial {tail : List Char} {head : Head String} {c₁ : Cursor} {h : (c.skip 2).Forward c₁} :
    c.rest = '\x7b' :: '<' :: tail → (c.skip 2).head key = .ok ⟨head, c₁, h⟩ → Opens c (.inlinePartial head) c₁

mutual

/-- From one place to another the source reads as these parts, up to what stops them. -/
inductive ReadsAs : Cursor → List Written → Stop → Cursor → Prop
  | sourceEnd {c : Cursor} : c.rest = [] → ReadsAs c [] .sourceEnd c
  | stop {c c₁ : Cursor} {stop : Stop} {more : c.rest ≠ []} {h : c.Forward c₁} : c.startsWith "\x7b" = true →
    c.tag more = .ok ⟨.stop stop, c₁, h⟩ → ReadsAs c [] stop c₁
  | text {c c₁ : Cursor} {parts : List Written} {stop : Stop} (more : c.rest ≠ []) : c.startsWith "\x7b" = false →
    ReadsAs (c.textOrBreak more).cursor parts stop c₁ → ReadsAs c (.plain (c.textOrBreak more).value :: parts) stop c₁
  | plain {c c₁ c₂ : Cursor} {node : Node} {parts : List Written} {stop : Stop} {more : c.rest ≠ []}
      {h : c.Forward c₁} : c.startsWith "\x7b" = true → c.tag more = .ok ⟨.node node, c₁, h⟩ → node.Plain →
    ReadsAs c₁ parts stop c₂ → ReadsAs c (.plain node :: parts) stop c₂
  | tag {c c₁ c₂ c₃ : Cursor} {opening : Opening} {bodies : Bodies (List Written)} {parts : List Written} {stop : Stop} :
    c.Opens opening c₁ → BodiesReadAs c₁ opening bodies c₂ → ReadsAs c₂ parts stop c₃ →
    ReadsAs c (.tag opening bodies :: parts) stop c₃

/-- The bodies behind an opening tag. -/
inductive BodiesReadAs : Cursor → Opening → Bodies (List Written) → Cursor → Prop
  | none {c : Cursor} {opening : Opening} : opening.closed = true → BodiesReadAs c opening .empty c
  | block {c c₁ : Cursor} {opening : Opening} {parts : List Written} : opening.closed = false →
    ReadsAs c parts (.close opening.written) c₁ → BodiesReadAs c opening ⟨some parts, []⟩ c₁
  | named {c c₁ c₂ : Cursor} {opening : Opening} {parts : List Written} {name : String}
      {named : List (String × List Written)} : opening.closed = false → ReadsAs c parts (.separator name) c₁ →
    NamedReadAs c₁ opening.written name named c₂ → BodiesReadAs c opening ⟨some parts, named⟩ c₂

/-- The body behind the separator of a name, and the bodies behind it. -/
inductive NamedReadAs : Cursor → String → String → List (String × List Written) → Cursor → Prop
  | last {c c₁ : Cursor} {written name : String} {parts : List Written} : ReadsAs c parts (.close written) c₁ →
    NamedReadAs c written name [(name, parts)] c₁
  | next {c c₁ c₂ : Cursor} {written name following : String} {parts : List Written}
      {named : List (String × List Written)} : ReadsAs c parts (.separator following) c₁ →
    NamedReadAs c₁ written following named c₂ → NamedReadAs c written name ((name, parts) :: named) c₂

end

/-! ### Whatever is read is read as parts -/

/-- What an opening brace starts: what stops the nodes, a node with no bodies, or one with bodies. -/
def TagReadAs (c : Cursor) (value : Tag) (c₁ : Cursor) : Prop :=
  match value with
  | .stop _ => True
  | .node n => n.Plain ∨
      ∃ opening bodies c', c.Opens opening c' ∧ BodiesReadAs c' opening bodies c₁ ∧ n = (Written.tag opening bodies).node

/-- Nodes in bodies are those of parts read behind an opening tag. -/
def BodiesFrom (c : Cursor) (written : String) (bodies : Bodies (List Node)) (c₁ : Cursor) : Prop :=
  ∀ opening : Opening, opening.closed = false → opening.written = written → ∃ block named,
    c.BodiesReadAs opening ⟨block, named⟩ c₁ ∧ bodies = ⟨Written.blockNodes block, Written.namedNodes named⟩

/-- A tag that ends with its opening has no bodies, and any other has those behind it. -/
theorem tagReadAs_opened {c c₁ : Cursor} {opening : Opening} (opens : c.Opens opening c₁)
    (within : Ensures (c₁.bodies opening.written) fun r => c₁.BodiesFrom opening.written r.value r.cursor) :
    Ensures (if opening.closed then pure ⟨.empty, c₁, .refl c₁⟩ else c₁.bodies opening.written :
      Except ParseError (Pass c₁ _)) fun r => c.TagReadAs (.node (opening.node r.value)) r.cursor := by
  split
  · next closed => exact .ok (.inr ⟨opening, .empty, c₁, opens, .none closed, rfl⟩)
  · next isOpen =>
    intro r read
    obtain ⟨block, named, reads, made⟩ := within r read opening (Bool.eq_false_iff.mpr isOpen) rfl
    exact .inr ⟨opening, ⟨block, named⟩, c₁, opens, reads, congrArg opening.node made⟩

mutual

theorem readsAs_nodes (c : Cursor) :
    Ensures c.nodes fun r => ∃ parts, c.ReadsAs parts r.stop r.cursor ∧ r.nodes = Written.nodes parts := by
  unfold Cursor.nodes
  split
  · next nothing => exact .ok ⟨[], .sourceEnd nothing, rfl⟩
  · next more =>
    split
    · next brace =>
      refine .bind_of_ok ?_
      rintro ⟨node | stop, c₁, h₁⟩ tagged
      · refine .bind (readsAs_nodes c₁) ?_
        rintro ⟨nodes, stop, c₂, h₂, _⟩ ⟨parts, reads, made⟩
        rcases readsAs_tag c more brace _ tagged with plain | ⟨opening, bodies, c', opens, within, rfl⟩
        · exact .ok ⟨.plain node :: parts, .plain brace tagged plain reads, congrArg _ made⟩
        · exact .ok ⟨.tag opening bodies :: parts, .tag opens within reads, congrArg _ made⟩
      · exact .ok ⟨[], .stop brace tagged, rfl⟩
    · next other =>
      have moved : c.Forward (c.textOrBreak more).cursor := (c.textOrBreak more).forward
      refine .bind (readsAs_nodes (c.textOrBreak more).cursor) ?_
      rintro ⟨nodes, stop, c₂, h₂, _⟩ ⟨parts, reads, made⟩
      exact .ok ⟨.plain (c.textOrBreak more).value :: parts, .text more (Bool.eq_false_iff.mpr other) reads,
        congrArg _ made⟩
termination_by c.rank 2
decreasing_by
  · exact moved.rank_lt _ _
  · exact h₁.rank_lt _ _
  · exact c.rank_lt_rank (by decide)

theorem readsAs_tag (c : Cursor) (more : c.rest ≠ []) (brace : c.startsWith "\x7b" = true) :
    Ensures (c.tag more) fun r => c.TagReadAs r.value r.cursor := by
  have sigil : c.Forward (c.skip 2) := forward_skip more Nat.two_pos
  have here {ch : Char} {tail : List Char} (behind : c.rest.drop 1 = ch :: tail) : c.rest = '\x7b' :: ch :: tail := by
    obtain ⟨rest, first⟩ := startsWith_iff.mp brace
    rw [← first] at behind ⊢
    exact congrArg _ behind
  unfold tag
  dsimp only
  split
  · refine .bind (.any _) ?_
    rintro ⟨text, c₁, h₁⟩ -
    exact .ok (.inl trivial)
  · refine .bind (.any _) ?_
    rintro ⟨text, c₁, h₁⟩ -
    exact .ok (.inl trivial)
  · refine .bind (.any _) ?_
    rintro ⟨piece, c₁, h₁⟩ -
    exact .ok (.inl trivial)
  · next behind => exact readsAs_sectionTag c more .iterate (here behind)
  · next behind => exact readsAs_sectionTag c more .present (here behind)
  · next behind => exact readsAs_sectionTag c more .absent (here behind)
  · next behind =>
    refine .bind_of_ok ?_
    rintro ⟨head, c₁, h₁⟩ headed
    refine .ite_bind (tagReadAs_opened (.helperTag (here behind) headed) (readsAs_bodies c₁ head.written)) ?_
    rintro ⟨bodies, c₂, h₂⟩ reads
    exact .ok reads
  · next behind =>
    refine .bind_of_ok ?_
    rintro ⟨head, c₁, h₁⟩ headed
    refine .ite_bind (tagReadAs_opened (.slot (here behind) headed) (readsAs_bodies c₁ head.written)) ?_
    rintro ⟨bodies, c₂, h₂⟩ reads
    exact .ok reads
  · next behind =>
    refine .bind_of_ok ?_
    rintro ⟨head, c₁, h₁⟩ headed
    refine .ite_bind (tagReadAs_opened (.inlinePartial (here behind) headed) (readsAs_bodies c₁ head.written)) ?_
    rintro ⟨bodies, c₂, h₂⟩ reads
    exact .ok reads
  · refine .bind (ensures_partialTag _) ?_
    rintro ⟨_, c₁, h₁⟩ ⟨pieces, own, list, rfl, -⟩
    exact .ok (.inl trivial)
  · refine .bind (.any _) ?_
    rintro ⟨written, c₁, h₁⟩ -
    exact .ok trivial
  · refine .bind (.any _) ?_
    rintro ⟨name, c₁, h₁⟩ -
    exact .ok trivial
  · split
    · exact .ok (.inl trivial)
    · exact .ok (.inl trivial)
termination_by c.rank 1
decreasing_by
  · exact c.rank_lt_rank (by decide)
  · exact c.rank_lt_rank (by decide)
  · exact c.rank_lt_rank (by decide)
  · exact (sigil.trans h₁).rank_lt _ _
  · exact (sigil.trans h₁).rank_lt _ _
  · exact (sigil.trans h₁).rank_lt _ _

theorem readsAs_sectionTag (c : Cursor) (more : c.rest ≠ []) (kind : SectionKind) {tail : List Char}
    (here : c.rest = '\x7b' :: Print.sigil kind :: tail) :
    Ensures (c.sectionTag more kind) fun r => c.TagReadAs r.value r.cursor := by
  have sigil : c.Forward (c.skip 2) := forward_skip more Nat.two_pos
  unfold sectionTag
  refine .bind_of_ok ?_
  rintro ⟨head, c₁, h₁⟩ headed
  refine .ite_bind (tagReadAs_opened (.sectionTag here headed) (readsAs_bodies c₁ head.written)) ?_
  rintro ⟨bodies, c₂, h₂⟩ reads
  exact .ok reads
termination_by c.rank 0
decreasing_by exact (sigil.trans h₁).rank_lt _ _

theorem readsAs_bodies (c : Cursor) (written : String) :
    Ensures (c.bodies written) fun r => c.BodiesFrom written r.value r.cursor := by
  unfold Cursor.bodies
  refine .bind (readsAs_nodes c) ?_
  rintro ⟨nodes, stop, c₁, h₁, moved⟩ ⟨parts, reads, made⟩
  dsimp only at reads made ⊢
  subst made
  split
  · exact .error
  · split
    · next same =>
      subst same
      exact .ok fun opening isOpen same => ⟨some parts, [], .block isOpen (same ▸ reads), rfl⟩
    · exact .error
  · next name =>
    have behind : c.Forward c₁ := moved nofun
    refine .bind (readsAs_namedBodies c₁ written name) ?_
    rintro ⟨_, c₂, h₂⟩ ⟨named, reads', rfl⟩
    exact .ok fun opening isOpen same => ⟨some parts, named, .named isOpen reads (same ▸ reads'), rfl⟩
termination_by c.rank 3
decreasing_by
  · exact c.rank_lt_rank (by decide)
  · exact behind.rank_lt _ _

theorem readsAs_namedBodies (c : Cursor) (written name : String) :
    Ensures (c.namedBodies written name) fun r =>
      ∃ named, c.NamedReadAs written name named r.cursor ∧ r.value = Written.namedNodes named := by
  unfold Cursor.namedBodies
  refine .bind (readsAs_nodes c) ?_
  rintro ⟨nodes, stop, c₁, h₁, moved⟩ ⟨parts, reads, made⟩
  dsimp only at reads made ⊢
  subst made
  split
  · exact .error
  · split
    · next same =>
      subst same
      exact .ok ⟨[(name, parts)], .last reads, rfl⟩
    · exact .error
  · next following =>
    have behind : c.Forward c₁ := moved nofun
    refine .bind (readsAs_namedBodies c₁ written following) ?_
    rintro ⟨_, c₂, h₂⟩ ⟨named, reads', rfl⟩
    exact .ok ⟨(name, parts) :: named, .next reads reads', rfl⟩
termination_by c.rank 3
decreasing_by
  · exact c.rank_lt_rank (by decide)
  · exact behind.rank_lt _ _

end

/-! ### Whatever reads as parts is read -/

/-- The bodies behind an opening tag, if it has any, are these. -/
def Behind (c : Cursor) (closed : Bool) (written : String) (bodies : Bodies (List Node)) (c₁ : Cursor) : Prop :=
  Yields (if closed then pure ⟨.empty, c, .refl c⟩ else c.bodies written : Except ParseError (Pass c _)) fun r =>
    r.value = bodies ∧ r.cursor = c₁

theorem tag_of_opens {c c₁ c₂ : Cursor} {opening : Opening} {bodies : Bodies (List Node)} (opens : c.Opens opening c₁)
    (within : c₁.Behind opening.closed opening.written bodies c₂) (more : c.rest ≠ []) :
    Yields (c.tag more) fun r => r.value = .node (opening.node bodies) ∧ r.cursor = c₂ := by
  obtain ⟨_, offset, line, start⟩ := c
  cases opens with
  | @sectionTag kind tail head _ h here headed =>
    cases here
    have read : Yields (sectionTag ⟨_, offset, line, start⟩ more kind) fun r =>
        r.value = .node ((Opening.sectionTag kind head).node bodies) ∧ r.cursor = c₂ := by
      unfold sectionTag
      refine .bind ⟨_, headed, rfl⟩ ?_
      rintro _ rfl
      refine .ite_bind within ?_
      rintro ⟨_, _, h₂⟩ ⟨rfl, rfl⟩
      exact .ok ⟨rfl, rfl⟩
    unfold tag
    cases kind <;> exact read
  | @helperTag tail head _ h here headed =>
    cases here
    unfold tag
    refine .bind ⟨_, headed, rfl⟩ ?_
    rintro _ rfl
    refine .ite_bind within ?_
    rintro ⟨_, _, h₂⟩ ⟨rfl, rfl⟩
    exact .ok ⟨rfl, rfl⟩
  | @slot tail head _ h here headed =>
    cases here
    unfold tag
    refine .bind ⟨_, headed, rfl⟩ ?_
    rintro _ rfl
    refine .ite_bind within ?_
    rintro ⟨_, _, h₂⟩ ⟨rfl, rfl⟩
    exact .ok ⟨rfl, rfl⟩
  | @inlinePartial tail head _ h here headed =>
    cases here
    unfold tag
    refine .bind ⟨_, headed, rfl⟩ ?_
    rintro _ rfl
    refine .ite_bind within ?_
    rintro ⟨_, _, h₂⟩ ⟨rfl, rfl⟩
    exact .ok ⟨rfl, rfl⟩

theorem Opens.brace {c c₁ : Cursor} {opening : Opening} (opens : c.Opens opening c₁) :
    c.rest ≠ [] ∧ c.startsWith "\x7b" = true := by
  have of {tail : List Char} (here : c.rest = '\x7b' :: tail) : c.rest ≠ [] ∧ c.startsWith "\x7b" = true :=
    ⟨rest_ne_nil here, startsWith_iff.mpr ⟨tail, here.symm⟩⟩
  cases opens <;> exact of ‹_›

mutual

theorem nodes_of_readsAs {c c₁ : Cursor} {parts : List Written} {stop : Stop} : c.ReadsAs parts stop c₁ →
    Yields c.nodes fun r => r.nodes = Written.nodes parts ∧ r.stop = stop ∧ r.cursor = c₁
  | .sourceEnd nothing => by
    rw [Cursor.nodes, dif_pos nothing]
    exact .ok ⟨rfl, rfl, rfl⟩
  | .stop brace tagged => by
    rw [Cursor.nodes, dif_neg (rest_ne_nil_of_startsWith brace Nat.one_pos), if_pos brace]
    refine .bind ⟨_, tagged, rfl⟩ ?_
    rintro _ rfl
    exact .ok ⟨rfl, rfl, rfl⟩
  | .text more other reads => by
    rw [Cursor.nodes, dif_neg more, if_neg (Bool.eq_false_iff.mp other)]
    refine .bind (nodes_of_readsAs reads) ?_
    rintro ⟨_, _, _, h₂, _⟩ ⟨rfl, rfl, rfl⟩
    exact .ok ⟨rfl, rfl, rfl⟩
  | .plain brace tagged _ reads => by
    rw [Cursor.nodes, dif_neg (rest_ne_nil_of_startsWith brace Nat.one_pos), if_pos brace]
    refine .bind ⟨_, tagged, rfl⟩ ?_
    rintro _ rfl
    refine .bind (nodes_of_readsAs reads) ?_
    rintro ⟨_, _, _, h₂, _⟩ ⟨rfl, rfl, rfl⟩
    exact .ok ⟨rfl, rfl, rfl⟩
  | .tag opens within reads => by
    rw [Cursor.nodes, dif_neg opens.brace.1, if_pos opens.brace.2]
    refine .bind (tag_of_opens opens (behind_of_readsAs within) _) ?_
    rintro ⟨_, _, h₁⟩ ⟨rfl, rfl⟩
    refine .bind (nodes_of_readsAs reads) ?_
    rintro ⟨_, _, _, h₂, _⟩ ⟨rfl, rfl, rfl⟩
    exact .ok ⟨rfl, rfl, rfl⟩
termination_by sizeOf parts

theorem behind_of_readsAs {c c₁ : Cursor} {opening : Opening} {bodies : Bodies (List Written)} :
    c.BodiesReadAs opening bodies c₁ →
    c.Behind opening.closed opening.written ⟨Written.blockNodes bodies.block, Written.namedNodes bodies.named⟩ c₁
  | .none closed => by
    rw [Behind, closed]
    exact .ok ⟨rfl, rfl⟩
  | .block isOpen reads => by
    rw [Behind, isOpen, if_neg Bool.false_ne_true, Cursor.bodies]
    refine .bind (nodes_of_readsAs reads) ?_
    rintro ⟨_, _, _, h₂, _⟩ ⟨rfl, rfl, rfl⟩
    dsimp only
    rw [if_pos rfl]
    exact .ok ⟨rfl, rfl⟩
  | .named isOpen reads reads' => by
    rw [Behind, isOpen, if_neg Bool.false_ne_true, Cursor.bodies]
    refine .bind (nodes_of_readsAs reads) ?_
    rintro ⟨_, _, _, h₂, _⟩ ⟨rfl, rfl, rfl⟩
    refine .bind (namedBodies_of_readsAs reads') ?_
    rintro ⟨_, _, h₃⟩ ⟨rfl, rfl⟩
    exact .ok ⟨rfl, rfl⟩
termination_by sizeOf bodies

theorem namedBodies_of_readsAs {c c₁ : Cursor} {written name : String} {named : List (String × List Written)} :
    c.NamedReadAs written name named c₁ →
    Yields (c.namedBodies written name) fun r => r.value = Written.namedNodes named ∧ r.cursor = c₁
  | .last reads => by
    rw [Cursor.namedBodies]
    refine .bind (nodes_of_readsAs reads) ?_
    rintro ⟨_, _, _, h₂, _⟩ ⟨rfl, rfl, rfl⟩
    dsimp only
    rw [if_pos rfl]
    exact .ok ⟨rfl, rfl⟩
  | .next reads reads' => by
    rw [Cursor.namedBodies]
    refine .bind (nodes_of_readsAs reads) ?_
    rintro ⟨_, _, _, h₂, _⟩ ⟨rfl, rfl, rfl⟩
    refine .bind (namedBodies_of_readsAs reads') ?_
    rintro ⟨_, _, h₃⟩ ⟨rfl, rfl⟩
    exact .ok ⟨rfl, rfl⟩
termination_by sizeOf named

end

/-! ### There is one way to read -/

theorem not_plain_node (opening : Opening) (bodies : Bodies (List Node)) : ¬ (opening.node bodies).Plain := by
  cases opening <;> exact id

theorem sigil_injective : Function.Injective Print.sigil := by
  intro kind kind' same
  cases kind <;> cases kind' <;> first | rfl | cases same

theorem Opens.unique {c c₁ c₂ : Cursor} {opening opening' : Opening} (opens : c.Opens opening c₁)
    (opens' : c.Opens opening' c₂) : opening = opening' ∧ c₁ = c₂ := by
  cases opens with
  | @sectionTag kind _ _ _ _ here headed =>
    cases opens' with
    | sectionTag here' headed' =>
      have behind := (List.cons.inj (here.symm.trans here')).2
      obtain rfl := sigil_injective (List.cons.inj behind).1
      cases headed.symm.trans headed'
      exact ⟨rfl, rfl⟩
    | helperTag here' | slot here' | inlinePartial here' => cases kind <;> cases here.symm.trans here'
  | helperTag here headed =>
    cases opens' with
    | helperTag _ headed' =>
      cases headed.symm.trans headed'
      exact ⟨rfl, rfl⟩
    | @sectionTag kind _ _ _ _ here' => cases kind <;> cases here.symm.trans here'
    | slot here' | inlinePartial here' => cases here.symm.trans here'
  | slot here headed =>
    cases opens' with
    | slot _ headed' =>
      cases headed.symm.trans headed'
      exact ⟨rfl, rfl⟩
    | @sectionTag kind _ _ _ _ here' => cases kind <;> cases here.symm.trans here'
    | helperTag here' | inlinePartial here' => cases here.symm.trans here'
  | inlinePartial here headed =>
    cases opens' with
    | inlinePartial _ headed' =>
      cases headed.symm.trans headed'
      exact ⟨rfl, rfl⟩
    | @sectionTag kind _ _ _ _ here' => cases kind <;> cases here.symm.trans here'
    | helperTag here' | slot here' => cases here.symm.trans here'

theorem ReadsAs.ends_unique {c c₁ c₂ : Cursor} {parts parts' : List Written} {stop stop' : Stop}
    (reads : c.ReadsAs parts stop c₁) (reads' : c.ReadsAs parts' stop' c₂) : stop = stop' ∧ c₁ = c₂ := by
  obtain ⟨_, run, -, rfl, rfl⟩ := nodes_of_readsAs reads
  obtain ⟨_, run', -, rfl, rfl⟩ := nodes_of_readsAs reads'
  cases run.symm.trans run'
  exact ⟨rfl, rfl⟩

/-- What starts a tag with bodies starts nothing else. -/
theorem ReadsAs.of_opens {c c₁ c₂ : Cursor} {opening : Opening} {bodies : Bodies (List Written)} {parts : List Written}
    {stop : Stop} (opens : c.Opens opening c₁) (within : c₁.BodiesReadAs opening bodies c₂) :
    c.ReadsAs parts stop c₃ → ∃ bodies' c₂' rest, c₁.BodiesReadAs opening bodies' c₂' ∧ c₂'.ReadsAs rest stop c₃ ∧
      parts = .tag opening bodies' :: rest := by
  intro reads
  obtain ⟨⟨_, _, h⟩, tagged, rfl, rfl⟩ := tag_of_opens opens (behind_of_readsAs within) opens.brace.1
  cases reads with
  | sourceEnd nothing => exact absurd nothing opens.brace.1
  | stop _ tagged' => cases tagged.symm.trans tagged'
  | text _ other => exact absurd opens.brace.2 (Bool.eq_false_iff.mp other)
  | plain _ tagged' plain =>
    cases tagged.symm.trans tagged'
    exact absurd plain (not_plain_node opening _)
  | tag opens' within' rest =>
    obtain ⟨rfl, rfl⟩ := opens.unique opens'
    exact ⟨_, _, _, within', rest, rfl⟩

mutual

theorem ReadsAs.unique {c c₁ c₂ : Cursor} {parts parts' : List Written} {stop stop' : Stop}
    (reads : c.ReadsAs parts stop c₁) (reads' : c.ReadsAs parts' stop' c₂) : parts = parts' := by
  match reads with
  | .sourceEnd nothing =>
    cases reads' with
    | sourceEnd => rfl
    | stop brace | plain brace => exact absurd nothing (rest_ne_nil_of_startsWith brace Nat.one_pos)
    | text more => exact absurd nothing more
    | tag opens => exact absurd nothing opens.brace.1
  | .stop brace tagged =>
    cases reads' with
    | sourceEnd nothing => exact absurd nothing (rest_ne_nil_of_startsWith brace Nat.one_pos)
    | stop => rfl
    | text _ other => exact absurd brace (Bool.eq_false_iff.mp other)
    | plain _ tagged' => cases tagged.symm.trans tagged'
    | tag opens within =>
      obtain ⟨_, _, _, _, _, same⟩ := ReadsAs.of_opens opens within (.stop brace tagged)
      cases same
  | .text more other next =>
    cases reads' with
    | sourceEnd nothing => exact absurd nothing more
    | stop brace | plain brace => exact absurd brace (Bool.eq_false_iff.mp other)
    | text _ _ next' => exact congrArg _ (ReadsAs.unique next next')
    | tag opens => exact absurd opens.brace.2 (Bool.eq_false_iff.mp other)
  | .plain brace tagged plain next =>
    cases reads' with
    | sourceEnd nothing => exact absurd nothing (rest_ne_nil_of_startsWith brace Nat.one_pos)
    | stop _ tagged' => cases tagged.symm.trans tagged'
    | text _ other => exact absurd brace (Bool.eq_false_iff.mp other)
    | plain _ tagged' _ next' =>
      cases tagged.symm.trans tagged'
      exact congrArg _ (ReadsAs.unique next next')
    | tag opens within =>
      obtain ⟨_, _, _, _, _, same⟩ := ReadsAs.of_opens opens within (.plain brace tagged plain next)
      cases same
  | .tag opens within next =>
    obtain ⟨bodies', c₂', rest, within', next', rfl⟩ := ReadsAs.of_opens opens within reads'
    obtain ⟨rfl, rfl⟩ := BodiesReadAs.unique within within'
    exact congrArg _ (ReadsAs.unique next next')
termination_by sizeOf parts

theorem BodiesReadAs.unique {c c₁ c₂ : Cursor} {opening : Opening} {bodies bodies' : Bodies (List Written)}
    (reads : c.BodiesReadAs opening bodies c₁) (reads' : c.BodiesReadAs opening bodies' c₂) :
    bodies = bodies' ∧ c₁ = c₂ := by
  match reads with
  | .none closed =>
    cases reads' with
    | none => exact ⟨rfl, rfl⟩
    | block isOpen | named isOpen => cases closed.symm.trans isOpen
  | .block isOpen block =>
    cases reads' with
    | none closed => cases closed.symm.trans isOpen
    | block _ block' =>
      obtain rfl := ReadsAs.unique block block'
      exact ⟨rfl, (block.ends_unique block').2⟩
    | named _ block' => cases (block.ends_unique block').1
  | .named isOpen block named =>
    cases reads' with
    | none closed => cases closed.symm.trans isOpen
    | block _ block' => cases (block.ends_unique block').1
    | named _ block' named' =>
      obtain rfl := ReadsAs.unique block block'
      obtain ⟨same, rfl⟩ := block.ends_unique block'
      cases same
      obtain ⟨rfl, rfl⟩ := NamedReadAs.unique named named'
      exact ⟨rfl, rfl⟩
termination_by sizeOf bodies

theorem NamedReadAs.unique {c c₁ c₂ : Cursor} {written name : String} {named named' : List (String × List Written)}
    (reads : c.NamedReadAs written name named c₁) (reads' : c.NamedReadAs written name named' c₂) :
    named = named' ∧ c₁ = c₂ := by
  match reads with
  | .last body =>
    cases reads' with
    | last body' =>
      obtain rfl := ReadsAs.unique body body'
      exact ⟨rfl, (body.ends_unique body').2⟩
    | next body' => cases (body.ends_unique body').1
  | .next body following =>
    cases reads' with
    | last body' => cases (body.ends_unique body').1
    | next body' following' =>
      obtain rfl := ReadsAs.unique body body'
      obtain ⟨same, rfl⟩ := body.ends_unique body'
      cases same
      obtain ⟨rfl, rfl⟩ := NamedReadAs.unique following following'
      exact ⟨rfl, rfl⟩
termination_by sizeOf named

end

end Cursor

/-- The parts that a whole source reads as. -/
def Written.Reading (source : String) (parts : List Written) : Prop :=
  ∃ c, (Cursor.start source).ReadsAs parts .sourceEnd c

theorem Node.ofSource_eq_ok_iff {source : String} {nodes : List Node} :
    Node.ofSource source = .ok nodes ↔ ∃ parts, Written.Reading source parts ∧ Written.nodes parts = nodes := by
  constructor
  · intro read
    unfold Node.ofSource at read
    cases run : (Cursor.start source).nodes with
    | error e =>
      rw [run] at read
      cases read
    | ok r =>
      obtain ⟨parts, reads, made⟩ := Cursor.readsAs_nodes _ r run
      rw [run] at read
      obtain ⟨_, stop | _ | _, c, h, _⟩ := r
      · cases read
        exact ⟨parts, ⟨c, reads⟩, made.symm⟩
      · cases read
      · cases read
  · rintro ⟨parts, ⟨c, reads⟩, rfl⟩
    obtain ⟨⟨_, _, _, h, _⟩, run, rfl, rfl, rfl⟩ := Cursor.nodes_of_readsAs reads
    rw [Node.ofSource, run]
    rfl

/-- A separator that belongs to no tag is a fault behind it. -/
theorem Node.ofSource_of_separator {source : String} {parts : List Written} {name : String} {c : Cursor}
    (reads : (Cursor.start source).ReadsAs parts (.separator name) c) :
    Node.ofSource source = .error (c.fault (.unexpectedBody name)) := by
  obtain ⟨⟨_, _, _, h, _⟩, run, rfl, rfl, rfl⟩ := Cursor.nodes_of_readsAs reads
  rw [Node.ofSource, run]
  rfl

end Stencil
