import Mathlib.Data.List.Pairwise
import Stencil.Proofs.Source.Retention

/-! Inline partials leave the program for the table. Each inline partial of a source ends at a place of its own; under a
    name stands the program of the one that ends last, and neither the program of the template nor those of its table have
    anything left of an inline partial where it stood. -/

namespace Stencil

/-- An inline partial of a source. -/
structure InlinePartial where
  name : String
  body : List Node
  /-- The place behind its closing tag, or behind the tag itself if it has no bodies. -/
  finish : Cursor

/-- An inline partial as it goes into the table. -/
def InlinePartial.entry (p : InlinePartial) : String × List Node := (p.name, p.body)

namespace Cursor

/-- The run of nodes from a place on holds an inline partial: as one of its nodes, or however deep inside the bodies of one.
    Behind a separator the run goes on across to the next body, if the tag around it keeps its named bodies. -/
inductive Holds : (across : Bool) → Cursor → InlinePartial → Prop
  | here {across : Bool} {c finish : Cursor} {name : String} {body : List Node} {more : c.rest ≠ []} {h : c.Forward finish} :
    c.startsWith "\x7b" = true → c.tag more = .ok ⟨.node (.inlinePartial name body), finish, h⟩ →
    Holds across c ⟨name, body, finish⟩
  | text {across : Bool} {c : Cursor} {p : InlinePartial} (more : c.rest ≠ []) : c.startsWith "\x7b" = false →
    Holds across (c.textOrBreak more).cursor p → Holds across c p
  | behind {across : Bool} {c c₁ : Cursor} {p : InlinePartial} {node : Node} {more : c.rest ≠ []} {h : c.Forward c₁} :
    c.startsWith "\x7b" = true → c.tag more = .ok ⟨.node node, c₁, h⟩ → Holds across c₁ p → Holds across c p
  | inside {across inner : Bool} {c c₁ c₂ : Cursor} {p : InlinePartial} {opening : Opening} {bodies : Bodies (List Node)}
      {more : c.rest ≠ []} {h : c.Forward c₂} : c.Opens opening c₁ →
    c.tag more = .ok ⟨.node (opening.node bodies), c₂, h⟩ → opening.closed = false → (inner = true → opening.Whole) →
    Holds inner c₁ p → Holds across c p
  | separator {c c₁ : Cursor} {p : InlinePartial} {name : String} {more : c.rest ≠ []} {h : c.Forward c₁} :
    c.startsWith "\x7b" = true → c.tag more = .ok ⟨.stop (.separator name), c₁, h⟩ → Holds true c₁ p → Holds true c p

section

variable {c c₁ c₂ : Cursor} {across : Bool} {p : InlinePartial} {more : c.rest ≠ []}

/-! ### What a run holds, from one node to the next -/

theorem Holds.rest_ne_nil (h : Holds across c p) : c.rest ≠ [] := by
  cases h with
  | here brace | behind brace | separator brace => exact rest_ne_nil_of_startsWith brace Nat.one_pos
  | text more => exact more
  | inside opens => exact opens.brace.1

theorem holds_text_iff (other : c.startsWith "\x7b" = false) :
    Holds across c p ↔ Holds across (c.textOrBreak more).cursor p := by
  refine ⟨fun h => ?_, .text more other⟩
  cases h with
  | text _ _ next => exact next
  | here brace | behind brace | separator brace => exact absurd brace (Bool.eq_false_iff.mp other)
  | inside opens => exact absurd opens.brace.2 (Bool.eq_false_iff.mp other)

theorem holds_stop_iff {stop : Stop} {h : c.Forward c₁} (brace : c.startsWith "\x7b" = true)
    (tagged : c.tag more = .ok ⟨.stop stop, c₁, h⟩) :
    Holds across c p ↔ across = true ∧ (∃ name, stop = .separator name) ∧ Holds true c₁ p := by
  constructor
  · intro holds
    cases holds with
    | text _ other => exact absurd brace (Bool.eq_false_iff.mp other)
    | here _ tagged' | behind _ tagged' | inside _ tagged' => cases tagged.symm.trans tagged'
    | separator _ tagged' next =>
      cases tagged.symm.trans tagged'
      exact ⟨rfl, ⟨_, rfl⟩, next⟩
  · rintro ⟨rfl, ⟨name, rfl⟩, next⟩
    exact .separator brace tagged next

theorem holds_plain_iff {node : Node} {h : c.Forward c₁} (brace : c.startsWith "\x7b" = true)
    (tagged : c.tag more = .ok ⟨.node node, c₁, h⟩) (plain : node.Plain) : Holds across c p ↔ Holds across c₁ p := by
  refine ⟨fun holds => ?_, .behind brace tagged⟩
  cases holds with
  | text _ other => exact absurd brace (Bool.eq_false_iff.mp other)
  | here _ tagged' =>
    cases tagged.symm.trans tagged'
    exact absurd plain id
  | behind _ tagged' next =>
    cases tagged.symm.trans tagged'
    exact next
  | inside _ tagged' =>
    cases tagged.symm.trans tagged'
    exact absurd plain (not_plain_node _ _)
  | separator _ tagged' => cases tagged.symm.trans tagged'

/-- The bodies behind an opening tag hold an inline partial in what is kept of them. -/
def Within (opening : Opening) (c : Cursor) (p : InlinePartial) : Prop :=
  opening.closed = false ∧ ∃ across, (across = true → opening.Whole) ∧ Holds across c p

theorem Holds.weaken (h : Holds false c p) (across : Bool) : Holds across c p := by
  generalize flag : false = before at h
  induction h with
  | here brace tagged => exact .here brace tagged
  | text more other _ ih => exact .text more other (ih flag)
  | behind brace tagged _ ih => exact .behind brace tagged (ih flag)
  | inside opens tagged isOpen whole next => exact .inside opens tagged isOpen whole next
  | separator => cases flag

theorem within_iff {opening : Opening} (isOpen : opening.closed = false) :
    Within opening c p ↔ Holds false c p ∨ opening.Whole ∧ Holds true c p := by
  constructor
  · rintro ⟨-, _ | _, whole, holds⟩
    · exact .inl holds
    · exact .inr ⟨whole rfl, holds⟩
  · rintro (holds | ⟨whole, holds⟩)
    · exact ⟨isOpen, false, nofun, holds⟩
    · exact ⟨isOpen, true, fun _ => whole, holds⟩

theorem holds_tag_iff {opening : Opening} {bodies : Bodies (List Node)} {h : c.Forward c₂} (opens : c.Opens opening c₁)
    (tagged : c.tag more = .ok ⟨.node (opening.node bodies), c₂, h⟩) : Holds across c p ↔
      Within opening c₁ p ∨ (opening.node bodies = .inlinePartial p.name p.body ∧ p.finish = c₂) ∨ Holds across c₂ p := by
  constructor
  · intro holds
    cases holds with
    | text _ other => exact absurd opens.brace.2 (Bool.eq_false_iff.mp other)
    | here _ tagged' =>
      rw [tagged] at tagged'
      injection tagged' with same
      injection same with same there
      injection same with same
      exact .inr (.inl ⟨same, there.symm⟩)
    | behind _ tagged' next =>
      cases tagged.symm.trans tagged'
      exact .inr (.inr next)
    | inside opens' _ isOpen whole next =>
      obtain ⟨rfl, rfl⟩ := opens.unique opens'
      exact .inl ⟨isOpen, _, whole, next⟩
    | separator _ tagged' => cases tagged.symm.trans tagged'
  · rintro (⟨isOpen, inner, whole, next⟩ | ⟨same, rfl⟩ | next)
    · exact .inside opens tagged isOpen whole next
    · rw [same] at tagged
      exact .here opens.brace.2 tagged
    · exact .behind opens.brace.2 tagged next

end

/-! ### In the order of their ends -/

/-- Inline partials in the order of their ends, all of which lie behind one place and not behind another. -/
structure Between (c c₁ : Cursor) (l : List InlinePartial) : Prop where
  ordered : l.Pairwise fun p q => p.finish.Forward q.finish
  behind : ∀ p ∈ l, c.Forward p.finish
  before : ∀ p ∈ l, p.finish.Onward c₁

namespace Between

variable {c c₁ c₂ : Cursor} {l l' : List InlinePartial}

theorem nil (c c₁ : Cursor) : Between c c₁ [] := ⟨.nil, nofun, nofun⟩

theorem append (h : Between c c₁ l) (h' : Between c₁ c₂ l') (onward : c.Onward c₁) (onward' : c₁.Onward c₂) :
    Between c c₂ (l ++ l') where
  ordered := List.pairwise_append.mpr ⟨h.ordered, h'.ordered, fun p mem q mem' =>
    (h.before p mem).trans_forward (h'.behind q mem')⟩
  behind := List.forall_mem_append.mpr ⟨h.behind, fun p mem => onward.trans_forward (h'.behind p mem)⟩
  before := List.forall_mem_append.mpr ⟨fun p mem => (h.before p mem).trans onward', h'.before⟩

theorem mono (h : Between c₁ c₂ l) (onward : c.Onward c₁) : Between c c₂ l :=
  ⟨h.ordered, fun p mem => onward.trans_forward (h.behind p mem), h.before⟩

theorem extend (h : Between c c₁ l) (onward : c₁.Onward c₂) : Between c c₂ l :=
  ⟨h.ordered, h.behind, fun p mem => (h.before p mem).trans onward⟩

/-- An inline partial ends behind all those inside it. -/
theorem snoc {p : InlinePartial} (h : Between c c₁ l) (inner : ∀ q ∈ l, q.finish.Forward p.finish)
    (behind : c.Forward p.finish) (onward : p.finish.Onward c₁) : Between c c₁ (l ++ [p]) where
  ordered := List.pairwise_append.mpr ⟨h.ordered, List.pairwise_singleton _ _, fun q mem _ mem' => by
    obtain rfl := List.mem_singleton.mp mem'
    exact inner q mem⟩
  behind := List.forall_mem_append.mpr ⟨h.behind, List.forall_mem_singleton.mpr behind⟩
  before := List.forall_mem_append.mpr ⟨h.before, List.forall_mem_singleton.mpr onward⟩

end Between

end Cursor

/-- The inline partials inside the bodies of a tag which the tree has. -/
def Opening.nested : Opening → Bodies (List Node) → List (String × List Node)
  | .sectionTag _ _, bodies | .helperTag _, bodies =>
    Node.blockInlinePartials bodies.block ++ Node.namedInlinePartials bodies.named
  | .slot _, bodies | .inlinePartial _, bodies => Node.blockInlinePartials bodies.block

/-- The inline partial that a tag is, if it is one. -/
def Opening.own (finish : Cursor) : Opening → Bodies (List Node) → List InlinePartial
  | .inlinePartial head, bodies => [⟨head.name, bodies.block.getD [], finish⟩]
  | .sectionTag _ _, _ | .helperTag _, _ | .slot _, _ => []

theorem Opening.inlinePartials_node (opening : Opening) (bodies : Bodies (List Node)) (finish : Cursor) :
    (opening.node bodies).inlinePartials = opening.nested bodies ++ (opening.own finish bodies).map (·.entry) := by
  cases opening with
  | inlinePartial head =>
    obtain ⟨_ | block, named⟩ := bodies <;> rfl
  | sectionTag _ _ | helperTag _ | slot _ => exact (List.append_nil _).symm

theorem Opening.mem_own_iff {opening : Opening} {bodies : Bodies (List Node)} {finish : Cursor} {p : InlinePartial} :
    p ∈ opening.own finish bodies ↔ opening.node bodies = .inlinePartial p.name p.body ∧ p.finish = finish := by
  cases opening with
  | inlinePartial head =>
    obtain ⟨name, body, there⟩ := p
    simp only [own, node, List.mem_singleton, InlinePartial.mk.injEq, Node.inlinePartial.injEq]
    exact ⟨fun ⟨h, h', h''⟩ => ⟨⟨h.symm, h'.symm⟩, h''⟩, fun ⟨⟨h, h'⟩, h''⟩ => ⟨h.symm, h'.symm, h''⟩⟩
  | sectionTag _ _ | helperTag _ | slot _ => exact iff_of_false nofun nofun

theorem allInlinePartials_plain {node : Node} {parts : List Written} (plain : node.Plain) :
    Node.allInlinePartials (Written.nodes (.plain node :: parts)) = Node.allInlinePartials (Written.nodes parts) := by
  cases node with
  | sectionTag | helperTag | slot | inlinePartial => exact absurd plain id
  | _ => rfl

namespace Cursor

/-- The inline partials that a run of nodes holds, up to the place where it stops, are those of a list in the order of their
    ends. If it stops at a separator, what lies across is left open. -/
def RunLists (c : Cursor) (nodes : List Node) (stop : Stop) (c₁ : Cursor) : Prop :=
  ∃ l d, Between c d l ∧ c.Onward d ∧ d.Onward c₁ ∧ (stop ≠ .sourceEnd → d.Forward c₁) ∧
    l.map (·.entry) = Node.allInlinePartials nodes ∧
    ∀ across p, Holds across c p ↔ p ∈ l ∨ (across = true ∧ (∃ name, stop = .separator name) ∧ Holds true c₁ p)

/-- The inline partials of a kind, which end before a place, are those of a list in the order of their ends. -/
def Lists (c : Cursor) (kind : InlinePartial → Prop) (partials : List (String × List Node)) (c₁ : Cursor) : Prop :=
  c.Onward c₁ ∧ ∃ l, Between c c₁ l ∧ (∀ p ∈ l, p.finish.Forward c₁) ∧ l.map (·.entry) = partials ∧ ∀ p, kind p ↔ p ∈ l

section

variable {c c₁ c₂ c₃ : Cursor} {nodes : List Node} {stop : Stop}

theorem Lists.congr {kind kind' : InlinePartial → Prop} {partials : List (String × List Node)}
    (h : c.Lists kind partials c₁) (same : ∀ p, kind' p ↔ kind p) : c.Lists kind' partials c₁ := by
  obtain ⟨onward, l, between, before, made, holds⟩ := h
  exact ⟨onward, l, between, before, made, fun p => (same p).trans (holds p)⟩

theorem Lists.made_eq {kind : InlinePartial → Prop} {partials partials' : List (String × List Node)}
    (h : c.Lists kind partials c₁) (same : partials = partials') : c.Lists kind partials' c₁ := same ▸ h

theorem RunLists.holds_iff {written : String} {across : Bool} {p : InlinePartial}
    (h : c.RunLists nodes (.close written) c₁) : Holds across c p ↔ Holds false c p := by
  obtain ⟨l, d, -, -, -, -, -, holds⟩ := h
  rw [holds, holds]
  simp

theorem RunLists.close {written : String} (h : c.RunLists nodes (.close written) c₁) (across : Bool) :
    c.Lists (Holds across c) (Node.allInlinePartials nodes) c₁ := by
  obtain ⟨l, d, between, onward, onward', forward, made, holds⟩ := h
  refine ⟨onward.trans onward', l, between.extend onward',
    fun p mem => (between.before p mem).trans_forward (forward (by simp)), made, fun p => ?_⟩
  rw [holds]
  exact or_iff_left fun h => Stop.noConfusion h.2.1.choose_spec

/-- Up to a separator, where what lies across does not count. -/
theorem RunLists.block {name : String} (h : c.RunLists nodes (.separator name) c₁) (onward : c₁.Onward c₂) :
    c.Lists (Holds false c) (Node.allInlinePartials nodes) c₂ := by
  obtain ⟨l, d, between, onward₀, onward₁, forward, made, holds⟩ := h
  have behind : d.Forward c₂ := (forward (by simp)).trans_onward onward
  refine ⟨onward₀.trans behind.onward, l, between.extend behind.onward,
    fun p mem => (between.before p mem).trans_forward behind, made, fun p => ?_⟩
  rw [holds]
  exact or_iff_left fun h => Bool.noConfusion h.1

theorem RunLists.across {name : String} {more : List (String × List Node)} (h : c.RunLists nodes (.separator name) c₁)
    (next : c₁.Lists (Holds true c₁) more c₂) : c.Lists (Holds true c) (Node.allInlinePartials nodes ++ more) c₂ := by
  obtain ⟨l, d, between, onward₀, onward₁, forward, made, holds⟩ := h
  obtain ⟨onward, l', between', before, made', holds'⟩ := next
  have behind : d.Forward c₂ := (forward (by simp)).trans_onward onward
  refine ⟨onward₀.trans behind.onward, l ++ l', between.append (between'.mono onward₁) onward₀ behind.onward,
    List.forall_mem_append.mpr ⟨fun p mem => (between.before p mem).trans_forward behind, before⟩,
    by rw [List.map_append, made, made'], fun p => ?_⟩
  rw [holds, List.mem_append, ← holds']
  exact or_congr_right ⟨fun h => h.2.2, fun h => ⟨rfl, ⟨name, rfl⟩, h⟩⟩

theorem Opens.forward {opening : Opening} (opens : c.Opens opening c₁) : c.Forward c₁ := by
  cases opens <;> exact (onward_skip 2 c).trans_forward ‹_›

/-- A tag with bodies in front of a run. -/
theorem RunLists.tag {opening : Opening} {bodies : Bodies (List Node)} {more : c.rest ≠ []} {h : c.Forward c₂}
    (opens : c.Opens opening c₁) (tagged : c.tag more = .ok ⟨.node (opening.node bodies), c₂, h⟩)
    (within : c₁.Lists (Within opening c₁) (opening.nested bodies) c₂) (rest : c₂.RunLists nodes stop c₃) :
    c.RunLists (opening.node bodies :: nodes) stop c₃ := by
  obtain ⟨onward, inner, between, before, made, holds⟩ := within
  obtain ⟨l, d, between', onward₀, onward₁, forward, made', holds'⟩ := rest
  have own : Between c c₂ (inner ++ opening.own c₂ bodies) := by
    cases opening with
    | inlinePartial head => exact (between.mono opens.forward.onward).snoc before h (.refl c₂)
    | sectionTag _ _ | helperTag _ | slot _ =>
      rw [Opening.own, List.append_nil]
      exact between.mono opens.forward.onward
  refine ⟨inner ++ opening.own c₂ bodies ++ l, d, own.append between' h.onward onward₀, h.onward.trans onward₀, onward₁,
    forward, ?_, fun across p => ?_⟩
  · rw [List.map_append, List.map_append, made, made', ← Opening.inlinePartials_node]
    rfl
  · rw [holds_tag_iff opens tagged, holds, holds', ← Opening.mem_own_iff, List.mem_append, List.mem_append, or_assoc, or_assoc]

end

theorem plain_textOrBreak {c : Cursor} (more : c.rest ≠ []) : (c.textOrBreak more).value.Plain := by
  unfold textOrBreak
  split
  · exact absurd ‹_› more
  · trivial
  · trivial
  · trivial

mutual

theorem runLists_of_readsAs {c c₁ : Cursor} {parts : List Written} {stop : Stop} :
    c.ReadsAs parts stop c₁ → c.RunLists (Written.nodes parts) stop c₁
  | .sourceEnd nothing => ⟨[], c, .nil c c, .refl c, .refl c, fun no => absurd rfl no, rfl, fun _ _ =>
      iff_of_false (fun h => h.rest_ne_nil nothing) (by rintro (no | ⟨-, ⟨_, no⟩, -⟩) <;> cases no)⟩
  | .stop (h := h) brace tagged => ⟨[], c, .nil c c, .refl c, h.onward, fun _ => h, rfl, fun _ _ => by
      rw [holds_stop_iff brace tagged]
      simp⟩
  | .text more other reads => by
    obtain ⟨l, d, between, onward, onward', forward, made, holds⟩ := runLists_of_readsAs reads
    have moved : c.Forward (c.textOrBreak more).cursor := (c.textOrBreak more).forward
    refine ⟨l, d, between.mono moved.onward, moved.onward.trans onward, onward', forward, ?_, fun across p => ?_⟩
    · exact made.trans (allInlinePartials_plain (plain_textOrBreak more)).symm
    · exact (holds_text_iff other).trans (holds across p)
  | .plain (h := h) brace tagged plain reads => by
    obtain ⟨l, d, between, onward, onward', forward, made, holds⟩ := runLists_of_readsAs reads
    refine ⟨l, d, between.mono h.onward, h.onward.trans onward, onward', forward, ?_, fun across p => ?_⟩
    · exact made.trans (allInlinePartials_plain plain).symm
    · rw [holds_plain_iff brace tagged plain, holds]
  | @ReadsAs.tag _ _ _ _ opening ⟨block, named⟩ _ _ opens within reads => by
    obtain ⟨⟨_, _, h⟩, tagged, rfl, rfl⟩ := tag_of_opens opens (behind_of_readsAs within) opens.brace.1
    exact .tag opens tagged (lists_of_readsAs within) (runLists_of_readsAs reads)
termination_by sizeOf parts

theorem lists_of_readsAs {c c₁ : Cursor} {opening : Opening} {bodies : Bodies (List Written)} :
    c.BodiesReadAs opening bodies c₁ →
    c.Lists (Within opening c) (opening.nested ⟨Written.blockNodes bodies.block, Written.namedNodes bodies.named⟩) c₁
  | .none closed => ⟨.refl c, [], .nil c c, nofun, by cases opening <;> rfl, fun p =>
      iff_of_false (fun ⟨isOpen, _⟩ => by cases closed.symm.trans isOpen) nofun⟩
  | @BodiesReadAs.block _ _ opening _ isOpen reads => by
    have lists := runLists_of_readsAs reads
    refine ((lists.close false).congr fun p => ?_).made_eq ?_
    · have same : Holds true c p ↔ Holds false c p := lists.holds_iff
      rw [within_iff isOpen, same]
      simp
    · cases opening <;> first | rfl | exact (List.append_nil _).symm
  | @BodiesReadAs.named _ _ _ opening _ _ _ isOpen reads reads' => by
    have lists := runLists_of_readsAs reads
    have more := lists_of_namedReadAs reads'
    cases opening with
    | sectionTag kind head | helperTag head =>
      exact (lists.across more).congr fun p => (within_iff isOpen).trans
        ⟨fun h => h.elim (·.weaken true) (·.2), fun h => .inr ⟨trivial, h⟩⟩
    | slot head | inlinePartial head =>
      exact (lists.block more.1).congr fun p => (within_iff isOpen).trans (or_iff_left fun ⟨no, _⟩ => no)
termination_by sizeOf bodies

theorem lists_of_namedReadAs {c c₁ : Cursor} {written name : String} {named : List (String × List Written)} :
    c.NamedReadAs written name named c₁ → c.Lists (Holds true c) (Node.namedInlinePartials (Written.namedNodes named)) c₁
  | .last reads => by
    have last := (runLists_of_readsAs reads).close true
    rw [← List.append_nil (Node.allInlinePartials _)] at last
    exact last
  | .next reads reads' => (runLists_of_readsAs reads).across (lists_of_namedReadAs reads')
termination_by sizeOf named

end

end Cursor

/-- An inline partial of a source: one that the run of nodes from its start holds. -/
def InlinePartial.In (p : InlinePartial) (source : String) : Prop := (Cursor.start source).Holds false p

/-- The inline partials of a source are those of its tree, in the order of their ends. -/
theorem InlinePartial.exists_list {source : String} {nodes : List Node} (tree : Node.ofSource source = .ok nodes) :
    ∃ l : List InlinePartial, l.Pairwise (fun p q => p.finish.Forward q.finish) ∧
      l.map (·.entry) = Node.allInlinePartials nodes ∧ ∀ p : InlinePartial, p.In source ↔ p ∈ l := by
  obtain ⟨parts, ⟨c, reads⟩, rfl⟩ := Node.ofSource_eq_ok_iff.mp tree
  obtain ⟨l, d, between, -, -, -, made, holds⟩ := Cursor.runLists_of_readsAs reads
  exact ⟨l, between.ordered, made, fun p => (holds false p).trans (or_iff_left fun ⟨no, _⟩ => nomatch no)⟩

namespace Node

/-! ### The tree without them -/

mutual

/-- A node without the inline partials inside it, unless it is one itself. -/
def withoutPartials? : Node → Option Node
  | .sectionTag kind key context params ⟨block, named⟩ =>
    some (.sectionTag kind key context params ⟨blockWithoutPartials block, namedWithoutPartials named⟩)
  | .helperTag name context params ⟨block, named⟩ =>
    some (.helperTag name context params ⟨blockWithoutPartials block, namedWithoutPartials named⟩)
  | .slot name default => some (.slot name (blockWithoutPartials default))
  | .inlinePartial _ _ => none
  | .piece p => some (.piece p)
  | .lineBreak text => some (.lineBreak text)
  | .raw text => some (.raw text)
  | .comment text => some (.comment text)
  | .partialTag name context params => some (.partialTag name context params)

/-- Nodes without the inline partials among them and inside them. -/
def withoutPartials : List Node → List Node
  | [] => []
  | node :: rest =>
    match node.withoutPartials? with
    | some node => node :: withoutPartials rest
    | none => withoutPartials rest

/-- A block without the inline partials in it. -/
def blockWithoutPartials : Option (List Node) → Option (List Node)
  | none => none
  | some nodes => some (withoutPartials nodes)

/-- Named bodies without the inline partials in them. -/
def namedWithoutPartials : List (String × List Node) → List (String × List Node)
  | [] => []
  | (name, nodes) :: rest => (name, withoutPartials nodes) :: namedWithoutPartials rest

end

mutual

theorem step?_withoutPartials (whitespace : Bool) : (node : Node) →
    node.withoutPartials?.bind (·.step? whitespace) = node.step? whitespace
  | .sectionTag _ _ _ _ ⟨block, named⟩ | .helperTag _ _ _ ⟨block, named⟩ => by
    simp [withoutPartials?, step?, blockBody_withoutPartials whitespace block, namedBodies_withoutPartials whitespace named]
  | .slot _ default => by simp [withoutPartials?, step?, blockBody_withoutPartials whitespace default]
  | .inlinePartial _ _ | .piece _ | .lineBreak _ | .raw _ | .comment _ | .partialTag _ _ _ => rfl

/-- Nothing of an inline partial goes into the program around it. -/
theorem body_withoutPartials (whitespace : Bool) : (nodes : List Node) →
    body whitespace (withoutPartials nodes) = body whitespace nodes
  | [] => rfl
  | node :: rest => by
    have first := step?_withoutPartials whitespace node
    have others := body_withoutPartials whitespace rest
    rw [withoutPartials, body, ← first]
    cases node.withoutPartials? with
    | none => exact others
    | some node => rw [Option.bind_some, body, others]

theorem blockBody_withoutPartials (whitespace : Bool) : (block : Option (List Node)) →
    blockBody whitespace (blockWithoutPartials block) = blockBody whitespace block
  | none => rfl
  | some nodes => congrArg some (body_withoutPartials whitespace nodes)

theorem namedBodies_withoutPartials (whitespace : Bool) : (named : List (String × List Node)) →
    namedBodies whitespace (namedWithoutPartials named) = namedBodies whitespace named
  | [] => rfl
  | (name, nodes) :: rest => by
    rw [namedWithoutPartials, namedBodies, namedBodies, body_withoutPartials whitespace nodes,
      namedBodies_withoutPartials whitespace rest]

end

/-! ### The inline partials among all contents -/

section

variable {slot : String} {nodes : List Node}

theorem inlinePartial_not_mem_ofPieces (pieces : List Piece) :
    Content.node (.inlinePartial slot nodes) ∉ Content.ofPieces pieces := by
  simp [Content.ofPieces]

theorem inlinePartial_not_mem_ofParams (params : List (String × ParamValue)) :
    Content.node (.inlinePartial slot nodes) ∉ Content.ofParams params := by
  intro mem
  obtain ⟨⟨name, value⟩, -, mem⟩ := List.mem_flatMap.mp mem
  cases value with
  | quoted pieces => exact inlinePartial_not_mem_ofPieces pieces mem
  | int | float | path => cases mem

variable (slot nodes)

mutual

theorem mem_contents_iff : (node : Node) →
    (.node (.inlinePartial slot nodes) ∈ node.contents ↔ (slot, nodes) ∈ node.inlinePartials)
  | .sectionTag _ _ _ params ⟨block, named⟩ | .helperTag _ _ params ⟨block, named⟩ => by
    simp [contents, inlinePartials, inlinePartial_not_mem_ofParams, mem_blockContents_iff block, mem_namedContents_iff named]
  | .slot _ default => by simp [contents, inlinePartials, mem_blockContents_iff default]
  | .inlinePartial name body => by
    simp [contents, inlinePartials, mem_allContents_iff body, or_comm]
  | .partialTag _ _ _ => by
    simp [contents, inlinePartials, inlinePartial_not_mem_ofParams, inlinePartial_not_mem_ofPieces]
  | .piece _ | .lineBreak _ | .raw _ | .comment _ => by simp [contents, inlinePartials]

theorem mem_allContents_iff : (list : List Node) →
    (.node (.inlinePartial slot nodes) ∈ allContents list ↔ (slot, nodes) ∈ allInlinePartials list)
  | [] => by simp [allContents, allInlinePartials]
  | node :: rest => by simp [allContents, allInlinePartials, mem_contents_iff node, mem_allContents_iff rest]

theorem mem_blockContents_iff : (block : Option (List Node)) →
    (.node (.inlinePartial slot nodes) ∈ blockContents block ↔ (slot, nodes) ∈ blockInlinePartials block)
  | none => by simp [blockContents, blockInlinePartials]
  | some list => mem_allContents_iff list

theorem mem_namedContents_iff : (named : List (String × List Node)) →
    (.node (.inlinePartial slot nodes) ∈ namedContents named ↔ (slot, nodes) ∈ namedInlinePartials named)
  | [] => by simp [namedContents, namedInlinePartials]
  | (_, list) :: rest => by simp [namedContents, namedInlinePartials, mem_allContents_iff list, mem_namedContents_iff rest]

end

end

mutual

theorem inlinePartials_withoutPartials : (node : Node) → ∀ n ∈ node.withoutPartials?, n.inlinePartials = []
  | .sectionTag _ _ _ _ ⟨block, named⟩ | .helperTag _ _ _ ⟨block, named⟩ => by
    simp [withoutPartials?, inlinePartials, blockInlinePartials_withoutPartials block,
      namedInlinePartials_withoutPartials named]
  | .slot _ default => by simp [withoutPartials?, inlinePartials, blockInlinePartials_withoutPartials default]
  | .inlinePartial _ _ | .piece _ | .lineBreak _ | .raw _ | .comment _ | .partialTag _ _ _ => by
    simp [withoutPartials?, inlinePartials]

theorem allInlinePartials_withoutPartials : (nodes : List Node) → allInlinePartials (withoutPartials nodes) = []
  | [] => rfl
  | node :: rest => by
    have first := inlinePartials_withoutPartials node
    have others := allInlinePartials_withoutPartials rest
    rw [withoutPartials]
    cases kept : node.withoutPartials? with
    | none => exact others
    | some node =>
      rw [allInlinePartials, first node kept, others]
      rfl

theorem blockInlinePartials_withoutPartials : (block : Option (List Node)) →
    blockInlinePartials (blockWithoutPartials block) = []
  | none => rfl
  | some nodes => allInlinePartials_withoutPartials nodes

theorem namedInlinePartials_withoutPartials : (named : List (String × List Node)) →
    namedInlinePartials (namedWithoutPartials named) = []
  | [] => rfl
  | (_, nodes) :: rest => by
    rw [namedWithoutPartials, namedInlinePartials, allInlinePartials_withoutPartials nodes,
      namedInlinePartials_withoutPartials rest]
    rfl

end

end Node

/-- Under a name stands the program of the inline partial that ends last. -/
theorem Template.get?_blocks_iff {l : List InlinePartial} (ordered : l.Pairwise fun p q => p.finish.Forward q.finish)
    {whitespace : Bool} {slot : String} {b : Body} :
    Dict.get? slot (Dict.ofList (l.map fun p => (p.name, Node.body whitespace p.body))) = some b ↔
      ∃ p ∈ l, p.name = slot ∧ (∀ q ∈ l, q.name = slot → q.finish.Onward p.finish) ∧ b = Node.body whitespace p.body := by
  rw [Dict.get?_ofList_eq_some_iff]
  constructor
  · rintro ⟨front, back, split, last⟩
    obtain ⟨before, others, rfl, -, made⟩ := List.map_eq_append_iff.mp split
    obtain ⟨p, behind, rfl, same, rfl⟩ := List.map_eq_cons_iff.mp made
    cases same
    refine ⟨p, by simp, rfl, fun q mem named => ?_, rfl⟩
    rcases List.mem_append.mp mem with mem | mem
    · exact ((List.pairwise_append.mp ordered).2.2 q mem p List.mem_cons_self).onward
    · rcases List.mem_cons.mp mem with rfl | mem
      · exact .refl _
      · exact absurd named (last _ (List.mem_map_of_mem mem))
  · rintro ⟨p, mem, rfl, latest, rfl⟩
    obtain ⟨before, behind, rfl⟩ := List.append_of_mem mem
    refine ⟨_, _, List.map_append, fun e found same => ?_⟩
    obtain ⟨q, mem', rfl⟩ := List.mem_map.mp found
    have later := List.rel_of_pairwise_cons (List.pairwise_append.mp ordered).2.1 mem'
    exact absurd (latest q (by simp [mem']) same) (Nat.not_le.mpr later)

theorem InlinePartial.exists_in_iff {source : String} {nodes : List Node} (tree : Node.ofSource source = .ok nodes)
    (slot : String) (body : List Node) : (∃ finish, InlinePartial.In ⟨slot, body, finish⟩ source) ↔
      Content.node (.inlinePartial slot body) ∈ Node.allContents nodes := by
  obtain ⟨l, -, made, holds⟩ := InlinePartial.exists_list tree
  rw [Node.mem_allContents_iff, ← made, List.mem_map]
  constructor
  · rintro ⟨finish, found⟩
    exact ⟨_, (holds _).mp found, rfl⟩
  · rintro ⟨p, mem, same⟩
    cases same
    exact ⟨p.finish, (holds p).mpr mem⟩

/-- Let a source compile. Its inline partials are those of the tree at any depth, and each ends at a place of its own. The
    names in the table are theirs, and under a name stands the program of the one that ends last, without the inline
    partials inside it. The program of the template is that of the tree without all of them. -/
theorem inline_partials_hoisted {source : String} {name : Option String} {whitespace : Bool} {t : Template}
    (compiled : Template.compile source name whitespace = .ok t) : ∃ nodes, Node.ofSource source = .ok nodes ∧
      (∀ slot body, (∃ finish, InlinePartial.In ⟨slot, body, finish⟩ source) ↔
        Content.node (.inlinePartial slot body) ∈ Node.allContents nodes) ∧
      (∀ p q : InlinePartial, p.In source → q.In source →
        p = q ∨ p.finish.Forward q.finish ∨ q.finish.Forward p.finish) ∧
      (∀ slot, slot ∈ Dict.keys t.blocks ↔
        ∃ body, Content.node (.inlinePartial slot body) ∈ Node.allContents nodes) ∧
      (∀ slot b, Dict.get? slot t.blocks = some b ↔ ∃ p : InlinePartial, p.In source ∧ p.name = slot ∧
        (∀ q : InlinePartial, q.In source → q.name = slot → q.finish.Onward p.finish) ∧
        b = Node.body whitespace (Node.withoutPartials p.body)) ∧
      t.body = Node.body whitespace (Node.withoutPartials nodes) ∧
      ∀ list slot body, Content.node (.inlinePartial slot body) ∉ Node.allContents (Node.withoutPartials list) := by
  cases tree : Node.ofSource source with
  | error e =>
    rw [Template.compile, tree] at compiled
    cases compiled
  | ok nodes =>
    rw [Template.compile, tree] at compiled
    cases compiled
    obtain ⟨l, ordered, made, holds⟩ := InlinePartial.exists_list tree
    have table : (Template.ofNodes name whitespace nodes).blocks =
        Dict.ofList (l.map fun p => (p.name, Node.body whitespace p.body)) := by
      rw [Template.ofNodes, ← made, List.map_map]
      rfl
    have stored (slot : String) (b : Body) : Dict.get? slot (Template.ofNodes name whitespace nodes).blocks = some b ↔
        ∃ p ∈ l, p.name = slot ∧ (∀ q ∈ l, q.name = slot → q.finish.Onward p.finish) ∧
          b = Node.body whitespace p.body := by
      rw [table]
      exact Template.get?_blocks_iff ordered
    refine ⟨nodes, rfl, InlinePartial.exists_in_iff tree, fun p q found found' => ?_, fun slot => ?_, fun slot b => ?_,
      (Node.body_withoutPartials whitespace nodes).symm, fun list slot body mem => ?_⟩
    · have : Std.Symm fun p q : InlinePartial => p.finish.Forward q.finish ∨ q.finish.Forward p.finish :=
        ⟨fun _ _ => Or.symm⟩
      have apart : l.Pairwise fun p q => p.finish.Forward q.finish ∨ q.finish.Forward p.finish := ordered.imp Or.inl
      exact (em (p = q)).imp_right (apart.forall ((holds p).mp found) ((holds q).mp found'))
    · simp only [← InlinePartial.exists_in_iff tree, holds]
      rw [table, Dict.mem_keys_ofList]
      constructor
      · rintro ⟨_, mem, rfl⟩
        obtain ⟨p, listed, rfl⟩ := List.mem_map.mp mem
        exact ⟨p.body, p.finish, listed⟩
      · rintro ⟨body, finish, mem⟩
        exact ⟨_, List.mem_map_of_mem mem, rfl⟩
    · rw [stored]
      simp only [holds, Node.body_withoutPartials]
    · rw [Node.mem_allContents_iff, Node.allInlinePartials_withoutPartials] at mem
      cases mem

theorem Step.eq_of_beqAll_write {steps : List Step} {text : String} (h : Step.beqAll steps [.write text] = true) :
    steps = [.write text] := by
  cases steps with
  | nil => simp [Step.beqAll] at h
  | cons step rest =>
    rw [Step.beqAll, Bool.and_eq_true_iff] at h
    obtain ⟨first, others⟩ := h
    cases rest with
    | cons _ _ => simp [Step.beqAll] at others
    | nil => cases step <;> simp_all [Step.beq]

/-- An inline partial in a section, with one of its own name inside, and another at the end. -/
def nestedPartials : String :=
  "\x7b#a\x7d\x7b<x\x7d1\x7b<x/\x7d\x7b/x\x7d\x7b/a\x7d\x7b<y/\x7d"

theorem inline_partials_hoisted_nestedPartials : ∃ t, Template.compile nestedPartials none false = .ok t ∧
    Dict.keys t.blocks = ["x", "y"] ∧ ∃ p : InlinePartial, p.In nestedPartials ∧ p.name = "x" ∧
      (∀ q : InlinePartial, q.In nestedPartials → q.name = "x" → q.finish.Onward p.finish) ∧
      Node.body false (Node.withoutPartials p.body) = [.write "1"] := by
  have seen : (Template.compile nestedPartials none false).toOption.any (fun t =>
      decide (Dict.keys t.blocks = ["x", "y"]) && (Dict.get? "x" t.blocks).any (Step.beqAll · [.write "1"])) = true := by
    decide +kernel
  obtain ⟨t, compiled, seen⟩ := Yields.of_any seen
  obtain ⟨keys, written⟩ := Bool.and_eq_true_iff.mp seen
  obtain ⟨-, -, -, -, -, table, -⟩ := inline_partials_hoisted compiled
  obtain ⟨block, stored, same⟩ := (Option.any_eq_true ..).mp written
  obtain rfl := Step.eq_of_beqAll_write same
  obtain ⟨p, found, named, latest, same⟩ := (table "x" _).mp stored
  exact ⟨t, compiled, of_decide_eq_true keys, p, found, named, latest, same.symm⟩

end Stencil
