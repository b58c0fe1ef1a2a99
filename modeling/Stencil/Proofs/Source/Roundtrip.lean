import Stencil.Proofs.Source.Reading
import Stencil.Proofs.Source.Rereading

/-! What a source compiles to is a program as programs come from sources. So it is compiled again from what it is printed
    as, whether line breaks are kept or not. -/

namespace Stencil

theorem Canonical.prepend {s : Step} {b : Body} (fit : s.Fit) (inner : ∀ b ∈ s.inner, Canonical b) (rest : Canonical b) :
    Canonical (s.prepend b) := by
  rcases s.prepend_cases b with ⟨-, same⟩ | ⟨text, more, tail, rfl, rfl, joined⟩ | apart
  · rw [same]
    exact rest
  · -- The text joins the text that comes first, and the whole is as apart from what follows as that was.
    rw [joined]
    cases rest with
    | cons _ _ next rest => exact .cons trivial (by simp [Step.inner]) (by rw [Step.prepend_append, next, joined]) rest
  · rw [apart]
    exact .cons fit inner apart rest

namespace Node

/-- A node gives a step as steps come from sources, if it gives one, and such inline partials. -/
structure Sound (n : Node) : Prop where
  step : ∀ w s, n.step? w = some s → s.Fit ∧ ∀ b ∈ s.inner, Stencil.Canonical b
  table : ∀ w, ∀ e ∈ n.inlinePartials, IsKey e.1 ∧ Stencil.Canonical (body w e.2)

structure AllSound (nodes : List Node) : Prop where
  body : ∀ w, Stencil.Canonical (body w nodes)
  table : ∀ w, ∀ e ∈ allInlinePartials nodes, IsKey e.1 ∧ Stencil.Canonical (Node.body w e.2)

structure BodiesSound (bodies : Bodies (List Node)) : Prop where
  block : ∀ nodes, bodies.block = some nodes → AllSound nodes
  named : ∀ e ∈ bodies.named, IsKey e.1 ∧ AllSound e.2
  first : bodies.block = none → bodies.named = []

theorem AllSound.nil : AllSound [] where
  body _ := .nil
  table _ := nofun

theorem AllSound.cons {n : Node} {nodes : List Node} (sound : n.Sound) (rest : AllSound nodes) : AllSound (n :: nodes) where
  body w := by
    unfold Node.body
    split
    · next s made =>
      obtain ⟨fit, inner⟩ := sound.step w s made
      exact (rest.body w).prepend fit inner
    · exact rest.body w
  table w e mem := by
    rcases List.mem_append.mp mem with mem | mem
    · exact sound.table w e mem
    · exact rest.table w e mem

theorem mem_namedBodies {w : Bool} {named : List (String × List Node)} {e : String × Body}
    (mem : e ∈ namedBodies w named) : ∃ f ∈ named, e = (f.1, body w f.2) := by
  induction named with
  | nil => cases mem
  | cons f named ih =>
    rcases List.mem_cons.mp mem with rfl | mem
    · exact ⟨f, List.mem_cons_self, rfl⟩
    · obtain ⟨f, found, same⟩ := ih mem
      exact ⟨f, List.mem_cons_of_mem _ found, same⟩

theorem mem_namedInlinePartials {named : List (String × List Node)} {e : String × List Node}
    (mem : e ∈ namedInlinePartials named) : ∃ f ∈ named, e ∈ allInlinePartials f.2 := by
  induction named with
  | nil => cases mem
  | cons f named ih =>
    rcases List.mem_append.mp mem with mem | mem
    · exact ⟨f, List.mem_cons_self, mem⟩
    · obtain ⟨f, found, inside⟩ := ih mem
      exact ⟨f, List.mem_cons_of_mem _ found, inside⟩

namespace BodiesSound

variable {bodies : Bodies (List Node)}

theorem fit (sound : BodiesSound bodies) (w : Bool) :
    Bodies.Fit ⟨blockBody w bodies.block, namedBodies w bodies.named⟩ where
  keys e mem := by
    obtain ⟨f, found, rfl⟩ := mem_namedBodies mem
    exact (sound.named f found).1
  block none := by
    obtain ⟨_ | nodes, named⟩ := bodies
    · cases sound.first rfl
      rfl
    · cases none

theorem inner (sound : BodiesSound bodies) (w : Bool) :
    ∀ b ∈ (blockBody w bodies.block).toList ++ (namedBodies w bodies.named).map (·.2), Canonical b := by
  intro b mem
  rcases List.mem_append.mp mem with mem | mem
  · obtain ⟨_ | nodes, named⟩ := bodies
    · cases mem
    · cases List.mem_singleton.mp mem
      exact (sound.block nodes rfl).body w
  · obtain ⟨e, listed, rfl⟩ := List.mem_map.mp mem
    obtain ⟨f, found, rfl⟩ := mem_namedBodies listed
    exact (sound.named f found).2.body w

theorem table (sound : BodiesSound bodies) (w : Bool) :
    ∀ e ∈ blockInlinePartials bodies.block ++ namedInlinePartials bodies.named, IsKey e.1 ∧ Canonical (body w e.2) := by
  intro e mem
  rcases List.mem_append.mp mem with mem | mem
  · obtain ⟨_ | nodes, named⟩ := bodies
    · cases mem
    · exact (sound.block nodes rfl).table w e mem
  · obtain ⟨f, found, inside⟩ := mem_namedInlinePartials mem
    exact (sound.named f found).2.table w e inside

theorem empty : BodiesSound .empty := ⟨nofun, nofun, fun _ => rfl⟩

end BodiesSound

/-- A node without inline partials that always gives the same step, if it gives one, a step without bodies. -/
theorem sound_of_step? {n : Node} {s : Step} (made : ∀ w, n.step? w = some s ∨ n.step? w = none) (fit : s.Fit)
    (flat : s.inner = []) (plain : n.inlinePartials = []) : n.Sound where
  step w s' same := by
    rcases made w with made | made
    · cases made.symm.trans same
      exact ⟨fit, by rw [flat]; exact nofun⟩
    · cases made.symm.trans same
  table w := by
    rw [plain]
    exact nofun

theorem sound_write {n : Node} {s : String} (made : ∀ w, n.step? w = some (.write s) ∨ n.step? w = none)
    (plain : n.inlinePartials = []) : n.Sound := sound_of_step? made trivial rfl plain

theorem sound_section {kind : SectionKind} {key : Path} {own : Option Path} {params : List (String × ParamValue)}
    {bodies : Bodies (List Node)} (proper : key.Proper) (fitted : Fitted own (operands params))
    (sound : BodiesSound bodies) : (sectionTag kind key own params bodies).Sound where
  step w s made := by
    cases made
    exact ⟨⟨proper, fitted, sound.fit w⟩, sound.inner w⟩
  table := sound.table

theorem sound_helper {name : String} {own : Option Path} {params : List (String × ParamValue)}
    {bodies : Bodies (List Node)} (key : IsKey name) (fitted : Fitted own (operands params))
    (sound : BodiesSound bodies) : (helperTag name own params bodies).Sound where
  step w s made := by
    cases made
    exact ⟨⟨key, fitted, sound.fit w⟩, sound.inner w⟩
  table := sound.table

theorem sound_slot {name : String} {bodies : Bodies (List Node)} (key : IsKey name) (sound : BodiesSound bodies) :
    (slot name bodies.block).Sound where
  step w s made := by
    cases made
    exact ⟨key, fun b mem => sound.inner w b (List.mem_append_left _ mem)⟩
  table w e mem := sound.table w e (List.mem_append_left _ mem)

theorem sound_inlinePartial {name : String} {bodies : Bodies (List Node)} (key : IsKey name)
    (sound : BodiesSound bodies) : (inlinePartial name (bodies.block.getD [])).Sound := by
  have inside : AllSound (bodies.block.getD []) := by
    cases found : bodies.block with
    | none => exact .nil
    | some nodes => exact sound.block nodes found
  refine ⟨nofun, fun w e mem => ?_⟩
  rcases List.mem_append.mp mem with mem | mem
  · exact inside.table w e mem
  · cases List.mem_singleton.mp mem
    exact ⟨key, inside.body w⟩

end Node

/-- What a tag starts is sound: a node, or the name of a separator. -/
def Stop.Sound : Stop → Prop
  | .separator name => IsKey name
  | .sourceEnd | .close _ => True

def Tag.Sound : Tag → Prop
  | .node n => n.Sound
  | .stop s => s.Sound

namespace Cursor

theorem ensures_separatorTag (c : Cursor) : Ensures c.separatorTag fun r => IsKey r.value := by
  refine .bind (ensures_key c) ?_
  rintro ⟨name, c₁, h₁⟩ ⟨key, -⟩
  refine .bind (.any _) ?_
  rintro ⟨_, c₂, h₂⟩ -
  exact .ok key

theorem sound_textOrBreak (c : Cursor) (more : c.rest ≠ []) : (c.textOrBreak more).value.Sound := by
  have lineBreak (blank : c.sees Text.isBlank = true) : (c.lineBreak blank).value.Sound :=
    Node.sound_write (s := c.text (c.run Text.isBlank))
      (fun w => by cases w <;> simp [Cursor.lineBreak, Node.step?]) rfl
  unfold textOrBreak
  split
  · next nothing => exact absurd nothing more
  · exact lineBreak _
  · exact lineBreak _
  · exact Node.sound_write (fun _ => .inl rfl) rfl

/-- The bodies behind an opening tag, if it has any. -/
theorem ensures_behind {α : Type} {c : Cursor} {head : Head α}
    (within : Ensures (c.bodies head.written) fun r => Node.BodiesSound r.value) :
    Ensures (if head.closed then pure ⟨.empty, c, .refl c⟩ else c.bodies head.written :
      Except ParseError (Pass c _)) fun r => Node.BodiesSound r.value := by
  split
  · exact .ok .empty
  · exact within

mutual

theorem ensures_nodes (c : Cursor) : Ensures c.nodes fun r => Node.AllSound r.nodes ∧ r.stop.Sound := by
  unfold Cursor.nodes
  split
  · exact .ok ⟨.nil, trivial⟩
  · next more =>
    split
    · refine .bind (ensures_tag c more) ?_
      rintro ⟨node | stop, c₁, h₁⟩ sound
      · refine .bind (ensures_nodes c₁) ?_
        rintro ⟨nodes, stop, c₂, h₂, _⟩ ⟨all, last⟩
        exact .ok ⟨.cons sound all, last⟩
      · exact .ok ⟨.nil, sound⟩
    · have moved : c.Forward (c.textOrBreak more).cursor := (c.textOrBreak more).forward
      refine .bind (ensures_nodes (c.textOrBreak more).cursor) ?_
      rintro ⟨nodes, stop, c₂, h₂, _⟩ ⟨all, last⟩
      exact .ok ⟨.cons (sound_textOrBreak c more) all, last⟩
termination_by c.rank 2
decreasing_by
  · exact moved.rank_lt _ _
  · exact c.rank_lt_rank (by decide)
  · exact h₁.rank_lt _ _

theorem ensures_tag (c : Cursor) (more : c.rest ≠ []) : Ensures (c.tag more) fun r => r.value.Sound := by
  have opened : c.Forward (c.skip 1) := forward_skip more Nat.one_pos
  have sigil : c.Forward (c.skip 2) := forward_skip more Nat.two_pos
  unfold tag
  dsimp only
  split
  · refine .bind (.any _) ?_
    rintro ⟨text, c₁, h₁⟩ -
    exact .ok ⟨nofun, fun _ => nofun⟩
  · refine .bind (.any _) ?_
    rintro ⟨text, c₁, h₁⟩ -
    exact .ok (Node.sound_write (fun _ => .inl rfl) rfl)
  · refine .bind (ensures_special _) ?_
    rintro ⟨_, c₁, h₁⟩ ⟨s, rfl⟩
    exact .ok (Node.sound_write (fun _ => .inl rfl) rfl)
  · exact ensures_sectionTag c more .iterate
  · exact ensures_sectionTag c more .present
  · exact ensures_sectionTag c more .absent
  · refine .bind (ensures_head (fun c r h => (ensures_key c r h).1) _) ?_
    rintro ⟨head, c₁, h₁⟩ ⟨key, fitted⟩
    refine .ite_bind (ensures_behind (ensures_bodies c₁ head.written)) ?_
    rintro ⟨bodies, c₂, h₂⟩ sound
    exact .ok (Node.sound_helper key fitted sound)
  · refine .bind (ensures_head (fun c r h => (ensures_key c r h).1) _) ?_
    rintro ⟨head, c₁, h₁⟩ ⟨key, fitted⟩
    refine .ite_bind (ensures_behind (ensures_bodies c₁ head.written)) ?_
    rintro ⟨bodies, c₂, h₂⟩ sound
    exact .ok (Node.sound_slot key sound)
  · refine .bind (ensures_head (fun c r h => (ensures_key c r h).1) _) ?_
    rintro ⟨head, c₁, h₁⟩ ⟨key, fitted⟩
    refine .ite_bind (ensures_behind (ensures_bodies c₁ head.written)) ?_
    rintro ⟨bodies, c₂, h₂⟩ sound
    exact .ok (Node.sound_inlinePartial key sound)
  · refine .bind (ensures_partialTag _) ?_
    rintro ⟨_, c₁, h₁⟩ ⟨pieces, own, list, rfl, name, fitted⟩
    exact .ok (Node.sound_of_step? (s := .partialTag _ _ _) (fun _ => .inl rfl) ⟨name, fitted⟩ rfl rfl)
  · refine .bind (.any _) ?_
    rintro ⟨written, c₁, h₁⟩ -
    exact .ok trivial
  · refine .bind (ensures_separatorTag _) ?_
    rintro ⟨name, c₁, h₁⟩ key
    exact .ok key
  · split
    · next read =>
      obtain ⟨path, list, rfl, proper, keys⟩ := exists_of_reference? read
      exact .ok (Node.sound_of_step? (s := .reference _ _) (fun _ => .inl rfl) (inline_reference proper keys) rfl rfl)
    · exact .ok (Node.sound_write (fun _ => .inl rfl) rfl)
termination_by c.rank 1
decreasing_by
  · exact c.rank_lt_rank (by decide)
  · exact c.rank_lt_rank (by decide)
  · exact c.rank_lt_rank (by decide)
  · exact (sigil.trans h₁).rank_lt _ _
  · exact (sigil.trans h₁).rank_lt _ _
  · exact (sigil.trans h₁).rank_lt _ _

theorem ensures_sectionTag (c : Cursor) (more : c.rest ≠ []) (kind : SectionKind) :
    Ensures (c.sectionTag more kind) fun r => r.value.Sound := by
  have sigil : c.Forward (c.skip 2) := forward_skip more Nat.two_pos
  unfold sectionTag
  refine .bind (ensures_head ensures_path _) ?_
  rintro ⟨head, c₁, h₁⟩ ⟨proper, fitted⟩
  refine .ite_bind (ensures_behind (ensures_bodies c₁ head.written)) ?_
  rintro ⟨bodies, c₂, h₂⟩ sound
  exact .ok (Node.sound_section proper fitted sound)
termination_by c.rank 0
decreasing_by exact (sigil.trans h₁).rank_lt _ _

theorem ensures_bodies (c : Cursor) (written : String) :
    Ensures (c.bodies written) fun r => Node.BodiesSound r.value := by
  unfold Cursor.bodies
  refine .bind (ensures_nodes c) ?_
  rintro ⟨nodes, stop, c₁, h₁, moved⟩ ⟨all, last⟩
  dsimp only
  have block {named : List (String × List Node)} (sound : ∀ e ∈ named, IsKey e.1 ∧ Node.AllSound e.2) :
      Node.BodiesSound ⟨some nodes, named⟩ := ⟨fun _ same => Option.some.inj same ▸ all, sound, nofun⟩
  split
  · exact .error
  · split
    · exact .ok (block nofun)
    · exact .error
  · next name =>
    have behind : c.Forward c₁ := moved nofun
    refine .bind (ensures_namedBodies c₁ written name last) ?_
    rintro ⟨named, c₂, h₂⟩ sound
    exact .ok (block sound)
termination_by c.rank 3
decreasing_by
  · exact c.rank_lt_rank (by decide)
  · exact behind.rank_lt _ _

theorem ensures_namedBodies (c : Cursor) (written name : String) (key : IsKey name) :
    Ensures (c.namedBodies written name) fun r => ∀ e ∈ r.value, IsKey e.1 ∧ Node.AllSound e.2 := by
  unfold Cursor.namedBodies
  refine .bind (ensures_nodes c) ?_
  rintro ⟨nodes, stop, c₁, h₁, moved⟩ ⟨all, last⟩
  dsimp only
  split
  · exact .error
  · split
    · exact .ok (by simpa using ⟨key, all⟩)
    · exact .error
  · next next =>
    have behind : c.Forward c₁ := moved nofun
    refine .bind (ensures_namedBodies c₁ written next last) ?_
    rintro ⟨named, c₂, h₂⟩ sound
    exact .ok (List.forall_mem_cons.mpr ⟨⟨key, all⟩, sound⟩)
termination_by c.rank 3
decreasing_by
  · exact c.rank_lt_rank (by decide)
  · exact behind.rank_lt _ _

end

end Cursor

theorem ensures_ofSource (source : String) : Ensures (Node.ofSource source) Node.AllSound := by
  refine .bind (Cursor.ensures_nodes _) ?_
  rintro ⟨nodes, stop, c, _, _⟩ ⟨all, -⟩
  dsimp only
  split
  · exact .ok all
  · exact .error
  · exact .error

theorem canonical_of_compile {source : String} {name : Option String} {whitespace : Bool} {t : Template}
    (compiled : Template.compile source name whitespace = .ok t) : t.Canonical ∧ t.name = name := by
  unfold Template.compile at compiled
  split at compiled
  · next nodes parsed =>
    cases compiled
    have all := ensures_ofSource source nodes parsed
    refine ⟨⟨all.body whitespace, fun e mem => ?_, Dict.sorted_ofList _⟩, rfl⟩
    obtain ⟨f, found, rfl⟩ := List.mem_map.mp (Dict.mem_of_mem_ofList mem)
    exact all.table whitespace f found
  · cases compiled

/-- There are texts for all the numbers that can be written as decimals. -/
theorem exists_write : ∃ write : Float → List Char,
    ∀ x, Readable x → Positional (write x) ∧ Decimal.Numeral.float? (write x) = some x := by
  have each (x : Float) :
      ∃ text, Readable x → Positional text ∧ Decimal.Numeral.float? text = some x := by
    by_cases readable : Readable x
    · obtain ⟨text, reads⟩ := readable
      exact ⟨text, fun _ => reads⟩
    · exact ⟨[], fun readable' => absurd readable' readable⟩
  exact Classical.axiomOfChoice each

/-- Printing and compiling again changes nothing, however the numbers are written, as long as they read as they were. -/
theorem compile_printed {source : String} {name : Option String} {whitespace : Bool} {t : Template}
    (compiled : Template.compile source name whitespace = .ok t) {write : Float → List Char}
    (reads : ∀ x, Readable x → Positional (write x) ∧ Decimal.Numeral.float? (write x) = some x) (whitespace' : Bool) :
    Template.compile (t.print write) name whitespace' = .ok t := by
  obtain ⟨canonical, rfl⟩ := canonical_of_compile compiled
  exact compile_print canonical reads whitespace'

-- What is printed: line breaks as specials, and the filter of the escape by its name.
example : (Template.compile "\x7b! note !\x7d\x7ba\x7d\n\x7b?b\x7dx\x7b/b\x7d" none true).toOption.map (Template.print fun _ => []) =
    some "\x7ba|h|s\x7d\x7b~n\x7d\x7b?b\x7dx\x7b/b\x7d" := by
  decide +kernel

/-- An inline partial, a line break, a special, a comment and a section in it; its parameters are numbers, a path and
    quoted text, and it has a body of a name. -/
def nestedSource : String :=
  "\x7b<b\x7dx\x7b/b\x7da\n\x7b~s\x7d\x7b! note !\x7d\x7b#.l[0].m:k n=-1 f=2.50 p=.q t=\"\x7br|u\x7d\\\"\"\x7d" ++
    "\x7b+b\x7dd\x7b/b\x7d\x7b:else\x7d\x7b>p/\x7d\x7b/.l[0].m\x7d\x7b@h/\x7d"

theorem compile_printed_nestedSource : ∃ t write, Template.compile nestedSource none true = .ok t ∧
    t.body.length = 3 ∧ t.blocks.length = 1 ∧
    (∀ x, Readable x → Positional (write x) ∧ Decimal.Numeral.float? (write x) = some x) ∧
    Template.compile (t.print write) none false = .ok t := by
  have seen : (Template.compile nestedSource none true).toOption.any (fun t =>
      decide (t.body.length = 3 ∧ t.blocks.length = 1)) = true := by
    decide +kernel
  obtain ⟨write, reads⟩ := exists_write
  cases compiled : Template.compile nestedSource none true with
  | error e =>
    rw [compiled] at seen
    cases seen
  | ok t =>
    rw [compiled] at seen
    obtain ⟨body, blocks⟩ := of_decide_eq_true seen
    exact ⟨t, write, rfl, body, blocks, reads, compile_printed compiled reads false⟩

end Stencil
