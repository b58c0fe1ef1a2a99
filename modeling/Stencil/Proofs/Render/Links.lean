import Mathlib.Data.List.Nodup
import Mathlib.Data.List.Perm.Subperm
import Stencil.Proofs.Render.Chunks

/-! The order of the chunks. From the root the links visit every chunk once; a new chunk stands directly behind the one it
    was put behind, and the others keep their order. What has been taken in front stays ended and empty, so a flush hands
    out the text in the order of the links, and takes all of it as soon as no chunk is open. -/

namespace Stencil
namespace Chunks

/-- The chunks that the links visit from a first one on. -/
inductive Chain (slots : Array Chunk) : Option ChunkId → List ChunkId → Prop where
  | nil : Chain slots none []
  | cons {id : ChunkId} {c : Chunk} {rest : List ChunkId} (get : slots[id]? = some c) (chain : Chain slots c.next rest) :
    Chain slots (some id) (id :: rest)

/-- The chunks stand in this order: those in front have been taken, the links go on from the head. -/
structure Linked (cs : Chunks) (ids : List ChunkId) : Prop where
  chain : Chain cs.slots (some root) ids
  nodup : ids.Nodup
  all : ∀ id, id < cs.slots.size → id ∈ ids
  front : ∃ taken rest, ids = taken ++ rest ∧ Chain cs.slots cs.head rest ∧
    ∀ id ∈ taken, ∃ c, cs.slots[id]? = some c ∧ c.ended = true ∧ c.text = ""

/-- The text of a chunk that has not been taken. -/
def textAt (cs : Chunks) (id : ChunkId) : String := (cs.slots[id]?.map (·.text)).getD ""

variable {cs cs' : Chunks} {slots slots' : Array Chunk} {first : Option ChunkId} {ids before after : List ChunkId}
  {id new : ChunkId}

namespace Chain

theorem get (h : Chain slots first ids) : ∀ id ∈ ids, ∃ c, slots[id]? = some c := by
  induction h with
  | nil => simp
  | cons get _ ih =>
    intro id mem
    rcases List.mem_cons.mp mem with rfl | mem
    · exact ⟨_, get⟩
    · exact ih id mem

/-- A chain is read off the links alone. -/
theorem congr (h : Chain slots first ids) (same : ∀ id ∈ ids, slots'[id]?.map (·.next) = slots[id]?.map (·.next)) :
    Chain slots' first ids := by
  induction h with
  | nil => exact .nil
  | @cons id c rest get _ ih =>
    have here := same id List.mem_cons_self
    rw [get, Option.map_some] at here
    obtain ⟨c', get', next'⟩ := Option.map_eq_some_iff.mp here
    refine .cons get' ?_
    rw [next']
    exact ih fun id mem => same id (List.mem_cons_of_mem _ mem)

theorem unique (h : Chain slots first ids) : ∀ {others}, Chain slots first others → others = ids := by
  induction h with
  | nil =>
    intro others other
    cases other
    rfl
  | cons get _ ih =>
    intro others other
    cases other with
    | cons get' chain' =>
      rw [get] at get'
      cases get'
      rw [ih chain']

theorem insert {c : Chunk} (h : Chain slots first (before ++ id :: after)) (nodup : (before ++ id :: after).Nodup)
    (get : slots[id]? = some c) : Chain ((slots.setIfInBounds id { c with next := some slots.size }).push
      { next := c.next }) first (before ++ id :: slots.size :: after) := by
  have fresh : ∀ x, (∃ d, slots[x]? = some d) → x ≠ slots.size := by
    rintro x ⟨d, hd⟩
    exact Nat.ne_of_lt (Array.getElem?_eq_some_iff.mp hd).1
  induction before generalizing first with
  | nil =>
    rw [List.nil_append] at h nodup ⊢
    cases h with
    | cons get' chain =>
      rw [get] at get'
      cases get'
      refine .cons (c := { c with next := some slots.size }) ?_ (.cons (c := { next := c.next }) ?_ ?_)
      · rw [getElem?_insert get, if_neg (fresh id ⟨c, get⟩), if_pos rfl]
      · rw [getElem?_insert get, if_pos rfl]
      · refine chain.congr fun x mem => ?_
        have ne : x ≠ id := by
          rintro rfl
          exact (List.nodup_cons.mp nodup).1 mem
        rw [getElem?_insert get, if_neg (fresh x (chain.get x mem)), if_neg ne]
  | cons y before ih =>
    rw [List.cons_append] at h nodup ⊢
    cases h with
    | cons get' chain =>
      have ne : y ≠ id := by
        rintro rfl
        exact (List.nodup_cons.mp nodup).1 (by simp)
      refine .cons ?_ (ih chain (List.nodup_cons.mp nodup).2)
      rw [getElem?_insert get, if_neg (fresh y ⟨_, get'⟩), if_neg ne]
      exact get'

end Chain

theorem textAt_of_get {c : Chunk} (h : cs.slots[id]? = some c) : cs.textAt id = c.text := by
  simp [textAt, h]

/-! ### The operations keep the order -/

namespace Linked

theorem ofNew : Linked .new [root] where
  chain := .cons (c := {}) rfl .nil
  nodup := List.nodup_singleton _
  all id lt := by
    have : id = 0 := Nat.lt_one_iff.mp lt
    simp [this, root]
  front := ⟨[], [root], rfl, .cons (c := {}) rfl .nil, by simp⟩

theorem get (h : cs.Linked ids) : ∀ id ∈ ids, ∃ c, cs.slots[id]? = some c := h.chain.get

theorem mem_of_get (h : cs.Linked ids) {c : Chunk} (get : cs.slots[id]? = some c) : id ∈ ids :=
  h.all id (Array.getElem?_eq_some_iff.mp get).1

theorem mem_iff (h : cs.Linked ids) : id ∈ ids ↔ id < cs.slots.size := by
  refine ⟨fun mem => ?_, h.all id⟩
  obtain ⟨c, get⟩ := h.get id mem
  exact (Array.getElem?_eq_some_iff.mp get).1

theorem mem_of_isOpen (h : cs.Linked ids) (isOpen : cs.IsOpen id) : id ∈ ids := by
  obtain ⟨c, get, -⟩ := isOpen
  exact h.mem_of_get get

theorem unique (h : cs.Linked ids) {others : List ChunkId} (other : cs.Linked others) : others = ids :=
  h.chain.unique other.chain

theorem set (h : cs.Linked ids) {c d : Chunk} (get : cs.slots[id]? = some c) (unended : c.ended = false)
    (next : d.next = c.next) : Linked { cs with slots := cs.slots.setIfInBounds id d } ids := by
  have links : ∀ x : ChunkId, (cs.slots.setIfInBounds id d)[x]?.map (·.next) = cs.slots[x]?.map (·.next) := by
    intro x
    rw [getElem?_set get]
    split
    · next same =>
      subst same
      rw [get, Option.map_some, Option.map_some, next]
    · rfl
  obtain ⟨taken, rest, split, chain, ended⟩ := h.front
  refine ⟨h.chain.congr fun x _ => links x, h.nodup, fun x lt => h.all x (by simpa using lt), taken, rest, split,
    chain.congr fun x _ => links x, fun x mem => ?_⟩
  obtain ⟨e, get', ended', empty⟩ := ended x mem
  have ne : x ≠ id := by
    rintro rfl
    rw [get] at get'
    cases get'
    rw [unended] at ended'
    cases ended'
  exact ⟨e, by dsimp only; rw [getElem?_set get, if_neg ne, get'], ended', empty⟩

theorem write (h : cs.Linked ids) {text : String} (done : cs.write id text = .ok cs') : cs'.Linked ids := by
  obtain ⟨c, get, unended, rfl⟩ := write_eq_ok.mp done
  exact h.set get unended rfl

theorem finish (h : cs.Linked ids) (done : cs.finish id = .ok cs') : cs'.Linked ids := by
  obtain ⟨c, get, unended, rfl⟩ := finish_eq_ok.mp done
  exact h.set get unended rfl

theorem insertAfter (h : cs.Linked (before ++ id :: after)) (isOpen : cs.IsOpen id)
    (done : cs.insertAfter id = .ok (new, cs')) : cs'.Linked (before ++ id :: new :: after) := by
  obtain ⟨c, get, rfl, rfl⟩ := insertAfter_eq_ok.mp done
  obtain ⟨c', get', unended⟩ := isOpen
  rw [get] at get'
  cases get'
  have fresh : cs.slots.size ∉ before ++ id :: after := by
    intro mem
    obtain ⟨d, hd⟩ := h.get _ mem
    exact Nat.lt_irrefl _ (Array.getElem?_eq_some_iff.mp hd).1
  obtain ⟨taken, rest, split, chain, ended⟩ := h.front
  -- The chunk is open, so it stands behind those that have been taken.
  have unended' : id ∉ taken := by
    intro mem
    obtain ⟨d, hd, ended', -⟩ := ended id mem
    rw [get] at hd
    cases hd
    rw [unended] at ended'
    cases ended'
  obtain ⟨between, rfl, rfl⟩ : ∃ between, before = taken ++ between ∧ rest = between ++ id :: after := by
    rcases List.append_eq_append_iff.mp split with ⟨l, rfl, tail⟩ | ⟨l, rfl, tail⟩
    · cases l with
      | nil => exact ⟨[], by simp, by simpa using tail.symm⟩
      | cons x l =>
        rw [List.cons_append, List.cons.injEq] at tail
        exact absurd (List.mem_append_right _ (tail.1 ▸ List.mem_cons_self)) unended'
    · exact ⟨l, rfl, tail⟩
  have nodup' := h.nodup
  rw [List.append_assoc] at nodup'
  refine ⟨h.chain.insert h.nodup get, ?_, fun x lt => ?_, taken, between ++ id :: cs.slots.size :: after,
    by rw [List.append_assoc], chain.insert (List.nodup_append.mp nodup').2.1 get, fun x mem => ?_⟩
  · have perm : (taken ++ between ++ id :: cs.slots.size :: after).Perm
        (cs.slots.size :: (taken ++ between ++ id :: after)) := by
      have : (taken ++ between ++ [id] ++ cs.slots.size :: after).Perm
          (cs.slots.size :: (taken ++ between ++ [id] ++ after)) := List.perm_middle
      simpa using this
    exact perm.nodup_iff.mpr (List.nodup_cons.mpr ⟨fresh, h.nodup⟩)
  · rw [Array.size_push, Array.size_setIfInBounds, Nat.lt_succ_iff_lt_or_eq] at lt
    rcases lt with lt | rfl
    · have := h.all x lt
      simp only [List.mem_append, List.mem_cons] at this ⊢
      rcases this with mem | rfl | mem
      · exact Or.inl mem
      · exact Or.inr (Or.inl rfl)
      · exact Or.inr (Or.inr (Or.inr mem))
    · simp
  · obtain ⟨d, hd, ended', empty⟩ := ended x mem
    refine ⟨d, ?_, ended', empty⟩
    have ne : x ≠ id := fun same => unended' (same ▸ mem)
    have ne' : x ≠ cs.slots.size := Nat.ne_of_lt (Array.getElem?_eq_some_iff.mp hd).1
    dsimp only
    rw [getElem?_insert get, if_neg ne', if_neg ne, hd]

end Linked

/-! ### Taking text in front -/

/-- From `cs` to `cs'` the text of the chunks `taken` has been handed out; `left` stand behind them. -/
structure Taken (cs : Chunks) (text : String) (cs' : Chunks) (taken left : List ChunkId) : Prop where
  text : text.toList = taken.flatMap fun id => (cs.textAt id).toList
  slots : ∀ id : ChunkId, cs'.slots[id]? =
    if id ∈ taken then cs.slots[id]?.map fun c => { c with text := "" } else cs.slots[id]?
  chain : Chain cs'.slots cs'.head left
  ended : ∀ id ∈ taken, ∃ c, cs.slots[id]? = some c ∧ c.ended = true
  unended : ∀ id, left.head? = some id → cs.IsOpen id

theorem taken_nil (h : Chain cs.slots cs.head ids) (unended : ∀ id, ids.head? = some id → cs.IsOpen id) :
    Taken cs "" cs [] ids where
  text := rfl
  slots id := by simp
  chain := h
  ended := by simp
  unended := unended

theorem takeEnded_spec {links : Nat} (h : Chain cs.slots cs.head ids) (nodup : ids.Nodup) (enough : ids.length < links) :
    ∃ taken left, ids = taken ++ left ∧ Taken cs (takeEnded links cs).1 (takeEnded links cs).2 taken left := by
  induction links generalizing cs ids with
  | zero => exact absurd enough (Nat.not_lt_zero _)
  | succ links ih =>
    obtain ⟨slots, head⟩ := cs
    cases h with
    | nil => exact ⟨[], [], rfl, taken_nil .nil (by simp)⟩
    | @cons id c rest get chain =>
      simp only [takeEnded, get]
      rcases Bool.eq_false_or_eq_true c.ended with ended | unended
      · rw [if_pos ended]
        obtain ⟨fresh, nodup⟩ := List.nodup_cons.mp nodup
        have others : ∀ x, x ≠ id → (slots.setIfInBounds id { c with text := "" })[x]? = slots[x]? := by
          intro x ne
          rw [getElem?_set get, if_neg ne]
        have ne : ∀ x ∈ rest, x ≠ id := by
          rintro x mem rfl
          exact fresh mem
        have chain' : Chain (slots.setIfInBounds id { c with text := "" }) c.next rest :=
          chain.congr fun x mem => by rw [others x (ne x mem)]
        obtain ⟨taken, left, rfl, t⟩ := @ih ⟨slots.setIfInBounds id { c with text := "" }, c.next⟩ rest chain' nodup
          (Nat.lt_of_succ_lt_succ enough)
        have notTaken : id ∉ taken := fun mem => fresh (List.mem_append_left _ mem)
        refine ⟨id :: taken, left, rfl, ?_, ?_, t.chain, ?_, ?_⟩
        · have same : ∀ x ∈ taken, textAt ⟨slots.setIfInBounds id { c with text := "" }, c.next⟩ x =
              textAt ⟨slots, some id⟩ x := by
            intro x mem
            unfold textAt
            dsimp only
            rw [others x (ne x (List.mem_append_left _ mem))]
          rw [String.toList_append, t.text, List.flatMap_cons, @textAt_of_get ⟨slots, some id⟩ id c get]
          exact congrArg _ (List.flatMap_congr fun x mem => by rw [same x mem])
        · intro x
          rw [t.slots]
          dsimp only
          by_cases same : x = id
          · subst same
            rw [if_neg notTaken, getElem?_set get, if_pos rfl, if_pos List.mem_cons_self, get, Option.map_some]
          · rw [others x same]
            simp [same]
        · intro x mem
          rcases List.mem_cons.mp mem with rfl | mem
          · exact ⟨c, get, ended⟩
          · obtain ⟨d, hd, ended'⟩ := t.ended x mem
            dsimp only at hd
            rw [others x (ne x (List.mem_append_left _ mem))] at hd
            exact ⟨d, hd, ended'⟩
        · intro x front
          obtain ⟨d, hd, open'⟩ := t.unended x front
          have mem : x ∈ taken ++ left := List.mem_append_right _ (List.mem_of_mem_head? front)
          dsimp only at hd
          rw [others x (ne x mem)] at hd
          exact ⟨d, hd, open'⟩
      · refine ⟨[], id :: rest, rfl, ?_⟩
        rw [if_neg (by simp [unended])]
        refine taken_nil (.cons get chain) fun other same => ?_
        cases same
        exact ⟨c, get, unended⟩

namespace Linked

theorem length_le (h : cs.Linked ids) : ids.length ≤ cs.slots.size := by
  have inRange : ∀ id ∈ ids, id ∈ List.range cs.slots.size := fun id mem => List.mem_range.mpr (h.mem_iff.mp mem)
  have le := (h.nodup.subperm inRange).length_le
  rwa [List.length_range] at le

/-- A flush takes the chunks in front up to the first open one. -/
theorem flush (h : cs.Linked ids) : cs.flush.2.Linked ids ∧ ∃ gone taken left, ids = gone ++ taken ++ left ∧
    (∀ id ∈ gone, ∃ c, cs.slots[id]? = some c ∧ c.ended = true ∧ c.text = "") ∧
    Taken cs cs.flush.1 cs.flush.2 taken left := by
  obtain ⟨gone, rest, rfl, chain, ended⟩ := h.front
  have nodup := (List.nodup_append.mp h.nodup).2.1
  have enough : rest.length < cs.slots.size + 1 := by
    have le := h.length_le
    rw [List.length_append] at le
    omega
  obtain ⟨taken, left, rfl, t⟩ := takeEnded_spec chain nodup enough
  have links : ∀ x : ChunkId, cs.flush.2.slots[x]?.map (·.next) = cs.slots[x]?.map (·.next) := by
    intro x
    rw [show cs.flush.2.slots[x]? = _ from t.slots x]
    split
    · cases cs.slots[x]? <;> rfl
    · rfl
  have size : cs.flush.2.slots.size = cs.slots.size := by
    have bound (x : Nat) : cs.flush.2.slots.size ≤ x ↔ cs.slots.size ≤ x := by
      rw [← Array.getElem?_eq_none_iff, ← Array.getElem?_eq_none_iff, ← Option.map_eq_none_iff (f := (·.next)), links x,
        Option.map_eq_none_iff]
    exact Nat.le_antisymm ((bound _).mpr (Nat.le_refl _)) ((bound _).mp (Nat.le_refl _))
  refine ⟨⟨h.chain.congr fun x _ => links x, h.nodup, fun x lt => h.all x (size ▸ lt), gone ++ taken, left,
    (List.append_assoc ..).symm, t.chain, fun x mem => ?_⟩, gone, taken, left, (List.append_assoc ..).symm, ended, t⟩
  rw [show cs.flush.2.slots[x]? = _ from t.slots x]
  rcases List.mem_append.mp mem with mem' | mem'
  · obtain ⟨c, get, ended', empty⟩ := ended x mem'
    have notTaken : x ∉ taken := fun mem'' =>
      (List.nodup_append.mp h.nodup).2.2 x mem' x (List.mem_append_left _ mem'') rfl
    rw [if_neg notTaken]
    exact ⟨c, get, ended', empty⟩
  · obtain ⟨c, get, ended'⟩ := t.ended x mem'
    rw [if_pos mem', get]
    exact ⟨_, rfl, ended', rfl⟩

theorem ended_flush (h : cs.Linked ids) (id : ChunkId) :
    cs.flush.2.slots[id]?.map (·.ended) = cs.slots[id]?.map (·.ended) := by
  obtain ⟨-, gone, taken, left, -, -, t⟩ := h.flush
  rw [t.slots]
  split
  · cases cs.slots[id]? <;> rfl
  · rfl

/-- A flush takes everything exactly if no chunk is open. -/
theorem isFlushed_flush (h : cs.Linked ids) : cs.flush.2.isFlushed = true ↔ cs.openCount = 0 := by
  obtain ⟨-, gone, taken, left, rfl, ended, t⟩ := h.flush
  rw [openCount_eq_zero]
  unfold isFlushed
  rw [Option.isNone_iff_eq_none]
  constructor
  · rintro none id ⟨c, get, unended⟩
    have nil : left = [] := by
      have chain := t.chain
      rw [none] at chain
      cases chain
      rfl
    subst nil
    have mem := h.mem_of_get get
    rw [List.append_nil, List.mem_append] at mem
    rcases mem with mem | mem
    · obtain ⟨d, hd, ended', -⟩ := ended id mem
      rw [get] at hd
      cases hd
      rw [unended] at ended'
      cases ended'
    · obtain ⟨d, hd, ended'⟩ := t.ended id mem
      rw [get] at hd
      cases hd
      rw [unended] at ended'
      cases ended'
  · intro none
    have chain := t.chain
    cases head : cs.flush.2.head with
    | none => rfl
    | some id =>
      rw [head] at chain
      cases chain with
      | cons => exact absurd (t.unended id rfl) (none id)

end Linked

end Chunks
end Stencil
