import Stencil.Proofs.Render.Drafts

/-! The past of a list of chunks. What has been done to the chunks says in which order they stand, what has been written to
    each and which have ended. The links visit them in that order, and no text is lost: what has been handed out and what
    is still here is all that has been written, chunk by chunk. -/

namespace Stencil

/-- An operation on chunks. -/
inductive ChunkUse where
  | write (id : ChunkId) (text : String)
  | insertAfter (id : ChunkId)
  | finish (id : ChunkId)
  | flush
deriving DecidableEq

/-- The operations on chunks so far, the latest first. -/
abbrev Past := List ChunkUse

namespace Chunks

/-- Does an operation, with the text that it hands out. -/
def use (cs : Chunks) : ChunkUse → Except Error (String × Chunks)
  | .write id text => (cs.write id text).map ("", ·)
  | .insertAfter id => (cs.insertAfter id).map ("", ·.2)
  | .finish id => (cs.finish id).map ("", ·)
  | .flush => .ok cs.flush

/-- New chunks after all this, with the text that has been handed out. -/
def after : Past → Except Error (String × Chunks)
  | [] => .ok ("", .new)
  | u :: past => do
    let (told, cs) ← after past
    let (text, cs) ← cs.use u
    pure (told ++ text, cs)

end Chunks

namespace Past

/-- The number of chunks. -/
def count : Past → Nat
  | [] => 1
  | .insertAfter _ :: past => count past + 1
  | _ :: past => count past

/-- Puts a chunk directly behind another. -/
def putBehind (id new : ChunkId) : List ChunkId → List ChunkId
  | [] => []
  | x :: rest => if x = id then x :: new :: rest else x :: putBehind id new rest

/-- The order of the chunks: a new one stands directly behind the one it was put behind. -/
def order : Past → List ChunkId
  | [] => [Chunks.root]
  | .insertAfter id :: past => putBehind id (count past) (order past)
  | _ :: past => order past

/-- All that has been written to a chunk. -/
def written (id : ChunkId) : Past → String
  | [] => ""
  | .write other text :: past => if other = id then written id past ++ text else written id past
  | _ :: past => written id past

/-- All that has been written to some chunks. -/
def textOf (past : Past) (ids : List ChunkId) : String := String.join (ids.map (written · past))

/-- The chunk exists and has not ended. -/
def Live (past : Past) (id : ChunkId) : Prop := id < past.count ∧ ChunkUse.finish id ∉ past

/-- The operation, if it is one on a chunk, is one on a chunk that exists and has not ended. -/
def Allows (past : Past) : ChunkUse → Prop
  | .write id _ | .insertAfter id | .finish id => past.Live id
  | .flush => True

/-- Each operation was allowed when it was done. -/
def Fair : Past → Prop
  | [] => True
  | u :: past => Fair past ∧ Allows past u

variable {past earlier later : Past} {id new x : ChunkId} {u : ChunkUse} {text : String} {ids before after gone rest : List ChunkId}

/-! ### The order of the chunks -/

theorem putBehind_append (notBefore : id ∉ before) (new : ChunkId) (after : List ChunkId) :
    putBehind id new (before ++ id :: after) = before ++ id :: new :: after := by
  induction before with
  | nil => simp [putBehind]
  | cons y before ih =>
    rw [List.mem_cons, not_or] at notBefore
    rw [List.cons_append, putBehind, if_neg (Ne.symm notBefore.1), ih notBefore.2, List.cons_append]

theorem sublist_putBehind (id new : ChunkId) (ids : List ChunkId) : ids.Sublist (putBehind id new ids) := by
  induction ids with
  | nil => exact .slnil
  | cons y rest ih =>
    unfold putBehind
    split
    · exact (List.sublist_cons_self new rest).cons_cons y
    · exact ih.cons_cons y

theorem mem_putBehind (mem : id ∈ ids) : x ∈ putBehind id new ids ↔ x = new ∨ x ∈ ids := by
  induction ids with
  | nil => cases mem
  | cons y rest ih =>
    unfold putBehind
    split
    · simp only [List.mem_cons]
      tauto
    · next ne =>
      have mem' : id ∈ rest := (List.mem_cons.mp mem).resolve_left (Ne.symm ne)
      simp only [List.mem_cons, ih mem']
      tauto

/-- Chunks that exist keep their order. -/
theorem sublist_order (later earlier : Past) : earlier.order.Sublist (order (later ++ earlier)) := by
  induction later with
  | nil => exact List.Sublist.refl _
  | cons u later ih =>
    cases u with
    | insertAfter id => exact ih.trans (sublist_putBehind ..)
    | write id text => exact ih
    | finish id => exact ih
    | flush => exact ih

theorem mem_order (fair : past.Fair) : id ∈ past.order ↔ id < past.count := by
  induction past generalizing id with
  | nil => simp [order, count, Chunks.root]
  | cons u past ih =>
    obtain ⟨fair, allowed⟩ := fair
    cases u with
    | insertAfter behind =>
      rw [order, mem_putBehind ((ih fair).mpr allowed.1), ih fair, count, Nat.lt_succ_iff_lt_or_eq, or_comm]
    | write _ _ => exact ih fair
    | finish _ => exact ih fair
    | flush => exact ih fair

/-- Nothing has been done to a chunk that does not exist. -/
theorem untouched (fair : past.Fair) (fresh : past.count ≤ id) : written id past = "" ∧ ChunkUse.finish id ∉ past := by
  induction past with
  | nil => exact ⟨rfl, List.not_mem_nil⟩
  | cons u past ih =>
    obtain ⟨fair, allowed⟩ := fair
    cases u with
    | insertAfter behind =>
      obtain ⟨empty, unended⟩ := ih fair (Nat.le_of_succ_le fresh)
      exact ⟨empty, by simpa using unended⟩
    | write other text =>
      obtain ⟨empty, unended⟩ := ih fair fresh
      have ne : other ≠ id := Nat.ne_of_lt (Nat.lt_of_lt_of_le allowed.1 fresh)
      exact ⟨by rw [written, if_neg ne, empty], by simpa using unended⟩
    | finish other =>
      obtain ⟨empty, unended⟩ := ih fair fresh
      have ne : id ≠ other := Nat.ne_of_gt (Nat.lt_of_lt_of_le allowed.1 fresh)
      exact ⟨empty, by simpa [ne] using unended⟩
    | flush =>
      obtain ⟨empty, unended⟩ := ih fair fresh
      exact ⟨empty, by simpa using unended⟩

theorem textOf_append (past : Past) (ids ids' : List ChunkId) :
    past.textOf (ids ++ ids') = past.textOf ids ++ past.textOf ids' := by
  unfold textOf
  rw [List.map_append, String.join_append]

theorem textOf_congr {past' : Past} (same : ∀ x ∈ ids, written x past' = written x past) :
    past'.textOf ids = past.textOf ids := by
  unfold textOf
  rw [List.map_congr_left same]

end Past

namespace Chunks

open Past

variable {past : Past} {cs cs' : Chunks} {told text : String} {id new : ChunkId} {ids gone rest taken left : List ChunkId} {u : ChunkUse}

theorem Taken.text_eq (t : Taken cs text cs' taken left) : text = String.join (taken.map cs.textAt) := by
  refine String.toList_inj.mp (t.text.trans ?_)
  clear t
  induction taken with
  | nil => rfl
  | cons id taken ih => rw [List.flatMap_cons, ih, List.map_cons, String.join_cons, String.toList_append]

/-- The chunks are as their past says: the text of those in front has been handed out, the others have theirs. -/
structure Records (past : Past) (told : String) (cs : Chunks) : Prop where
  linked : cs.Linked past.order
  ended {id : ChunkId} {c : Chunk} : cs.slots[id]? = some c → (c.ended = true ↔ .finish id ∈ past)
  handed : ∃ gone rest, past.order = gone ++ rest ∧ Chain cs.slots cs.head rest ∧ told = past.textOf gone ∧
    (∀ id ∈ gone, .finish id ∈ past) ∧ ∀ id ∈ rest, cs.textAt id = written id past

namespace Records

theorem ofNew : Records [] "" .new where
  linked := .ofNew
  ended get := by
    obtain ⟨lt, rfl⟩ := Array.getElem?_eq_some_iff.mp get
    obtain rfl := Nat.lt_one_iff.mp lt
    simp [Chunks.new]
  handed := ⟨[], [root], rfl, .cons (c := {}) rfl .nil, rfl, by simp, by simp [textAt, Chunks.new, root, written]⟩

theorem size_eq (h : Records past told cs) (fair : past.Fair) : cs.slots.size = past.count := by
  have same (n : Nat) : n < cs.slots.size ↔ n < past.count := h.linked.mem_iff.symm.trans (mem_order fair)
  have := same cs.slots.size
  have := same past.count
  omega

theorem isOpen_iff (h : Records past told cs) (fair : past.Fair) : cs.IsOpen id ↔ past.Live id := by
  unfold IsOpen Live
  rw [← h.size_eq fair]
  constructor
  · rintro ⟨c, get, unended⟩
    refine ⟨(Array.getElem?_eq_some_iff.mp get).1, fun mem => ?_⟩
    rw [(h.ended get).mpr mem] at unended
    cases unended
  · rintro ⟨lt, unended⟩
    have get := Array.getElem?_eq_getElem lt
    exact ⟨_, get, Bool.eq_false_iff.mpr fun ended => unended ((h.ended get).mp ended)⟩

/-- What is done to a chunk in place leaves the links as they are. -/
theorem chain_set {slots : Array Chunk} {first : Option ChunkId} {c d : Chunk} (chain : Chain slots first rest)
    (get : slots[id]? = some c) (next : d.next = c.next) : Chain (slots.setIfInBounds id d) first rest := by
  refine chain.congr fun x _ => ?_
  rw [getElem?_set get]
  split
  · next same => rw [same, get, Option.map_some, Option.map_some, next]
  · rfl

theorem write (h : Records past told cs) (live : past.Live id) (done : cs.write id text = .ok cs') :
    Records (.write id text :: past) told cs' := by
  obtain ⟨gone, rest, order, chain, rfl, ended, here⟩ := h.handed
  have linked := h.linked.write done
  have texts := textAt_write done
  obtain ⟨c, get, unended, rfl⟩ := write_eq_ok.mp done
  refine ⟨linked, fun {x d} get' => ?_, gone, rest, order, chain_set chain get rfl, ?_, fun x mem =>
    List.mem_cons_of_mem _ (ended x mem), fun x mem => ?_⟩
  · rw [List.mem_cons, or_iff_right (by simp)]
    dsimp only at get'
    rw [getElem?_set get] at get'
    split at get'
    · next same =>
      cases get'
      subst same
      exact (h.ended get :)
    · exact h.ended get'
  · refine (textOf_congr fun x mem => ?_).symm
    rw [written, if_neg]
    rintro rfl
    exact live.2 (ended _ mem)
  · rw [texts, written]
    by_cases same : x = id
    · rw [if_pos same, if_pos same.symm, ← same, here x mem]
    · rw [if_neg same, if_neg (Ne.symm same), here x mem]

theorem finish (h : Records past told cs) (done : cs.finish id = .ok cs') : Records (.finish id :: past) told cs' := by
  obtain ⟨gone, rest, order, chain, rfl, ended, here⟩ := h.handed
  have linked := h.linked.finish done
  have texts := textAt_finish done
  obtain ⟨c, get, unended, rfl⟩ := finish_eq_ok.mp done
  refine ⟨linked, fun {x d} get' => ?_, gone, rest, order, chain_set chain get rfl, rfl, fun x mem =>
    List.mem_cons_of_mem _ (ended x mem), fun x mem => (texts x).trans (here x mem)⟩
  dsimp only at get'
  rw [getElem?_set get] at get'
  split at get'
  · next same =>
    cases get'
    simp [same]
  · next ne =>
    rw [h.ended get', List.mem_cons, or_iff_right (by simpa using ne)]

theorem insertAfter (h : Records past told cs) (fair : past.Fair) (live : past.Live id)
    (done : cs.insertAfter id = .ok (new, cs')) : Records (.insertAfter id :: past) told cs' := by
  obtain ⟨gone, rest, order, chain, rfl, ended, here⟩ := h.handed
  have isOpen := (h.isOpen_iff fair).mpr live
  have size := h.size_eq fair
  -- The chunk has not ended, so it is not among those in front.
  obtain ⟨between, behind, rfl⟩ : ∃ between behind, rest = between ++ id :: behind := by
    refine List.append_of_mem ?_
    have mem := h.linked.mem_of_isOpen isOpen
    rw [order] at mem
    exact (List.mem_append.mp mem).resolve_left fun mem => live.2 (ended id mem)
  have nodup := h.linked.nodup
  have inserted : putBehind id cs.slots.size past.order = gone ++ (between ++ id :: cs.slots.size :: behind) := by
    rw [order, ← List.append_assoc] at nodup
    rw [order, ← List.append_assoc, putBehind_append, List.append_assoc]
    exact fun mem => (List.nodup_append.mp nodup).2.2 id mem id List.mem_cons_self rfl
  have linked : cs'.Linked (putBehind id cs.slots.size past.order) := by
    rw [inserted, ← List.append_assoc]
    have linked := h.linked
    rw [order, ← List.append_assoc] at linked
    have := linked.insertAfter isOpen done
    obtain ⟨_, -, rfl, -⟩ := insertAfter_eq_ok.mp done
    exact this
  have texts := textAt_insertAfter done
  rw [order] at nodup
  obtain ⟨c, get, rfl, rfl⟩ := insertAfter_eq_ok.mp done
  have untouched := untouched fair (Nat.le_of_eq size.symm)
  refine ⟨?_, fun {x d} get' => ?_, gone, between ++ id :: cs.slots.size :: behind, ?_,
    chain.insert (List.nodup_append.mp nodup).2.1 get, rfl, fun x mem => List.mem_cons_of_mem _ (ended x mem),
    fun x mem => (texts x).trans ?_⟩
  · rw [Past.order, ← size]
    exact linked
  · rw [List.mem_cons, or_iff_right (by simp)]
    dsimp only at get'
    rw [getElem?_insert get] at get'
    split at get'
    · next same =>
      cases get'
      simpa [same] using untouched.2
    · split at get'
      · next same =>
        cases get'
        subst same
        exact (h.ended get :)
      · exact h.ended get'
  · rw [Past.order, ← size]
    exact inserted
  · show cs.textAt x = written x past
    by_cases same : x = cs.slots.size
    · rw [same, untouched.1, textAt, Array.getElem?_eq_none (Nat.le_refl _)]
      rfl
    · refine here x ?_
      simp only [List.mem_append, List.mem_cons] at mem ⊢
      tauto

theorem flush (h : Records past told cs) : Records (.flush :: past) (told ++ cs.flush.1) cs.flush.2 := by
  obtain ⟨gone, rest, order, chain, rfl, ended, here⟩ := h.handed
  have nodup := h.linked.nodup
  rw [order] at nodup
  have nodup := (List.nodup_append.mp nodup).2.1
  have enough : rest.length < cs.slots.size + 1 := by
    have le := h.linked.length_le
    rw [order, List.length_append] at le
    omega
  obtain ⟨taken, left, rfl, t⟩ := takeEnded_spec chain nodup enough
  have behind : ∀ x ∈ left, x ∉ taken := fun x mem mem' => (List.nodup_append.mp nodup).2.2 x mem' x mem rfl
  refine ⟨h.linked.flush.1, fun {x d} get => ?_, gone ++ taken, left, ?_, t.chain, ?_, fun x mem => ?_, fun x mem => ?_⟩
  · rw [List.mem_cons, or_iff_right (by simp)]
    have same := h.linked.ended_flush x
    rw [get] at same
    obtain ⟨c, get', (same : c.ended = d.ended)⟩ := Option.map_eq_some_iff.mp same.symm
    rw [← same]
    exact h.ended get'
  · rw [List.append_assoc]
    exact order
  · have texts : cs.flush.1 = past.textOf taken := by
      rw [show cs.flush.1 = _ from t.text_eq, textOf, List.map_congr_left fun x mem => here x (List.mem_append_left _ mem)]
    rw [texts, ← textOf_append]
    exact (textOf_congr fun x _ => rfl).symm
  · refine List.mem_cons_of_mem _ ?_
    rcases List.mem_append.mp mem with mem | mem
    · exact ended x mem
    · obtain ⟨c, get, ended⟩ := t.ended x mem
      exact (h.ended get).mp ended
  · have same : cs.flush.2.textAt x = cs.textAt x := by
      unfold textAt
      rw [show cs.flush.2.slots[x]? = _ from t.slots x, if_neg (behind x mem)]
    exact same.trans (here x (List.mem_append_right _ mem))

/-- An operation that is allowed is done, and the past goes on with it. -/
theorem use (h : Records past told cs) (fair : past.Fair) (allowed : past.Allows u) :
    ∃ text cs', cs.use u = .ok (text, cs') ∧ Records (u :: past) (told ++ text) cs' := by
  have isOpen {id : ChunkId} (live : past.Live id) : cs.IsOpen id := (h.isOpen_iff fair).mpr live
  cases u with
  | write id text =>
    obtain ⟨cs', done⟩ := (isOpen allowed).exists_write text
    refine ⟨"", cs', by rw [Chunks.use, done]; rfl, ?_⟩
    rw [String.append_empty]
    exact h.write allowed done
  | insertAfter id =>
    obtain ⟨new, cs', done⟩ := (isOpen allowed).exists_insertAfter
    refine ⟨"", cs', by rw [Chunks.use, done]; rfl, ?_⟩
    rw [String.append_empty]
    exact h.insertAfter fair allowed done
  | finish id =>
    obtain ⟨cs', done⟩ := (isOpen allowed).exists_finish
    refine ⟨"", cs', by rw [Chunks.use, done]; rfl, ?_⟩
    rw [String.append_empty]
    exact h.finish done
  | flush => exact ⟨_, _, rfl, h.flush⟩

end Records

/-- Operations that are allowed are all done. -/
theorem exists_records (fair : past.Fair) : ∃ told cs, after past = .ok (told, cs) ∧ Records past told cs := by
  induction past with
  | nil => exact ⟨"", .new, rfl, .ofNew⟩
  | cons u past ih =>
    obtain ⟨fair, allowed⟩ := fair
    obtain ⟨told, cs, done, records⟩ := ih fair
    obtain ⟨text, cs', used, records'⟩ := records.use fair allowed
    exact ⟨told ++ text, cs', by rw [after, done]; simp [bind, Except.bind, used, pure, Except.pure], records'⟩

/-- A flush leaves the first chunk at the head that has not ended. -/
theorem Records.head_flush (h : Records past told cs) :
    cs.flush.2.head = past.order.find? (ChunkUse.finish · ∉ past) := by
  obtain ⟨-, gone, taken, left, order, ended, t⟩ := h.linked.flush
  have front : ∀ x ∈ gone ++ taken, .finish x ∈ past := by
    intro x mem
    rcases List.mem_append.mp mem with mem | mem
    · obtain ⟨c, get, ended, -⟩ := ended x mem
      exact (h.ended get).mp ended
    · obtain ⟨c, get, ended⟩ := t.ended x mem
      exact (h.ended get).mp ended
  rw [order, List.find?_append, List.find?_eq_none.mpr fun x mem => by simpa using front x mem, Option.none_or]
  have chain := t.chain
  cases head : cs.flush.2.head with
  | none =>
    rw [head] at chain
    cases chain
    rfl
  | some id =>
    rw [head] at chain
    cases chain with
    | @cons _ _ rest _ _ =>
      obtain ⟨c, get, unended⟩ := t.unended id rfl
      have live : .finish id ∉ past := fun mem => by
        rw [(h.ended get).mpr mem] at unended
        cases unended
      rw [List.find?_cons_of_pos (by simpa using live)]

end Chunks

open Chunks

/-- Whatever has been done to new chunks, each time to a chunk that exists and has not ended, nothing of it has gone wrong.
    From the root the links visit every chunk once, in the order in which each new chunk stands directly behind the one it
    was put behind, and those that existed before keep their order. What has been handed out, with the text that the links
    still lead to from the head, is all that has been written, chunk by chunk. A flush would leave the first chunk at the
    head that has not ended, and would leave none exactly if all have ended. -/
theorem chunks_in_order_and_text_kept {past : Past} (fair : past.Fair) : ∃ told cs, after past = .ok (told, cs) ∧
    Chain cs.slots (some root) past.order ∧ past.order.Perm (List.range cs.slots.size) ∧
    (∀ later earlier, past = later ++ earlier → earlier.order.Sublist past.order) ∧
    (∃ gone rest, past.order = gone ++ rest ∧ Chain cs.slots cs.head rest ∧
      told ++ String.join (rest.map cs.textAt) = String.join (past.order.map (Past.written · past))) ∧
    cs.flush.2.head = past.order.find? (ChunkUse.finish · ∉ past) ∧
    (cs.flush.2.isFlushed = true ↔ ∀ id < cs.slots.size, .finish id ∈ past) := by
  obtain ⟨told, cs, done, records⟩ := exists_records fair
  have linked := records.linked
  have head := records.head_flush
  refine ⟨told, cs, done, linked.chain, ?_, ?_, ?_, head, ?_⟩
  · refine (List.perm_ext_iff_of_nodup linked.nodup List.nodup_range).mpr fun id => ?_
    rw [linked.mem_iff, List.mem_range]
  · rintro later earlier rfl
    exact Past.sublist_order later earlier
  · obtain ⟨gone, rest, order, chain, rfl, -, here⟩ := records.handed
    refine ⟨gone, rest, order, chain, ?_⟩
    rw [List.map_congr_left here]
    show past.textOf gone ++ past.textOf rest = past.textOf past.order
    rw [← Past.textOf_append, ← order]
  · unfold isFlushed
    rw [head, Option.isNone_iff_eq_none, List.find?_eq_none]
    simp only [decide_eq_true_eq, not_not, linked.mem_iff]

/-- Two chunks behind the root, the one put there later in front of the other; the root has been taken, and the one behind
    it has ended since. -/
def middleOpened : Past :=
  [.finish 2, .write 2 "b", .flush, .finish 0, .write 1 "c", .insertAfter 0, .insertAfter 0, .write 0 "a"]

theorem chunks_in_order_and_text_kept_middleOpened : middleOpened.Fair ∧ middleOpened.order = [0, 2, 1] ∧
    ∃ told cs, after middleOpened = .ok (told, cs) ∧ Chain cs.slots (some root) [0, 2, 1] ∧
      (∃ gone rest, [0, 2, 1] = gone ++ rest ∧ Chain cs.slots cs.head rest ∧
        told ++ String.join (rest.map cs.textAt) = "abc") ∧
      cs.flush.2.head = some 1 ∧ cs.flush.2.isFlushed = false := by
  have fair : middleOpened.Fair := by
    simp [middleOpened, Past.Fair, Past.Allows, Past.Live, Past.count]
  have order : middleOpened.order = [0, 2, 1] := by decide
  have text : String.join (middleOpened.order.map (Past.written · middleOpened)) = "abc" := by decide +kernel
  obtain ⟨told, cs, done, chain, -, -, handed, head, flushed⟩ := chunks_in_order_and_text_kept fair
  rw [text, order] at handed
  rw [order] at chain head
  have first : [0, 2, 1].find? (ChunkUse.finish · ∉ middleOpened) = some 1 := by decide
  rw [first] at head
  refine ⟨fair, order, told, cs, done, chain, handed, head, ?_⟩
  rw [isFlushed, head]
  rfl

end Stencil
