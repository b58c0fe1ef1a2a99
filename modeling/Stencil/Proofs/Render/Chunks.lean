import Stencil.Render.Chunk

/-! What the operations on chunks do, and which chunks are open: a new chunk is, a chunk that ends is no more, and
    writing and ending go wrong only with a chunk that is not open. -/

namespace Stencil
namespace Chunks

/-- The chunk exists and has not ended. -/
def IsOpen (cs : Chunks) (id : ChunkId) : Prop := ∃ c, cs.slots[id]? = some c ∧ c.ended = false

def openCount (cs : Chunks) : Nat := cs.slots.toList.countP (!·.ended)

variable {cs cs' : Chunks} {id new : ChunkId}

/-! ### What each operation does -/

theorem write_eq_ok {text : String} : cs.write id text = .ok cs' ↔ ∃ c, cs.slots[id]? = some c ∧ c.ended = false ∧
    cs' = { cs with slots := cs.slots.setIfInBounds id { c with text := c.text ++ text } } := by
  unfold write
  cases h : cs.slots[id]? with
  | none => simp
  | some c =>
    dsimp only
    constructor
    · intro same
      split at same
      · cases same
      · next he =>
        cases same
        exact ⟨c, rfl, Bool.eq_false_iff.mpr he, rfl⟩
    · rintro ⟨_, same, he, rfl⟩
      cases same
      simp [he]

theorem insertAfter_eq_ok : cs.insertAfter id = .ok (new, cs') ↔ ∃ c, cs.slots[id]? = some c ∧ new = cs.slots.size ∧
    cs' = { cs with slots := (cs.slots.setIfInBounds id { c with next := some new }).push { next := c.next } } := by
  unfold insertAfter
  cases h : cs.slots[id]? with
  | none => simp
  | some c =>
    constructor
    · intro same
      cases same
      exact ⟨c, rfl, rfl, rfl⟩
    · rintro ⟨_, same, rfl, rfl⟩
      cases same
      rfl

theorem finish_eq_ok : cs.finish id = .ok cs' ↔ ∃ c, cs.slots[id]? = some c ∧ c.ended = false ∧
    cs' = { cs with slots := cs.slots.setIfInBounds id { c with ended := true } } := by
  unfold finish
  cases h : cs.slots[id]? with
  | none => simp
  | some c =>
    dsimp only
    constructor
    · intro same
      split at same
      · cases same
      · next he =>
        cases same
        exact ⟨c, rfl, Bool.eq_false_iff.mpr he, rfl⟩
    · rintro ⟨_, same, he, rfl⟩
      cases same
      simp [he]

theorem getElem?_set {slots : Array Chunk} {c d : Chunk} (h : slots[id]? = some c) (other : ChunkId) :
    (slots.setIfInBounds id d)[other]? = if other = id then some d else slots[other]? := by
  have lt : id < slots.size := (Array.getElem?_eq_some_iff.mp h).1
  rw [Array.getElem?_setIfInBounds]
  by_cases same : other = id
  · subst same
    simp [lt]
  · simp [same, Ne.symm same]

theorem getElem?_insert {slots : Array Chunk} {c d e : Chunk} (h : slots[id]? = some c) (other : ChunkId) :
    ((slots.setIfInBounds id d).push e)[other]? =
      if other = slots.size then some e else if other = id then some d else slots[other]? := by
  rw [Array.getElem?_push, Array.size_setIfInBounds, getElem?_set h]

theorem write_append (cs : Chunks) (id : ChunkId) (a b : String) :
    cs.write id (a ++ b) = cs.write id a >>= fun cs => cs.write id b := by
  cases found : cs.slots[id]? with
  | none => simp only [write, found]; rfl
  | some c =>
    rcases Bool.eq_false_or_eq_true c.ended with ended | ended
    · simp only [write, found, ended]; rfl
    have wrote (text : String) : cs.write id text =
        .ok { cs with slots := cs.slots.setIfInBounds id { c with text := c.text ++ text } } :=
      write_eq_ok.mpr ⟨c, found, ended, rfl⟩
    rw [wrote, wrote]
    refine (write_eq_ok.mpr ⟨{ c with text := c.text ++ a }, ?_, ended, ?_⟩).symm
    · rw [getElem?_set found, if_pos rfl]
    · rw [Array.setIfInBounds_setIfInBounds, String.append_assoc]

/-! ### Open chunks -/

theorem IsOpen.of_eq (h : cs.IsOpen id) (same : cs'.slots[id]?.map (·.ended) = cs.slots[id]?.map (·.ended)) :
    cs'.IsOpen id := by
  obtain ⟨c, hc, ended⟩ := h
  rw [hc, Option.map_some] at same
  obtain ⟨c', hc', ended'⟩ := Option.map_eq_some_iff.mp same
  exact ⟨c', hc', ended'.trans ended⟩

theorem openCount_congr
    (same : ∀ id : ChunkId, cs'.slots[id]?.map (·.ended) = cs.slots[id]?.map (·.ended)) :
    cs'.openCount = cs.openCount := by
  have maps : cs'.slots.toList.map (·.ended) = cs.slots.toList.map (·.ended) := by
    apply List.ext_getElem?
    intro id
    rw [List.getElem?_map, List.getElem?_map, Array.getElem?_toList, Array.getElem?_toList]
    exact same id
  have count (l : List Chunk) : l.countP (!·.ended) = (l.map (·.ended)).countP (!·) := by
    rw [List.countP_map]
    rfl
  unfold openCount
  rw [count, count, maps]

theorem openCount_eq_zero : cs.openCount = 0 ↔ ∀ id, ¬ cs.IsOpen id := by
  unfold openCount
  rw [List.countP_eq_zero]
  constructor
  · rintro ended id ⟨c, hc, unended⟩
    have mem : c ∈ cs.slots.toList := List.mem_of_getElem? (i := id) (by rw [Array.getElem?_toList]; exact hc)
    exact ended c mem (by simp [unended])
  · intro none c mem ended
    obtain ⟨id, hid⟩ := List.mem_iff_getElem?.mp mem
    refine none id ⟨c, by rw [← Array.getElem?_toList]; exact hid, ?_⟩
    simpa using ended

theorem openCount_write {text : String} (h : cs.write id text = .ok cs') : cs'.openCount = cs.openCount := by
  obtain ⟨c, hc, ended, rfl⟩ := write_eq_ok.mp h
  refine openCount_congr fun other => ?_
  dsimp only
  rw [getElem?_set hc]
  split
  · next same =>
    subst same
    simp [hc]
  · rfl

theorem openCount_set {c d : Chunk} (hc : cs.slots[id]? = some c) (unended : c.ended = false) :
    (cs.slots.setIfInBounds id d).toList.countP (!·.ended) + 1 = cs.openCount + if d.ended then 0 else 1 := by
  obtain ⟨lt, get⟩ := Array.getElem?_eq_some_iff.mp hc
  have lt' : id < cs.slots.toList.length := by simpa using lt
  have get' : cs.slots.toList[id] = c := by simpa using get
  have pos : 0 < cs.slots.toList.countP (!·.ended) :=
    List.countP_pos_iff.mpr ⟨c, by rw [← get']; exact List.getElem_mem lt', by simp [unended]⟩
  rw [Array.toList_setIfInBounds, List.countP_set lt', get']
  have split : openCount cs = cs.slots.toList.countP (!·.ended) := rfl
  cases he : d.ended
  · simp only [unended, Bool.not_false, if_true, Bool.false_eq_true, if_false]
    omega
  · simp only [unended, Bool.not_false, Bool.not_true, if_true, Bool.false_eq_true, if_false]
    omega

theorem openCount_insertAfter (open' : cs.IsOpen id) (h : cs.insertAfter id = .ok (new, cs')) :
    cs'.openCount = cs.openCount + 1 := by
  obtain ⟨c, hc, rfl, rfl⟩ := insertAfter_eq_ok.mp h
  obtain ⟨_, hc', unended⟩ := open'
  rw [hc] at hc'
  cases hc'
  have count := openCount_set (d := { c with next := some cs.slots.size }) hc unended
  have push : openCount { cs with
      slots := (cs.slots.setIfInBounds id { c with next := some cs.slots.size }).push { next := c.next } } =
      (cs.slots.setIfInBounds id { c with next := some cs.slots.size }).toList.countP (!·.ended) + 1 := by
    simp [openCount, List.countP_append]
  rw [push, count, if_neg (by simp [unended])]

theorem openCount_finish (h : cs.finish id = .ok cs') : cs'.openCount + 1 = cs.openCount := by
  obtain ⟨c, hc, unended, rfl⟩ := finish_eq_ok.mp h
  exact openCount_set (d := { c with ended := true }) hc unended

theorem IsOpen.write {text : String} {other : ChunkId} (h : cs.write id text = .ok cs') (open' : cs.IsOpen other) :
    cs'.IsOpen other := by
  obtain ⟨c, hc, unended, rfl⟩ := write_eq_ok.mp h
  refine open'.of_eq ?_
  dsimp only
  rw [getElem?_set hc]
  split
  · next same =>
    subst same
    simp [hc]
  · rfl

theorem IsOpen.insertAfter {other : ChunkId} (h : cs.insertAfter id = .ok (new, cs')) (open' : cs.IsOpen other) :
    cs'.IsOpen other := by
  obtain ⟨c, hc, rfl, rfl⟩ := insertAfter_eq_ok.mp h
  refine open'.of_eq ?_
  obtain ⟨d, hd, -⟩ := open'
  have ne : other ≠ cs.slots.size := Nat.ne_of_lt (Array.getElem?_eq_some_iff.mp hd).1
  dsimp only
  rw [getElem?_insert hc, if_neg ne]
  split
  · next same =>
    subst same
    simp [hc]
  · rfl

theorem isOpen_new_of_insertAfter (h : cs.insertAfter id = .ok (new, cs')) : cs'.IsOpen new := by
  obtain ⟨c, hc, rfl, rfl⟩ := insertAfter_eq_ok.mp h
  refine ⟨{ next := c.next }, ?_, rfl⟩
  dsimp only
  rw [getElem?_insert hc, if_pos rfl]

theorem not_isOpen_new_of_insertAfter (h : cs.insertAfter id = .ok (new, cs')) : ¬ cs.IsOpen new := by
  obtain ⟨c, hc, rfl, rfl⟩ := insertAfter_eq_ok.mp h
  rintro ⟨d, hd, -⟩
  exact Nat.lt_irrefl _ (Array.getElem?_eq_some_iff.mp hd).1

theorem IsOpen.finish {other : ChunkId} (h : cs.finish id = .ok cs') (open' : cs.IsOpen other) (ne : other ≠ id) :
    cs'.IsOpen other := by
  obtain ⟨c, hc, unended, rfl⟩ := finish_eq_ok.mp h
  refine open'.of_eq ?_
  dsimp only
  rw [getElem?_set hc, if_neg ne]

theorem IsOpen.exists_write (open' : cs.IsOpen id) (text : String) : ∃ cs', cs.write id text = .ok cs' := by
  obtain ⟨c, hc, unended⟩ := open'
  exact ⟨_, write_eq_ok.mpr ⟨c, hc, unended, rfl⟩⟩

theorem IsOpen.exists_insertAfter (open' : cs.IsOpen id) : ∃ new cs', cs.insertAfter id = .ok (new, cs') := by
  obtain ⟨c, hc, -⟩ := open'
  exact ⟨_, _, insertAfter_eq_ok.mpr ⟨c, hc, rfl, rfl⟩⟩

theorem IsOpen.exists_finish (open' : cs.IsOpen id) : ∃ cs', cs.finish id = .ok cs' := by
  obtain ⟨c, hc, unended⟩ := open'
  exact ⟨_, finish_eq_ok.mpr ⟨c, hc, unended, rfl⟩⟩

end Chunks
end Stencil
