import Mathlib.Data.List.Basic
import Stencil.Proofs.Render.Ownership

/-! Output with gaps. Chunk by chunk, in the order of the links, the output of a render is a draft: text, with a gap
    wherever work is parked. Code that runs adds to the draft where its writer stands and leaves the rest as it is, and
    what is flushed comes off the front. -/

namespace Stencil

/-- A character, or the gap that parked work is to fill. -/
inductive Cell where
  | char (c : Char)
  | gap (wait : Wait)

abbrev Draft := List Cell

/-- A text without gaps. -/
def Draft.ofText (text : String) : Draft := text.toList.map .char

theorem Draft.ofText_append (text text' : String) : ofText (text ++ text') = ofText text ++ ofText text' := by
  unfold ofText
  rw [String.toList_append, List.map_append]

theorem Draft.ofText_injective {text text' : String} (same : ofText text = ofText text') : text = text' :=
  String.toList_inj.mp (List.map_injective_iff.mpr (fun _ _ same => Cell.char.inj same) same)

namespace Chunks

variable {cs cs' : Chunks} {id new : ChunkId}

theorem textAt_set {c d : Chunk} (get : cs.slots[id]? = some c) (x : ChunkId) :
    textAt { cs with slots := cs.slots.setIfInBounds id d } x = if x = id then d.text else cs.textAt x := by
  unfold textAt
  dsimp only
  rw [getElem?_set get]
  split <;> rfl

theorem textAt_write {text : String} (done : cs.write id text = .ok cs') (x : ChunkId) :
    cs'.textAt x = if x = id then cs.textAt id ++ text else cs.textAt x := by
  obtain ⟨c, get, -, rfl⟩ := write_eq_ok.mp done
  rw [textAt_set get, textAt_of_get get]

theorem textAt_finish (done : cs.finish id = .ok cs') (x : ChunkId) : cs'.textAt x = cs.textAt x := by
  obtain ⟨c, get, -, rfl⟩ := finish_eq_ok.mp done
  rw [textAt_set get]
  split
  · next same => rw [same, textAt_of_get get]
  · rfl

/-- A new chunk is empty, like one that does not exist. -/
theorem textAt_insertAfter (done : cs.insertAfter id = .ok (new, cs')) (x : ChunkId) : cs'.textAt x = cs.textAt x := by
  obtain ⟨c, get, rfl, rfl⟩ := insertAfter_eq_ok.mp done
  unfold textAt
  dsimp only
  rw [getElem?_insert get]
  split
  · next same =>
    rw [same, Array.getElem?_eq_none (Nat.le_refl _)]
    rfl
  · split
    · next same =>
      rw [same, get]
      rfl
    · rfl

theorem not_isOpen_of_ended {c : Chunk} (get : cs.slots[id]? = some c) (ended : c.ended = true) : ¬ cs.IsOpen id := by
  rintro ⟨d, get', unended⟩
  rw [get] at get'
  cases get'
  rw [ended] at unended
  cases unended

end Chunks

namespace Render

/-- What stands in a chunk: text, then a gap if work is parked there. -/
def pieces (r : Render) (id : ChunkId) : Draft :=
  Draft.ofText (r.chunks.textAt id) ++ (r.tasks.filter (·.chunk == id)).map (.gap ·.wait)

/-- What stands in some chunks. -/
def draft (r : Render) (ids : List ChunkId) : Draft := ids.flatMap r.pieces

variable {r r' r'' : Render} {cs : Chunks} {id id' new : ChunkId}
  {ids before after before' after' rest rest' : List ChunkId}
  {added added' : Draft} {wait : Wait}

theorem draft_append (r : Render) (ids ids' : List ChunkId) : r.draft (ids ++ ids') = r.draft ids ++ r.draft ids' :=
  List.flatMap_append

theorem draft_cons (r : Render) (id : ChunkId) (ids : List ChunkId) : r.draft (id :: ids) = r.pieces id ++ r.draft ids :=
  List.flatMap_cons

theorem draft_singleton (r : Render) (id : ChunkId) : r.draft [id] = r.pieces id := by
  rw [draft_cons, draft, List.flatMap_nil, List.append_nil]

theorem draft_congr (same : ∀ x ∈ ids, r'.pieces x = r.pieces x) : r'.draft ids = r.draft ids :=
  List.flatMap_congr same

theorem pieces_congr (text : r'.chunks.textAt id = r.chunks.textAt id) (tasks : r'.tasks = r.tasks) :
    r'.pieces id = r.pieces id := by
  unfold pieces
  rw [text, tasks]

theorem pieces_of_no_task (none : ∀ task ∈ r.tasks, task.chunk ≠ id) :
    r.pieces id = Draft.ofText (r.chunks.textAt id) := by
  have nil : r.tasks.filter (·.chunk == id) = [] :=
    List.filter_eq_nil_iff.mpr fun task mem => by simpa using none task mem
  unfold pieces
  rw [nil, List.map_nil, List.append_nil]

/-- A gap is that of a task. -/
theorem exists_task_of_gap_mem (r : Render) (mem : .gap wait ∈ r.draft ids) : ∃ task ∈ r.tasks, task.wait = wait := by
  obtain ⟨id, -, mem⟩ := List.mem_flatMap.mp mem
  rcases List.mem_append.mp mem with mem | mem
  · obtain ⟨_, -, no⟩ := List.mem_map.mp mem
    cases no
  · obtain ⟨task, parked, same⟩ := List.mem_map.mp mem
    cases same
    exact ⟨task, List.mem_of_mem_filter parked, rfl⟩

theorem ne_of_mem_tasks (spare : id ∉ r.owners) : ∀ task ∈ r.tasks, task.chunk ≠ id := by
  rintro task mem rfl
  exact spare (List.mem_append_right _ (List.mem_map_of_mem mem))

theorem Owned.ne_of_not_isOpen (owned : r.Owned) (no : ¬ r.chunks.IsOpen id) : ∀ task ∈ r.tasks, task.chunk ≠ id := by
  rintro task mem rfl
  exact no (owned.2 _ (List.mem_append_right _ (List.mem_map_of_mem mem)))

/-- What comes to one chunk comes to the draft up to it, and the chunks behind it stay alike. -/
theorem draft_of_pieces (nodup : (before ++ id :: after).Nodup) (here : r'.pieces id = r.pieces id ++ added)
    (others : ∀ x, x ≠ id → r'.pieces x = r.pieces x) :
    r'.draft (before ++ [id]) = r.draft (before ++ [id]) ++ added ∧ ∀ x ∈ after, r'.pieces x = r.pieces x := by
  obtain ⟨-, nodup', disjoint⟩ := List.nodup_append.mp nodup
  have same : r'.draft before = r.draft before := draft_congr fun x mem => others x fun eq =>
    disjoint x mem id List.mem_cons_self eq
  refine ⟨?_, fun x mem => others x ?_⟩
  · rw [draft_append, draft_append, draft_singleton, draft_singleton, here, same, List.append_assoc]
  · rintro rfl
    exact (List.nodup_cons.mp nodup').1 mem

/-! ### Where the writer stands -/

/-- The chunk being written has these chunks before and behind it. -/
structure Stands (r : Render) (before : List ChunkId) (id : ChunkId) (after rest : List ChunkId) : Prop where
  writers : r.writers = id :: rest
  linked : r.chunks.Linked (before ++ id :: after)

theorem Sound.exists_stands (h : r.Sound) (writing : r.writers ≠ []) :
    ∃ before id after rest, Stands r before id after rest := by
  obtain ⟨id, rest, writers⟩ := List.exists_cons_of_ne_nil writing
  obtain ⟨ids, linked⟩ := h.linked
  obtain ⟨before, after, rfl⟩ := List.append_of_mem (linked.mem_of_isOpen (h.isOpen_writer writers))
  exact ⟨before, id, after, rest, writers, linked⟩

theorem append_cons_unique (nodup : (before ++ id :: after).Nodup)
    (same : before' ++ id :: after' = before ++ id :: after) :
    before' = before ∧ after' = after := by
  obtain ⟨-, nodup', disjoint⟩ := List.nodup_append.mp nodup
  have notBefore : id ∉ before := fun mem => disjoint id mem id List.mem_cons_self rfl
  have notAfter : id ∉ after := (List.nodup_cons.mp nodup').1
  obtain ⟨rfl, -, rfl⟩ := (List.append_cons_inj_of_notMem notBefore notAfter).mp same.symm
  exact ⟨rfl, rfl⟩

theorem Stands.unique (h : Stands r before id after rest) (h' : Stands r before' id' after' rest') :
    before' = before ∧ id' = id ∧ after' = after ∧ rest' = rest := by
  have writers := h'.writers
  rw [h.writers, List.cons.injEq] at writers
  obtain ⟨rfl, rfl⟩ := writers
  obtain ⟨rfl, rfl⟩ := append_cons_unique h.linked.nodup (h.linked.unique h'.linked)
  exact ⟨rfl, rfl, rfl, rfl⟩

/-! ### What is added where the writer stands -/

/-- Up to the writer something has been added; behind the writer all is as it was. -/
def Adds (r r' : Render) (added : Draft) : Prop := ∃ before id after rest before' id',
  Stands r before id after rest ∧ Stands r' before' id' after rest ∧
    r'.draft (before' ++ [id']) = r.draft (before ++ [id]) ++ added ∧ (∀ x ∈ after, r'.pieces x = r.pieces x) ∧
    r'.failed = r.failed

namespace Adds

theorem of_eq (h : r.Sound) (writing : r.writers ≠ []) (chunks : r'.chunks = r.chunks) (writers : r'.writers = r.writers)
    (tasks : r'.tasks = r.tasks) (failed : r'.failed = r.failed) : Adds r r' [] := by
  obtain ⟨before, id, after, rest, stands⟩ := h.exists_stands writing
  have same (x : ChunkId) : r'.pieces x = r.pieces x := pieces_congr (by rw [chunks]) tasks
  refine ⟨before, id, after, rest, before, id, stands, ⟨writers.trans stands.writers, chunks ▸ stands.linked⟩, ?_,
    fun x _ => same x, failed⟩
  rw [List.append_nil]
  exact draft_congr fun x _ => same x

theorem refl (h : r.Sound) (writing : r.writers ≠ []) : Adds r r [] := of_eq h writing rfl rfl rfl rfl

theorem trans (h : Adds r r' added) (h' : Adds r' r'' added') : Adds r r'' (added ++ added') := by
  obtain ⟨before, id, after, rest, before', id', stands, stands', drafted, behind, failed⟩ := h
  obtain ⟨_, _, _, _, before'', id'', start, stands'', drafted', behind', failed'⟩ := h'
  obtain ⟨rfl, rfl, rfl, rfl⟩ := stands'.unique start
  refine ⟨before, id, _, _, before'', id'', stands, stands'', ?_, fun x mem => (behind' x mem).trans (behind x mem),
    failed'.trans failed⟩
  rw [drafted', drafted, List.append_assoc]

theorem unique (h : Adds r r' added) (h' : Adds r r' added') : added' = added := by
  obtain ⟨before, id, after, rest, before', id', stands, stands', drafted, -⟩ := h
  obtain ⟨_, _, _, _, _, _, start, end', drafted', -⟩ := h'
  obtain ⟨rfl, rfl, rfl, rfl⟩ := stands.unique start
  obtain ⟨rfl, rfl, -⟩ := stands'.unique end'
  rw [drafted] at drafted'
  exact (List.append_cancel_left drafted').symm

theorem failed (h : Adds r r' added) : r'.failed = r.failed := by
  obtain ⟨_, _, _, _, _, _, _, _, _, _, failed⟩ := h
  exact failed

end Adds

theorem adds_write {text : String} (h : r.Sound) (writing : r.writers = id :: rest)
    (done : r.chunks.write id text = .ok cs) : Adds r { r with chunks := cs } (Draft.ofText text) := by
  obtain ⟨before, id', after, rest', stands⟩ := h.exists_stands (writing ▸ List.cons_ne_nil _ _)
  have writers := stands.writers
  rw [writing, List.cons.injEq] at writers
  obtain ⟨rfl, rfl⟩ := writers
  have others : ∀ x, x ≠ id → pieces { r with chunks := cs } x = r.pieces x := fun x ne =>
    pieces_congr (by rw [Chunks.textAt_write done, if_neg ne]) rfl
  -- Running code, not parked work, owns the chunk that is written.
  have text' : ∀ task ∈ r.tasks, task.chunk ≠ id := by
    have owned := h.owned.1
    unfold owners at owned
    rw [writing, List.cons_append] at owned
    rintro task mem rfl
    exact (List.nodup_cons.mp owned).1 (List.mem_append_right _ (List.mem_map_of_mem mem))
  have here : pieces { r with chunks := cs } id = r.pieces id ++ Draft.ofText text := by
    rw [pieces_of_no_task text', pieces_of_no_task (r := { r with chunks := cs }) text', Chunks.textAt_write done,
      if_pos rfl, Draft.ofText_append]
  obtain ⟨drafted, behind⟩ := draft_of_pieces stands.linked.nodup here others
  exact ⟨before, id, after, rest, before, id, stands, ⟨writing, stands.linked.write done⟩, drafted, behind, rfl⟩

/-- Code that goes on in a new chunk stands in an empty chunk directly behind the one it keeps, and has added nothing. -/
theorem adds_reserve (h : r.Sound) (stands : Stands r before id after rest)
    (done : r.chunks.insertAfter id = .ok (new, cs)) (chunks : r'.chunks = cs) (writers : r'.writers = new :: r.writers.tail) (tasks : r'.tasks = r.tasks)
    (failed : r'.failed = r.failed) :
    Stands r' (before ++ [id]) new after rest ∧ r'.pieces new = [] ∧ Adds r r' [] := by
  have same (x : ChunkId) : r'.pieces x = r.pieces x :=
    pieces_congr (by rw [chunks, Chunks.textAt_insertAfter done]) tasks
  have fresh : ¬ r.chunks.IsOpen new := Chunks.not_isOpen_new_of_insertAfter done
  have empty : r.pieces new = [] := by
    obtain ⟨c, -, rfl, -⟩ := Chunks.insertAfter_eq_ok.mp done
    rw [pieces_of_no_task (h.owned.ne_of_not_isOpen fresh), Chunks.textAt, Array.getElem?_eq_none (Nat.le_refl _)]
    rfl
  have stands' : Stands r' (before ++ [id]) new after rest := by
    refine ⟨?_, ?_⟩
    · rw [writers, stands.writers, List.tail_cons]
    · rw [chunks, List.append_assoc]
      exact stands.linked.insertAfter (h.isOpen_writer stands.writers) done
  refine ⟨stands', (same new).trans empty, before, id, after, rest, before ++ [id], new, stands, stands', ?_,
    fun x _ => same x, failed⟩
  rw [List.append_nil, draft_append, draft_singleton, same, empty, List.append_nil]
  exact draft_congr fun x _ => same x

/-! ### What is put in at a chunk -/

/-- At the end of a chunk something has been put in; the writers are as they were. -/
def Inserts (r r' : Render) (id : ChunkId) (added : Draft) : Prop := ∃ before after ahead,
  r.chunks.Linked (before ++ id :: after) ∧ r'.chunks.Linked (ahead ++ after) ∧
    r'.draft ahead = r.draft (before ++ [id]) ++ added ∧ (∀ x ∈ after, r'.pieces x = r.pieces x) ∧
    r'.writers = r.writers ∧ r'.failed = r.failed

theorem Inserts.failed (h : Inserts r r' id added) : r'.failed = r.failed := by
  obtain ⟨_, _, _, _, _, _, _, _, failed⟩ := h
  exact failed

/-- What code adds that runs in a chunk of its own is put in there, also where the code comes back and the chunk that it
    leaves off in does not end. -/
theorem inserts_of_adds_left (h : Adds { r with writers := id :: r.writers } r' added) :
    Inserts r { r' with writers := r'.writers.tail } id added := by
  obtain ⟨before, first, after, others, before', last, stands, stands', drafted, behind, failed⟩ := h
  have entered := stands.writers
  rw [List.cons.injEq] at entered
  obtain ⟨rfl, rfl⟩ := entered
  have left : r'.writers.tail = r.writers := by
    rw [stands'.writers, List.tail_cons]
  refine ⟨before, after, before' ++ [last], stands.linked, ?_, drafted, behind, left, failed⟩
  rw [List.append_assoc]
  exact stands'.linked

/-- The end of a chunk changes nothing in what has been put in. -/
theorem Inserts.finish (h : Inserts r r' id added) (done : r'.chunks.finish id' = .ok cs) :
    Inserts r { r' with chunks := cs } id added := by
  obtain ⟨before, after, ahead, linked, linked', drafted, behind, writers, failed⟩ := h
  have same (x : ChunkId) : pieces { r' with chunks := cs } x = r'.pieces x :=
    pieces_congr (Chunks.textAt_finish done x) rfl
  exact ⟨before, after, ahead, linked, linked'.finish done, (draft_congr fun x _ => same x).trans drafted,
    fun x mem => (same x).trans (behind x mem), writers, failed⟩

/-- What code adds that runs in a chunk of its own is put in there. -/
theorem inserts_of_adds (h : Adds { r with writers := id :: r.writers } r' added)
    (done : r'.chunks.finish id' = .ok cs) :
    Inserts r { r' with chunks := cs, writers := r'.writers.tail } id added :=
  (inserts_of_adds_left h).finish done

/-- What is put in directly before an empty chunk being written, is added there. -/
theorem Inserts.adds (h : Inserts r r' id added) (stands : Stands r (before ++ [id]) new after rest)
    (empty : r.pieces new = []) : Adds r r' added := by
  obtain ⟨before', after', ahead, linked, linked', drafted, behind, writers, failed⟩ := h
  have same : before' ++ id :: after' = before ++ id :: new :: after := by
    rw [stands.linked.unique linked, List.append_assoc, List.singleton_append]
  have nodup := stands.linked.nodup
  rw [List.append_assoc] at nodup
  obtain ⟨rfl, rfl⟩ := append_cons_unique nodup same
  refine ⟨before' ++ [id], new, after, rest, ahead, new, stands, ⟨writers.trans stands.writers, linked'⟩, ?_,
    fun x mem => behind x (List.mem_cons_of_mem _ mem), failed⟩
  rw [draft_append, draft_append _ (before' ++ [id]), draft_singleton, draft_singleton, drafted,
    behind new List.mem_cons_self, empty, List.append_nil, List.append_nil]

/-- Chunks may stay as they are while something is put in. -/
theorem inserts_of_pieces (linked : r.chunks.Linked ids) (isOpen : r.chunks.IsOpen id) (chunks : r'.chunks = r.chunks)
    (here : r'.pieces id = r.pieces id ++ added) (others : ∀ x, x ≠ id → r'.pieces x = r.pieces x)
    (writers : r'.writers = r.writers) (failed : r'.failed = r.failed) : Inserts r r' id added := by
  obtain ⟨before, after, rfl⟩ := List.append_of_mem (linked.mem_of_isOpen isOpen)
  obtain ⟨drafted, behind⟩ := draft_of_pieces linked.nodup here others
  refine ⟨before, after, before ++ [id], linked, ?_, drafted, behind, writers, failed⟩
  rw [chunks, List.append_assoc]
  exact linked

theorem inserts_park (linked : r.chunks.Linked ids) (spare : r.Spare id) :
    Inserts r { r with tasks := r.tasks ++ [⟨id, wait⟩] } id [.gap wait] := by
  refine inserts_of_pieces linked spare.1 rfl ?_ (fun x ne => ?_) rfl rfl
  · unfold pieces
    dsimp only
    rw [List.filter_append, List.filter_cons_of_pos (by simp), List.filter_nil, List.map_append, List.append_assoc]
    rfl
  · unfold pieces
    dsimp only
    rw [List.filter_append, List.filter_cons_of_neg (by simpa using Ne.symm ne), List.filter_nil, List.append_nil]

/-- A task stands for a gap at the end of its chunk. -/
theorem inserts_task {index : Nat} {task : Task} (h : r.Sound) (found : r.tasks[index]? = some task) :
    Inserts { r with tasks := r.tasks.eraseIdx index } r task.chunk [.gap task.wait] := by
  obtain ⟨-, spare⟩ := h.remove found
  obtain ⟨ids, linked⟩ := h.linked
  obtain ⟨front, back, tasks, erased⟩ : ∃ front back, r.tasks = front ++ task :: back ∧
      r.tasks.eraseIdx index = front ++ back := by
    obtain ⟨lt, rfl⟩ := List.getElem?_eq_some_iff.mp found
    refine ⟨r.tasks.take index, r.tasks.drop (index + 1), ?_, List.eraseIdx_eq_take_drop_succ ..⟩
    rw [List.getElem_cons_drop, List.take_append_drop]
  refine inserts_of_pieces (r := { r with tasks := r.tasks.eraseIdx index }) linked spare.1 rfl ?_ (fun x ne => ?_) rfl rfl
  · have none : ∀ other ∈ front ++ back, other.chunk ≠ task.chunk := erased ▸ ne_of_mem_tasks spare.2
    have nil : (front ++ back).filter (·.chunk == task.chunk) = [] :=
      List.filter_eq_nil_iff.mpr fun other mem => by simpa using none other mem
    obtain ⟨nil₁, nil₂⟩ := List.append_eq_nil_iff.mp (List.filter_append .. ▸ nil)
    unfold pieces
    dsimp only
    rw [erased, tasks, List.filter_append, List.filter_append, List.filter_cons_of_pos (by simp), nil₁, nil₂]
    simp
  · unfold pieces
    dsimp only
    rw [erased, tasks, List.filter_append, List.filter_append, List.filter_cons_of_neg (by simpa using Ne.symm ne)]

/-- What is put in at a chunk stands in the whole draft at the place of the chunk. -/
theorem Inserts.draft (h : Inserts r r' id added) (linked : r.chunks.Linked (before ++ id :: after)) :
    ∃ ids', r'.chunks.Linked ids' ∧ r'.draft ids' = r.draft (before ++ [id]) ++ added ++ r.draft after := by
  obtain ⟨before', after', ahead, linked', linked'', drafted, behind, -, -⟩ := h
  obtain ⟨rfl, rfl⟩ := append_cons_unique linked.nodup (linked.unique linked')
  refine ⟨ahead ++ after', linked'', ?_⟩
  rw [draft_append, drafted, draft_congr behind]

/-- What code adds to a new render is the whole draft of it. -/
theorem draft_root {config : Config} (h : Adds { config, writers := [Chunks.root] } r' added)
    (done : r'.chunks.finish id' = .ok cs) :
    ∃ ids, cs.Linked ids ∧ draft { r' with chunks := cs, writers := r'.writers.tail } ids = added := by
  have root : Chunks.Linked { config : Render }.chunks ([] ++ Chunks.root :: []) := Chunks.Linked.ofNew
  obtain ⟨ids, linked, drafted⟩ := (inserts_of_adds (r := { config }) h done).draft root
  have first : draft { config } ([] ++ [Chunks.root]) = [] := rfl
  rw [first, List.nil_append] at drafted
  exact ⟨ids, linked, drafted.trans (List.append_nil _)⟩

/-- Where code that ran in a new render leaves no work behind, nothing is open once it has ended. -/
theorem openCount_root {config : Config} (kept : Kept { config, writers := [Chunks.root] } r')
    (done : r'.chunks.finish id' = .ok cs) (writing : r'.writers = id' :: rest) (tasks : r'.tasks = [])
    (failed : r'.failed = []) : cs.openCount = 0 := by
  have before : Render.spares { config, writers := [Chunks.root] } = 0 := rfl
  have spares := (spares_finish writing done).trans (kept.spares.trans before)
  have left : r'.writers.tail = [] := kept.behind
  unfold Render.spares at spares
  change (cs.openCount : Int) - r'.writers.tail.length - r'.tasks.length - r'.failed.length = 0 at spares
  rw [left, tasks, failed] at spares
  simpa using spares

/-! ### What comes off the front -/

/-- A flush takes the front of the draft, and leaves the rest. -/
theorem Sound.draft_flush (h : r.Sound) (linked : r.chunks.Linked ids) :
    r.draft ids = Draft.ofText r.chunks.flush.1 ++ draft { r with chunks := r.chunks.flush.2 } ids := by
  obtain ⟨-, gone, taken, left, rfl, ended, t⟩ := linked.flush
  obtain ⟨nodup, -, disjoint⟩ := List.nodup_append.mp linked.nodup
  obtain ⟨-, -, disjoint'⟩ := List.nodup_append.mp nodup
  let r' : Render := { r with chunks := r.chunks.flush.2 }
  have pieces_others : ∀ x ∉ taken, r'.pieces x = r.pieces x := fun x notMem =>
    pieces_congr (by unfold Chunks.textAt; rw [show r'.chunks.slots[x]? = _ from t.slots x, if_neg notMem]) rfl
  have gone_nil : r.draft gone = [] := List.flatMap_eq_nil_iff.mpr fun x mem => by
    obtain ⟨c, get, ended', empty⟩ := ended x mem
    rw [pieces_of_no_task (h.owned.ne_of_not_isOpen (Chunks.not_isOpen_of_ended get ended')),
      Chunks.textAt_of_get get, empty]
    rfl
  have taken_text : r.draft taken = Draft.ofText r.chunks.flush.1 := by
    unfold Draft.ofText
    rw [t.text, List.map_flatMap]
    refine List.flatMap_congr fun x mem => ?_
    obtain ⟨c, get, ended'⟩ := t.ended x mem
    exact pieces_of_no_task (h.owned.ne_of_not_isOpen (Chunks.not_isOpen_of_ended get ended'))
  have taken_nil : r'.draft taken = [] := List.flatMap_eq_nil_iff.mpr fun x mem => by
    obtain ⟨c, get, ended'⟩ := t.ended x mem
    have text : r'.chunks.textAt x = "" := by
      unfold Chunks.textAt
      rw [show r'.chunks.slots[x]? = _ from t.slots x, if_pos mem, get]
      rfl
    have none : ∀ task ∈ r'.tasks, task.chunk ≠ x :=
      h.owned.ne_of_not_isOpen (Chunks.not_isOpen_of_ended get ended')
    rw [pieces_of_no_task none, text]
    rfl
  have gone_same : r'.draft gone = r.draft gone :=
    draft_congr fun x mem => pieces_others x fun mem' => disjoint' x mem x mem' rfl
  have left_same : r'.draft left = r.draft left :=
    draft_congr fun x mem => pieces_others x fun mem' => disjoint x (List.mem_append_right _ mem') x mem rfl
  show r.draft _ = _ ++ r'.draft _
  rw [draft_append, draft_append, draft_append, draft_append, gone_same, gone_nil, taken_text, taken_nil, left_same]
  rfl

theorem Sound.draft_eq_flush (h : r.Sound) (none : r.chunks.openCount = 0) (linked : r.chunks.Linked ids) :
    r.draft ids = Draft.ofText r.chunks.flush.1 := by
  have empty : draft { r with chunks := r.chunks.flush.2 } ids = [] := by
    obtain ⟨flushed, -⟩ := linked.flush
    obtain ⟨taken, left, rfl, chain, ended⟩ := flushed.front
    have head : r.chunks.flush.2.head = Option.none :=
      Option.isNone_iff_eq_none.mp (linked.isFlushed_flush.mpr none)
    rw [head] at chain
    cases chain
    rw [List.append_nil]
    refine List.flatMap_eq_nil_iff.mpr fun x mem => ?_
    obtain ⟨c, get, ended', text⟩ := ended x mem
    have owned := h.flushed.owned
    rw [pieces_of_no_task (owned.ne_of_not_isOpen (Chunks.not_isOpen_of_ended get ended')), Chunks.textAt_of_get get, text]
    rfl
  rw [h.draft_flush linked, empty, List.append_nil]

end Render
end Stencil
