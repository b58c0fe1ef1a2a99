import Mathlib.Data.Fintype.EquivFin
import Mathlib.Data.List.InsertIdx
import Stencil.Proofs.Render.Drafts

/-! Drafts with labelled gaps. What parked work waits for does not tell two pieces of work apart, the chunks kept for them
    do; with a label for each chunk the gaps of two drafts can be compared one by one. -/

namespace Stencil.Render

variable {r r' r'' : Render} {label label' : ChunkId → Wait} {id new : ChunkId} {cs : Chunks} {task : Task} {index : Nat}
  {before after rest : List ChunkId}

/-- The render with each piece of parked work waiting for the label of its chunk. -/
def labelled (label : ChunkId → Wait) (r : Render) : Render :=
  { r with tasks := r.tasks.map fun task => ⟨task.chunk, label task.chunk⟩ }

theorem owners_labelled (label : ChunkId → Wait) (r : Render) : (r.labelled label).owners = r.owners := by
  unfold owners labelled
  rw [List.map_map]
  rfl

theorem Sound.labelled (h : r.Sound) (label : ChunkId → Wait) : (r.labelled label).Sound := by
  refine ⟨?_, h.linked⟩
  unfold Owned
  rw [owners_labelled]
  exact h.owned

theorem Spare.labelled (h : r.Spare id) (label : ChunkId → Wait) : (r.labelled label).Spare id :=
  ⟨h.1, by rw [owners_labelled]; exact h.2⟩

theorem parked_labelled (label : ChunkId → Wait) (r : Render) :
    (r.labelled label).parked = r.tasks.map (label ·.chunk) := List.map_map

theorem labelled_park (label : ChunkId → Wait) (r : Render) (task : Task) :
    labelled label { r with tasks := r.tasks ++ [task] } =
      { r.labelled label with tasks := (r.labelled label).tasks ++ [⟨task.chunk, label task.chunk⟩] } := by
  unfold labelled
  dsimp only
  rw [List.map_append, List.map_singleton]

/-- The render without the work parked at a place of the list. -/
abbrev without (index : Nat) (r : Render) : Render := { r with tasks := r.tasks.eraseIdx index }

theorem labelled_without (label : ChunkId → Wait) (r : Render) (index : Nat) :
    (r.without index).labelled label = (r.labelled label).without index := by
  unfold labelled without
  dsimp only
  rw [List.eraseIdx_map]

theorem labelled_congr (same : ∀ task ∈ r.tasks, label' task.chunk = label task.chunk) :
    r.labelled label' = r.labelled label := by
  unfold labelled
  rw [List.map_congr_left fun task mem => by rw [same task mem]]

theorem labelled_of_no_task (none : r.tasks = []) (label : ChunkId → Wait) : r.labelled label = r := by
  unfold labelled
  rw [none, List.map_nil, ← none]

/-- Labels that agree on all tasks of two renders agree on those in front. -/
theorem labels_of_front {q q' : Render} (more : r.tasks <+: r'.tasks) (more' : q.tasks <+: q'.tasks)
    (length : q.tasks.length = r.tasks.length) (labels : (q'.labelled label').parked = (r'.labelled label).parked) :
    (q.labelled label').parked = (r.labelled label).parked := by
  obtain ⟨new, more⟩ := more
  obtain ⟨new', more'⟩ := more'
  rw [parked_labelled, parked_labelled] at labels ⊢
  rw [← more, ← more', List.map_append, List.map_append] at labels
  exact (List.append_inj labels (by rw [List.length_map, List.length_map, length])).1

theorem labels_of_length {q : Render} (length : q.tasks.length = r.tasks.length) (wait : Wait) :
    (q.labelled fun _ => wait).parked = (r.labelled fun _ => wait).parked := by
  rw [parked_labelled, parked_labelled, List.map_const', List.map_const', length]

/-- A label that none of these is. -/
theorem exists_label (waits : List Wait) : ∃ wait, wait ∉ waits := by
  classical
  have : Infinite Wait := .of_injective (fun name => .load name {}) fun _ _ same => by cases same; rfl
  obtain ⟨wait, fresh⟩ := Infinite.exists_notMem_finset waits.toFinset
  exact ⟨wait, by simpa using fresh⟩

/-- A place has been kept in the output: the code goes on in an empty chunk directly behind, so that what is put in at the
    place is added where the code stands. -/
structure Reserves (r r' : Render) (id : ChunkId) : Prop where
  sound : r'.Sound
  spare : r'.Spare id
  tasks : r'.tasks = r.tasks
  adds {label : ChunkId → Wait} {r'' : Render} {added : Draft} : Inserts (r'.labelled label) r'' id added →
    Adds (r.labelled label) r'' added

theorem reserves (sound : r.Sound) (writing : r.writers = id :: rest) (done : r.chunks.insertAfter id = .ok (new, cs))
    (chunks : r'.chunks = cs) (writers : r'.writers = new :: r.writers.tail) (tasks : r'.tasks = r.tasks)
    (failed : r'.failed = r.failed) : Reserves r r' id := by
  obtain ⟨reserved, spare⟩ := sound.reserve writing done
  have owners : r'.owners = owners { r with chunks := cs, writers := new :: r.writers.tail } := by
    unfold Render.owners
    rw [writers, tasks]
  refine ⟨⟨?_, ?_⟩, ⟨?_, ?_⟩, tasks, fun {label r'' added} inserts => ?_⟩
  · unfold Owned
    rw [owners, chunks]
    exact reserved.owned
  · rw [chunks]
    exact reserved.linked
  · rw [chunks]
    exact spare.1
  · rw [owners]
    exact spare.2
  obtain ⟨before, id', after, rest', stands⟩ := (sound.labelled label).exists_stands (writing ▸ List.cons_ne_nil _ _)
  have same := stands.writers
  change r.writers = _ at same
  rw [writing, List.cons.injEq] at same
  obtain ⟨rfl, rfl⟩ := same
  have named : (r'.labelled label).tasks = (r.labelled label).tasks := by
    unfold labelled
    rw [tasks]
  obtain ⟨stands', empty, adds⟩ : Stands (r'.labelled label) (before ++ [id]) new after rest ∧
      (r'.labelled label).pieces new = [] ∧ Adds (r.labelled label) (r'.labelled label) [] :=
    adds_reserve (sound.labelled label) stands done chunks writers named failed
  exact adds.trans (inserts.adds stands' empty)

end Stencil.Render
