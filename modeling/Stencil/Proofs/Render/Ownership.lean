import Mathlib.Data.List.Nodup
import Stencil.Render.Drive
import Stencil.Proofs.Render.Links

/-! Who may write where. Running code and parked work own the chunks they write to: each of these chunks is open and has
    one owner. What became of work put off is counted, so that none is lost or done twice. -/

namespace Stencil

namespace Entry

def deferred? : Entry → Option Wait
  | .deferred wait => some wait
  | _ => none

def taken? : Entry → Option Wait
  | .taken wait => some wait
  | _ => none

def finished? : Entry → Option Wait
  | .finished wait => some wait
  | _ => none

def failed? : Entry → Option Wait
  | .failed wait => some wait
  | _ => none

end Entry

namespace Render

/-- The chunks that running code and parked work write to. -/
def owners (r : Render) : List ChunkId := r.writers ++ r.tasks.map (·.chunk)

/-- Every such chunk exists, is open, and belongs to one writer or one piece of parked work. -/
def Owned (r : Render) : Prop := r.owners.Nodup ∧ ∀ id ∈ r.owners, r.chunks.IsOpen id

structure Sound (r : Render) : Prop where
  owned : r.Owned
  linked : ∃ ids, r.chunks.Linked ids

/-- An open chunk without an owner. -/
def Spare (r : Render) (id : ChunkId) : Prop := r.chunks.IsOpen id ∧ id ∉ r.owners

/-- The waits put off, taken up, ended well and ended badly, and those of the parked work. -/
def deferred (r : Render) : List Wait := r.journal.filterMap Entry.deferred?

def taken (r : Render) : List Wait := r.journal.filterMap Entry.taken?

def finished (r : Render) : List Wait := r.journal.filterMap Entry.finished?

def failed (r : Render) : List Wait := r.journal.filterMap Entry.failed?

def parked (r : Render) : List Wait := r.tasks.map (·.wait)

/-- The number of open chunks that nobody owns and no failed work has left behind. -/
def spares (r : Render) : Int := r.chunks.openCount - r.writers.length - r.tasks.length - r.failed.length

/-- The number of waits, among those chosen, that are put off but neither parked nor taken up. -/
def limbo (r : Render) (p : Wait → Bool) : Int := r.deferred.countP p - r.parked.countP p - r.taken.countP p

/-- The number of waits, among those chosen, whose work is going on. -/
def running (r : Render) (p : Wait → Bool) : Int := r.taken.countP p - r.finished.countP p - r.failed.countP p

def weight (p : Wait → Bool) (wait : Wait) : Int := if p wait then 1 else 0

variable {r r' r'' : Render} {cs : Chunks} {id new : ChunkId} {rest : List ChunkId} {wait : Wait} {task : Task}
  {p : Wait → Bool} {text : String} {index : Nat}

/-! ### Owners -/

theorem mem_owners (writing : r.writers = id :: rest) : id ∈ r.owners := by
  unfold owners
  rw [writing]
  exact List.mem_append_left _ List.mem_cons_self

/-- A render that has just begun has the root to spare. -/
theorem sound_new (config : Config) : Sound { config } ∧ Spare { config } Chunks.root :=
  ⟨⟨⟨List.nodup_nil, by simp [owners]⟩, _, Chunks.Linked.ofNew⟩, ⟨{}, rfl, rfl⟩, by simp [owners]⟩

namespace Sound

theorem isOpen_writer (h : r.Sound) (writing : r.writers = id :: rest) : r.chunks.IsOpen id :=
  h.owned.2 id (mem_owners writing)

theorem write (h : r.Sound) (done : r.chunks.write id text = .ok cs) : Sound { r with chunks := cs } := by
  obtain ⟨ids, linked⟩ := h.linked
  exact ⟨⟨h.owned.1, fun other mem => (h.owned.2 other mem).write done⟩, ids, linked.write done⟩

theorem reserve (h : r.Sound) (writing : r.writers = id :: rest) (done : r.chunks.insertAfter id = .ok (new, cs)) :
    Sound { r with chunks := cs, writers := new :: r.writers.tail } ∧
      Spare { r with chunks := cs, writers := new :: r.writers.tail } id := by
  obtain ⟨ids, linked⟩ := h.linked
  have isOpen := h.isOpen_writer writing
  obtain ⟨before, after, rfl⟩ := List.append_of_mem (linked.mem_of_isOpen isOpen)
  have owned := h.owned
  unfold Owned owners at owned
  rw [writing, List.cons_append] at owned
  obtain ⟨nodup, allOpen⟩ := owned
  obtain ⟨notMem, nodup⟩ := List.nodup_cons.mp nodup
  have fresh : new ∉ rest ++ r.tasks.map (·.chunk) := fun mem =>
    Chunks.not_isOpen_new_of_insertAfter done (allOpen new (List.mem_cons_of_mem _ mem))
  have newId : id ≠ new := by
    rintro rfl
    exact Chunks.not_isOpen_new_of_insertAfter done isOpen
  have owners : owners { r with chunks := cs, writers := new :: r.writers.tail } =
      new :: (rest ++ r.tasks.map (·.chunk)) := by
    simp [Render.owners, writing]
  refine ⟨⟨⟨?_, ?_⟩, _, linked.insertAfter isOpen done⟩, isOpen.insertAfter done, ?_⟩
  · rw [owners]
    exact List.nodup_cons.mpr ⟨fresh, nodup⟩
  · rw [owners]
    intro other mem
    rcases List.mem_cons.mp mem with rfl | mem
    · exact Chunks.isOpen_new_of_insertAfter done
    · exact (allOpen other (List.mem_cons_of_mem _ mem)).insertAfter done
  · rw [owners, List.mem_cons]
    rintro (same | mem)
    · exact newId same
    · exact notMem mem

theorem park (h : r.Sound) (spare : r.Spare task.chunk) : Sound { r with tasks := r.tasks ++ [task] } := by
  have owners : owners { r with tasks := r.tasks ++ [task] } = r.owners ++ [task.chunk] := by
    simp [Render.owners]
  refine ⟨⟨?_, ?_⟩, h.linked⟩
  · rw [owners, ← List.concat_eq_append]
    exact h.owned.1.concat spare.2
  · rw [owners]
    intro other mem
    rcases List.mem_append.mp mem with mem | mem
    · exact h.owned.2 other mem
    · cases List.mem_singleton.mp mem
      exact spare.1

theorem enter (h : r.Sound) (spare : r.Spare id) : Sound { r with writers := id :: r.writers } := by
  refine ⟨⟨List.nodup_cons.mpr ⟨spare.2, h.owned.1⟩, fun other mem => ?_⟩, h.linked⟩
  rcases List.mem_cons.mp mem with rfl | mem
  · exact spare.1
  · exact h.owned.2 other mem

theorem leave (h : r.Sound) (writing : r.writers = id :: rest) :
    Sound { r with writers := r.writers.tail } ∧ Spare { r with writers := r.writers.tail } id := by
  have owned := h.owned
  unfold Owned owners at owned
  rw [writing, List.cons_append] at owned
  obtain ⟨nodup, allOpen⟩ := owned
  obtain ⟨notMem, nodup⟩ := List.nodup_cons.mp nodup
  have owners : owners { r with writers := r.writers.tail } = rest ++ r.tasks.map (·.chunk) := by
    simp [Render.owners, writing]
  refine ⟨⟨⟨?_, ?_⟩, h.linked⟩, allOpen id List.mem_cons_self, ?_⟩
  · rw [owners]
    exact nodup
  · rw [owners]
    exact fun other mem => allOpen other (List.mem_cons_of_mem _ mem)
  · rw [owners]
    exact notMem

theorem finish (h : r.Sound) (writing : r.writers = id :: rest) (done : r.chunks.finish id = .ok cs) :
    Sound { r with chunks := cs, writers := r.writers.tail } := by
  obtain ⟨left, -, notMem⟩ := h.leave writing
  obtain ⟨ids, linked⟩ := h.linked
  refine ⟨⟨left.owned.1, fun other mem => (left.owned.2 other mem).finish done ?_⟩, ids, linked.finish done⟩
  rintro rfl
  exact notMem mem

theorem remove (h : r.Sound) (found : r.tasks[index]? = some task) :
    Sound { r with tasks := r.tasks.eraseIdx index } ∧ Spare { r with tasks := r.tasks.eraseIdx index } task.chunk := by
  obtain ⟨lt, rfl⟩ := List.getElem?_eq_some_iff.mp found
  have perm : (r.tasks[index].chunk :: (r.writers ++ (r.tasks.eraseIdx index).map (·.chunk))).Perm r.owners := by
    refine List.perm_middle.symm.trans (List.Perm.append_left r.writers ?_)
    exact (List.getElem_cons_eraseIdx_perm lt).map (·.chunk)
  obtain ⟨notMem, nodup⟩ := List.nodup_cons.mp (perm.nodup_iff.mpr h.owned.1)
  exact ⟨⟨⟨nodup, fun other mem => h.owned.2 other (perm.subset (List.mem_cons_of_mem _ mem))⟩, h.linked⟩,
    h.owned.2 _ (perm.subset List.mem_cons_self), notMem⟩

theorem flushed (h : r.Sound) : Sound { r with chunks := r.chunks.flush.2 } := by
  obtain ⟨ids, linked⟩ := h.linked
  exact ⟨⟨h.owned.1, fun id mem => (h.owned.2 id mem).of_eq (linked.ended_flush id)⟩, ids, linked.flush.1⟩

end Sound

/-! ### Accounts -/

theorem spares_write (done : r.chunks.write id text = .ok cs) : spares { r with chunks := cs } = r.spares := by
  unfold spares failed
  dsimp only
  rw [Chunks.openCount_write done]

theorem spares_reserve (h : r.Sound) (writing : r.writers = id :: rest)
    (done : r.chunks.insertAfter id = .ok (new, cs)) :
    spares { r with chunks := cs, writers := new :: r.writers.tail } = r.spares + 1 := by
  have count := Chunks.openCount_insertAfter (h.isOpen_writer writing) done
  unfold spares failed
  dsimp only
  rw [count, writing, List.tail_cons, List.length_cons, List.length_cons]
  omega

theorem spares_park : spares { r with tasks := r.tasks ++ [task] } = r.spares - 1 := by
  unfold spares failed
  dsimp only
  rw [List.length_append, List.length_singleton]
  omega

theorem spares_enter : spares { r with writers := id :: r.writers } = r.spares - 1 := by
  unfold spares failed
  dsimp only
  rw [List.length_cons]
  omega

theorem spares_leave (writing : r.writers = id :: rest) :
    spares { r with writers := r.writers.tail } = r.spares + 1 := by
  unfold spares failed
  dsimp only
  rw [writing, List.tail_cons, List.length_cons]
  omega

theorem spares_finish (writing : r.writers = id :: rest) (done : r.chunks.finish id = .ok cs) :
    spares { r with chunks := cs, writers := r.writers.tail } = r.spares := by
  have count := Chunks.openCount_finish done
  unfold spares failed
  dsimp only
  rw [← count, writing, List.tail_cons, List.length_cons]
  omega

theorem spares_remove (found : r.tasks[index]? = some task) :
    spares { r with tasks := r.tasks.eraseIdx index } = r.spares + 1 := by
  obtain ⟨lt, rfl⟩ := List.getElem?_eq_some_iff.mp found
  have length := List.length_eraseIdx_add_one lt
  unfold spares failed
  dsimp only
  omega

theorem limbo_park : limbo { r with tasks := r.tasks ++ [task] } p = r.limbo p - weight p task.wait := by
  unfold limbo parked weight deferred taken
  dsimp only
  rw [List.map_append, List.countP_append, List.map_singleton, List.countP_singleton]
  split <;> omega

theorem limbo_remove (found : r.tasks[index]? = some task) :
    limbo { r with tasks := r.tasks.eraseIdx index } p = r.limbo p + weight p task.wait := by
  obtain ⟨lt, rfl⟩ := List.getElem?_eq_some_iff.mp found
  have count := ((List.getElem_cons_eraseIdx_perm lt).map fun t : Task => t.wait).countP_eq p
  rw [List.map_cons, List.countP_cons] at count
  unfold limbo parked weight deferred taken
  dsimp only at count ⊢
  by_cases chosen : p r.tasks[index].wait = true
  · rw [if_pos chosen] at count ⊢
    omega
  · rw [if_neg chosen] at count ⊢
    omega

theorem limbo_deferred : limbo { r with journal := .deferred wait :: r.journal } p = r.limbo p + weight p wait := by
  have deferred : deferred { r with journal := .deferred wait :: r.journal } = wait :: r.deferred := rfl
  have taken : taken { r with journal := .deferred wait :: r.journal } = r.taken := rfl
  unfold limbo weight
  rw [deferred, taken, List.countP_cons]
  show (_ : Int) - r.parked.countP p - _ = _
  split <;> omega

theorem limbo_taken : limbo { r with journal := .taken wait :: r.journal } p = r.limbo p - weight p wait := by
  have deferred : deferred { r with journal := .taken wait :: r.journal } = r.deferred := rfl
  have taken : taken { r with journal := .taken wait :: r.journal } = wait :: r.taken := rfl
  unfold limbo weight
  rw [deferred, taken, List.countP_cons]
  show (_ : Int) - r.parked.countP p - _ = _
  split <;> omega

theorem running_taken : running { r with journal := .taken wait :: r.journal } p = r.running p + weight p wait := by
  have taken : taken { r with journal := .taken wait :: r.journal } = wait :: r.taken := rfl
  unfold running weight
  rw [taken, List.countP_cons]
  show (_ : Int) - r.finished.countP p - r.failed.countP p = _
  split <;> omega

theorem running_finished :
    running { r with journal := .finished wait :: r.journal } p = r.running p - weight p wait := by
  have finished : finished { r with journal := .finished wait :: r.journal } = wait :: r.finished := rfl
  unfold running weight
  rw [finished, List.countP_cons]
  show (r.taken.countP p : Int) - _ - r.failed.countP p = _
  split <;> omega

theorem running_failed : running { r with journal := .failed wait :: r.journal } p = r.running p - weight p wait := by
  have failed : failed { r with journal := .failed wait :: r.journal } = wait :: r.failed := rfl
  unfold running weight
  rw [failed, List.countP_cons]
  show (r.taken.countP p : Int) - r.finished.countP p - _ = _
  split <;> omega

theorem spares_failed : spares { r with journal := .failed wait :: r.journal } = r.spares - 1 := by
  have failed : failed { r with journal := .failed wait :: r.journal } = wait :: r.failed := rfl
  unfold spares
  rw [failed, List.length_cons]
  dsimp only
  omega

/-! ### What running code keeps -/

/-- Two renders agree in their settings, in what has been told, and in the accounts of the work put off. -/
structure Alike (r r' : Render) : Prop where
  config : r'.config = r.config
  events : r'.events = r.events
  progress : r'.progress = r.progress
  limbo (p : Wait → Bool) : r'.limbo p = r.limbo p
  running (p : Wait → Bool) : r'.running p = r.running p

/-- Code that writes at the front of the writers has run: it has left the others alone. -/
structure Kept (r r' : Render) : Prop where
  sound : r'.Sound
  writing : r'.writers ≠ []
  behind : r'.writers.tail = r.writers.tail
  spares : r'.spares = r.spares
  alike : Alike r r'

theorem Alike.refl (r : Render) : Alike r r := ⟨rfl, rfl, rfl, fun _ => rfl, fun _ => rfl⟩

theorem Alike.of_eq (config : r'.config = r.config) (events : r'.events = r.events)
    (progress : r'.progress = r.progress) (journal : r'.journal = r.journal) (tasks : r'.tasks = r.tasks) :
    Alike r r' where
  config := config
  events := events
  progress := progress
  limbo p := by
    unfold Render.limbo deferred parked taken
    rw [journal, tasks]
  running p := by
    unfold Render.running taken finished failed
    rw [journal]

theorem Alike.trans (h : Alike r r') (h' : Alike r' r'') : Alike r r'' where
  config := h'.config.trans h.config
  events := h'.events.trans h.events
  progress := h'.progress.trans h.progress
  limbo p := (h'.limbo p).trans (h.limbo p)
  running p := (h'.running p).trans (h.running p)

theorem Kept.refl (h : r.Sound) (writing : r.writers ≠ []) : Kept r r := ⟨h, writing, rfl, rfl, .refl r⟩

theorem Kept.trans (h : Kept r r') (h' : Kept r' r'') : Kept r r'' :=
  ⟨h'.sound, h'.writing, h'.behind.trans h.behind, h'.spares.trans h.spares, h.alike.trans h'.alike⟩

end Render
end Stencil
