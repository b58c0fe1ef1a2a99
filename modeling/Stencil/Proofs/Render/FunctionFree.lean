import Stencil.Proofs.Render.Coupling

/-! Data without callables: all that code makes of it is without callables too. -/

namespace Stencil

inductive Value.FunctionFree : Value → Prop
  | null : FunctionFree .null
  | bool (b : Bool) : FunctionFree (.bool b)
  | int (n : Int64) : FunctionFree (.int n)
  | float (x : Float) : FunctionFree (.float x)
  | string (s : String) : FunctionFree (.string s)
  | array {items : List Value} : (∀ v ∈ items, FunctionFree v) → FunctionFree (.array items)
  | object {fields : List (String × Value)} : (∀ e ∈ fields, FunctionFree e.2) → FunctionFree (.object fields)

structure Context.FunctionFree (c : Context) : Prop where
  frames : ∀ f ∈ c.frames, f.data.FunctionFree
  globals : ∀ v, c.globals = some v → v.FunctionFree

namespace Value

theorem functionFree_ofInt (n : Int) : (ofInt n).FunctionFree := by
  unfold ofInt
  split
  · exact .int _
  · exact .float _

theorem functionFree_ofNat (n : Nat) : (ofNat n).FunctionFree := functionFree_ofInt n

namespace FunctionFree

variable {v w : Value} {key : String} {index : Nat}

theorem fields? (h : v.FunctionFree) {fields : Dict Value} (some : v.fields? = some fields) :
    ∀ e ∈ fields, e.2.FunctionFree := by
  cases h with
  | object h =>
    cases some
    exact h
  | null | bool | int | float | string | array => cases some

theorem get? (h : v.FunctionFree) (found : v.get? key = some w) : w.FunctionFree := by
  cases h with
  | object h => exact h _ (Dict.mem_of_get? found)
  | array h =>
    obtain ⟨i, -, at'⟩ := Option.bind_eq_some_iff.mp found
    exact h w (List.mem_of_getElem? at')
  | null | bool | int | float | string => cases found

theorem item? (h : v.FunctionFree) (found : v.item? index = some w) : w.FunctionFree := by
  cases h with
  | object h => exact h _ (Dict.mem_of_get? found)
  | array h => exact h w (List.mem_of_getElem? found)
  | null | bool | int | float | string => cases found

end FunctionFree
end Value

namespace Context

variable {c : Context} {v w : Value}

theorem Frame.functionFree_get? {f : Frame} (h : f.data.FunctionFree) {key : String} (found : f.get? key = some v) :
    v.FunctionFree := by
  unfold Frame.get? at found
  split at found
  · rw [← Option.some.inj found]
    exact Value.functionFree_ofNat _
  · rw [← Option.some.inj found]
    exact Value.functionFree_ofNat _
  · obtain ⟨fields, some, found⟩ := Option.bind_eq_some_iff.mp found
    exact h.fields? some _ (Dict.mem_of_get? found)

namespace FunctionFree

theorem find? (h : c.FunctionFree) {key : String} (found : c.find? key = some v) : v.FunctionFree := by
  rcases Option.or_eq_some_iff.mp found with inFrame | ⟨-, inGlobals⟩
  · obtain ⟨f, mem, found⟩ := List.exists_of_findSome?_eq_some inFrame
    exact Frame.functionFree_get? (h.frames f mem) found
  · obtain ⟨globals, some, found⟩ := Option.bind_eq_some_iff.mp inGlobals
    exact (h.globals globals some).get? found

theorem current (h : c.FunctionFree) (found : c.current = some v) : v.FunctionFree := by
  obtain ⟨f, first, rfl⟩ := Option.map_eq_some_iff.mp found
  exact h.frames f (List.mem_of_mem_head? first)

theorem follow {segments : List Segment} (hv : v.FunctionFree)
    (found : c.follow segments v = some w) : w.FunctionFree := by
  induction segments generalizing v with
  | nil =>
    simp only [Context.follow, Option.some.injEq] at found
    exact found ▸ hv
  | cons segment rest ih =>
    cases segment with
    | key name =>
      simp only [Context.follow] at found
      obtain ⟨u, step, found⟩ := Option.bind_eq_some_iff.mp found
      exact ih (hv.get? step) found
    | index i =>
      simp only [Context.follow] at found
      obtain ⟨u, step, found⟩ := Option.bind_eq_some_iff.mp found
      exact ih (hv.item? step) found
    | dynamic path =>
      simp only [Context.follow] at found
      split at found
      · obtain ⟨u, step, found⟩ := Option.bind_eq_some_iff.mp found
        exact ih (hv.get? step) found
      · split at found
        · cases found
        · obtain ⟨u, step, found⟩ := Option.bind_eq_some_iff.mp found
          exact ih (hv.item? step) found
      · cases found

theorem resolve (h : c.FunctionFree) {path : Path} (found : c.resolve path = some v) : v.FunctionFree := by
  unfold Context.resolve at found
  split at found
  · obtain ⟨u, first, found⟩ := Option.bind_eq_some_iff.mp found
    exact follow (h.current first) found
  · obtain ⟨u, first, found⟩ := Option.bind_eq_some_iff.mp found
    exact follow (h.find? first) found
  · cases found

theorem push (h : c.FunctionFree) (hv : v.FunctionFree) : (c.push v).FunctionFree :=
  ⟨List.forall_mem_cons.mpr ⟨hv, h.frames⟩, h.globals⟩

theorem pushItem (h : c.FunctionFree) (hv : v.FunctionFree) (index count : Nat) :
    (c.pushItem v index count).FunctionFree :=
  ⟨List.forall_mem_cons.mpr ⟨hv, h.frames⟩, h.globals⟩

theorem rebase (h : c.FunctionFree) (hv : v.FunctionFree) : (c.rebase v).FunctionFree :=
  ⟨List.forall_mem_cons.mpr ⟨hv, by simp⟩, h.globals⟩

end FunctionFree
end Context

/-- Data without callables, in scopes that differ from one in their data only. -/
def Scopes.functionFree (of : Context) : Scopes where
  value := Value.FunctionFree
  context c := c.FunctionFree ∧ c.blocks = of.blocks ∧ c.depth = of.depth ∧ c.fillings = of.fillings
  null := .null
  string := .string
  int := .int
  float := .float
  object := .object
  item h mem := by
    cases h with
    | array h => exact h _ mem
  resolve h found := h.1.resolve found
  push h hv := ⟨h.1.push hv, h.2⟩
  pushItem index count h hv := ⟨h.1.pushItem hv index count, h.2⟩
  rebase h hv := ⟨h.1.rebase hv, h.2⟩

end Stencil
