/-! Dictionaries with text keys, kept as lists of entries in the order of their keys. Inserting keeps the order and
    holds one entry for each key, so the order in which entries were given never shows. -/

namespace Stencil

/-- Entries in the order of their keys. -/
abbrev Dict (α : Type) := List (String × α)

namespace Dict

variable {α β : Type}

/-- The value under a key. -/
def get? (key : String) : List (String × α) → Option α
  | [] => none
  | (k, v) :: rest => if k = key then some v else get? key rest

/-- Puts a value under a key, in place of what stood there. -/
def insert (key : String) (value : α) : List (String × α) → Dict α
  | [] => [(key, value)]
  | (k, v) :: rest =>
    if k = key then (key, value) :: rest
    else if key < k then (key, value) :: (k, v) :: rest
    else (k, v) :: insert key value rest

/-- Takes the entry under a key out. -/
def erase (key : String) (d : List (String × α)) : Dict α :=
  d.filter (·.1 ≠ key)

/-- The dictionary of some entries given in any order: of two under one key the later counts. -/
def ofList (entries : List (String × α)) : Dict α :=
  entries.foldl (fun d e => insert e.1 e.2 d) []

/-- Whether a key has an entry. -/
def contains (key : String) (d : List (String × α)) : Bool :=
  (get? key d).isSome

/-- The keys in their order. -/
def keys (d : List (String × α)) : List String :=
  d.map (·.1)

@[simp] theorem get?_nil (key : String) : get? key ([] : List (String × α)) = none := rfl

@[simp] theorem get?_insert_self (key : String) (value : α) (d : List (String × α)) :
    get? key (insert key value d) = some value := by
  induction d with
  | nil => simp [insert, get?]
  | cons e rest ih =>
    obtain ⟨k, v⟩ := e
    by_cases h : k = key
    · simp [insert, get?, h]
    · by_cases lt : key < k <;> simp [insert, get?, h, lt, ih]

theorem get?_insert_of_ne {key other : String} (ne : other ≠ key) (value : α) (d : List (String × α)) :
    get? other (insert key value d) = get? other d := by
  induction d with
  | nil => simp [insert, get?, ne.symm]
  | cons e rest ih =>
    obtain ⟨k, v⟩ := e
    by_cases h : k = key
    · simp [insert, get?, h, ne.symm]
    · by_cases lt : key < k
      · simp [insert, get?, h, lt, ne.symm]
      · simp [insert, get?, h, lt, ih]

theorem contains_insert {key other : String} {value : α} {d : List (String × α)} :
    contains other (insert key value d) = true ↔ other = key ∨ contains other d = true := by
  unfold contains
  by_cases same : other = key
  · subst same
    simp
  · rw [get?_insert_of_ne same]
    simp [same]

@[simp] theorem insert_insert_self (key : String) (value : α) (d : List (String × α)) :
    insert key value (insert key value d) = insert key value d := by
  induction d with
  | nil => simp [insert]
  | cons e rest ih =>
    obtain ⟨k, v⟩ := e
    by_cases h : k = key
    · simp [insert, h]
    · by_cases lt : key < k <;> simp [insert, h, lt, ih]

theorem insert_cons_of_lt {key k : String} (lt : key < k) (value v : α) (rest : List (String × α)) :
    insert key value ((k, v) :: rest) = (key, value) :: (k, v) :: rest := by
  rw [insert, if_neg (Ne.symm (String.ne_of_lt lt)), if_pos lt]

theorem insert_cons_of_gt {key k : String} (ne : k ≠ key) (le : ¬ key < k) (value v : α) (rest : List (String × α)) :
    insert key value ((k, v) :: rest) = (k, v) :: insert key value rest := by
  rw [insert, if_neg ne, if_neg le]

theorem insert_cons_self (key : String) (value v : α) (rest : List (String × α)) :
    insert key value ((key, v) :: rest) = (key, value) :: rest := if_pos rfl

/-- An entry that putting it in again leaves as it is stays so when another is put in. -/
theorem insert_insert_of_ne {key other : String} (ne : other ≠ key) {value : α} (value' : α) {d : List (String × α)}
    (kept : insert key value d = d) : insert key value (insert other value' d) = insert other value' d := by
  induction d with
  | nil => cases kept
  | cons e rest ih =>
    obtain ⟨k, v⟩ := e
    by_cases same : k = key
    · subst same
      rw [insert_cons_self] at kept
      by_cases lt : other < k
      · rw [insert_cons_of_lt lt, insert_cons_of_gt ne (String.lt_asymm lt), insert_cons_self, kept]
      · rw [insert_cons_of_gt (Ne.symm ne) lt, insert_cons_self, (List.cons.inj kept).1]
    by_cases lt : key < k
    · rw [insert_cons_of_lt lt] at kept
      exact absurd (congrArg List.length kept) (Nat.succ_ne_self _)
    · rw [insert_cons_of_gt same lt] at kept
      have kept' : insert key value rest = rest := (List.cons.inj kept).2
      by_cases same' : k = other
      · subst same'
        rw [insert_cons_self, insert_cons_of_gt same lt, kept']
      by_cases lt' : other < k
      · rw [insert_cons_of_lt lt', insert_cons_of_gt ne fun no => lt (String.lt_trans no lt'),
          insert_cons_of_gt same lt, kept']
      · rw [insert_cons_of_gt same' lt', insert_cons_of_gt same lt, ih kept']

@[simp] theorem get?_erase_self (key : String) (d : List (String × α)) : get? key (erase key d) = none := by
  induction d with
  | nil => rfl
  | cons e rest ih =>
    obtain ⟨k, v⟩ := e
    by_cases h : k = key <;> simp_all [erase, get?]

theorem get?_erase_of_ne {key other : String} (ne : other ≠ key) (d : List (String × α)) :
    get? other (erase key d) = get? other d := by
  induction d with
  | nil => rfl
  | cons e rest ih =>
    obtain ⟨k, v⟩ := e
    by_cases h : k = key
    · subst h
      simpa [erase, get?, ne.symm] using ih
    · have ih' : get? other (rest.filter (·.1 ≠ key)) = get? other rest := ih
      by_cases h' : k = other <;> simp_all [erase, get?]

/-- The entries stand in the order of their keys, one for each key. -/
def Sorted (d : List (String × α)) : Prop :=
  d.Pairwise fun e f => e.1 < f.1

theorem mem_of_get? {key : String} {d : List (String × α)} {v : α} (h : get? key d = some v) :
    (key, v) ∈ d := by
  induction d with
  | nil => cases h
  | cons e rest ih =>
    obtain ⟨k, w⟩ := e
    by_cases same : k = key
    · subst same
      simp only [get?, if_true, Option.some.injEq] at h
      rw [h]
      exact List.mem_cons_self
    · simp only [get?, if_neg same] at h
      exact List.mem_cons_of_mem _ (ih h)

theorem mem_insert {key : String} {value : α} {d : List (String × α)} {e : String × α} (h : e ∈ insert key value d) :
    e = (key, value) ∨ e ∈ d := by
  induction d with
  | nil => simpa [insert] using h
  | cons f rest ih =>
    obtain ⟨k, v⟩ := f
    simp only [insert] at h
    split at h
    · simp_all only [List.mem_cons]
      exact h.imp_right .inr
    · split at h
      · simpa using h
      · rcases List.mem_cons.mp h with rfl | h
        · simp
        · exact (ih h).imp_right (List.mem_cons_of_mem _)

/-- Entries in order have a key each. -/
theorem Sorted.nodup {d : List (String × α)} (h : Sorted d) : (keys d).Nodup :=
  List.pairwise_map.mpr (h.imp String.ne_of_lt)

theorem sorted_insert (key : String) (value : α) {d : List (String × α)} (h : Sorted d) :
    Sorted (insert key value d) := by
  induction d with
  | nil => simp [Sorted, insert]
  | cons e rest ih =>
    obtain ⟨k, v⟩ := e
    obtain ⟨first, others⟩ := List.pairwise_cons.mp h
    simp only [insert]
    split
    · next same =>
      subst same
      exact List.pairwise_cons.mpr ⟨first, others⟩
    · next ne =>
      split
      · next lt =>
        refine List.pairwise_cons.mpr ⟨fun f hf => ?_, h⟩
        rcases List.mem_cons.mp hf with rfl | hf
        · exact lt
        · exact String.lt_trans lt (first f hf)
      · next ge =>
        refine List.pairwise_cons.mpr ⟨fun f hf => ?_, ih others⟩
        rcases mem_insert hf with rfl | hf
        · exact Std.lt_of_le_of_ne (String.not_lt.mp ge) ne
        · exact first f hf

theorem sorted_foldl_insert (entries : List (String × α)) {d : Dict α} (h : Sorted d) :
    Sorted (entries.foldl (fun d e => insert e.1 e.2 d) d) := by
  induction entries generalizing d with
  | nil => exact h
  | cons e rest ih => exact ih (sorted_insert e.1 e.2 h)

theorem sorted_ofList (entries : List (String × α)) : Sorted (ofList entries) :=
  sorted_foldl_insert entries List.Pairwise.nil

theorem mem_of_mem_foldl_insert {entries : List (String × α)} {d : Dict α} {e : String × α}
    (h : e ∈ entries.foldl (fun d e => insert e.1 e.2 d) d) : e ∈ entries ∨ e ∈ d := by
  induction entries generalizing d with
  | nil => exact .inr h
  | cons f rest ih =>
    rcases ih h with mem | mem
    · exact .inl (List.mem_cons_of_mem _ mem)
    · rcases mem_insert mem with rfl | mem
      · exact .inl List.mem_cons_self
      · exact .inr mem

theorem mem_of_mem_ofList {entries : List (String × α)} {e : String × α} (h : e ∈ ofList entries) : e ∈ entries :=
  (mem_of_mem_foldl_insert h).resolve_right (List.not_mem_nil)

theorem get?_foldl_insert_eq_some_iff {key : String} {v : α} {entries : List (String × α)} {d : Dict α} :
    get? key (entries.foldl (fun d e => insert e.1 e.2 d) d) = some v ↔
      (∃ front back, entries = front ++ (key, v) :: back ∧ ∀ e ∈ back, e.1 ≠ key) ∨
        (∀ e ∈ entries, e.1 ≠ key) ∧ get? key d = some v := by
  induction entries generalizing d with
  | nil =>
    refine ⟨fun found => .inr ⟨nofun, found⟩, ?_⟩
    rintro (⟨front, back, no, -⟩ | ⟨-, found⟩)
    · simp at no
    · exact found
  | cons e rest ih =>
    rw [List.foldl_cons, ih]
    constructor
    · rintro (⟨front, back, rfl, last⟩ | ⟨others, found⟩)
      · exact .inl ⟨e :: front, back, rfl, last⟩
      · by_cases same : e.1 = key
        · subst same
          rw [get?_insert_self, Option.some.injEq] at found
          exact .inl ⟨[], rest, by rw [← found]; rfl, others⟩
        · rw [get?_insert_of_ne (Ne.symm same)] at found
          exact .inr ⟨List.forall_mem_cons.mpr ⟨same, others⟩, found⟩
    · rintro (⟨front, back, split, last⟩ | ⟨others, found⟩)
      · cases front with
        | nil =>
          obtain ⟨rfl, rfl⟩ := List.cons.inj split
          exact .inr ⟨last, get?_insert_self ..⟩
        | cons f front => exact .inl ⟨front, back, (List.cons.inj split).2, last⟩
      · obtain ⟨ne, others⟩ := List.forall_mem_cons.mp others
        exact .inr ⟨others, by rwa [get?_insert_of_ne (Ne.symm ne)]⟩

/-- Of the entries under a key the last one counts. -/
theorem get?_ofList_eq_some_iff {key : String} {v : α} {entries : List (String × α)} :
    get? key (ofList entries) = some v ↔ ∃ front back, entries = front ++ (key, v) :: back ∧ ∀ e ∈ back, e.1 ≠ key :=
  get?_foldl_insert_eq_some_iff.trans (or_iff_left fun ⟨_, no⟩ => nomatch no)

theorem get?_eq_some_iff_mem {key : String} {v : α} {entries : List (String × α)} (distinct : (keys entries).Nodup) :
    get? key entries = some v ↔ (key, v) ∈ entries := by
  refine ⟨mem_of_get?, fun mem => ?_⟩
  induction entries with
  | nil => cases mem
  | cons e rest ih =>
    obtain ⟨k, w⟩ := e
    obtain ⟨fresh, distinct⟩ := List.nodup_cons.mp distinct
    rcases List.mem_cons.mp mem with same | mem
    · cases same
      exact if_pos rfl
    · have ne : k ≠ key := by
        rintro rfl
        exact fresh (List.mem_map.mpr ⟨_, mem, rfl⟩)
      rw [get?, if_neg ne]
      exact ih distinct mem

/-- Entries under a key each are found in their dictionary as they are among themselves. -/
theorem get?_ofList_of_nodup (key : String) {entries : List (String × α)} (distinct : (keys entries).Nodup) :
    get? key (ofList entries) = get? key entries := by
  refine Option.ext fun v => ?_
  rw [get?_eq_some_iff_mem distinct]
  refine ⟨fun found => mem_of_mem_ofList (mem_of_get? found), fun mem => ?_⟩
  obtain ⟨front, back, rfl⟩ := List.append_of_mem mem
  refine get?_ofList_eq_some_iff.mpr ⟨front, back, rfl, fun e behind same => ?_⟩
  rw [keys, List.map_append, List.map_cons] at distinct
  obtain ⟨fresh, -⟩ := List.nodup_cons.mp (List.nodup_append.mp distinct).2.1
  exact fresh (List.mem_map.mpr ⟨e, behind, same⟩)

theorem mem_ofList_of_nodup {e : String × α} {entries : List (String × α)} (distinct : (keys entries).Nodup) :
    e ∈ ofList entries ↔ e ∈ entries :=
  ⟨mem_of_mem_ofList, fun mem => mem_of_get? ((get?_ofList_of_nodup e.1 distinct).trans
    ((get?_eq_some_iff_mem distinct).mpr mem))⟩

theorem get?_map (f : α → β) (key : String) (entries : List (String × α)) :
    get? key (entries.map fun e => (e.1, f e.2)) = (get? key entries).map f := by
  induction entries with
  | nil => rfl
  | cons e rest ih =>
    rw [List.map_cons, get?, get?, ih]
    split <;> rfl

theorem keys_map (f : α → β) (entries : List (String × α)) : keys (entries.map fun e => (e.1, f e.2)) = keys entries := by
  rw [keys, List.map_map]
  rfl

theorem contains_foldl_insert {key : String} {entries : List (String × α)} {d : Dict α} :
    contains key (entries.foldl (fun d e => insert e.1 e.2 d) d) = true ↔
      (∃ e ∈ entries, e.1 = key) ∨ contains key d = true := by
  induction entries generalizing d with
  | nil => simp
  | cons e rest ih =>
    rw [List.foldl_cons, ih, contains_insert, eq_comm (a := key)]
    simp [or_left_comm, or_assoc]

theorem mem_keys_iff {key : String} {d : List (String × α)} : key ∈ keys d ↔ contains key d = true := by
  induction d with
  | nil => exact iff_of_false nofun nofun
  | cons e rest ih =>
    obtain ⟨k, v⟩ := e
    by_cases same : k = key
    · simp [keys, contains, get?, same]
    · rw [contains, get?, if_neg same, ← contains, ← ih]
      simp [keys, Ne.symm same]

theorem mem_keys_ofList {key : String} {entries : List (String × α)} :
    key ∈ keys (ofList entries) ↔ ∃ e ∈ entries, e.1 = key :=
  (mem_keys_iff.trans contains_foldl_insert).trans (or_iff_left fun no => nomatch no)

theorem insert_of_lt {key : String} (value : α) {d : List (String × α)} (h : ∀ e ∈ d, e.1 < key) :
    insert key value d = d ++ [(key, value)] := by
  induction d with
  | nil => rfl
  | cons e rest ih =>
    have lt := h e List.mem_cons_self
    rw [insert, if_neg (String.ne_of_lt lt), if_neg (String.lt_asymm lt), ih fun e mem => h e (List.mem_cons_of_mem _ mem)]
    rfl

theorem foldl_insert_of_sorted {entries d : List (String × α)} (h : Sorted (d ++ entries)) :
    entries.foldl (fun d e => insert e.1 e.2 d) d = d ++ entries := by
  induction entries generalizing d with
  | nil => exact (List.append_nil d).symm
  | cons e rest ih =>
    have behind : ∀ f ∈ d, f.1 < e.1 := fun f mem => (List.pairwise_append.mp h).2.2 f mem e List.mem_cons_self
    rw [List.foldl_cons, insert_of_lt e.2 behind, ih (by simpa using h), List.append_assoc]
    rfl

theorem map_insert (f : α → β) (key : String) (value : α) (d : List (String × α)) :
    (insert key value d).map (fun e => (e.1, f e.2)) = insert key (f value) (d.map fun e => (e.1, f e.2)) := by
  induction d with
  | nil => rfl
  | cons e rest ih =>
    rw [List.map_cons, insert, insert]
    split
    · rfl
    · split
      · rfl
      · rw [List.map_cons, ih]

theorem map_foldl_insert (f : α → β) (entries d : List (String × α)) :
    (entries.foldl (fun d e => insert e.1 e.2 d) d).map (fun e => (e.1, f e.2)) =
      (entries.map fun e => (e.1, f e.2)).foldl (fun d e => insert e.1 e.2 d) (d.map fun e => (e.1, f e.2)) := by
  induction entries generalizing d with
  | nil => rfl
  | cons e rest ih => rw [List.foldl_cons, ih, map_insert, List.map_cons, List.foldl_cons]

/-- Changing the values of entries changes those of their dictionary. -/
theorem map_ofList (f : α → β) (entries : List (String × α)) :
    (ofList entries).map (fun e => (e.1, f e.2)) = ofList (entries.map fun e => (e.1, f e.2)) :=
  map_foldl_insert f entries []

/-- Entries in order are their dictionary. -/
theorem ofList_of_sorted {entries : List (String × α)} (h : Sorted entries) : ofList entries = entries :=
  foldl_insert_of_sorted (d := []) h

end Dict
end Stencil
