import Stencil.Context

/-! Where a path leads. Every scope is made from globals by a run of changes, and what a path leads to can be read off that
    run: a path with a dot starts at the data of the frame put on last, any other at the innermost frame put on since the last
    rebase that defines its first key, or at the globals where no frame does. From there on the path stays inside the one
    value it started at, and paths in brackets start anew from the whole scope. -/

namespace Stencil

/-- A change of scope. -/
inductive Scoping where
  | push (data : Value)
  | pushItem (data : Value) (index count : Nat)
  | rebase (data : Value)
  | enter (t : Template)

namespace Scoping

/-- The scope after a change. -/
def apply (c : Context) : Scoping → Context
  | .push data => c.push data
  | .pushItem data index count => c.pushItem data index count
  | .rebase data => c.rebase data
  | .enter t => c.enter t

/-- The frames that changes, the latest first, have put on since the last rebase, the innermost first. A rebase puts on a
    frame itself. -/
def frames : List Scoping → List Frame
  | [] => []
  | .push data :: earlier => ⟨data, none⟩ :: frames earlier
  | .pushItem data index count :: earlier => ⟨data, some (index, count)⟩ :: frames earlier
  | .rebase data :: _ => [⟨data, none⟩]
  | .enter _ :: earlier => frames earlier

end Scoping

namespace Context

/-- The scope that changes, the latest first, make out of one that has globals, if any, and nothing else. -/
def made (globals : Option Value) (changes : List Scoping) : Context :=
  changes.foldr (fun change c => change.apply c) (globals.elim {} base)

variable (globals : Option Value)

@[simp] theorem globals_made (changes : List Scoping) : (made globals changes).globals = globals := by
  induction changes with
  | nil => cases globals <;> rfl
  | cons change earlier ih => cases change <;> exact ih

@[simp] theorem frames_made (changes : List Scoping) : (made globals changes).frames = Scoping.frames changes := by
  induction changes with
  | nil => cases globals <;> rfl
  | cons change earlier ih =>
    cases change with
    | push data => exact congrArg (_ :: ·) ih
    | pushItem data index count => exact congrArg (_ :: ·) ih
    | rebase data => rfl
    | enter t => exact ih

end Context

/-- What a frame defines. Where a section iterates, these are the index and the count, which hide fields of the same names;
    else the fields of its data, if that is an object. A field that holds null is defined. -/
inductive Frame.Defines : Frame → String → Value → Prop
  | index {data : Value} {index count : Nat} : Defines ⟨data, some (index, count)⟩ "$idx" (.ofNat index)
  | count {data : Value} {index count : Nat} : Defines ⟨data, some (index, count)⟩ "$len" (.ofNat count)
  | field {fields : List (String × Value)} {iteration : Option (Nat × Nat)} {key : String} {value : Value}
      (shown : iteration = none ∨ key ≠ "$idx" ∧ key ≠ "$len") (found : Dict.get? key fields = some value) :
      Defines ⟨.object fields, iteration⟩ key value

namespace Frame

/-- Under any name but those of the index and the count, a frame holds what its data holds. -/
theorem get?_of_shown {data : Value} {iteration : Option (Nat × Nat)} {key : String}
    (shown : iteration = none ∨ key ≠ "$idx" ∧ key ≠ "$len") :
    get? key ⟨data, iteration⟩ = data.fields?.bind (Dict.get? key) := by
  obtain rfl | ⟨notIndex, notCount⟩ := shown
  · rfl
  · cases iteration with
    | none => rfl
    | some place =>
      unfold get?
      split
      case h_1 => exact absurd rfl notIndex
      case h_2 => exact absurd rfl notCount
      case h_3 => rfl

theorem get?_eq_some_iff (f : Frame) (key : String) (value : Value) : f.get? key = some value ↔ f.Defines key value := by
  obtain ⟨data, iteration⟩ := f
  constructor
  · intro got
    have field (shown : iteration = none ∨ key ≠ "$idx" ∧ key ≠ "$len") : Defines ⟨data, iteration⟩ key value := by
      rw [get?_of_shown shown] at got
      cases data with
      | object fields => exact .field shown got
      | _ => cases got
    cases iteration with
    | none => exact field (.inl rfl)
    | some place =>
      by_cases index : key = "$idx"
      · subst index
        obtain rfl : Value.ofNat place.1 = value := Option.some.inj got
        exact .index
      · by_cases count : key = "$len"
        · subst count
          obtain rfl : Value.ofNat place.2 = value := Option.some.inj got
          exact .count
        · exact field (.inr ⟨index, count⟩)
  · rintro (_ | _ | ⟨shown, found⟩)
    · rfl
    · rfl
    · exact (get?_of_shown shown).trans found

theorem get?_eq_none_iff (f : Frame) (key : String) : f.get? key = none ↔ ∀ value, ¬ f.Defines key value := by
  simp only [Option.eq_none_iff_forall_ne_some, ne_eq, get?_eq_some_iff]

end Frame

section

variable (globals : Option Value) (frames : List Frame)

mutual

/-- Where a path leads in frames, the innermost first, with globals behind them. -/
inductive LeadsTo : Path → Value → Prop
  | current {f : Frame} {segments : List Segment} {value : Value} (top : frames.head? = some f)
      (walk : WalksTo segments f.data value) : LeadsTo ⟨true, segments⟩ value
  | frame {inner outer : List Frame} {f : Frame} {key : String} {first value : Value} {segments : List Segment}
      (place : frames = inner ++ f :: outer) (passed : ∀ g ∈ inner, ∀ other, ¬ g.Defines key other)
      (found : f.Defines key first) (walk : WalksTo segments first value) : LeadsTo ⟨false, .key key :: segments⟩ value
  | global {all first value : Value} {key : String} {segments : List Segment}
      (passed : ∀ g ∈ frames, ∀ other, ¬ g.Defines key other) (given : globals = some all)
      (found : all.get? key = some first) (walk : WalksTo segments first value) : LeadsTo ⟨false, .key key :: segments⟩ value

/-- Where segments lead from a value: ever further into it. -/
inductive WalksTo : List Segment → Value → Value → Prop
  | nil {value : Value} : WalksTo [] value value
  | key {name : String} {segments : List Segment} {value inner last : Value} (entry : value.get? name = some inner)
      (walk : WalksTo segments inner last) : WalksTo (.key name :: segments) value last
  | index {i : Nat} {segments : List Segment} {value inner last : Value} (entry : value.item? i = some inner)
      (walk : WalksTo segments inner last) : WalksTo (.index i :: segments) value last
  | dynamicKey {path : Path} {name : String} {segments : List Segment} {value inner last : Value}
      (leads : LeadsTo path (.string name)) (entry : value.get? name = some inner) (walk : WalksTo segments inner last) :
      WalksTo (.dynamic path :: segments) value last
  | dynamicIndex {path : Path} {n : Int64} {segments : List Segment} {value inner last : Value}
      (leads : LeadsTo path (.int n)) (counts : 0 ≤ n) (entry : value.item? n.toInt.toNat = some inner)
      (walk : WalksTo segments inner last) : WalksTo (.dynamic path :: segments) value last

end

end

namespace Context

theorem find?_eq_some_iff (c : Context) (key : String) (value : Value) :
    c.find? key = some value ↔
      (∃ inner f outer, c.frames = inner ++ f :: outer ∧ (∀ g ∈ inner, ∀ other, ¬ g.Defines key other) ∧
        f.Defines key value) ∨
      (∀ g ∈ c.frames, ∀ other, ¬ g.Defines key other) ∧ ∃ all, c.globals = some all ∧ all.get? key = some value := by
  simp only [find?, Option.or_eq_some_iff, List.findSome?_eq_some_iff, List.findSome?_eq_none_iff, Option.bind_eq_some_iff,
    Frame.get?_eq_some_iff, Frame.get?_eq_none_iff]
  grind

mutual

theorem resolve_eq_some_iff (c : Context) : ∀ (path : Path) (value : Value),
    c.resolve path = some value ↔ LeadsTo c.globals c.frames path value
  | ⟨true, segments⟩, value => by
    simp only [resolve, current, Option.bind_eq_some_iff, Option.map_eq_some_iff, follow_eq_some_iff c segments]
    constructor
    · rintro ⟨_, ⟨f, top, rfl⟩, walk⟩
      exact .current top walk
    · rintro ⟨top, walk⟩
      exact ⟨_, ⟨_, top, rfl⟩, walk⟩
  | ⟨false, .key name :: segments⟩, value => by
    simp only [resolve, Option.bind_eq_some_iff, find?_eq_some_iff, follow_eq_some_iff c segments]
    constructor
    · rintro ⟨first, ⟨inner, f, outer, place, passed, found⟩ | ⟨passed, all, given, found⟩, walk⟩
      · exact .frame place passed found walk
      · exact .global passed given found walk
    · rintro (_ | ⟨place, passed, found, walk⟩ | ⟨passed, given, found, walk⟩)
      · exact ⟨_, .inl ⟨_, _, _, place, passed, found⟩, walk⟩
      · exact ⟨_, .inr ⟨passed, _, given, found⟩, walk⟩
  | ⟨false, []⟩, value | ⟨false, .index _ :: _⟩, value | ⟨false, .dynamic _ :: _⟩, value => by
    simp only [resolve, reduceCtorEq, false_iff]
    rintro ⟨⟩

theorem follow_eq_some_iff (c : Context) : ∀ (segments : List Segment) (value last : Value),
    c.follow segments value = some last ↔ WalksTo c.globals c.frames segments value last
  | [], value, last => by
    simp only [follow, Option.some.injEq]
    constructor
    · rintro rfl
      exact .nil
    · rintro ⟨⟩
      rfl
  | .key name :: segments, value, last => by
    simp only [follow, Option.bind_eq_some_iff, follow_eq_some_iff c segments]
    constructor
    · rintro ⟨_, entry, walk⟩
      exact .key entry walk
    · rintro (_ | ⟨entry, walk⟩)
      exact ⟨_, entry, walk⟩
  | .index i :: segments, value, last => by
    simp only [follow, Option.bind_eq_some_iff, follow_eq_some_iff c segments]
    constructor
    · rintro ⟨_, entry, walk⟩
      exact .index entry walk
    · rintro (_ | _ | ⟨entry, walk⟩)
      exact ⟨_, entry, walk⟩
  | .dynamic path :: segments, value, last => by
    constructor
    · intro got
      simp only [follow] at got
      split at got
      case h_1 name leads =>
        obtain ⟨_, entry, walk⟩ := Option.bind_eq_some_iff.mp got
        exact .dynamicKey ((resolve_eq_some_iff c path _).mp leads) entry ((follow_eq_some_iff c segments _ _).mp walk)
      case h_2 n leads =>
        split at got
        · cases got
        · obtain ⟨_, entry, walk⟩ := Option.bind_eq_some_iff.mp got
          exact .dynamicIndex ((resolve_eq_some_iff c path _).mp leads) (Int64.not_lt.mp ‹_›) entry
            ((follow_eq_some_iff c segments _ _).mp walk)
      case h_3 => cases got
    · rintro (_ | _ | _ | ⟨leads, entry, walk⟩ | ⟨leads, counts, entry, walk⟩)
      · simp only [follow, (resolve_eq_some_iff c path _).mpr leads]
        exact Option.bind_eq_some_iff.mpr ⟨_, entry, (follow_eq_some_iff c segments _ _).mpr walk⟩
      · simp only [follow, (resolve_eq_some_iff c path _).mpr leads, Int64.not_lt.mpr counts, if_false]
        exact Option.bind_eq_some_iff.mpr ⟨_, entry, (follow_eq_some_iff c segments _ _).mpr walk⟩

end

/-- Segments behind segments are followed from where the first ones lead. -/
theorem follow_append (c : Context) (front back : List Segment) (value : Value) :
    c.follow (front ++ back) value = (c.follow front value).bind (c.follow back) := by
  induction front generalizing value with
  | nil => rfl
  | cons segment front ih =>
    have ih : c.follow (front ++ back) = fun value => (c.follow front value).bind (c.follow back) := funext ih
    cases segment with
    | key name => simp only [List.cons_append, follow, ih, Option.bind_assoc]
    | index i => simp only [List.cons_append, follow, ih, Option.bind_assoc]
    | dynamic path =>
      simp only [List.cons_append, follow, ih]
      split
      · exact (Option.bind_assoc ..).symm
      · split
        · rfl
        · exact (Option.bind_assoc ..).symm
      · rfl

end Context

/-- In a scope made by any changes, a path leads where `LeadsTo` says from the globals and the frames put on since the last
    rebase, and a path that goes on behind another goes on inside the value that the other leads to. -/
theorem resolve_made (globals : Option Value) (changes : List Scoping) :
    let c := Context.made globals changes
    let frames := Scoping.frames changes
    (∀ path value, c.resolve path = some value ↔ LeadsTo globals frames path value) ∧
    (∀ text value, c.get? text = some value ↔
      ∃ path, Path.ofText text = .ok path ∧ LeadsTo globals frames path value) ∧
    (∀ segments value last, c.follow segments value = some last ↔ WalksTo globals frames segments value last) ∧
    (∀ front back, c.resolve ⟨true, front ++ back⟩ = (c.resolve ⟨true, front⟩).bind (c.follow back)) ∧
    ∀ key front back, c.resolve ⟨false, .key key :: (front ++ back)⟩ =
      (c.resolve ⟨false, .key key :: front⟩).bind (c.follow back) := by
  intro c frames
  have leads (path : Path) (value : Value) : c.resolve path = some value ↔ LeadsTo globals frames path value := by
    simpa [c] using c.resolve_eq_some_iff path value
  have walks (segments : List Segment) (value last : Value) :
      c.follow segments value = some last ↔ WalksTo globals frames segments value last := by
    simpa [c] using c.follow_eq_some_iff segments value last
  refine ⟨leads, fun text value => ?_, walks, fun front back => ?_, fun key front back => ?_⟩
  · rw [Context.get?]
    split
    · simp [*]
    · simp [*]
  · simp only [Context.resolve, Option.bind_assoc]
    exact Option.bind_congr fun value _ => c.follow_append front back value
  · simp only [Context.resolve, Option.bind_assoc]
    exact Option.bind_congr fun value _ => c.follow_append front back value

/-- The item of a list hides the globals, brackets look at the whole scope, and what a hidden value lacks is nowhere. -/
example :
    let item := Value.ofFields [("row", .ofFields [("k0", .string "inner")]), ("n", .null)]
    let c := Context.made (some (.ofFields [("row", .ofFields [("k", .int 1)]), ("name", .string "k0"), ("n", .int 2)]))
      [.pushItem item 0 3, .rebase (.ofFields [("name", .string "k")]), .push .null]
    (c.get? "row.k0").bind Value.string? = some "inner" ∧ (c.get? "row[name]").isNone ∧ (c.get? "$len").isSome ∧
      (c.get? ".$len").isNone ∧ (c.get? "n").any (· matches .null) := by
  decide +kernel

end Stencil
