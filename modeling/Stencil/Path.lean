/-! Lookup paths such as `user.name`, `items[0]`, `.` and `.title`. -/

namespace Stencil

mutual

/-- A lookup path. A path that starts with a dot looks at the current frame alone. -/
structure Path where
  current : Bool
  segments : List Segment

/-- One step of a path. -/
inductive Segment where
  | key (name : String)
  | index (i : Nat)
  /-- A path in brackets is looked up itself and gives a key or an index. -/
  | dynamic (path : Path)

end

deriving instance Inhabited for Path, Segment

mutual

/-- The text of a path. -/
def Path.text : Path → String
  | ⟨current, segments⟩ => (if current then "." else "") ++ Segment.leadingText segments

/-- The text of the segments from the first on: a first key has no dot of its own. -/
def Segment.leadingText : List Segment → String
  | [] => ""
  | .key name :: rest => name ++ Segment.texts rest
  | .index i :: rest => "[" ++ toString i ++ "]" ++ Segment.texts rest
  | .dynamic path :: rest => "[" ++ path.text ++ "]" ++ Segment.texts rest

/-- The text of segments behind another. -/
def Segment.texts : List Segment → String
  | [] => ""
  | .key name :: rest => "." ++ name ++ Segment.texts rest
  | .index i :: rest => "[" ++ toString i ++ "]" ++ Segment.texts rest
  | .dynamic path :: rest => "[" ++ path.text ++ "]" ++ Segment.texts rest

end

mutual

/-- Whether two paths are the same. -/
def Path.beq : Path → Path → Bool
  | ⟨current, segments⟩, ⟨current', segments'⟩ => current == current' && Segment.beqAll segments segments'

/-- Whether two segments are the same. -/
def Segment.beq : Segment → Segment → Bool
  | .key name, .key name' => name == name'
  | .index i, .index i' => i == i'
  | .dynamic path, .dynamic path' => path.beq path'
  | _, _ => false

/-- Whether two lists of segments are the same. -/
def Segment.beqAll : List Segment → List Segment → Bool
  | [], [] => true
  | segment :: rest, segment' :: rest' => segment.beq segment' && Segment.beqAll rest rest'
  | _, _ => false

end

instance : BEq Path := ⟨Path.beq⟩

mutual

theorem Path.beq_iff : ∀ p q : Path, p.beq q = true ↔ p = q
  | ⟨current, segments⟩, ⟨current', segments'⟩ => by
    simp [Path.beq, Segment.beqAll_iff segments segments']

theorem Segment.beq_iff : ∀ s t : Segment, s.beq t = true ↔ s = t
  | .key _, t => by cases t <;> simp [Segment.beq]
  | .index _, t => by cases t <;> simp [Segment.beq]
  | .dynamic path, t => by
    cases t with
    | dynamic path' => simp [Segment.beq, Path.beq_iff path path']
    | key _ => simp [Segment.beq]
    | index _ => simp [Segment.beq]

theorem Segment.beqAll_iff : ∀ l m : List Segment, Segment.beqAll l m = true ↔ l = m
  | [], [] => by simp [Segment.beqAll]
  | [], _ :: _ => by simp [Segment.beqAll]
  | _ :: _, [] => by simp [Segment.beqAll]
  | s :: l, t :: m => by simp [Segment.beqAll, Segment.beq_iff s t, Segment.beqAll_iff l m]

end

instance : LawfulBEq Path where
  eq_of_beq := (Path.beq_iff _ _).mp
  rfl := (Path.beq_iff _ _).mpr rfl

instance : DecidableEq Path := instDecidableEqOfLawfulBEq

end Stencil
