import Stencil.Proofs.Engine.Loads

/-! Which names a loader is called with. A load under way calls it with the names that answers point to and with no
    others. -/

namespace Stencil

/-- The answer never points to the name. -/
def Future.Avoids (n : String) (answer : Future Loaded) : Prop := ∀ host, answer host ≠ some (.ok (.redirect n))

/-- No answer of the loader points to the name. -/
def Engine.Avoids (n : String) (e : Engine) : Prop :=
  ∀ loader, e.loader = some loader → ∀ asked name, (loader.load asked name).Avoids n

/-- A load that is kept under a key waits for the name only if it is the key, and will not be pointed to it. -/
def Load.Avoids (n key : String) : Load → Prop
  | .waiting name answer _ => (name = n → key = n) ∧ answer.Avoids n
  | .settled _ => True

/-- The name that a load under way waits for. -/
def Load.awaited? : Load → Option String
  | .waiting name _ _ => some name
  | .settled _ => none

/-- The reading is that of a render on the side, which begins with it. -/
def Reading.isAside : Reading → Bool
  | .aside _ _ => true
  | .whitespace _ | .cache _ => false

namespace Engine

/-- How many renders on the side have begun. -/
def asides (e : Engine) : Nat := e.readings.countP (·.isAside)

variable {e e' e'' : Engine} {n name : String}

/-- The engine has been used without a call of the loader with the name, and no render on the side has begun. -/
structure Spared (n : String) (e e' : Engine) : Prop where
  asked : e'.asked.count n = e.asked.count n
  asides : e'.asides = e.asides

/-- The engine has been used without a call of the loader, which is the same, and no render on the side has begun. -/
structure Silent (e e' : Engine) : Prop where
  loader : e'.loader = e.loader
  asked : e'.asked = e.asked
  asides : e'.asides = e.asides

theorem asides_read (e : Engine) (reading : Reading) :
    (e.read reading).asides = e.asides + if reading.isAside then 1 else 0 := by
  show (e.readings ++ [reading]).countP (·.isAside) = _
  rw [List.countP_append, List.countP_singleton]
  rfl

theorem Spared.refl (n : String) (e : Engine) : e.Spared n e := ⟨rfl, rfl⟩

theorem Silent.spared (h : e.Silent e') (n : String) : e.Spared n e' := ⟨congrArg (List.count n) h.asked, h.asides⟩

theorem Silent.refl (e : Engine) : e.Silent e := ⟨rfl, rfl, rfl⟩

theorem Silent.trans (h : e.Silent e') (h' : e'.Silent e'') : e.Silent e'' :=
  ⟨h'.loader.trans h.loader, h'.asked.trans h.asked, h'.asides.trans h.asides⟩

theorem Silent.avoids (h : e.Silent e') (avoids : e.Avoids n) : e'.Avoids n := fun loader same =>
  avoids loader (h.loader ▸ same)

theorem silent_record (e : Engine) (level : LogLevel) (message : String) : e.Silent (e.record level message) := by
  rw [record_eq]
  exact ⟨rfl, rfl, rfl⟩

/-- Readings that begin no render on the side. -/
theorem silent_read (e : Engine) {reading : Reading} (other : reading.isAside = false) : e.Silent (e.read reading) := by
  refine ⟨rfl, rfl, ?_⟩
  rw [asides_read, other]
  rfl

theorem silent_applyFilters (filters : List String) (value : Value) (e : Engine) :
    e.Silent (applyFilters filters value e).2 := by
  rw [applyFilters_eq]
  exact ⟨rfl, rfl, rfl⟩

theorem silent_addTemplate (e : Engine) (name source : String) : e.Silent (e.addTemplate name source).2 := by
  have kept (e : Engine) (t : Template) : e.Silent (e.keep t) := by
    unfold keep
    split
    · split <;> exact ⟨rfl, rfl, rfl⟩
    · exact .refl e
  have compiling : e.Silent (e.read (.whitespace e.config.whitespace)) := e.silent_read rfl
  unfold addTemplate
  dsimp only
  split
  · exact compiling.trans ((silent_read _ rfl).trans (kept _ _))
  · exact compiling

theorem silent_renameTemplate (e : Engine) (name newName : String) : e.Silent (e.renameTemplate name newName) := by
  unfold renameTemplate
  split <;> exact ⟨rfl, rfl, rfl⟩

/-- A call with another name. -/
theorem count_ask (loader : Loader) (ne : name ≠ n) : (e.ask loader name).2.asked.count n = e.asked.count n := by
  show (_ ++ [name]).count n = _
  rw [List.count_append, List.count_singleton, if_neg (by simpa using ne)]
  rfl

end Engine

namespace Load

variable {n key name : String} {e : Engine}

/-- A load that no answer points to the name does not call the loader with it, and does not come to wait for it. -/
theorem avoids_advance {answer : Future Loaded} {host : Host} {cache : Bool} {limit rounds : Nat} (he : e.Avoids n)
    (ha : answer.Avoids n) (own : name = n → key = n) :
    (advance host cache limit rounds name answer e).1.Avoids n key ∧
      (advance host cache limit rounds name answer e).2.Avoids n ∧
      e.Spared n (advance host cache limit rounds name answer e).2 := by
  refine advance_induct (P := fun name answer e result => e.Avoids n → answer.Avoids n → (name = n → key = n) →
    result.1.Avoids n key ∧ result.2.Avoids n ∧ e.Spared n result.2) ?_ ?_ ?_ ?_ ?_ ?_ he ha own
  · exact fun _ _ e _ _ he ha own => ⟨⟨own, ha⟩, he, .refl n e⟩
  · exact fun _ _ e _ he _ _ => ⟨trivial, he, .refl n e⟩
  · intro name _ e text _ he _ _
    have silent := e.silent_addTemplate name text
    exact ⟨trivial, silent.avoids he, silent.spared n⟩
  · exact fun _ _ e _ _ he _ _ => ⟨trivial, he, .refl n e⟩
  · exact fun _ _ e _ _ _ _ he _ _ => ⟨trivial, he, .refl n e⟩
  · intro name answer e other loader result redirects _ set rest he ha own
    have ne : other ≠ n := fun same => ha _ (same ▸ redirects)
    have silent := e.silent_record .debug ("Redirecting `" ++ name ++ "` to `" ++ other ++ "`")
    obtain ⟨load, engine, spared⟩ := rest (silent.avoids he) (he loader set _ _) fun same => absurd same ne
    refine ⟨load, engine, spared.asked.trans ?_, spared.asides.trans silent.asides⟩
    rw [Engine.count_ask loader ne, silent.asked]

theorem avoids_poll {load : Load} (host : Host) (cache : Bool) (limit : Nat) (he : e.Avoids n) (hl : load.Avoids n key) :
    (load.poll host cache limit e).1.Avoids n key ∧ (load.poll host cache limit e).2.Avoids n ∧
      e.Spared n (load.poll host cache limit e).2 := by
  cases load with
  | waiting name answer rounds => exact avoids_advance he hl.2 hl.1
  | settled result => exact ⟨trivial, he, .refl n e⟩

end Load
end Stencil
