import Stencil.Proofs.Source.Retention
import Stencil.Proofs.Source.Roundtrip

/-! The normal form of programs. In every body of what a source compiles to, at every depth and also in quotes, a text is
    not empty and stands beside no other text, and no reference still declines the escape. What is left in quotes holds
    references, and besides them only text: quotes without references have become text. -/

namespace Stencil

variable {b : Body} {s : Step} {t : Template}

/-! ### Bodies at every depth -/

/-- The program in the quotes of a parameter. -/
def Operand.quoted? : Operand Body → Option Body
  | .body b => some b
  | .text _ | .int _ | .float _ | .path _ => none

/-- The program in the quotes of a name. -/
def PartialName.quoted? : PartialName Body → Option Body
  | .dynamic b => some b
  | .static _ => none

/-- The programs in the quotes of a step, which are rendered before it. -/
def Step.quotes : Step → List Body
  | .sectionTag _ _ _ list _ | .helperTag _ _ list _ => list.filterMap (·.2.quoted?)
  | .partialTag name _ list => name.quoted?.toList ++ list.filterMap (·.2.quoted?)
  | .write _ | .reference .. | .slot .. => []

/-- The bodies of a template: its program, what it puts into slots, and what stands inside the steps of its bodies, in
    quotes or not. -/
inductive Template.Has (t : Template) : Body → Prop
  | program : Has t t.body
  | block {slot : String} {b : Body} : (slot, b) ∈ t.blocks → Has t b
  | inner {b inside : Body} {s : Step} : Has t b → s ∈ b → inside ∈ s.inner → Has t inside
  | quoted {b inside : Body} {s : Step} : Has t b → s ∈ b → inside ∈ s.quotes → Has t inside

/-! ### The normal form -/

/-- No text is empty, no two texts stand together, and no reference declines the escape. -/
structure NormalForm (b : Body) : Prop where
  filled : .write "" ∉ b
  joined (front back : Body) (text more : String) : b ≠ front ++ .write text :: .write more :: back
  decided {path : Path} {filters : List String} : .reference path filters ∈ b → declineFilter ∉ filters

/-- There is a reference, and besides references only text. -/
structure Interpolated (b : Body) : Prop where
  reference : ∃ path filters, .reference path filters ∈ b
  plain : ∀ s ∈ b, (∃ text, s = .write text) ∨ ∃ path filters, s = .reference path filters

namespace Step

theorem length_prepend_le (s : Step) (b : Body) : (s.prepend b).length ≤ b.length + 1 := by
  rcases s.prepend_cases b with ⟨-, same⟩ | ⟨text, more, rest, -, rfl, joined⟩ | apart
  · rw [same]
    exact Nat.le_succ _
  · rw [joined]
    exact Nat.le_succ _
  · rw [apart, List.length_cons]

theorem length_merged_le (b : Body) : (b.foldr prepend []).length ≤ b.length := by
  induction b with
  | nil => exact Nat.le_refl 0
  | cons s b ih => exact (s.length_prepend_le _).trans (Nat.succ_le_succ ih)

variable (merged : b.foldr prepend [] = b)

include merged

/-- Without its empty text a program would merge into the same, which is longer. -/
theorem filled_of_merged : .write "" ∉ b := by
  intro mem
  obtain ⟨front, back, rfl⟩ := List.append_of_mem mem
  have without : (front ++ .write "" :: back).foldr prepend [] = (front ++ back).foldr prepend [] := by
    rw [List.foldr_append, List.foldr_cons, prepend_empty, List.foldr_append]
  have shorter := length_merged_le (front ++ back)
  rw [← without, merged, List.length_append, List.length_cons, List.length_append] at shorter
  omega

/-- With two texts made one a program would merge into the same, which is longer. -/
theorem joined_of_merged (front back : Body) (text more : String) :
    b ≠ front ++ .write text :: .write more :: back := by
  rintro rfl
  have together : (front ++ .write text :: .write more :: back).foldr prepend [] =
      (front ++ .write (text ++ more) :: back).foldr prepend [] := by
    rw [List.foldr_append, List.foldr_cons, List.foldr_cons, ← prepend_append, List.foldr_append, List.foldr_cons]
  have shorter := length_merged_le (front ++ .write (text ++ more) :: back)
  rw [← together, merged] at shorter
  simp only [List.length_append, List.length_cons] at shorter
  omega

end Step

/-! ### Programs of sources -/

theorem Canonical.of_mem (canonical : Canonical b) (mem : s ∈ b) : s.Fit ∧ ∀ inside ∈ s.inner, Canonical inside := by
  induction canonical with
  | nil => cases mem
  | cons fit inner _ _ _ ih =>
    rcases List.mem_cons.mp mem with rfl | mem
    · exact ⟨fit, inner⟩
    · exact ih mem

theorem Canonical.normalForm (canonical : Canonical b) : NormalForm b where
  filled := Step.filled_of_merged canonical.merged
  joined := Step.joined_of_merged canonical.merged
  decided mem := by
    obtain ⟨-, -, decided⟩ : (Step.reference _ _).Inline := (canonical.of_mem mem).1
    exact decided

theorem Dynamic.normalForm (dynamic : Dynamic b) : NormalForm b where
  filled := Step.filled_of_merged dynamic.merged
  joined := Step.joined_of_merged dynamic.merged
  decided mem := (dynamic.inline _ mem).2.2

theorem Step.Inline.cases (inline : s.Inline) :
    (∃ text, s = .write text) ∨ ∃ path filters, s = .reference path filters := by
  cases s with
  | write text => exact .inl ⟨text, rfl⟩
  | reference path filters => exact .inr ⟨path, filters, rfl⟩
  | sectionTag | helperTag | partialTag | slot => exact inline.elim

theorem Dynamic.interpolated (dynamic : Dynamic b) : Interpolated b where
  plain s mem := (dynamic.inline s mem).cases
  reference := by
    have plain (s : Step) (mem : s ∈ b) := (dynamic.inline s mem).cases
    have joined := Step.joined_of_merged dynamic.merged
    obtain ⟨some, more⟩ := dynamic.unknown
    -- A program of texts alone would be a single text, which is known.
    match b with
    | [] => exact absurd rfl some
    | s :: rest =>
      rcases plain s List.mem_cons_self with ⟨text, rfl⟩ | ⟨path, filters, rfl⟩
      case inr => exact ⟨path, filters, List.mem_cons_self⟩
      match rest with
      | [] => exact absurd rfl (more text)
      | s :: rest =>
        rcases plain s (List.mem_cons_of_mem _ List.mem_cons_self) with ⟨next, rfl⟩ | ⟨path, filters, rfl⟩
        · exact absurd rfl (joined [] rest text next)
        · exact ⟨path, filters, List.mem_cons_of_mem _ List.mem_cons_self⟩

theorem Fitted.dynamic {own : Option Path} {list : List (String × Operand Body)} (fitted : Fitted own list)
    {inside : Body} (mem : inside ∈ list.filterMap (·.2.quoted?)) : Dynamic inside := by
  obtain ⟨⟨key, operand⟩, listed, quoted⟩ := List.mem_filterMap.mp mem
  have canonical : operand.Canonical := fitted.canonical _ listed
  cases operand with
  | body b =>
    cases quoted
    exact canonical
  | text | int | float | path => cases quoted

theorem Step.Fit.dynamic (fit : s.Fit) {inside : Body} (mem : inside ∈ s.quotes) : Dynamic inside := by
  cases s with
  | sectionTag kind key own list bodies => exact fit.2.1.dynamic mem
  | helperTag name own list bodies => exact fit.2.1.dynamic mem
  | partialTag name own list =>
    rcases List.mem_append.mp mem with mem | mem
    · cases name with
      | static name => cases mem
      | dynamic b =>
        obtain rfl := List.mem_singleton.mp mem
        exact fit.1
    · exact fit.2.dynamic mem
  | write | reference | slot => cases mem

/-- A body of a template stands in quotes, or comes from a source as it is. -/
theorem Template.Canonical.of_has (canonical : t.Canonical) (has : t.Has b) : Stencil.Canonical b ∨ Dynamic b := by
  have flat {b inside : Body} {s : Step} (dynamic : Dynamic b) (mem : s ∈ b) (deeper : inside ∈ s.inner ++ s.quotes) :
      False := by
    rcases (dynamic.inline s mem).cases with ⟨text, rfl⟩ | ⟨path, filters, rfl⟩ <;> cases deeper
  induction has with
  | program => exact .inl canonical.body
  | block mem => exact .inl (canonical.table _ mem).2
  | inner _ mem deeper ih =>
    rcases ih with canonical | dynamic
    · exact .inl ((canonical.of_mem mem).2 _ deeper)
    · exact (flat dynamic mem (List.mem_append_left _ deeper)).elim
  | quoted _ mem deeper ih =>
    rcases ih with canonical | dynamic
    · exact .inr ((canonical.of_mem mem).1.dynamic deeper)
    · exact (flat dynamic mem (List.mem_append_right _ deeper)).elim

/-- Every body of what a source compiles to is in normal form, and in quotes there is a reference, and besides references
    only text. -/
theorem compiled_in_normal_form {source : String} {name : Option String} {whitespace : Bool} {t : Template}
    (compiled : Template.compile source name whitespace = .ok t) : ∀ b, t.Has b →
      NormalForm b ∧ ∀ s ∈ b, ∀ inside ∈ s.quotes, t.Has inside ∧ Interpolated inside := by
  obtain ⟨canonical, -⟩ := canonical_of_compile compiled
  intro b has
  have stands := canonical.of_has has
  refine ⟨stands.elim Canonical.normalForm Dynamic.normalForm, fun s mem inside deeper => ⟨.quoted has mem deeper, ?_⟩⟩
  rcases stands with canonical | dynamic
  · exact ((canonical.of_mem mem).1.dynamic deeper).interpolated
  · rcases (dynamic.inline s mem).cases with ⟨text, rfl⟩ | ⟨path, filters, rfl⟩ <;> cases deeper

/-- Texts of all kinds, between tags and in quotes around a reference. -/
def mixedTexts : String :=
  "a\x7b! c !\x7d\x7b~n\x7d\n \x7b\x60b\x60\x7d\x7b#k p=\"l\x7b~lb\x7d\x7bx|s\x7d\x7b~rb\x7dr\" q=\"m\x7b~s\x7dn\"\x7d\x7b/k\x7d"

theorem compiled_in_normal_form_mixedTexts : ∃ t, Template.compile mixedTexts none true = .ok t ∧
    t.body.length = 2 ∧ NormalForm t.body ∧
    ∃ s ∈ t.body, ∃ inside ∈ s.quotes, inside.length = 3 ∧ NormalForm inside ∧ Interpolated inside := by
  have seen : (Template.compile mixedTexts none true).toOption.any (fun t => decide (t.body.length = 2) &&
      t.body.any (·.quotes.any fun inside => decide (inside.length = 3))) = true := by decide +kernel
  obtain ⟨t, compiled, seen⟩ := Yields.of_any seen
  obtain ⟨two, quoted⟩ := Bool.and_eq_true_iff.mp seen
  obtain ⟨s, mem, quotes⟩ := List.any_eq_true.mp quoted
  obtain ⟨inside, deeper, three⟩ := List.any_eq_true.mp quotes
  obtain ⟨normal, inQuotes⟩ := compiled_in_normal_form compiled t.body .program
  obtain ⟨has, interpolated⟩ := inQuotes s mem inside deeper
  exact ⟨t, compiled, of_decide_eq_true two, normal, s, mem, inside, deeper, of_decide_eq_true three,
    (compiled_in_normal_form compiled inside has).1, interpolated⟩

end Stencil
