import Stencil.Proofs.Source.Print
import Stencil.Source.Path

/-! Programs as they come from sources. -/

namespace Stencil

open Decimal

/-- A key, as it is read. -/
def IsKey (name : String) : Prop := name.toList.head?.any isKeyStart = true ∧ ∀ ch ∈ name.toList, isKeyChar ch = true

instance (name : String) : Decidable (IsKey name) :=
  decidable_of_iff ((name.toList.head?.any isKeyStart && name.toList.all isKeyChar) = true)
    (Bool.and_eq_true_iff.trans (and_congr_right fun _ => List.all_eq_true))

mutual

/-- A path, as it is read. -/
def Path.Proper : Path → Prop
  | ⟨current, []⟩ => current = true
  | ⟨_, .key name :: rest⟩ => IsKey name ∧ Segment.AllProper rest
  | ⟨_, _ :: _⟩ => False

def Segment.AllProper : List Segment → Prop
  | [] => True
  | .key name :: rest => IsKey name ∧ Segment.AllProper rest
  | .index i :: rest => i ≤ Decimal.Numeral.maxIndex ∧ Segment.AllProper rest
  | .dynamic path :: rest => path.Proper ∧ Segment.AllProper rest

end

/-- The text of a step may stand in quotes. -/
def Step.Inline : Step → Prop
  | .write _ => True
  | .reference path list => path.Proper ∧ (∀ f ∈ list, IsKey f) ∧ declineFilter ∉ list
  | _ => False

/-- A decimal with a fraction. -/
def Positional (text : List Char) : Prop :=
  ∃ sign whole places, text = sign ++ (whole ++ '.' :: places) ∧ (sign = ['-'] ∨ sign = [] ∧ whole ≠ []) ∧
    (∀ ch ∈ whole, ch.isDigit = true) ∧ (∀ ch ∈ places, ch.isDigit = true) ∧ places ≠ []

/-- The numbers that can be written as decimals. -/
def Readable (x : Float) : Prop := ∃ text, Positional text ∧ Numeral.float? text = some x

/-- A program may stand in quotes: no backslash at its end takes the closing quote for text. -/
structure Quotable (steps : Body) : Prop where
  inline : ∀ s ∈ steps, s.Inline
  ends : (steps.flatMap Print.quotedStep).getLast? ≠ some '\\'

/-- The program of quoted text that is not known before it is rendered. -/
structure Dynamic (steps : Body) : Prop extends Quotable steps where
  merged : steps.foldr Step.prepend [] = steps
  unknown : steps ≠ [] ∧ ∀ text, steps ≠ [.write text]

def PartialName.Canonical : PartialName Body → Prop
  | .static name => Quotable [.write name]
  | .dynamic b => Dynamic b

def Operand.Canonical : Operand Body → Prop
  | .text s => Quotable [.write s]
  | .int _ => True
  | .float x => Readable x
  | .path p => p.Proper
  | .body b => Dynamic b

/-- The context and the parameters of a tag. -/
structure Fitted (own : Option Path) (list : List (String × Operand Body)) : Prop where
  proper : ∀ p, own = some p → p.Proper
  keys : ∀ e ∈ list, IsKey e.1
  canonical : ∀ e ∈ list, e.2.Canonical

theorem fitted_nothing : Fitted none [] := ⟨nofun, by simp, by simp⟩

/-- The bodies directly inside a step, those in quotes left aside. -/
def Step.inner : Step → List Body
  | .sectionTag _ _ _ _ bodies | .helperTag _ _ _ bodies => bodies.block.toList ++ bodies.named.map (·.2)
  | .slot _ default => default.toList
  | _ => []

/-- Bodies have names, and a block if there are any. -/
structure Bodies.Fit (bodies : Bodies Body) : Prop where
  keys : ∀ e ∈ bodies.named, IsKey e.1
  block : bodies.block = none → bodies.named = []

theorem Bodies.Fit.block_only (block : Option Body) : Bodies.Fit ⟨block, []⟩ := ⟨by simp, fun _ => rfl⟩

/-- A step, its bodies aside, as it comes from a source. -/
def Step.Fit : Step → Prop
  | .write _ => True
  | .reference path list => (Step.reference path list).Inline
  | .sectionTag _ key own list bodies => key.Proper ∧ Fitted own list ∧ bodies.Fit
  | .helperTag name own list bodies => IsKey name ∧ Fitted own list ∧ bodies.Fit
  | .partialTag name own list => name.Canonical ∧ Fitted own list
  | .slot name _ => IsKey name

/-- A program as it comes from a source: text that stands together is one step. -/
inductive Canonical : Body → Prop
  | nil : Canonical []
  | cons {s : Step} {rest : Body} : s.Fit → (∀ b ∈ s.inner, Canonical b) → s.prepend rest = s :: rest →
    Canonical rest → Canonical (s :: rest)

theorem Canonical.merged {b : Body} (canonical : Canonical b) : b.foldr Step.prepend [] = b := by
  induction canonical with
  | nil => rfl
  | @cons s rest _ _ joined _ _ ih => rw [List.foldr_cons, ih, joined]

/-- A template as it comes from a source. -/
structure Template.Canonical (t : Template) : Prop where
  body : Stencil.Canonical t.body
  table : ∀ e ∈ t.blocks, IsKey e.1 ∧ Stencil.Canonical e.2
  sorted : Dict.Sorted t.blocks

end Stencil
