import Mathlib.Data.Prod.Lex
import Mathlib.Logic.Relation
import Stencil.Engine.Basic
import Stencil.Proofs.Source.Readers

/-! The places to which the parser comes. It goes from a reader to those of its script, either further on in the source or
    to a lower stage, so it comes to an end, and its loops go forward. All its moves keep the cursor exact, so it is exact at
    every place, and every fault is at a place of the source. -/

namespace Stencil

namespace Reader

open Cursor

/-- How many readers may follow each other at one place: there a reader leaves the rest to readers of lower stages. -/
def stage : Reader → Nat
  | .mark _ | .char | .fail _ => 0
  | .optional _ | .chars _ | .plain | .closing _ _ | .segments | .filters | .special | .pieces _ | .quoted | .fraction
  | .context | .tag => 1
  | .key | .index | .number | .nodes => 2
  | .path | .params | .keyHead | .partialName | .separatorTag | .bodies _ | .namedBodies _ _ => 3
  | .reference | .paramValue | .pathHead | .partialTag | .closingTag => 4
  | .undone r => r.stage + 1

/-- A reader that goes forward wherever it ends. -/
def Moves : Reader → Bool
  | .mark text => text ≠ ""
  | .char | .key | .path | .reference | .special | .pieces _ | .quoted | .keyHead | .pathHead | .partialName | .partialTag
  | .tag => true
  | _ => false

/-- Readers each of which is of a lower stage than a bound, up to the first that goes forward. -/
def Descends (bound : Nat) : List Reader → Bool
  | [] => true
  | r :: rest => r.stage < bound && (r.Moves || Descends bound rest)

/-- The characters that a reader takes with no look at each of them are marks. -/
def Marks : Reader → Bool
  | .mark text | .optional text | .closing text _ => text.toList.all (IsMark ·)
  | .undone r => r.Marks
  | _ => true

/-- The parser goes from one reader and place to another: to the next of the readers to which a reader leaves the rest, where
    the one before it has ended, or to a reader that is undone afterwards. -/
inductive Goes : Reader × Cursor → Reader × Cursor → Prop
  | next {r k : Reader} {before after : List Reader} {c d : Cursor} : r.script c = before ++ k :: after →
    readAll before c = .ok d → Goes (r, c) (k, d)
  | undone (r : Reader) (c : Cursor) : Goes (.undone r, c) (r, c)

section

variable {r k : Reader} {c d : Cursor} {l l' before after : List Reader} {source : String}

/-! ### Forward, or at the same place to a lower stage -/

theorem ended_eq_ok {α : Type} {cursor : α → Cursor} {x : Except ParseError α} (h : ended cursor x = .ok d) :
    ∃ a, x = .ok a ∧ cursor a = d := by
  cases x with
  | error e => cases h
  | ok a =>
    cases h
    exact ⟨a, rfl, rfl⟩

theorem ended?_eq_ok {α : Type} {cursor : α → Cursor} {x : Option α} (h : ended? cursor x = .ok d) :
    ∃ a, x = some a ∧ cursor a = d := by
  cases x with
  | none => cases h
  | some a =>
    cases h
    exact ⟨a, rfl, rfl⟩

theorem forward_of_read (moves : r.Moves = true) (h : r.read c = .ok d) : c.Forward d := by
  cases r with
  | mark text =>
    obtain ⟨p, there, rfl⟩ := ended_eq_ok h
    obtain ⟨here, moved⟩ := startsWith_of_expect there
    have some : 0 < text.length := Nat.pos_of_ne_zero fun none => of_decide_eq_true moves (String.length_eq_zero_iff.mp none)
    rw [moved]
    exact forward_skip (rest_ne_nil_of_startsWith here some) some
  | char =>
    rw [read] at h
    split at h
    · cases h
    · cases h
      exact (forward_walk ‹_› Nat.one_pos : c.Forward (c.walk 1))
  | key | path | special | pieces | quoted | keyHead | pathHead | partialName | partialTag =>
    obtain ⟨p, -, rfl⟩ := ended_eq_ok h
    exact p.forward
  | reference =>
    obtain ⟨p, -, rfl⟩ := ended?_eq_ok h
    exact p.forward
  | tag =>
    rw [read] at h
    split at h
    · obtain ⟨p, -, rfl⟩ := ended_eq_ok h
      exact p.forward
    · obtain ⟨p, there, -⟩ := ended_eq_ok h
      exact absurd (startsWith_of_expect there).1 ‹_›
  | _ => cases moves

theorem onward_of_read (h : r.read c = .ok d) : c.Onward d := by
  cases moves : r.Moves with
  | true => exact (forward_of_read moves h).onward
  | false =>
    cases r with
    | mark | closing | index | segments | number | paramValue | params | context | closingTag | separatorTag | nodes | bodies
      | namedBodies =>
      obtain ⟨p, -, rfl⟩ := ended_eq_ok h
      exact p.onward
    | filters =>
      obtain ⟨p, -, rfl⟩ := ended?_eq_ok h
      exact p.onward
    | chars | plain =>
      cases h
      exact onward_walk _ c
    | optional text =>
      cases h
      split
      · exact onward_skip _ c
      · exact .refl c
    | fraction =>
      cases h
      split
      · exact (onward_skip 1 c).trans (onward_walk _ _)
      · exact .refl c
    | undone =>
      cases h
      exact .refl c
    | fail => cases h
    | _ => cases moves

theorem onward_of_readAll (h : readAll l c = .ok d) : c.Onward d := by
  induction l generalizing c with
  | nil =>
    cases h
    exact .refl _
  | cons r rest ih =>
    rw [readAll] at h
    cases there : r.read c with
    | error e =>
      rw [there] at h
      cases h
    | ok c₁ =>
      rw [there] at h
      exact (onward_of_read there).trans (ih h)

theorem exists_read_of_bind {f : Cursor → Except (Option ParseError) Cursor} {x : Except (Option ParseError) Cursor}
    (h : (x >>= f) = .ok d) : ∃ c₁, x = .ok c₁ ∧ f c₁ = .ok d := by
  cases x with
  | error e => cases h
  | ok c₁ => exact ⟨c₁, rfl, h⟩

theorem stage_lt_of_descends {bound : Nat} (descends : Descends bound (before ++ k :: after) = true)
    (done : readAll before c = .ok d) : c.Forward d ∨ c.Onward d ∧ k.stage < bound := by
  induction before generalizing c with
  | nil =>
    cases done
    exact .inr ⟨.refl _, of_decide_eq_true (Bool.and_eq_true_iff.mp descends).1⟩
  | cons r rest ih =>
    obtain ⟨-, moves⟩ := Bool.and_eq_true_iff.mp descends
    obtain ⟨c₁, there, done⟩ := exists_read_of_bind done
    rcases Bool.or_eq_true_iff.mp moves with moves | descends
    · exact .inl ((forward_of_read moves there).trans_onward (onward_of_readAll done))
    · have onward := onward_of_read there
      exact (ih descends done).imp onward.trans_forward (And.imp_left onward.trans)

theorem descends_refused {α : Type} (bound : Nat) (x : Except ParseError α) (pos : 0 < bound) :
    Descends bound (refused x) = true := by
  cases x <;> simp [refused, Descends, stage, pos]

/-- But for the loops over nodes and over bodies it is plain from what a reader leaves the rest to. -/
theorem descends_script (r : Reader) (c : Cursor) : Descends r.stage (r.script c) = true ∨
    r = .nodes ∨ ∃ written, r = .bodies written ∨ ∃ name, r = .namedBodies written name := by
  cases r with
  | mark | char | fail | undone | reference | special | quoted | keyHead | pathHead | partialTag | closingTag | separatorTag
    | tag => exact .inl rfl
  | nodes => exact .inr (.inl rfl)
  | bodies written => exact .inr (.inr ⟨written, .inl rfl⟩)
  | namedBodies written name => exact .inr (.inr ⟨written, .inr ⟨name, rfl⟩⟩)
  | index => exact .inl (descends_refused 2 _ Nat.two_pos)
  | number => exact .inl (descends_refused 2 _ Nat.two_pos)
  | path =>
    left
    rw [script]
    split
    · split <;> rfl
    · rfl
  | pieces reversed =>
    left
    rw [script]
    split
    case h_4 => split <;> rfl
    all_goals rfl
  | optional | closing =>
    left
    rw [script]
    split
    · exact Bool.or_true _
    · first | rfl | (split <;> rfl)
  | _ =>
    left
    rw [script]
    split
    · rfl
    · first | rfl | (split <;> rfl)

theorem forward_of_first {first : Reader} {rest : List Reader} {bound : Nat} (lower : first.stage < bound)
    (moved : ∀ c₁, first.read c = .ok c₁ → c.Forward c₁) (split : first :: rest = before ++ k :: after)
    (done : readAll before c = .ok d) : c.Forward d ∨ c.Onward d ∧ k.stage < bound := by
  cases before with
  | nil =>
    cases split
    cases done
    exact .inr ⟨.refl _, lower⟩
  | cons r others =>
    cases split
    obtain ⟨c₁, there, done⟩ := exists_read_of_bind done
    exact .inl ((moved c₁ there).trans_onward (onward_of_readAll done))

theorem forward_of_nodes (split : nodes.script c = before ++ k :: after) (done : readAll before c = .ok d) :
    c.Forward d ∨ c.Onward d ∧ k.stage < nodes.stage := by
  rw [script] at split
  split at split
  · cases (List.append_eq_nil_iff.mp split.symm).2
  · rename_i more
    split at split
    · have descends : Descends 2 (before ++ k :: after) = true := by
        rw [← split]
        split <;> rfl
      exact stage_lt_of_descends descends done
    · rename_i other
      have lower : (textOrBreak c).stage < 2 := by
        unfold textOrBreak
        split <;> decide
      refine forward_of_first lower (fun c₁ there => ?_) split done
      rw [← read_textOrBreak more (Bool.eq_false_iff.mpr other)] at there
      cases there
      exact (c.textOrBreak more).forward

/-- Nodes end in front of a further body only if a separator was read. -/
theorem forward_of_bodies {written : String} (split : .nodes :: behindNodes written c.nodes = before ++ k :: after)
    (done : readAll before c = .ok d) : c.Forward d ∨ c.Onward d ∧ k.stage < 3 := by
  have plain (descends : Descends 3 (.nodes :: behindNodes written c.nodes) = true) :=
    stage_lt_of_descends (split ▸ descends) done
  cases there : c.nodes with
  | error e => exact plain (by rw [there]; rfl)
  | ok run =>
    obtain ⟨list, stop, c₁, onward, forward⟩ := run
    cases stop with
    | sourceEnd => exact plain (by rw [there]; rfl)
    | close found =>
      refine plain ?_
      rw [there, behindNodes]
      dsimp only
      split <;> rfl
    | separator name =>
      refine forward_of_first (by decide) (fun c₂ ends => ?_) split done
      obtain ⟨run, there', rfl⟩ := ended_eq_ok ends
      cases there.symm.trans there'
      exact forward (by simp)

/-- Where the parser goes from a reader to another one, the place is further on, or else the stage is lower. -/
theorem forward_or_lower (split : r.script c = before ++ k :: after) (done : readAll before c = .ok d) :
    c.Forward d ∨ c.Onward d ∧ k.stage < r.stage := by
  rcases descends_script r c with descends | rfl | ⟨written, rfl | ⟨name, rfl⟩⟩
  · exact stage_lt_of_descends (split ▸ descends) done
  · exact forward_of_nodes split done
  · exact forward_of_bodies split done
  · exact forward_of_bodies split done

theorem Goes.forward_or_lower {x y : Reader × Cursor} (h : Goes x y) :
    x.2.Forward y.2 ∨ x.2.Onward y.2 ∧ y.1.stage < x.1.stage := by
  cases h with
  | next split done => exact Reader.forward_or_lower split done
  | undone r c => exact .inr ⟨.refl c, Nat.lt_succ_self _⟩

theorem Goes.trans_forward_or_lower {x y : Reader × Cursor} (h : Relation.TransGen Goes x y) :
    x.2.Forward y.2 ∨ x.2.Onward y.2 ∧ y.1.stage < x.1.stage := by
  induction h with
  | single step => exact step.forward_or_lower
  | tail _ step ih =>
    rcases ih, step.forward_or_lower with ⟨forward | ⟨onward, lower⟩, forward' | ⟨onward', lower'⟩⟩
    · exact .inl (forward.trans forward')
    · exact .inl (forward.trans_onward onward')
    · exact .inl (onward.trans_forward forward')
    · exact .inr ⟨onward.trans onward', Nat.lt_trans lower' lower⟩

/-- The parser does not go on for ever. -/
theorem goes_wellFounded : WellFounded fun x y : Reader × Cursor => Goes y x := by
  refine Subrelation.wf (r := InvImage (Prod.Lex (· < ·) (· < ·)) fun x : Reader × Cursor => (x.2.rest.length, x.1.stage))
    (fun {x y} step => ?_) (InvImage.wf _ (WellFounded.prod_lex wellFounded_lt wellFounded_lt))
  rcases step.forward_or_lower with forward | ⟨onward, lower⟩
  · exact .left _ _ forward
  · rcases Nat.lt_or_eq_of_le onward with forward | same
    · exact .left _ _ forward
    · exact Prod.lex_def.mpr (.inr ⟨same, lower⟩)

/-! ### Every place is exact -/

theorem readAll_append (l l' : List Reader) (c : Cursor) : readAll (l ++ l') c = readAll l c >>= readAll l' := by
  induction l generalizing c with
  | nil => rfl
  | cons r rest ih =>
    rw [List.cons_append, readAll, readAll, bind_assoc]
    exact bind_congr ih

theorem marks_refused {α : Type} (x : Except ParseError α) : (refused x).all Marks = true := by
  cases x <;> rfl

theorem marks_behindHead {α : Type} (x : Except ParseError (Read c (Head α))) : (behindHead x).all Marks = true := by
  unfold behindHead
  split
  · split <;> rfl
  · rfl

theorem marks_behindNodes (written : String) (x : Except ParseError (NodeRun c)) :
    (behindNodes written x).all Marks = true := by
  unfold behindNodes
  split
  · rfl
  · split
    case h_2 => split <;> rfl
    all_goals rfl

theorem marks_behindBrace (c : Cursor) : (behindBrace c).Marks = true := by
  unfold behindBrace
  split <;> rfl

theorem marks_textOrBreak (c : Cursor) : (textOrBreak c).Marks = true := by
  unfold textOrBreak
  split <;> rfl

theorem marks_behindSigil (c : Cursor) : (behindSigil c).all Marks = true := by
  unfold behindSigil
  split
  case h_4 | h_5 | h_6 | h_7 | h_8 | h_9 => exact marks_behindHead _
  case h_13 => exact Bool.and_eq_true_iff.mpr ⟨marks_behindBrace _, rfl⟩
  all_goals rfl

/-- Readers take unseen only characters that are marks, if those do from which they take over. -/
theorem marks_script (marks : r.Marks = true) (c : Cursor) : (r.script c).all Marks = true := by
  cases r with
  | mark | char | fail | undone | reference | quoted | keyHead | pathHead | partialTag | closingTag | separatorTag => rfl
  | index => exact marks_refused _
  | number => exact marks_refused _
  | bodies written => exact marks_behindNodes written _
  | namedBodies written name => exact marks_behindNodes written _
  | tag => exact marks_behindSigil c
  | special =>
    change (behindSpecial _).all Marks = true
    unfold behindSpecial
    split
    · rfl
    · split <;> rfl
  | nodes =>
    rw [script]
    split
    · rfl
    · split
      · split <;> rfl
      · exact Bool.and_eq_true_iff.mpr ⟨marks_textOrBreak c, rfl⟩
  | pieces reversed =>
    rw [script]
    split
    case h_4 =>
      split
      · rfl
      · exact Bool.and_eq_true_iff.mpr ⟨rfl, Bool.and_eq_true_iff.mpr ⟨marks_behindBrace _, rfl⟩⟩
    all_goals rfl
  | optional text =>
    rw [script]
    split
    · exact Bool.and_eq_true_iff.mpr ⟨marks, rfl⟩
    · rfl
  | closing close what =>
    rw [script]
    split
    · exact Bool.and_eq_true_iff.mpr ⟨marks, rfl⟩
    · split
      · rfl
      · exact Bool.and_eq_true_iff.mpr ⟨rfl, Bool.and_eq_true_iff.mpr ⟨marks, rfl⟩⟩
  | path | segments =>
    rw [script]
    split <;> first | rfl | (split <;> first | rfl | (split <;> rfl))
  | _ =>
    rw [script]
    split
    · rfl
    · first | rfl | (split <;> rfl)

theorem Goes.marks {x y : Reader × Cursor} (h : Goes x y) (marks : x.1.Marks = true) : y.1.Marks = true := by
  cases h with
  | @next r k before after c d split =>
    have all := List.all_eq_true.mp (marks_script marks c)
    exact all k (split ▸ List.mem_append_right _ List.mem_cons_self)
  | undone r c => exact marks

/-- A reader does something by itself only if it leaves nothing to others. -/
theorem script_of_move (h : r.move c = .ok d) : d = c ∨ r.script c = [] := by
  cases r with
  | mark | char | fail => exact .inr rfl
  | _ =>
    cases h
    exact .inl rfl

theorem exact_move (here : Exact source c) (marks : r.Marks = true) (h : r.move c = .ok d) : Exact source d := by
  cases r with
  | mark text =>
    obtain ⟨p, there, rfl⟩ := ended_eq_ok h
    obtain ⟨starts, moved⟩ := startsWith_of_expect there
    rw [moved, skip_of_startsWith starts fun ch mem => of_decide_eq_true (List.all_eq_true.mp marks ch mem)]
    exact here.walk _
  | char =>
    rw [move, read] at h
    split at h
    · cases h
    · cases h
      exact here.next
  | fail => cases h
  | _ =>
    cases h
    exact here

theorem readAll_script (h : r.read c = .ok d) : ∃ c₁, r.move c = .ok c₁ ∧ readAll (r.script c) c₁ = .ok d :=
  exists_read_of_bind ((r.read_eq_ok_iff c d).mp h)

/-- What holds where a reader begins and is kept by those to which it goes holds wherever one of them ends. -/
theorem kept_readAll {P : Cursor → Prop} (here : P c)
    (kept : ∀ k c₁ c₂, Goes (r, c) (k, c₁) → P c₁ → k.read c₁ = .ok c₂ → P c₂) (split : r.script c = before ++ after)
    (done : readAll before c = .ok d) : P d := by
  induction before using List.reverseRecOn generalizing d after with
  | nil =>
    cases done
    exact here
  | append_singleton before k ih =>
    rw [List.append_assoc, List.singleton_append] at split
    rw [readAll_append] at done
    obtain ⟨c₁, first, last⟩ := exists_read_of_bind done
    rw [readAll_singleton] at last
    exact kept k c₁ d (.next split first) (ih split first) last

/-- A reader that begins at an exact place ends at one. -/
theorem exact_of_read (x : Reader × Cursor) (here : Exact source x.2) (marks : x.1.Marks = true) (h : x.1.read x.2 = .ok d) :
    Exact source d := by
  induction x using goes_wellFounded.induction generalizing d with
  | _ x ih =>
    obtain ⟨r, c⟩ := x
    obtain ⟨c₁, moved, done⟩ := readAll_script h
    rcases script_of_move moved with rfl | nothing
    · exact kept_readAll here (fun k c₁ c₂ step here₁ ends => ih (k, c₁) step here₁ (step.marks marks) ends)
        (List.append_nil _).symm done
    · dsimp only at done
      rw [nothing] at done
      cases done
      exact exact_move here marks moved

theorem Goes.exact {x y : Reader × Cursor} (h : Goes x y) (marks : x.1.Marks = true) (here : Exact source x.2) :
    Exact source y.2 := by
  cases h with
  | next split done =>
    exact kept_readAll here (fun k c₁ c₂ step here₁ ends => exact_of_read (k, c₁) here₁ (step.marks marks) ends) split done
  | undone r c => exact here

theorem Goes.refl_trans_exact {x y : Reader × Cursor} (h : Relation.ReflTransGen Goes x y) (marks : x.1.Marks = true)
    (here : Exact source x.2) : y.1.Marks = true ∧ Exact source y.2 := by
  induction h with
  | refl => exact ⟨marks, here⟩
  | tail _ step ih => exact ⟨step.marks ih.1, step.exact ih.1 ih.2⟩

/-! ### Faults -/

theorem exists_of_readAll_error {e : Option ParseError} (h : readAll l c = .error e) :
    ∃ before k after d, l = before ++ k :: after ∧ readAll before c = .ok d ∧ k.read d = .error e := by
  induction l generalizing c with
  | nil => cases h
  | cons r rest ih =>
    rw [readAll] at h
    cases there : r.read c with
    | error e' =>
      rw [there] at h
      cases h
      exact ⟨[], r, rest, c, rfl, rfl, there⟩
    | ok c₁ =>
      rw [there] at h
      obtain ⟨before, k, after, d, rfl, done, fails⟩ := ih h
      refine ⟨r :: before, k, after, d, rfl, ?_, fails⟩
      rw [readAll, there]
      exact done

theorem fault_of_expect {text : String} {e : ParseError} (h : c.expect text = .error e) : ∃ f, e = c.fault f := by
  unfold expect at h
  split at h
  · cases h
  · split at h <;>
    · cases h
      exact ⟨_, rfl⟩

theorem fault_of_move {e : ParseError} (h : r.move c = .error (some e)) : ∃ f, e = c.fault f := by
  cases r with
  | mark text =>
    change ended _ (c.expect text) = _ at h
    cases there : c.expect text with
    | ok p =>
      rw [there] at h
      cases h
    | error e' =>
      rw [there] at h
      cases h
      exact fault_of_expect there
  | char =>
    rw [move, read] at h
    split at h <;> cases h
  | fail f =>
    cases h
    exact ⟨f, rfl⟩
  | _ => cases h

/-- The fault of a reader that begins at an exact place is at an exact place. -/
theorem fault_of_read {e : ParseError} (x : Reader × Cursor) (here : Exact source x.2) (marks : x.1.Marks = true)
    (h : x.1.read x.2 = .error (some e)) : ∃ d f, Exact source d ∧ e = d.fault f := by
  induction x using goes_wellFounded.induction with
  | _ x ih =>
    obtain ⟨r, c⟩ := x
    rcases r.read_eq c with same | ⟨none, -⟩
    · cases moved : r.move c with
      | error e' =>
        have fails := same.symm.trans h
        rw [moved] at fails
        cases fails
        obtain ⟨f, rfl⟩ := fault_of_move moved
        exact ⟨c, f, here, rfl⟩
      | ok c₁ =>
        have stops := same.symm.trans h
        rw [moved] at stops
        obtain ⟨before, k, after, d, split, done, fails⟩ := exists_of_readAll_error stops
        rcases script_of_move moved with rfl | nothing
        · have step : Goes (r, c₁) (k, d) := .next split done
          exact ih (k, d) step (step.exact marks here) (step.marks marks) fails
        · cases (List.append_eq_nil_iff.mp (split.symm.trans nothing)).2
    · cases none.symm.trans h

end

/-- The parser, begun at the start of a source for its nodes or for a path alone, comes to a reader at a place. -/
def Comes (source : String) (r : Reader) (c : Cursor) : Prop :=
  ∃ entry, (entry = .nodes ∨ entry = .path) ∧ Relation.ReflTransGen Goes (entry, start source) (r, c)

/-- The parser stands at a place: a reader to which it comes begins or ends there. -/
def Stands (source : String) (c : Cursor) : Prop :=
  ∃ r d, Comes source r d ∧ (c = d ∨ r.read d = .ok c)

section

variable {source : String} {r k : Reader} {c d : Cursor}

theorem Comes.exact (h : Comes source r c) : r.Marks = true ∧ Exact source c := by
  obtain ⟨_, rfl | rfl, path⟩ := h <;> exact Goes.refl_trans_exact path rfl (exact_start source)

theorem Comes.trans (h : Comes source r c) (step : Relation.TransGen Goes (r, c) (k, d)) : Comes source k d := by
  obtain ⟨entry, which, path⟩ := h
  exact ⟨entry, which, path.trans step.to_reflTransGen⟩

theorem Stands.exact (h : Stands source c) : Exact source c := by
  obtain ⟨r, d, comes, rfl | ends⟩ := h
  · exact comes.exact.2
  · exact exact_of_read (r, d) comes.exact.2 comes.exact.1 ends

end

end Reader

open Reader

theorem Node.fault_of_ofSource {source : String} {e : ParseError} (h : Node.ofSource source = .error e) : e.At source := by
  rw [Node.ofSource] at h
  have begun := Cursor.exact_start source
  cases there : (Cursor.start source).nodes with
  | error e' =>
    rw [there] at h
    cases h
    have fails : Reader.nodes.read (.start source) = .error (some e) := by
      rw [Reader.read, there]
      rfl
    obtain ⟨d, f, exact, rfl⟩ := fault_of_read (.nodes, .start source) begun rfl fails
    exact exact.fault_at f
  | ok run =>
    have ends : Reader.nodes.read (.start source) = .ok run.cursor := by
      rw [Reader.read, there]
      rfl
    have exact := exact_of_read (.nodes, .start source) begun rfl ends
    obtain ⟨list, stop, c, onward, forward⟩ := run
    rw [there] at h
    cases stop with
    | sourceEnd => cases h
    | separator | close =>
      cases h
      exact exact.fault_at _

/-- A place at which the parser stands is a boundary of characters of the source, its line is one more than the line breaks
    before it, and its line starts behind the last of them; so what is read from the source there, or between two such
    places, is there to be read. A reader ends where those end to which it leaves the rest, one after another. Wherever the
    parser comes again to a reader of the same stage or a higher one it has gone forward, as each loop does that goes on
    with the reader it is, a tag goes forward, and so the parser comes to an end. Where a source does not compile, the fault
    names the template and is at a boundary of characters of the source. -/
theorem parser_positions_exact (source : String) :
    (∀ c, Stands source c →
      Cursor.Exact source c ∧ c.offset ≤ source.utf8ByteSize ∧ (String.Pos.Raw.mk c.offset).IsValid source ∧
      bytesBetween? source c.offset source.utf8ByteSize = some (.ofList c.rest)) ∧
    (∀ c d, Stands source c → Stands source d → c.offset ≤ d.offset →
      bytesBetween? source c.offset d.offset = some (c.upTo d)) ∧
    (∀ (r : Reader) c d, r.read c = .ok d ↔ (r.move c >>= readAll (r.script c)) = .ok d) ∧
    (∀ r c d, Comes source r c → r.read c = .ok d → c.offset ≤ d.offset) ∧
    (∀ r c k d, Comes source r c → Relation.TransGen Goes (r, c) (k, d) →
      c.offset ≤ d.offset ∧ (r.stage ≤ k.stage → c.offset < d.offset)) ∧
    (∀ c d, Comes source .tag c → Reader.tag.read c = .ok d → c.offset < d.offset) ∧
    (WellFounded fun x y : Reader × Cursor => Goes y x) ∧
    ∀ (e : Engine) (name : Option String) (error : Error), e.compile source name = .error error →
      ∃ fault, error = .parse fault ∧ fault.template = name ∧ fault.At source := by
  refine ⟨fun c stands => ?_, fun c d stands stands' ordered => stands.exact.bytesBetween?_upTo stands'.exact ordered,
    Reader.read_eq_ok_iff, fun r c d comes ends => ?_, fun r c k d comes steps => ?_, fun c d comes ends => ?_,
    goes_wellFounded, fun e name error failed => ?_⟩
  · have exact := stands.exact
    exact ⟨exact, Nat.le.intro exact.offset_add, exact.isValid, exact.bytesBetween?_rest⟩
  · exact comes.exact.2.offset_le (exact_of_read (r, c) comes.exact.2 comes.exact.1 ends) (onward_of_read ends)
  · have exact := comes.exact.2
    have exact' := (comes.trans steps).exact.2
    rcases Goes.trans_forward_or_lower steps with forward | ⟨onward, lower⟩
    · exact ⟨exact.offset_le exact' forward.onward, fun _ => exact.offset_lt exact' forward⟩
    · exact ⟨exact.offset_le exact' onward, fun again => absurd again (Nat.not_le.mpr lower)⟩
  · exact comes.exact.2.offset_lt (exact_of_read (.tag, c) comes.exact.2 comes.exact.1 ends) (forward_of_read rfl ends)
  · rw [Engine.compile, Template.compile] at failed
    cases tree : Node.ofSource source with
    | ok nodes =>
      rw [tree] at failed
      cases failed
    | error fault =>
      rw [tree] at failed
      cases failed
      have located : fault.At source := Node.fault_of_ofSource tree
      exact ⟨_, rfl, rfl, located⟩

/-- Text of two bytes a character, braces that hold no reference, and on the third line a tag that closes another. -/
def mismatchedSource : String :=
  "\u00e9\x7bx y\n\x7b#two\x7d\n\x7b/three\x7d"

theorem parser_positions_exact_mismatchedSource : Stands mismatchedSource (.start mismatchedSource) ∧
    (∃ fault, ({} : Engine).compile mismatchedSource (some "t") = .error (.parse fault) ∧
      fault = ⟨some "t", 3, 9, .mismatchedClose "two" "three"⟩ ∧ fault.At mismatchedSource) := by
  have stands : Stands mismatchedSource (.start mismatchedSource) := ⟨.nodes, _, ⟨.nodes, .inl rfl, .refl⟩, .inl rfl⟩
  have seen : (match ({} : Engine).compile mismatchedSource (some "t") with
      | .error (.parse fault) => decide (fault = ⟨some "t", 3, 9, .mismatchedClose "two" "three"⟩)
      | _ => false) = true := by
    decide +kernel
  split at seen
  · rename_i fault failed
    obtain ⟨-, -, -, -, -, -, -, compiling⟩ := parser_positions_exact mismatchedSource
    obtain ⟨_, same, -, located⟩ := compiling _ _ _ failed
    cases same
    exact ⟨stands, fault, failed, of_decide_eq_true seen, located⟩
  · cases seen

end Stencil
