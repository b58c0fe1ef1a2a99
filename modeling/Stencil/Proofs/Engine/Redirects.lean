import Mathlib.Logic.Function.Iterate
import Stencil.Proofs.Engine.Loads

/-! Chains of redirects. A loader that answers at once leads from a name over other names to an ending, or round and round.
    A load gives up after `limit + 1` rounds. A round looks at one answer; if that is a redirect, it also takes a template
    kept under the next name, and the error of the next answer. So these two are reached over one redirect more than the
    sources and templates that the loader finds. -/

namespace Stencil

/-- What a loader answers to each name. -/
abbrev Replies := String → Except Error Loaded

/-- The loader of the engine answers each name at once, whatever it was asked before. -/
def Engine.RepliesAtOnce (replies : Replies) (e : Engine) : Prop :=
  ∃ loader, e.loader = some loader ∧ ∀ asked name host, loader.load asked name host = some (replies name)

/-- Where a chain of redirects ends. -/
inductive Ending where
  /-- At a name under which the engine keeps a template. -/
  | kept (t : Template)
  /-- At a name for which the loader has a source. -/
  | source (name text : String)
  | template (t : Template)
  | failure (error : Error)

/-- From what the loader answers to a name, so many redirects lead to an ending. Behind a redirect, a template kept goes
    before the loader. -/
inductive Redirects (replies : Replies) (kept : String → Option Template) : String → Nat → Ending → Prop where
  | source {name text : String} : replies name = .ok (.source text) → Redirects replies kept name 0 (.source name text)
  | template {name : String} {t : Template} : replies name = .ok (.template t) →
      Redirects replies kept name 0 (.template t)
  | failure {name : String} {error : Error} : replies name = .error error → Redirects replies kept name 0 (.failure error)
  | kept {name other : String} {t : Template} : replies name = .ok (.redirect other) → kept other = some t →
      Redirects replies kept name 1 (.kept t)
  | follow {name other : String} {k : Nat} {ending : Ending} : replies name = .ok (.redirect other) → kept other = none →
      Redirects replies kept other k ending → Redirects replies kept name (k + 1) ending

/-- The name that the loader points to, if it points to one. -/
def Replies.next (replies : Replies) (name : String) : String :=
  match replies name with
  | .ok (.redirect other) => other
  | _ => name

namespace Ending

/-- What a load gives that gets to the ending. -/
def result (e : Engine) : Ending → Except Error Template
  | .kept t => .ok t
  | .source name text => e.compile text (some name)
  | .template t => .ok t
  | .failure error => .error error

/-- The ending is found in the round of the redirect to it. -/
def Early : Ending → Prop
  | .kept _ | .failure _ => True
  | .source _ _ | .template _ => False

/-- The rounds it takes to get to the ending over so many redirects. -/
def rounds (k : Nat) : Ending → Nat
  | .kept _ | .failure _ => k
  | .source _ _ | .template _ => k + 1

/-- What the load of a chain of redirects shall give: its ending, unless there are more redirects than the limit. -/
def promised (limit k : Nat) (last : String) (e : Engine) (ending : Ending) : Except Error Template :=
  if k ≤ limit then ending.result e else .error (.recursionLimit limit (some last))

theorem rounds_succ (ending : Ending) (k : Nat) : ending.rounds (k + 1) = ending.rounds k + 1 := by
  cases ending <;> rfl

/-- The rounds of a load suffice for a chain within the limit, and for one redirect more if the ending is found early. -/
theorem rounds_le_iff (ending : Ending) (k limit : Nat) :
    ending.rounds k ≤ limit + 1 ↔ k ≤ limit ∨ k = limit + 1 ∧ ending.Early := by
  cases ending <;> simp only [rounds, Early, and_true, and_false, or_false] <;> omega

end Ending

/-- Names that point to each other, and under which nothing is kept, lead to no ending. -/
theorem not_redirects_of_cycle {replies : Replies} {kept : String → Option Template} {names : List String}
    (cycle : ∀ name ∈ names, ∃ other ∈ names, replies name = .ok (.redirect other) ∧ kept other = none) {name : String}
    (mem : name ∈ names) (k : Nat) (ending : Ending) : ¬ Redirects replies kept name k ending := by
  intro chain
  induction chain with
  | source found | template found | failure found =>
    obtain ⟨other, -, points, -⟩ := cycle _ mem
    cases found.symm.trans points
  | kept found there =>
    obtain ⟨other, -, points, absent⟩ := cycle _ mem
    cases found.symm.trans points
    cases there.symm.trans absent
  | follow found _ _ ih =>
    obtain ⟨other, mem', points, -⟩ := cycle _ mem
    cases found.symm.trans points
    exact ih mem'

variable {replies : Replies} {e : Engine} {host : Host} {cache : Bool} {limit rounds k : Nat} {name other : String}
  {answer : Future Loaded} {ending : Ending}

namespace Replies

theorem next_of_redirect (points : replies name = .ok (.redirect other)) : replies.next name = other := by
  unfold next
  rw [points]

theorem iterate_next_succ (points : replies name = .ok (.redirect other)) (rounds : Nat) :
    replies.next^[rounds + 1] name = replies.next^[rounds] other := by
  rw [Function.iterate_succ_apply, next_of_redirect points]

end Replies

namespace Engine

/-- Asks the loader for the name that a redirect leads to, and notes it. -/
def redirect (e : Engine) (loader : Loader) (name other : String) : Future Loaded × Engine :=
  (e.record .debug ("Redirecting `" ++ name ++ "` to `" ++ other ++ "`")).ask loader other

theorem lookup_redirect (e : Engine) (loader : Loader) (name other : String) (cache : Bool) :
    (fun n => (e.redirect loader name other).2.lookup n cache) = fun n => e.lookup n cache := by
  unfold redirect
  rw [record_eq]
  rfl

theorem result_redirect (e : Engine) (loader : Loader) (name other : String) (ending : Ending) :
    ending.result (e.redirect loader name other).2 = ending.result e := by
  unfold redirect
  rw [record_eq]
  cases ending <;> rfl

theorem RepliesAtOnce.redirect (h : e.RepliesAtOnce replies) (loader : Loader) (name other : String) :
    (e.redirect loader name other).2.RepliesAtOnce replies := by
  have same : e.Same (e.redirect loader name other).2 := (e.same_record _ _).trans (same_ask ..)
  obtain ⟨loader, some, load⟩ := h
  exact ⟨loader, same.loader.trans some, load⟩

end Engine

namespace Load

/-- A redirect to a name under which nothing is kept: the loader is asked for that name, and answers it. -/
theorem advance_redirect (limit rounds : Nat) (name : String) (h : e.RepliesAtOnce replies)
    (answered : answer host = some (.ok (.redirect other))) (absent : e.lookup other cache = none) :
    ∃ loader, (e.redirect loader name other).1 host = some (replies other) ∧
      advance host cache limit (rounds + 1) name answer e =
        advance host cache limit rounds other (e.redirect loader name other).1 (e.redirect loader name other).2 := by
  obtain ⟨loader, given, load⟩ := h
  refine ⟨loader, load .., ?_⟩
  conv => lhs; unfold advance
  simp only [answered, absent, given]
  rfl

/-- A load along a chain of redirects gets to its ending if the rounds suffice, and gives up otherwise. -/
theorem advance_of_redirects (limit rounds : Nat) (h : e.RepliesAtOnce replies)
    (chain : Redirects replies (e.lookup · cache) name k ending) (answered : answer host = some (replies name)) :
    (advance host cache limit rounds name answer e).1 = .settled (if ending.rounds k ≤ rounds then ending.result e
      else .error (.recursionLimit limit (some (replies.next^[rounds] name)))) := by
  generalize lookup : (fun n => e.lookup n cache) = kept at chain
  induction chain generalizing rounds answer e with
  | @source name text found =>
    rw [found] at answered
    cases rounds with
    | zero => simp [advance, answered, Ending.rounds]
    | succ rounds =>
      unfold advance
      simp only [answered, Ending.rounds, Ending.result, Nat.le_add_left, if_true, Engine.addTemplate]
      split <;> rename_i compiled <;> exact congrArg settled compiled.symm
  | template found =>
    rw [found] at answered
    cases rounds <;> simp [advance, answered, Ending.rounds, Ending.result]
  | failure found =>
    rw [found] at answered
    cases rounds <;> simp [advance, answered, Ending.rounds, Ending.result]
  | @kept name other t found there =>
    rw [found] at answered
    cases rounds with
    | zero => simp [advance, answered, Ending.rounds]
    | succ rounds =>
      have held : e.lookup other cache = some t := (congrFun lookup other).trans there
      simp [advance, answered, held, Ending.rounds, Ending.result]
  | @follow name other k ending found absent _ ih =>
    rw [found] at answered
    cases rounds with
    | zero => simp [advance, answered, Ending.rounds_succ]
    | succ rounds =>
      have absent : e.lookup other cache = none := (congrFun lookup other).trans absent
      obtain ⟨loader, replied, step⟩ := advance_redirect limit rounds name h answered absent
      rw [step, ih rounds (h.redirect loader name other) replied ((e.lookup_redirect ..).trans lookup),
        e.result_redirect, Ending.rounds_succ, Replies.iterate_next_succ found]
      simp only [Nat.add_le_add_iff_right]

/-- A load along redirects without an end gives up. -/
theorem advance_of_endless (limit rounds : Nat) (h : e.RepliesAtOnce replies)
    (endless : ∀ k ending, ¬ Redirects replies (e.lookup · cache) name k ending)
    (answered : answer host = some (replies name)) :
    (advance host cache limit rounds name answer e).1 =
      .settled (.error (.recursionLimit limit (some (replies.next^[rounds] name)))) := by
  generalize lookup : (fun n => e.lookup n cache) = kept at endless
  induction rounds generalizing name answer e with
  | zero =>
    cases found : replies name with
    | error error => exact (endless _ _ (.failure found)).elim
    | ok loaded => simp [advance, answered, found]
  | succ rounds ih =>
    cases found : replies name with
    | error error => exact (endless _ _ (.failure found)).elim
    | ok loaded =>
      cases loaded with
      | source text => exact (endless _ _ (.source found)).elim
      | template t => exact (endless _ _ (.template found)).elim
      | redirect other =>
        cases absent : kept other with
        | some t => exact (endless _ _ (.kept found absent)).elim
        | none =>
          rw [found] at answered
          obtain ⟨loader, replied, step⟩ :=
            advance_redirect limit rounds name h answered ((congrFun lookup other).trans absent)
          rw [step, ih (h.redirect loader name other) replied ((e.lookup_redirect ..).trans lookup)
            fun _ _ chain => endless _ _ (.follow found absent chain), Replies.iterate_next_succ found]

/-- A load along redirects is settled at once. Over at most `limit` redirects it gives the ending, over more it gives up;
    only an ending that is found in the round of the redirect to it is given over `limit + 1` redirects, too. -/
theorem redirects_limited_unless_one_over (host : Host) (cache : Bool) (limit : Nat) (h : e.RepliesAtOnce replies)
    (answered : answer host = some (replies name)) :
    ∃ result e', poll host cache limit (.begin limit name answer) e = (.settled result, e') ∧
      (∀ k ending, Redirects replies (e.lookup · cache) name k ending →
        (¬ (k = limit + 1 ∧ ending.Early) → result = ending.promised limit k (replies.next^[limit + 1] name) e) ∧
        (k = limit + 1 ∧ ending.Early → result = ending.result e)) ∧
      ((∀ k ending, ¬ Redirects replies (e.lookup · cache) name k ending) →
        result = .error (.recursionLimit limit (some (replies.next^[limit + 1] name)))) := by
  by_cases ends : ∃ k ending, Redirects replies (e.lookup · cache) name k ending
  · obtain ⟨k, ending, chain⟩ := ends
    have result := advance_of_redirects limit (limit + 1) h chain answered
    refine ⟨_, _, Prod.ext result rfl, fun k' ending' chain' => ?_, fun none => (none k ending chain).elim⟩
    have same := result.symm.trans (advance_of_redirects limit (limit + 1) h chain' answered)
    rw [settled.inj same]
    constructor
    · intro usual
      simp only [(ending'.rounds_le_iff k' limit).trans (or_iff_left usual), Ending.promised]
    · intro beyond
      exact if_pos ((ending'.rounds_le_iff k' limit).mpr (.inr beyond))
  · have none : ∀ k ending, ¬ Redirects replies (e.lookup · cache) name k ending :=
      fun k ending chain => ends ⟨k, ending, chain⟩
    exact ⟨_, _, Prod.ext (advance_of_endless limit (limit + 1) h none answered) rfl,
      fun k ending chain => (none k ending chain).elim, fun _ => rfl⟩

end Load

/-- The loader points `a` to `b` and `c` to itself, and has a source for every other name. -/
def pointing : Replies
  | "a" => .ok (.redirect "b")
  | "c" => .ok (.redirect "c")
  | _ => .ok (.source "x")

/-- An engine that keeps a template under a name that its loader points to. -/
def pointed : Engine where
  templates := [("b", ⟨some "b", [], []⟩)]
  loader := some ⟨fun _ name => .ready (pointing name)⟩

theorem pointed_repliesAtOnce : pointed.RepliesAtOnce pointing :=
  ⟨_, rfl, fun _ _ _ => rfl⟩

namespace Load

/-- With a limit of 0, one redirect to a template kept is followed, one to a source is not, and a name that points to
    itself leads nowhere. -/
theorem redirects_limited_unless_one_over_pointed : pointed.RepliesAtOnce pointing ∧
    (∃ e', poll {} true 0 (.begin 0 "a" (.ready (pointing "a"))) pointed = (.settled (.ok ⟨some "b", [], []⟩), e')) ∧
    (∃ e', poll {} false 0 (.begin 0 "a" (.ready (pointing "a"))) pointed =
      (.settled (.error (.recursionLimit 0 (some "b"))), e')) ∧
    ∃ e', poll {} true 0 (.begin 0 "c" (.ready (pointing "c"))) pointed =
      (.settled (.error (.recursionLimit 0 (some "c"))), e') := by
  have answered (name : String) : Future.ready (pointing name) {} = some (pointing name) := rfl
  refine ⟨pointed_repliesAtOnce, ?_, ?_, ?_⟩
  · obtain ⟨result, e', given, ends, -⟩ :=
      redirects_limited_unless_one_over {} true 0 pointed_repliesAtOnce (answered "a")
    exact ⟨e', by rw [given, (ends 1 (.kept ⟨some "b", [], []⟩) (.kept rfl rfl)).2 ⟨rfl, trivial⟩]; rfl⟩
  · obtain ⟨result, e', given, ends, -⟩ :=
      redirects_limited_unless_one_over {} false 0 pointed_repliesAtOnce (answered "a")
    exact ⟨e', by rw [given, (ends 1 (.source "b" "x") (.follow rfl rfl (.source rfl))).1 fun beyond => beyond.2]; rfl⟩
  · obtain ⟨result, e', given, -, none⟩ :=
      redirects_limited_unless_one_over {} true 0 pointed_repliesAtOnce (answered "c")
    have cycle : ∀ name ∈ ["c"], ∃ other ∈ ["c"], pointing name = .ok (.redirect other) ∧
        pointed.lookup other true = Option.none := by
      simp [pointing, pointed, Engine.lookup, Engine.getTemplate, Dict.get?]
    exact ⟨e', by rw [given, none (not_redirects_of_cycle cycle (List.mem_singleton.mpr rfl))]; rfl⟩

/-- Not every load gives up on a chain with more redirects than the limit. -/
theorem redirects_over_limit_given : ¬ ∀ (replies : Replies) (e : Engine) (host : Host) (cache : Bool) (limit : Nat)
    (name : String) (answer : Future Loaded) (k : Nat) (ending : Ending), e.RepliesAtOnce replies →
    answer host = some (replies name) → Redirects replies (e.lookup · cache) name k ending →
    ∃ last, (poll host cache limit (.begin limit name answer) e).1 =
      .settled (ending.promised limit k last e) := by
  intro limited
  obtain ⟨last, given⟩ := limited pointing pointed {} true 0 "a" (.ready (pointing "a")) 1
    (.kept ⟨some "b", [], []⟩) pointed_repliesAtOnce rfl (.kept rfl rfl)
  have found : (poll {} true 0 (.begin 0 "a" (.ready (pointing "a"))) pointed).1 =
    .settled (.ok ⟨some "b", [], []⟩) := rfl
  rw [found] at given
  cases settled.inj given

end Load
end Stencil
