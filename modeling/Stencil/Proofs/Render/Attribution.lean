import Stencil.Proofs.Render.Blame

/-! The reports that a driver call tells. Each comes out of what the call began with, the job, a template that was loaded
    or the steps that follow a future, and says of where it comes from what was filled in on its way out of there. -/

namespace Stencil

open RenderM Render

variable {A B : Stage → Prop} {hosts : Host → Prop} {good Q : Error → Prop} {error : Error} {o o' : OutputStream}
  {w w' : World} {steps : Nat}

/-! ### What a driver call begins with -/

/-- The job fails by itself with no report. -/
def Job.Honest : Job → Prop
  | .fail error => ¬ error.Reports
  | _ => True

/-- The engine and the host are honest. -/
def World.Honest (hosts : Host → Prop) (w : World) : Prop := w.engine.Honest hosts ∧ hosts w.host

/-- What a driver call of a stream begins with: the template that is found for the job, or for a load that work is put off
    for, or the steps that follow the text of a future. -/
inductive BeginsWith (A : Stage → Prop) (o : OutputStream) : Code → Prop
  | job {job : Job} {subject : Subject} {context : Context} {t : Template} : o.job = some job →
    job.subject? = some (subject, context) → subject.Leads A t → BeginsWith A o (.body t.body (context.enter t))
  | load {s : Stage} {task : Task} {name : String} {context : Context} {t : Template} : A s → task ∈ s.render.tasks →
    task.wait = .load name context → (Subject.name name).Leads A t → BeginsWith A o (.body t.body (context.enter t))
  | text {s : Stage} {task : Task} {future : Future String} {resume : String → Program} (text : String) : A s →
    task ∈ s.render.tasks → task.wait = .text future resume → BeginsWith A o (.program (resume text))

/-- The error is no report, names nobody, or comes out of what a driver call begins with. -/
def Traced (A : Stage → Prop) (o : OutputStream) (steps : Nat) (error : Error) : Prop :=
  error.Reports → error.Unsigned ∨ ∃ code sites message, BeginsWith A o code ∧ Fails A steps error code ∧
    error = .through sites message ∧ Raised A steps code sites message

theorem Traced.of_not_reports (h : ¬ error.Reports) : Traced A o steps error := fun no => absurd no h

theorem Traced.of_blamed {code : Code} (begins : BeginsWith A o code) (fails : Fails A steps error code)
    (blamed : Blamed A steps code error) : Traced A o steps error := by
  intro reports
  obtain ⟨sites, message, same, raised⟩ := blamed reports
  exact Or.inr ⟨code, sites, message, begins, fails, same, raised⟩

theorem honestly_begins_body {body : Body} {context : Context} (begins : BeginsWith A o (.body body context)) :
    Honestly A hosts good (fun _ => True) (Traced A o steps) (exec steps body context) :=
  (honestly_exec steps body context).mono_error fun s t _ here ran => .of_blamed begins ⟨s, t, here, ran⟩

theorem honestly_begins_program {program : Program} (honest : program.Honest hosts fun _ => False)
    (begins : BeginsWith A o (.program program)) :
    Honestly A hosts good (fun _ => True) (Traced A o steps) (program.run (exec steps)) :=
  (honestly_program (honestly_exec steps) honest).mono_error fun s t _ here ran => .of_blamed begins ⟨s, t, here, ran⟩

/-! ### Driver calls -/

theorem honestly_poll {s : Stage} {task : Task} (here : A s) (mem : task ∈ s.render.tasks)
    (honest : task.wait.Honest hosts) : Honestly A hosts good
      (fun found => ∀ x, found = some x → Honestly A hosts good (fun _ => True) (Traced A o steps) x) (Traced A o steps)
      (poll (exec steps) task.wait) := by
  cases waits : task.wait with
  | text future resume =>
    rw [waits] at honest
    refine Honestly.pollText (fun host error known found _ => Or.inl (honest.1 host error known found)) fun text => ?_
    exact (honestly_begins_program (honest.2 text) (.text text here mem waits)).bind fun _ _ => .pure trivial
  | load name context =>
    refine Honestly.pollTemplate (fun _ => .of_not_reports) fun t leads => ?_
    exact honestly_template (fun _ => .of_not_reports) t context (honestly_begins_body (.load here mem waits leads))

theorem honestly_job {job : Job} (some : o.job = some job) (honest : job.Honest) :
    Honestly A hosts good (fun _ => True) (Traced A o steps) (job.run (exec steps)) := by
  cases job with
  | named name context =>
    exact honestly_named (fun _ => .of_not_reports) name context fun _ leads =>
      honestly_begins_body (.job some rfl leads)
  | template t context =>
    exact honestly_template (fun _ => .of_not_reports) t context (honestly_begins_body (.job some rfl rfl))
  | fail error => exact .throw (.of_not_reports honest)

theorem honestly_visit {s : Stage} {task : Task} (here : A s) (mem : task ∈ s.render.tasks)
    (honest : task.wait.Honest hosts) (index : Nat) :
    Honestly A hosts good (fun _ => True) (Traced A o steps) (visit (exec steps) index task) := by
  refine (honestly_poll here mem honest).bind fun found works => ?_
  cases found with
  | none => exact .pure trivial
  | some work =>
    have erases : Honestly A hosts good (fun _ => True) (Traced A o steps)
        (modifyRender fun r => { r with tasks := r.tasks.eraseIdx index }) :=
      .modify fun s h =>
        ⟨h.engine, h.host, fun task mem => h.tasks task (List.mem_of_mem_eraseIdx mem), h.loads, h.events⟩
    exact erases.bind fun _ _ => (Honestly.takeUp _ _ (works work rfl)).bind fun _ _ => .pure trivial

theorem Stage.Honest.close {s : Stage} (h : s.Honest hosts good) {outcome : Except Error Unit}
    (ends : Outcome (fun _ => True) good outcome) : (s.close outcome).Honest hosts good := by
  by_cases pending : s.render.progress = .pending
  · cases outcome with
    | ok _ =>
      show Stage.Honest hosts good { s with render := s.render.flush }
      rw [flush_eq pending]
      refine ⟨h.engine, h.host, h.tasks, h.loads, fun error mem => ?_⟩
      refine h.events error ?_
      dsimp only [told] at mem
      split at mem <;> split at mem <;> simpa using mem
    | error error =>
      rw [close_error_eq pending]
      refine ⟨h.engine.record _ _, h.host, by simp [abandon], by simp [abandon], fun other mem => ?_⟩
      rcases List.mem_append.mp mem with mem | mem
      · exact h.events other mem
      · cases List.mem_singleton.mp mem
        exact ends
  · rw [close_of_ended pending]
    exact h

theorem honestly_close (outcome : Except Error Unit) (ends : Outcome (fun _ => True) good outcome) :
    Honestly A hosts good (fun _ => True) Q (close outcome) := .modify fun _ h => h.close ends

/-- All rounds of work tell good errors only, if those of the work put off are. -/
theorem honestly_settle (traced : ∀ error, Traced A o steps error → good error) (rounds index : Nat)
    (progressed : Bool) : Honestly A hosts good (fun _ => True) Q (settle (exec steps) rounds index progressed) := by
  induction rounds generalizing index progressed with
  | zero => exact .halt trivial
  | succ rounds ih =>
    refine .get_bind fun s h here => ?_
    dsimp only
    split
    · exact .pure trivial
    · split
      · split
        · exact ih 0 false
        · exact .pure trivial
      · next task found =>
        have mem := List.mem_of_getElem? found
        have visits : Honestly A hosts good (fun _ => True) (Traced A o steps) (visit (exec steps) index task) :=
          honestly_visit here mem (h.tasks task mem) index
        refine visits.attempt.bind fun outcome ends => ?_
        split
        · exact ih _ _
        · exact (honestly_close (.ok ()) trivial).bind fun _ _ => ih _ _
        · next error => exact (honestly_close (.error error) (traced error ends)).bind fun _ _ => ih _ _

theorem honestly_work (traced : ∀ error, Traced A o steps error → good error)
    (jobs : ∀ job, o.job = some job → job.Honest) : Honestly A hosts good (fun _ => True) Q (o.work steps) := by
  have driven : Honestly A hosts good (fun _ => True) Q (settle (exec steps) steps 0 false) :=
    honestly_settle traced steps 0 false
  unfold OutputStream.work
  cases waiting : o.job with
  | none => exact driven
  | some job =>
    have works : Honestly A hosts good (fun _ => True) (Traced A o steps) (job.run (exec steps)) :=
      honestly_job waiting (jobs job waiting)
    have runs := works.within steady_honest Chunks.root
    refine Admits.bind (runs.attempt.bind fun outcome ends => honestly_close outcome ?_) fun _ _ => driven
    cases outcome with
    | ok _ => trivial
    | error error => exact traced error ends

/-! ### Streams -/

/-- The work put off, the loads and the job of the stream are honest. -/
structure OutputStream.Honest (hosts : Host → Prop) (o : OutputStream) : Prop where
  tasks : ∀ task ∈ o.render.tasks, task.wait.Honest hosts
  loads : ∀ entry ∈ o.render.loads, entry.2.Honest hosts
  job : ∀ job, o.job = some job → job.Honest

/-- The errors that a driver call tells come out of what it begins with, and the stream stays honest. -/
theorem OutputStream.Honest.advance (h : o.Honest hosts) (fits : w.Honest hosts)
    (ran : o.advance steps w = .ok (w', o')) : o'.Honest hosts ∧ ∀ error, .failed error ∈ o'.render.events →
      .failed error ∈ o.render.events ∨ Traced (o.Passes steps w) o steps error := by
  obtain ⟨⟨outcome, s⟩, worked, same⟩ := bind_eq_ok.mp ran
  cases same
  let good (error : Error) : Prop := .failed error ∈ o.render.events ∨ Traced (o.Passes steps w) o steps error
  have begun : Stage.Honest hosts good { w with render := o.render } :=
    ⟨fits.1, fits.2, h.tasks, h.loads, fun _ => Or.inl⟩
  have safe := honestly_work (Q := fun _ => True) (fun _ => Or.inr) h.job _ begun fun _ pass => pass
  have after := safe.passes (passes_last worked)
  exact ⟨⟨after.tasks, after.loads, fun _ no => by cases no⟩, after.events⟩

theorem Rendered.honest {job : Job} (h : Rendered (World.Honest hosts) B job o) (honest : job.Honest) :
    o.Honest hosts := by
  refine h.induct (fun w _ => ⟨by simp [OutputStream.new], by simp [OutputStream.new], fun _ same => ?_⟩)
    (fun ih fits _ ran => (ih.advance fits ran).1) fun _ _ _ _ ih => ⟨ih.tasks, ih.loads, ih.job⟩
  cases same
  exact honest

/-- Let the engine and the host be honest at each driver call. Then a report with a template in it, that a driver call
    tells, comes out of what the call began with, from a culprit through the calls around it. It names the culprit, or else
    the first of these calls; and it names the template that is rendered at the culprit if the culprit tells it, or else
    the first one that these calls tell. A callable tells the name of the template that is rendered where it is called, if
    it has a name. A filter tells none, whatever is rendered there. -/
theorem report_names_template_unless_untold {job : Job} (honest : job.Honest)
    (rendered : Rendered (World.Honest hosts) B job o) (fits : w.Honest hosts) (ran : o.advance steps w = .ok (w', o'))
    {source : Option String} {template message : String}
    (told : .failed (.helper source (some template) message) ∈ o'.render.events) :
    .failed (.helper source (some template) message) ∈ o.render.events ∨
      ∃ code culprit sites, BeginsWith (o.Passes steps w) o code ∧
        Fails (o.Passes steps w) steps (.helper source (some template) message) code ∧
        Raised (o.Passes steps w) steps code (culprit :: sites) message ∧
        source = culprit.name?.or (sites.findSome? Site.name?) ∧
        some template = culprit.told.or (sites.findSome? Site.told) ∧
        ∀ name executing, culprit = .call name (some executing) → source = some name ∧ template = executing := by
  rcases ((rendered.honest honest).advance fits ran).2 _ told with before | traced
  · exact Or.inl before
  · refine Or.inr ?_
    rcases traced trivial with ⟨-, no⟩ | ⟨code, sites, message', begins, fails, same, raised⟩
    · cases no
    · obtain ⟨named, located, rfl⟩ := Error.helper.inj same
      cases sites with
      | nil => cases located
      | cons culprit sites =>
        have first {f : Site → Option String} : (culprit :: sites).findSome? f = (f culprit).or (sites.findSome? f) := by
          rw [List.findSome?_cons]
          cases f culprit <;> rfl
        rw [first] at named located
        refine ⟨code, culprit, sites, begins, fails, raised, named, located, ?_⟩
        rintro name executing rfl
        exact ⟨named, Option.some.inj located⟩

/-- A helper that renders its block. -/
def blockHelper : Helper := fun context bodies _ => .renderBody bodies.block context

/-- A template that renders the template `p` in the block of that helper. -/
def pageTemplate : Template :=
  ⟨some "page", [.helperTag "w" none [] ⟨some [.partialTag (.static "p") none []], []⟩], []⟩

/-- The template `p` that calls a helper which fails. -/
def callingTemplate : Template := ⟨some "p", [.helperTag "bad" none [] .empty], []⟩

/-- The template `p` that runs a value through a filter which fails. -/
def filteringTemplate : Template := ⟨some "p", [.reference ⟨false, [.key "x"]⟩ ["bad"]], []⟩

/-- An engine that keeps the template `p` given. -/
def blameEngine (p : Template) : Engine where
  helpers := [("bad", fun _ _ _ => .fail (.ofMessage "boom")), ("w", blockHelper)]
  filters := [("bad", fun _ => .error (.ofMessage "boom"))]
  templates := [("p", p)]

/-- The page, rendered with the template `p` given. -/
def blameStream (p : Template) : OutputStream :=
  .new (blameEngine p) (.template pageTemplate (.ofValue (.object [("x", .int 1)])))

theorem honest_blameEngine (p : Template) : (blameEngine p).Honest fun _ => True where
  helpers {name helper} found := by
    simp only [blameEngine, Dict.get?] at found
    split at found
    · cases found
      exact fun _ _ _ => Or.inl ⟨rfl, rfl⟩
    · split at found
      · cases found
        intro context bodies params
        unfold blockHelper Program.renderBody
        split
        · exact .orFail fun _ _ => trivial
        · trivial
      · cases found
  functions _ _ _ _ := trivial
  filters {name filter value error} found failed := by
    simp only [blameEngine, Dict.get?] at found
    split at found
    · cases found
      cases failed
      exact ⟨rfl, rfl⟩
    · cases found
  loader no := by cases no

/-- The helper fails in the template `p` inside of the page, and so the report says. -/
theorem report_names_template_unless_untold_callingTemplate : ∃ w o,
    (blameStream callingTemplate).advance 9 { engine := blameEngine callingTemplate } = .ok (w, o) ∧
    o.render.events = [.failed (.helper (some "bad") (some "p") "boom")] ∧
    ∃ A code culprit sites, A = (blameStream callingTemplate).Passes 9 { engine := blameEngine callingTemplate } ∧
      BeginsWith A (blameStream callingTemplate) code ∧ Raised A 9 code (culprit :: sites) "boom" ∧
      some "bad" = culprit.name?.or (sites.findSome? Site.name?) ∧
      some "p" = culprit.told.or (sites.findSome? Site.told) := by
  have seen : ((blameStream callingTemplate).advance 9 { engine := blameEngine callingTemplate }).toOption.any (fun r =>
      decide (r.2.render.events = [.failed (.helper (some "bad") (some "p") "boom")])) = true := by decide +kernel
  obtain ⟨⟨w, o⟩, ran, seen⟩ := exists_eq_ok seen
  have events : o.render.events = [.failed (.helper (some "bad") (some "p") "boom")] := of_decide_eq_true seen
  have fits : World.Honest (fun _ => True) { engine := blameEngine callingTemplate } :=
    ⟨honest_blameEngine callingTemplate, trivial⟩
  have told : .failed (.helper (some "bad") (some "p") "boom") ∈ o.render.events := by simp [events]
  have job : Job.Honest (.template pageTemplate (.ofValue (.object [("x", .int 1)]))) := trivial
  have rendered : Rendered (World.Honest fun _ => True) (fun _ => True) _ (blameStream callingTemplate) :=
    .new (w := { engine := blameEngine callingTemplate }) fits
  rcases report_names_template_unless_untold job rendered fits ran told with no | ⟨code, culprit, sites, blames⟩
  · cases no
  · exact ⟨w, o, ran, events, _, code, culprit, sites, rfl, blames.1, blames.2.2.1, blames.2.2.2.1, blames.2.2.2.2.1⟩

/-- The filter fails in the template `p` inside of the page, and the report says that it failed in the page, where no value
    is written. -/
theorem filter_blames_template_around : ∃ w o,
    (blameStream filteringTemplate).advance 9 { engine := blameEngine filteringTemplate } = .ok (w, o) ∧
    o.render.events = [.failed (.helper (some "bad") (some "page") "boom")] ∧
    filteringTemplate.name = some "p" ∧ (∃ step ∈ filteringTemplate.body, step.Filters ["bad"]) ∧
    ∀ step ∈ pageTemplate.body, ¬ step.Filters ["bad"] ∧
      ∀ held, step.Holds held → ∀ inner ∈ held, ¬ inner.Filters ["bad"] := by
  have seen : ((blameStream filteringTemplate).advance 9 { engine := blameEngine filteringTemplate }).toOption.any (fun r =>
      decide (r.2.render.events = [.failed (.helper (some "bad") (some "page") "boom")])) = true := by decide +kernel
  obtain ⟨⟨w, o⟩, ran, seen⟩ := exists_eq_ok seen
  refine ⟨w, o, ran, of_decide_eq_true seen, rfl, ⟨_, List.mem_singleton_self _, rfl⟩, ?_⟩
  simp [pageTemplate, Step.Filters, Step.Holds, Step.InParams, Bodies.Holds, escapeFilter]

end Stencil
