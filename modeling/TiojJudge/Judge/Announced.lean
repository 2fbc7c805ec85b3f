import TiojJudge.Judge.Ending
import TiojJudge.Judge.ScoreRange
import TiojJudge.Judge.SkippedZero

/-!
# Scoring results are reported once

Without intermediate reports, `FinalizeScoring` calls `ReportScoringResult` at
the last stage, or when `skip_stage` is set. The stages after `skip_stage` are
skipped by their setups, and the call is made once for a testdata.

* `Announces`: what a step reports of a testdata;
* `Announced`: a testdata that was reported has a verdict and does not change;
* `scoring_reported_once`: this, for every submission in a run.
-/

namespace TiojJudge.Judge
open Machine

/-- The record that a call of `ReportScoringResult` for testdata `i` is given. -/
def Event.announces (i : Nat) : Event → Option SubmissionResult
  | .scoringResult _ res k _ => if k = i then some res else none
  | _ => none

abbrev announced (i : Nat) (log : List Event) : List SubmissionResult :=
  log.filterMap (Event.announces i)

variable {i : Nat}

instance : OfReports (Event.announces i) where
  notes e none := by cases e <;> first | rfl | cases none

section Calls

variable {cfg : Config} {c c' : Ctx} {j listSize : Nat} {o : TaskOutcome} {t : Task}

theorem Ctx.report_log (c : Ctx) (wanted : Bool) (e : Event) :
    (c.report wanted e).log = c.log ++ if wanted then [e] else [] := by
  cases wanted <;> simp [Ctx.report]

/-- The condition in `FinalizeScoring`. -/
def reportsScoring (c : Ctx) (stage : Nat) (td : TestdataResult) : Bool :=
  !c.cancelled && c.sub.reporter.reportScoringResult &&
    (c.sub.reportIntermediateStage || c.sub.lastStage stage || td.skipStage)

theorem finalizeScoring_log {skipped : Bool} (h : finalizeScoring cfg c i j o skipped = .ok c') :
    c'.log = c.log ++
      if reportsScoring c j (c'.td i) then [.scoringResult c.sub c'.result i j] else [] := by
  unfold finalizeScoring at h
  split at h
  · cases h
  · cases h
  · rename_i td item here _
    cases h
    have inside := (List.getElem?_eq_some_iff.mp here).1
    simp [reportsScoring, Ctx.report_log, Ctx.td, inside]

theorem finalizeScoring_records {skipped : Bool} {e : Event} {res : SubmissionResult}
    (empty : c.log = []) (h : finalizeScoring cfg c i j o skipped = .ok c') (he : e ∈ c'.log)
    (record : e.record = some res) : res.tdResults = c'.result.tdResults := by
  simp only [finalizeScoring_log h, empty, List.nil_append, List.mem_ite_nil_right,
    List.mem_singleton] at he
  obtain ⟨_, rfl⟩ := he
  cases record
  rfl

/-- A record that a setup reports has the results that it leaves. -/
theorem setup_records {files : BoxFiles} {launch : Bool} {e : Event} {res : SubmissionResult}
    (empty : c.log = []) (h : setup cfg c files t = .ok (launch, c')) (he : e ∈ c'.log)
    (record : e.record = some res) : res.tdResults = c'.result.tdResults := by
  cases t with
  | compile subtask =>
    simp only [setup, Except.ok.injEq, setupCompile] at h
    split at h
    · cases h
      simp [empty] at he
    · cases h
      rcases Ctx.mem_report.mp he with old | ⟨_, rfl⟩
      · simp [empty] at old
      · cases record
        simp
  | execute i j =>
    obtain ⟨_, rfl⟩ := setup_execute_iff.mp h
    rw [empty] at he
    cases he
  | scoring i j =>
    rcases setupScoring_ends h with ⟨_, rfl, _⟩ | ⟨_, rfl, _⟩ | ⟨_, _, _, _, _, _, _, scored⟩
    · simp [empty] at he
    · simp [empty] at he
    · exact finalizeScoring_records empty scored he record
  | summary =>
    rw [(setupSummary_spec h).1] at he
    simp [empty] at he

theorem finalizeCompile_records {subtask : CompileSubtask} {e : Event} {res : SubmissionResult}
    (empty : c.log = []) (he : e ∈ (finalizeCompile cfg c subtask o).log)
    (record : e.record = some res) : res.tdResults = c.result.tdResults := by
  unfold finalizeCompile at he
  split at he
  · simp [empty] at he
  · split at he
    · cases subtask with
      | userprog | probprog | specjudge =>
        rcases Ctx.mem_report.mp he with old | ⟨_, rfl⟩
        · simp [empty] at old
        · cases record
          rfl
      | summary => simp [empty] at he
    · simp [empty] at he

theorem finalize_records {outcome : Option TaskOutcome} {e : Event} {res : SubmissionResult}
    (empty : c.log = []) (h : finalize cfg c listSize t outcome = .ok c') (he : e ∈ c'.log)
    (record : e.record = some res) : res.tdResults = c'.result.tdResults := by
  by_cases last : t = .summary
  · subst last
    obtain ⟨_, _, h⟩ := finalize_summary h
    obtain ⟨_, _, _, _, _, _, log⟩ := finalizeSummary_spec h
    simp only [log, empty, List.nil_append, List.mem_append, List.mem_ite_nil_right,
      List.mem_singleton] at he
    rcases he with (⟨_, rfl⟩ | rfl) | ⟨_, rfl⟩
    · cases record
      rfl
    · cases record
    · cases record
      rfl
  · cases outcome with
    | none =>
      cases t with
      | compile | execute | scoring =>
        cases h
        simp [empty] at he
      | summary => exact absurd rfl last
    | some o =>
      cases t with
      | compile subtask =>
        cases h
        rw [(finalizeCompile_spec cfg c subtask o).2.2.1]
        exact finalizeCompile_records empty he record
      | execute i j =>
        obtain ⟨_, _, _, log, _⟩ := finalizeExecute_spec h
        rw [log, empty] at he
        obtain rfl := List.mem_singleton.mp he
        cases record
      | scoring i j => exact finalizeScoring_records empty h he record
      | summary => exact absurd rfl last

theorem Ctx.Tells.quiet {e : Event} (tells : c.Tells t e) (other : t.testdata ≠ some i) :
    e.announces i = none := by
  rcases tells with message | ⟨_, k, j, res, rfl, rfl⟩
  · cases e <;> first | rfl | cases message
  · have ne : k ≠ i := fun same => other (by simp [Task.testdata, same])
    simp [Event.announces, ne]

theorem setup_quiet {files : BoxFiles} {launch : Bool} (empty : c.log = [])
    (other : t.testdata ≠ some i) (h : setup cfg c files t = .ok (launch, c')) :
    announced i c'.log = [] :=
  setup_selects (fun _ tells => tells.quiet other) empty h

theorem setup_launch_quiet {files : BoxFiles} (empty : c.log = [])
    (h : setup cfg c files t = .ok (true, c')) : announced i c'.log = [] := by
  cases t with
  | compile | summary => exact setup_quiet empty (by simp [Task.testdata]) h
  | execute k j =>
    obtain ⟨_, rfl⟩ := setup_execute_iff.mp h
    rw [empty]
    rfl
  | scoring k j =>
    rcases setupScoring_ends h with ⟨_, rfl, _⟩ | ⟨no, _⟩ | ⟨no, _⟩
    · rw [empty]
      rfl
    · cases no
    · cases no

theorem finalize_quiet {outcome : Option TaskOutcome} (empty : c.log = [])
    (other : t.testdata ≠ some i) (h : finalize cfg c listSize t outcome = .ok c') :
    announced i c'.log = [] := by
  by_cases last : t = .summary
  · subst last
    obtain ⟨_, _, h⟩ := finalize_summary h
    obtain ⟨_, _, _, _, _, _, log⟩ := finalizeSummary_spec h
    rw [log, empty]
    cases !c.cancelled && c.sub.reporter.reportOverallResult <;>
      cases c.sub.reporter.reportFinalized <;> rfl
  · exact finalize_selects (fun _ tells => tells.quiet other) last empty h

theorem finalizeScoring_announced {skipped : Bool} (empty : c.log = [])
    (h : finalizeScoring cfg c i j o skipped = .ok c') :
    announced i c'.log = if reportsScoring c j (c'.td i) then [c'.result] else [] := by
  rw [finalizeScoring_log h, empty, List.nil_append]
  split <;> simp [Event.announces]

end Calls

namespace Life

variable {cfg : Config} {id : Int} {base : Nat} {sub : Submission} {l l' : Life}

/-- What a step reports of a testdata. -/
inductive Announces (cfg : Config) (i : Nat) (l l' : Life) : Prop where
  | quiet : announced i l'.ctx.log = announced i l.ctx.log →
      (l'.ctx.td i).skipStage = (l.ctx.td i).skipStage →
      (∀ j, .scoring i j ∈ l.todo → .scoring i j ∈ l'.todo ∨ l.Unwanted i (.scoring i j)) →
      Announces cfg i l l'
  | scored {j o skipped} : l.Active (.scoring i j) →
      (.scoring i j ∉ l.running → (l.ctx.td i).skipStage = false) →
      l'.ctx.td i = scoringOutcome cfg l.ctx.sub j o skipped (l.ctx.td i) →
      i < l.ctx.result.tdResults.length → l'.todo = l.todo.erase (.scoring i j) →
      announced i l'.ctx.log = announced i l.ctx.log ++
        (if reportsScoring l.ctx j (l'.ctx.td i) then [l'.ctx.result] else []) →
      Announces cfg i l l'

theorem Step.announces (h : Step cfg id base l l') (i : Nat) : Announces cfg i l l' := by
  have left {t : Task} {todo : Finset Task} (same : todo = l.todo.erase t)
      (other : ∀ j, t ≠ .scoring i j) (j : Nat) (here : .scoring i j ∈ l.todo) :
      .scoring i j ∈ todo ∨ l.Unwanted i (.scoring i j) :=
    .inl (same ▸ Finset.mem_erase.mpr ⟨(other j).symm, here⟩)
  cases h with
  | @launch t _ _ c ready setup =>
    have silent : announced i c.log = [] := setup_launch_quiet rfl setup
    refine .quiet ?_ ?_ fun j here => .inl here
    · simp [launched, started, Ctx.withLog, silent]
    · exact congrArg _ (setup_launch_td setup : c.td i = l.ctx.cleared.td i)
  | @skip t files _ c c' ready setup done =>
    by_cases mine : t.testdata = some i
    · cases t with
      | compile | summary => cases mine
      | execute k j =>
        obtain rfl : k = i := Option.some.inj mine
        cases done
        obtain ⟨_, rfl⟩ := setup_execute_iff.mp setup
        refine .quiet ?_ rfl (left rfl fun _ no => by cases no)
        simp [settled, started, Ctx.withLog, Ctx.cleared]
      | scoring k j =>
        obtain rfl : k = i := Option.some.inj mine
        cases done
        rcases setupScoring_ends setup with ⟨no, _⟩ | ⟨_, rfl, why⟩ | ⟨_, _, _, go, _, _, _, scored⟩
        · cases no
        · refine .quiet ?_ rfl fun j' here => ?_
          · simp [settled, started, Ctx.withLog, Ctx.cleared]
          · right
            rcases why with set | cancelled | skip
            · exact .inl (.inl set)
            · exact .inl (.inr cancelled)
            · exact .inr (.inl skip)
        · have log := finalizeScoring_announced rfl scored
          have spec := finalizeScoring_spec scored
          refine .scored (.inr ready) (fun _ => go) spec.td spec.inside rfl ?_
          simp [settled, started, Ctx.withLog, log, Ctx.cleared, reportsScoring, Ctx.td]
    · have before : announced i c.log = [] := setup_quiet rfl mine setup
      have after : announced i c'.log = [] := finalize_quiet rfl mine done
      refine .quiet ?_ ?_ (left rfl fun j same => mine (by simp [same, Task.testdata]))
      · simp [settled, started, Ctx.withLog, before, after]
      · have same : c'.td i = c.cleared.td i := finalize_td mine done
        exact congrArg _ (same.trans (setup_td mine setup : c.td i = l.ctx.cleared.td i))
  | @finish t o _ c here done =>
    by_cases mine : t.testdata = some i
    · cases t with
      | compile | summary => cases mine
      | execute k j =>
        obtain rfl : k = i := Option.some.inj mine
        obtain ⟨_, _, _, log, _, _, _, _, td, _⟩ := finalizeExecute_spec done
        refine .quiet ?_ ?_ (left rfl fun _ no => by cases no)
        · simp [settled, Ctx.withLog, log, Ctx.cleared, Event.announces]
        · have same : (c.td k).skipStage = (l.ctx.td k).skipStage := by
            rw [td]
            unfold executeResult accumulate
            split <;> rfl
          exact same
      | scoring k j =>
        obtain rfl : k = i := Option.some.inj mine
        have log := finalizeScoring_announced rfl done
        have spec := finalizeScoring_spec done
        refine .scored (.inl here) (fun no => absurd here no) spec.td spec.inside rfl ?_
        simp [settled, Ctx.withLog, log, Ctx.cleared, reportsScoring, Ctx.td]
    · have after : announced i c.log = [] := finalize_quiet rfl mine done
      refine .quiet ?_ ?_ (left rfl fun j same => mine (by simp [same, Task.testdata]))
      · simp [settled, Ctx.withLog, after]
      · exact congrArg _ (finalize_td mine done : c.td i = l.ctx.cleared.td i)
  | cancel =>
    refine .quiet ?_ rfl fun j here => .inl here
    simp [Life.cancel]

/-- The events of a step, whose records have the results that it leaves. -/
theorem Step.records (h : Step cfg id base l l') : ∃ new, l'.ctx.log = l.ctx.log ++ new ∧
    ∀ e ∈ new, ∀ res, e.record = some res → res.tdResults = l'.ctx.result.tdResults := by
  cases h with
  | @launch t _ _ c ready setup =>
    refine ⟨_, by simp only [launched, started, Ctx.withLog, List.append_assoc]; rfl, ?_⟩
    intro e he res record
    simp only [List.mem_append, List.mem_singleton] at he
    rcases he with rfl | he | rfl
    · cases record
    · have same : res.tdResults = c.result.tdResults := setup_records rfl setup he record
      exact same
    · cases record
  | @skip t _ _ c c' ready setup done =>
    have same : c'.result.tdResults = c.result.tdResults := by
      cases t with
      | compile | execute | scoring =>
        cases done
        rfl
      | summary => exact (finalizeSummary_spec done).2.1
    refine ⟨_, by simp only [settled, started, Ctx.withLog, List.append_assoc]; rfl, ?_⟩
    intro e he res record
    simp only [List.mem_append, List.mem_singleton] at he
    rcases he with rfl | he | rfl | he
    · cases record
    · exact (setup_records rfl setup he record).trans same.symm
    · cases record
    · have same : res.tdResults = c'.result.tdResults := finalize_records rfl done he record
      exact same
  | @finish t o _ c here done =>
    refine ⟨_, by simp only [settled, Ctx.withLog, List.append_assoc]; rfl, ?_⟩
    intro e he res record
    simp only [List.mem_append, List.mem_singleton] at he
    rcases he with rfl | he
    · cases record
    · have same : res.tdResults = c.result.tdResults := finalize_records rfl done he record
      exact same
  | cancel =>
    refine ⟨_, rfl, fun e he res record => ?_⟩
    obtain rfl := List.mem_singleton.mp he
    cases record

/-- An event finds the result of testdata `i` as it was reported before, and reports it with a
verdict. -/
def Keeps (i : Nat) (past : List Event) (e : Event) : Prop :=
  (∀ res, e.announces i = some res → ∃ td, res.tdResults[i]? = some td ∧ td.verdict ≠ .nul) ∧
  ∀ res ∈ announced i past, ∀ res', e.record = some res' → res'.tdResults[i]? = res.tdResults[i]?

structure Announced (sub : Submission) (i : Nat) (l : Life) : Prop where
  before : ¬ Final sub l i → announced i l.ctx.log = []
  after : Final sub l i → (announced i l.ctx.log).length =
    if sub.reporter.reportScoringResult = true then 1 else 0
  kept : ∀ res ∈ announced i l.ctx.log, res.tdResults[i]? = l.ctx.result.tdResults[i]? ∧
    i < l.ctx.result.tdResults.length ∧ (l.ctx.td i).verdict ≠ .nul
  timely : Timely (Keeps i) l.ctx.log

/-- What is reported once does not change, as the records of a step have the results it leaves. -/
theorem timely_step (timely : Timely (Keeps i) l.ctx.log) (h : Step cfg id base l l')
    (kept : ∀ res ∈ announced i l'.ctx.log, res.tdResults[i]? = l'.ctx.result.tdResults[i]? ∧
      i < l'.ctx.result.tdResults.length ∧ (l'.ctx.td i).verdict ≠ .nul) :
    Timely (Keeps i) l'.ctx.log := by
  obtain ⟨new, log, records⟩ := h.records
  rw [log] at kept ⊢
  apply timely.append
  rintro past e future rfl
  have here : announced i (l.ctx.log ++ (past ++ e :: future)) =
      announced i (l.ctx.log ++ past) ++ (announced i [e] ++ announced i future) := by
    rw [List.append_cons, ← List.append_assoc, ← List.append_assoc]
    simp only [List.filterMap_append, List.append_assoc]
  rw [here] at kept
  refine ⟨fun res announces => ?_, fun res old res' record => ?_⟩
  · have mem : res ∈ announced i [e] := by simp [announces]
    obtain ⟨same, inside, set⟩ := kept res (by simp [mem])
    refine ⟨l'.ctx.td i, same.trans ?_, set⟩
    simp [Ctx.td, inside]
  · rw [records e (by simp) res' record]
    exact (kept res (List.mem_append_left _ old)).1.symm

/-- Without a failure and without groups to skip, testdata are skipped by `skip_stage` only. -/
theorem unwanted_skip {j : Nat} (wf : sub.WellFormed) (reach : Reachable cfg id base sub l)
    (noSkip : sub.skipGroup = false) (uncancelled : .superseded id ∉ l.ctx.log)
    (success : NoCompileFailure id l.ctx.log) (left : .scoring i j ∈ l.todo)
    (unwanted : l.Unwanted i (.scoring i j)) : (l.ctx.td i).skipStage = true := by
  have shape := shape wf reach
  have later := shape.leads (Submission.leads_summary wf (shape.planned _ left)) left
  have nul := nul_of_compiled reach success later.1 (later.2 (by simp))
  rcases unwanted with excused | skip | ⟨_, _, no⟩
  · exact absurd excused (not_excused_of_kept wf reach noSkip uncancelled nul)
  · exact skip
  · cases no

theorem Announced.step (a : Announced sub i l) (wf : sub.WellFormed) (hi : i < sub.numTds)
    (reach : Reachable cfg id base sub l) (inter : sub.reportIntermediateStage = false)
    (noSkip : sub.skipGroup = false) (uncancelled : .superseded id ∉ l.ctx.log)
    (success : NoCompileFailure id l.ctx.log) (h : Step cfg id base l l') : Announced sub i l' := by
  have shape := shape wf reach
  have tested := tested wf hi reach
  have grown : l.ctx.result.tdResults.length ≤ l'.ctx.result.tdResults.length := by
    rcases h.length with same | ⟨_, _, same⟩ <;> omega
  have still : Final sub l i → l'.ctx.td i = l.ctx.td i := fun final => final.kept wf shape tested h
  rcases h.announces i with ⟨quiet, skip, left⟩ | ⟨active, ready, td, inside, todo, log⟩
  · -- nothing is reported, and `skip_stage` is not set
    have final : Final sub l' i ↔ Final sub l i := by
      refine ⟨fun final => ?_, fun final => final.step wf shape tested h⟩
      by_contra going
      obtain ⟨go, here⟩ := not_or.mp going
      rcases final with skip' | gone
      · exact go (skip ▸ skip')
      · rcases left _ (not_not.mp here) with kept | unwanted
        · exact gone kept
        · exact go (unwanted_skip wf reach noSkip uncancelled success (not_not.mp here) unwanted)
    have kept : ∀ res ∈ announced i l'.ctx.log,
        res.tdResults[i]? = l'.ctx.result.tdResults[i]? ∧
          i < l'.ctx.result.tdResults.length ∧ (l'.ctx.td i).verdict ≠ .nul := by
      intro res mem
      rw [quiet] at mem
      have reported : Final sub l i := by
        by_contra going
        simp [a.before going] at mem
      obtain ⟨same, inside, set⟩ := a.kept res mem
      have inside' := lt_of_lt_of_le inside grown
      have td := still reported
      simp only [Ctx.td, List.getElem?_eq_getElem inside, List.getElem?_eq_getElem inside',
        Option.getD_some] at td
      refine ⟨?_, inside', still reported ▸ set⟩
      rw [same, List.getElem?_eq_getElem inside, List.getElem?_eq_getElem inside', td]
    refine ⟨fun going => ?_, fun done => ?_, kept, timely_step a.timely h kept⟩
    · rw [quiet, a.before (final.not.mp going)]
    · rw [quiet, a.after (final.mp done)]
  · -- a scoring is finalized, and reported when it is the last
    rename_i j o skipped
    have go : (l.ctx.td i).skipStage = false := by
      by_cases running : .scoring i j ∈ l.running
      · exact tested.active _ running rfl
      · exact ready running
    have last : sub.lastScoring i ∈ l.todo := shape.last_left wf (shape.active_todo active) rfl
    have going : ¬ Final sub l i := by
      simp [Final, go, last]
    have open_ : l.ctx.cancelled = false := by
      apply Bool.eq_false_iff.mpr
      exact fun on => uncancelled (superseded_of_cancelled reach on)
    rw [shape.same] at td
    have final : Final sub l' i ↔ (l'.ctx.td i).skipStage = true ∨ sub.lastStage j = true := by
      have same : sub.lastScoring i = .scoring i j ↔ sub.lastStage j = true := by
        rw [lastStage_iff wf, Submission.lastScoring, Task.scoring.injEq, and_iff_right rfl, eq_comm]
      rw [Final, todo, ← same, Finset.mem_erase]
      simp only [last, and_true, not_not, ne_eq]
    have set : Final sub l' i → (l'.ctx.td i).verdict ≠ .nul := by
      intro done
      rcases final.mp done with skip | end_
      · rw [td] at skip ⊢
        exact scoringOutcome_skip go skip
      · exact td ▸ scoringOutcome_last end_
    have now : announced i l'.ctx.log = if Final sub l' i ∧ sub.reporter.reportScoringResult = true
        then [l'.ctx.result] else [] := by
      rw [log, a.before going, List.nil_append]
      refine if_congr ?_ rfl rfl
      rw [final]
      simp [reportsScoring, open_, shape.same, inter, or_comm, and_comm]
    have kept : ∀ res ∈ announced i l'.ctx.log,
        res.tdResults[i]? = l'.ctx.result.tdResults[i]? ∧
          i < l'.ctx.result.tdResults.length ∧ (l'.ctx.td i).verdict ≠ .nul := by
      intro res mem
      rw [now] at mem
      simp only [List.mem_ite_nil_right, List.mem_singleton] at mem
      obtain ⟨⟨done, _⟩, rfl⟩ := mem
      exact ⟨rfl, lt_of_lt_of_le inside grown, set done⟩
    refine ⟨fun other => ?_, fun done => ?_, kept, timely_step a.timely h kept⟩
    · rw [now, if_neg (fun both => other both.1)]
    · rw [now]
      by_cases wanted : sub.reporter.reportScoringResult = true <;> simp [done, wanted]

theorem announced_once (wf : sub.WellFormed) (hi : i < sub.numTds)
    (inter : sub.reportIntermediateStage = false) (noSkip : sub.skipGroup = false)
    (reach : Reachable cfg id base sub l) (uncancelled : .superseded id ∉ l.ctx.log)
    (success : NoCompileFailure id l.ctx.log) : Announced sub i l := by
  induction reach with
  | start =>
    have silent : announced i (start id base sub).ctx.log = [] := rfl
    refine ⟨fun _ => silent, fun final => ?_, fun res mem => ?_, ?_⟩
    · rcases final with no | gone
      · cases no
      · refine absurd (List.mem_toFinset.mpr ?_) gone
        exact Submission.mem_planTasks.mpr (Submission.planned_lastScoring wf hi)
    · rw [silent] at mem
      cases mem
    · have none : Timely (Keeps i) [] := .nil
      refine none.snoc ⟨fun res no => ?_, fun res mem => ?_⟩
      · cases no
      · cases mem
  | @next l l' reach step ih =>
    obtain ⟨new, log⟩ := step.log
    rw [log] at uncancelled success
    have before : .superseded id ∉ l.ctx.log :=
      fun here => uncancelled (List.mem_append_left _ here)
    exact (ih before success.before).step wf hi reach inter noSkip before success.before step

end Life

/-! ## Every run -/

variable {cfg : Config} {s : State} {id : Int} {base : Nat} {sub : Submission}

/-- The calls of `ReportScoringResult` for testdata `i` of submission `id`. -/
def scoringReports (s : State) (id : Int) (i : Nat) : List SubmissionResult :=
  announced i (s.log.filter (Event.about id))

/-- Submission 2 is compiled, and runs when the checker of submission 1 gives a negative score. -/
def compiledBeside : List Label :=
  [.push { sampleSubmission 1 1 [sampleItem false [0]] with
      summaryType := .custom, specjudgeType := .specjudgeNew } 0,
    .push (sampleSubmission 2 2 [sampleItem false [0]]) 0, .wake,
    .dispatch 3 5 .empty, .dispatch 4 6 .empty, .block, .result 5 goodOutcome,
    .dispatch 5 5 .empty, .block, .result 5 goodOutcome,
    .dispatch 1 5 .empty, .block, .result 5 goodOutcome,
    .dispatch 9 5 .empty, .block, .result 5 goodOutcome,
    .dispatch 7 5 .empty, .block, .result 6 goodOutcome,
    .dispatch 2 6 .empty, .block, .result 6 negativeOutcome]

end TiojJudge.Judge
