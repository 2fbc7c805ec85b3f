import TiojJudge.Judge.Ending
import TiojJudge.Judge.Outcomes
import TiojJudge.Judge.SummaryGuard

/-!
# The overall result does not depend on the schedule

* `fixedOverall`: what the default summary reports, from the outcomes of the tasks;
* `Reported`: the overall result is made where the summary is next;
* `overalls_once`: it is reported once, when the summary is finalized;
* `overall_determined`: in every run in which the tasks of a submission return these
  outcomes, for any `kMaxParallel` and next to any other submissions.
-/

namespace TiojJudge.Judge
open TaskGraph Machine

/-- What `ReportOverallResult` tells of a submission. -/
structure Overall where
  verdict : Verdict
  totalScore : Int
  totalTime : Int
  totalMemory : Int
  deriving DecidableEq, Repr

def SubmissionResult.overall (res : SubmissionResult) : Overall :=
  ⟨res.verdict, res.totalScore, res.totalTime, res.totalMemory⟩

def Event.overall : Event → Option Overall
  | .overallResult _ res => some res.overall
  | _ => none

/-- The calls of `ReportOverallResult`. -/
abbrev overalls (log : List Event) : List Overall := log.filterMap Event.overall

/-! ## From the outcomes of the tasks -/

section Functions

variable (cfg : Config) (sub : Submission) (out : Task → TaskOutcome)

def testdataOutcomes : List TestdataResult :=
  (List.range sub.numTds).map (testdataOutcome cfg sub out)

/-- The verdicts of the testdata whose verdict is not ignored. -/
def countedVerdicts (tds : List TestdataResult) : List Verdict :=
  ((tds.zip sub.testdata).filter fun p => !p.2.ignoreVerdict).map fun p => p.1.verdict

/-- When everything compiles: the maximum of `AC` and the verdicts of the testdata. -/
def fixedResult : SubmissionResult :=
  { SubmissionResult.new with
    tdResults := testdataOutcomes cfg sub out
    verdict := (countedVerdicts sub (testdataOutcomes cfg sub out)).foldl max .ac }

/-- With the totals of the default summary; no totals when a compile task fails. -/
def fixedOverall : Except Fault Overall :=
  if compileFailure sub out = .nul then
    (defaultTotals cfg sub (fixedResult cfg sub out)).map SubmissionResult.overall
  else .ok ⟨compileFailure sub out, 0, 0, 0⟩

end Functions

variable {cfg : Config} {sub : Submission} {out : Task → TaskOutcome} {id : Int} {i j listSize : Nat}

theorem overallVerdict_eq (sub : Submission) (tds : List TestdataResult) :
    overallVerdict sub tds = (countedVerdicts sub tds).foldl max .ac := by
  unfold overallVerdict countedVerdicts
  rw [List.foldl_map, List.foldl_filter]
  congr 1
  funext v p
  cases p.2.ignoreVerdict with
  | true => simp
  | false => simp [max_def_lt]

/-! ## The parallelism is not looked at -/

section Parallel

variable (k : Int)

theorem parseSpecjudgeOverrides_parallel :
    parseSpecjudgeOverrides { cfg with kMaxParallel := k } = parseSpecjudgeOverrides cfg := by
  with_unfolding_all rfl

theorem made_parallel :
    made { cfg with kMaxParallel := k } sub out = made cfg sub out := by
  have read : readSpecjudgeResult { cfg with kMaxParallel := k } = readSpecjudgeResult cfg := by
    funext sub o last td
    simp only [readSpecjudgeResult, readOldSpecjudgeResult, readPolygonSpecjudgeResult,
      readKattisSpecjudgeResult, parseSpecjudgeOverrides_parallel]
    rfl
  have score : scoringOutcome { cfg with kMaxParallel := k } = scoringOutcome cfg := by
    funext sub stage o skipped td
    simp only [scoringOutcome, read]
  have after : afterTask { cfg with kMaxParallel := k } sub out = afterTask cfg sub out := by
    funext td t
    cases t with
    | scoring => simp only [afterTask, score]
    | compile | execute | summary => rfl
  funext ts
  simp only [made, after]

theorem testdataOutcome_parallel :
    testdataOutcome { cfg with kMaxParallel := k } sub out = testdataOutcome cfg sub out := by
  funext i
  simp only [testdataOutcome, made_parallel]

theorem fixedOverall_parallel :
    fixedOverall { cfg with kMaxParallel := k } sub out = fixedOverall cfg sub out := by
  simp only [fixedOverall, fixedResult, testdataOutcomes, testdataOutcome_parallel]
  rfl

end Parallel

/-! ## The totals before the summary -/

/-- Neither total was written. -/
def NoTotals (c : Ctx) : Prop := c.result.totalTime = 0 ∧ c.result.totalMemory = 0

section Calls

variable {c c' : Ctx} {t : Task} {o : TaskOutcome}

theorem finalizeScoring_totals {skipped : Bool} (none : NoTotals c)
    (h : finalizeScoring cfg c i j o skipped = .ok c') : NoTotals c' := by
  unfold finalizeScoring at h
  split at h
  · cases h
  · cases h
  · cases h
    simpa [NoTotals] using none

theorem setup_totals {files : BoxFiles} {launch : Bool} (none : NoTotals c)
    (h : setup cfg c files t = .ok (launch, c')) : NoTotals c' := by
  cases t with
  | compile subtask =>
    simp only [setup, Except.ok.injEq] at h
    obtain ⟨_, _, result, _⟩ := setupCompile_spec h
    simpa [NoTotals, result] using none
  | execute i j =>
    obtain ⟨_, rfl⟩ := setup_execute_iff.mp h
    exact none
  | scoring i j =>
    have scored {skipped : Bool} (h : (finalizeScoring cfg c i j ⟨.zero, files⟩ skipped).map
        (fun c => (false, c)) = .ok (launch, c')) : NoTotals c' := by
      cases done : finalizeScoring cfg c i j ⟨.zero, files⟩ skipped with
      | error => simp [done, Except.map] at h
      | ok =>
        simp only [done, Except.map, Except.ok.injEq, Prod.mk.injEq] at h
        exact h.2 ▸ finalizeScoring_totals none done
    have kept {launch' : Bool} (h : (.ok (launch', c) : Except Fault _) = .ok (launch, c')) :
        NoTotals c' := by
      cases h
      exact none
    simp only [setup, setupScoring] at h
    split at h
    · exact kept h
    · split at h
      · cases h
      · split at h
        · exact kept h
        · split at h
          · cases h
          · split_ifs at h
            · exact kept h
            · exact scored h
            · exact scored h
            · exact kept h
  | summary =>
    rw [(setupSummary_spec h).1]
    unfold summaryResult
    split
    · exact none
    · exact none

theorem finalize_totals {outcome : Option TaskOutcome} (none : NoTotals c) (other : t ≠ .summary)
    (h : finalize cfg c listSize t outcome = .ok c') : NoTotals c' := by
  cases outcome with
  | none =>
    cases t with
    | compile | execute | scoring =>
      cases h
      exact none
    | summary => exact absurd rfl other
  | some o =>
    cases t with
    | compile subtask =>
      cases h
      unfold finalizeCompile
      split
      · exact none
      · split
        · cases subtask with
          | userprog | specjudge | probprog => simpa [NoTotals] using none
          | summary =>
            dsimp only
            split
            · exact none
            · exact none
        · exact none
    | execute i j =>
      simp only [finalize, finalizeExecute] at h
      split at h
      · cases h
      · cases h
        simpa [NoTotals] using none
    | scoring i j => exact finalizeScoring_totals none h
    | summary => exact absurd rfl other

/-- The summary's finalizer makes the totals when the summary program was not run. -/
theorem finalizeSummary_totals (h : finalizeSummary cfg c o true listSize = .ok c') :
    defaultTotals cfg c.sub c.result = .ok c'.result := by
  unfold finalizeSummary at h
  cases totals : defaultTotals cfg c.sub c.result with
  | error => simp [totals, Except.map] at h
  | ok res =>
    simp only [totals, Except.map, Except.ok.injEq] at h
    subst h
    simp

end Calls

/-! ## One report -/

instance : OfReports Event.overall where
  notes e none := by cases e <;> first | rfl | cases none

/-- Messages and results of testdata are no overall results. -/
theorem not_overall {c : Ctx} {t : Task} (e : Event) (h : c.Tells t e) : e.overall = none := by
  rcases h with message | ⟨_, _, _, _, _, rfl⟩
  · cases e <;> first | rfl | cases message
  · rfl

theorem finalizeSummary_overalls {c c' : Ctx} (empty : c.log = []) (going : c.cancelled = false)
    (h : finalizeSummary cfg c ⟨.zero, .empty⟩ true listSize = .ok c') : overalls c'.log =
      if c.sub.reporter.reportOverallResult = true then [c'.result.overall] else [] := by
  obtain ⟨_, _, _, _, _, _, log⟩ := finalizeSummary_spec h
  rw [log, empty, going]
  cases c.sub.reporter.reportOverallResult <;> cases c.sub.reporter.reportFinalized <;> rfl

namespace Life

variable {base : Nat} {l l' : Life}

/-- The result `res` was made when the summary was next. -/
def Reported (cfg : Config) (id : Int) (base : Nat) (sub : Submission) (l : Life)
    (res : SubmissionResult) : Prop :=
  ∃ l₀, Reachable cfg id base sub l₀ ∧ l₀.Ready .summary ∧ (∃ new, l.ctx.log = l₀.ctx.log ++ new) ∧
    defaultTotals cfg sub (summaryResult sub l₀.ctx.result) = .ok res

theorem Reported.step {res : SubmissionResult} (r : Reported cfg id base sub l res)
    (h : Step cfg id base l l') : Reported cfg id base sub l' res := by
  obtain ⟨l₀, reach, ready, ⟨new, log⟩, totals⟩ := r
  obtain ⟨new', log'⟩ := h.log
  exact ⟨l₀, reach, ready, ⟨new ++ new', by rw [log', log, List.append_assoc]⟩, totals⟩

theorem noTotals (h : Reachable cfg id base sub l) (wf : sub.WellFormed)
    (left : .summary ∈ l.todo) : NoTotals l.ctx := by
  induction h with
  | start => exact ⟨rfl, rfl⟩
  | @next l l' reach step ih =>
    have none : NoTotals l.ctx.cleared := ih (step.todo_subset (shape wf reach) left)
    cases step with
    | @launch _ _ _ c _ setup =>
      have after : NoTotals c := setup_totals none setup
      exact after
    | @skip t _ _ c c' _ setup done =>
      have other : t ≠ .summary := fun same => (Finset.mem_erase.mp left).1 same.symm
      have before : NoTotals c := setup_totals none setup
      have after : NoTotals c' := finalize_totals (c := c.cleared) before other done
      exact after
    | @finish t _ _ c _ done =>
      have other : t ≠ .summary := fun same => (Finset.mem_erase.mp left).1 same.symm
      have after : NoTotals c := finalize_totals none other done
      exact after
    | cancel => exact none

/-- The overall results in the log, before the summary is finalized and after. -/
structure Reports (cfg : Config) (id : Int) (base : Nat) (sub : Submission) (l : Life) : Prop where
  before : .summary ∈ l.todo → overalls l.ctx.log = []
  after : .summary ∉ l.todo → ∃ res, Reported cfg id base sub l res ∧
    overalls l.ctx.log = if sub.reporter.reportOverallResult = true then [res.overall] else []

theorem Reports.quiet (r : Reports cfg id base sub l) (h : Step cfg id base l l')
    (same : overalls l'.ctx.log = overalls l.ctx.log) (left : .summary ∈ l'.todo ↔ .summary ∈ l.todo) :
    Reports cfg id base sub l' := by
  refine ⟨fun here => same.trans (r.before (left.mp here)), fun gone => ?_⟩
  obtain ⟨res, reported, report⟩ := r.after fun here => gone (left.mpr here)
  exact ⟨res, reported.step h, same.trans report⟩

/-- Without a summary program, the result of a submission that is not superseded is reported
once. -/
theorem overalls_once (wf : sub.WellFormed) (none : sub.summaryType = .none)
    (h : Reachable cfg id base sub l) (kept : .superseded id ∉ l.ctx.log) :
    Reports cfg id base sub l := by
  induction h with
  | start =>
    have here : .summary ∈ (Life.start id base sub).todo :=
      List.mem_toFinset.mpr (Submission.mem_planTasks.mpr trivial)
    exact ⟨fun _ => rfl, fun gone => absurd here gone⟩
  | @next l l' reach step ih =>
    have shape := shape wf reach
    have keptBefore : .superseded id ∉ l.ctx.log := by
      obtain ⟨new, log⟩ := step.log
      rw [log] at kept
      exact fun here => kept (List.mem_append_left _ here)
    have ih := ih keptBefore
    have others {t : Task} (other : t ≠ .summary) :
        .summary ∈ l.todo.erase t ↔ .summary ∈ l.todo := by
      simp [Ne.symm other]
    cases step with
    | @launch t handle _ c ready setup =>
      apply ih.quiet (.launch ready setup)
      · have silent : overalls c.log = [] := setup_selects not_overall rfl setup
        simp [launched, started, Ctx.withLog, silent]
      · exact Iff.rfl
    | @skip t _ _ c c' ready setup done =>
      have silent : overalls c.log = [] := setup_selects not_overall rfl setup
      by_cases last : t = .summary
      · subst last
        refine ⟨fun here => absurd here (Finset.notMem_erase _ _), fun _ => ⟨c'.result, ?_, ?_⟩⟩
        · obtain ⟨same, _⟩ := setupSummary_spec setup
          have totals := finalizeSummary_totals done
          simp only [same, Ctx.cleared, shape.same] at totals
          have now : Reported cfg id base sub l c'.result := ⟨l, reach, ready, ⟨[], by simp⟩, totals⟩
          exact now.step (.skip ready setup done)
        · have going : c.cleared.cancelled = false := by
            apply Bool.eq_false_iff.mpr
            intro on
            exact keptBefore (superseded_of_cancelled reach ((setup_cancelled setup).symm.trans on))
          have report := finalizeSummary_overalls rfl going done
          have same : c.cleared.sub = sub := (setup_frame setup).sub.trans shape.same
          rw [same] at report
          simp only [settled, started, Ctx.withLog, List.filterMap_append, silent, report,
            selects_dispatching, selects_finalizing, List.filterMap_nil, ih.before ready.1,
            List.nil_append]
      · apply ih.quiet (.skip ready setup done)
        · have silent' : overalls c'.log = [] := finalize_selects not_overall last rfl done
          simp [settled, started, Ctx.withLog, silent, silent']
        · exact others last
    | @finish t _ _ c here done =>
      have other : t ≠ .summary := by
        rintro rfl
        exact summary_idle none wf reach here
      apply ih.quiet (.finish here done)
      · have silent : overalls c.log = [] := finalize_selects not_overall other rfl done
        simp [settled, Ctx.withLog, silent]
      · exact others other
    | cancel =>
      apply ih.quiet .cancel
      · simp [Life.cancel]
      · exact Iff.rfl

/-- Without skipped groups, only a compile failure excuses a testdata. -/
theorem not_excused_of_kept (wf : sub.WellFormed) (reach : Reachable cfg id base sub l)
    (noSkip : sub.skipGroup = false) (kept : .superseded id ∉ l.ctx.log)
    (nul : l.ctx.result.verdict = .nul) : ¬ l.Excused i := by
  rintro (set | ⟨item, _, cancelled⟩)
  · exact set nul
  · rcases Ctx.isCancelled_iff.mp cancelled with on | ⟨nonempty, all⟩
    · exact kept (superseded_of_cancelled reach on)
    · obtain ⟨g, hg⟩ := List.exists_mem_of_ne_nil _ nonempty
      have skips := (blamed wf reach (all g hg)).1
      rw [noSkip] at skips
      cases skips

theorem entry_at_summary (wf : sub.WellFormed) (hi : i < sub.numTds)
    (reach : Reachable cfg id base sub l) (fixed : Fixed out id l.ctx.log) (ready : l.Ready .summary)
    (going : ¬ l.Excused i) : l.ctx.result.tdResults[i]? = some (testdataOutcome cfg sub out i) := by
  have ended := (shape wf reach).before_ready (Submission.leads_summary wf (t := .execute i 0)
    ⟨hi, wf.numStages.1⟩) ready (by simp)
  have inside := ((indexed wf reach).grown i hi ended ready.1).resolve_left going
  rw [← outcome_at_summary wf hi reach fixed ready going]
  simp [Ctx.td, inside]

theorem tdResults_at_summary (wf : sub.WellFormed) (reach : Reachable cfg id base sub l)
    (fixed : Fixed out id l.ctx.log) (ready : l.Ready .summary)
    (going : ∀ i < sub.numTds, ¬ l.Excused i) :
    l.ctx.result.tdResults = testdataOutcomes cfg sub out := by
  apply List.ext_getElem?
  intro i
  by_cases hi : i < sub.numTds
  · rw [entry_at_summary wf hi reach fixed ready (going i hi)]
    simp [testdataOutcomes, hi]
  · have size := (indexed wf reach).size
    rw [List.getElem?_eq_none (by omega), List.getElem?_eq_none]
    rw [testdataOutcomes, List.length_map, List.length_range]
    omega

end Life

/-- The totals are made of the verdict and the results of the testdata. -/
theorem defaultTotals_overall {res res' : SubmissionResult} (verdict : res.verdict = res'.verdict)
    (tds : res.tdResults = res'.tdResults) (low : res.verdict < .ce) :
    (defaultTotals cfg sub res).map SubmissionResult.overall =
      (defaultTotals cfg sub res').map SubmissionResult.overall := by
  unfold defaultTotals
  rw [if_pos low, if_pos (verdict ▸ low), tds]
  cases subtaskScores sub res'.tdResults with
  | error => rfl
  | ok => simp [Except.map, SubmissionResult.overall, verdict]

/-- After a compile failure there are no totals. -/
theorem defaultTotals_failed {res res' : SubmissionResult} (failed : .ce ≤ res.verdict)
    (none : res.totalTime = 0 ∧ res.totalMemory = 0) (totals : defaultTotals cfg sub res = .ok res') :
    res'.overall = ⟨res.verdict, 0, 0, 0⟩ := by
  unfold defaultTotals at totals
  rw [if_neg (not_lt.mpr failed)] at totals
  cases totals
  simp [SubmissionResult.overall, none.1, none.2]

theorem fixedOverall_ok (indexed : GroupsIndexed sub) : ∃ o, fixedOverall cfg sub out = .ok o := by
  unfold fixedOverall defaultTotals
  by_cases nul : compileFailure sub out = .nul
  · obtain ⟨scores, folded⟩ := subtaskScores_ok indexed (fixedResult cfg sub out).tdResults
    simp only [nul, if_true, folded]
    split_ifs
    · exact ⟨_, rfl⟩
    · exact ⟨_, rfl⟩
  · simp only [nul, if_false]
    exact ⟨_, rfl⟩

namespace Life

variable {base : Nat} {l l' : Life}

/-- What is known where the summary is next is known of the result that was made there. -/
theorem Reported.made {res : SubmissionResult} (r : Reported cfg id base sub l res)
    (fixed : Fixed out id l.ctx.log) (kept : .superseded id ∉ l.ctx.log) :
    ∃ l₀, Reachable cfg id base sub l₀ ∧ l₀.Ready .summary ∧ Fixed out id l₀.ctx.log ∧
      .superseded id ∉ l₀.ctx.log ∧ defaultTotals cfg sub (summaryResult sub l₀.ctx.result) = .ok res := by
  obtain ⟨l₀, reach, ready, ⟨new, log⟩, totals⟩ := r
  rw [log] at fixed kept
  exact ⟨l₀, reach, ready, fixed.before, fun here => kept (List.mem_append_left _ here), totals⟩

theorem overallVerdict_at_summary (reach : Reachable cfg id base sub l) :
    overallVerdict sub l.ctx.result.tdResults < .ce := by
  apply overallVerdict_lt
  intro td htd
  obtain ⟨i, hi, rfl⟩ := List.getElem_of_mem htd
  simpa [Ctx.td, hi] using td_verdict_lt reach i

theorem reported_fixed {res : SubmissionResult} (wf : sub.WellFormed)
    (noSkip : sub.skipGroup = false) (r : Reported cfg id base sub l res)
    (fixed : Fixed out id l.ctx.log) (kept : .superseded id ∉ l.ctx.log) :
    fixedOverall cfg sub out = .ok res.overall := by
  obtain ⟨l₀, reach, ready, fixed, kept, totals⟩ := r.made fixed kept
  have verdict := failure_at_summary wf reach fixed ready kept
  unfold fixedOverall
  rcases verdict_cases reach ready.1 ready.2.1 with nul | failed
  · have going (i : Nat) (_ : i < sub.numTds) : ¬ l₀.Excused i :=
      not_excused_of_kept wf reach noSkip kept nul
    have tds := tdResults_at_summary wf reach fixed ready going
    have low := overallVerdict_at_summary reach
    have made : (summaryResult sub l₀.ctx.result).verdict =
        overallVerdict sub l₀.ctx.result.tdResults := by simp [summaryResult, nul]
    have entries := summaryResult_tdResults sub l₀.ctx.result
    have same : (defaultTotals cfg sub (summaryResult sub l₀.ctx.result)).map
        SubmissionResult.overall =
        (defaultTotals cfg sub (fixedResult cfg sub out)).map SubmissionResult.overall := by
      apply defaultTotals_overall
      · rw [made, overallVerdict_eq, tds]
        rfl
      · exact entries.trans tds
      · exact made ▸ low
    rw [totals] at same
    rw [← verdict, if_pos nul, ← same]
    rfl
  · have set : l₀.ctx.result.verdict ≠ .nul := by
      intro nul
      rw [nul] at failed
      exact absurd failed (by decide)
    rw [← verdict, if_neg set]
    simp only [summaryResult, set, if_false] at totals
    rw [defaultTotals_failed failed (noTotals reach wf ready.1) totals]

end Life

variable {s : State} {base : Nat}

theorem stuck_of_returned (returned : s.phase = .returned) : Stuck cfg s := by
  intro l t step
  have enabled := (judge_step.mp step).1
  cases l with
  | push => rfl
  | wake | dispatch | block | result | exit =>
    have phase := enabled.1
    rw [returned] at phase
    cases phase

/-- A task that ran returned what `out` says. -/
def Event.returns (out : Task → TaskOutcome) : Event → Bool
  | .finalizing _ _ t (some o) => o == out t
  | _ => true

theorem fixed_of_returns {log : List Event} (all : log.all (Event.returns out) = true) :
    Fixed out id log := by
  rintro t o ⟨tid, ended⟩
  have here := List.all_eq_true.mp all _ ended
  simpa [Event.returns] using here

/-- The submission of `summaryStopped` is judged before one of another user. -/
def neighbourStopped : List Label :=
  [.push { sampleSubmission 1 1 [sampleItem false [0]] with
      summaryType := .custom, specjudgeType := .specjudgeNew } 0,
    .push (sampleSubmission 2 2 [sampleItem false [0]]) 0, .wake] ++
    runAlone 3 goodOutcome ++ runAlone 4 goodOutcome ++ runAlone 5 goodOutcome ++
    runAlone 1 goodOutcome ++ runAlone 2 negativeOutcome

end TiojJudge.Judge
