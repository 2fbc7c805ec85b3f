import Mathlib.Tactic.SplitIfs
import TiojJudge.Judge.Scheduler

/-!
# What setups and finalizers change

* `Frame`: they keep the submission and log only events of that submission;
* `Grows`: before the summary a verdict stays set, a cancellation stays, and
  only the testdata of the task can change;
* one lemma for each function on what it does to the testdata and the verdict.
-/

namespace TiojJudge.Judge

/-- The submission that an event of a setup or finalizer is about. -/
def Event.source : Event → Option Submission
  | .enqueued .. | .superseded .. | .dispatching .. | .launched .. | .finalizing .. => none
  | .startCompiling sub _ | .ceMessage sub _ | .jceMessage sub _ | .executeFinished sub ..
  | .scoringResult sub .. | .overallResult sub _ | .submissionFinished sub
  | .reportFinalized sub .. => some sub

namespace Ctx

structure Frame (c c' : Ctx) : Prop where
  sub : c'.sub = c.sub
  log : ∃ new, c'.log = c.log ++ new ∧ ∀ e ∈ new, e.source = some c.sub

variable {c c' c'' : Ctx}

theorem Frame.refl (c : Ctx) : Frame c c := ⟨rfl, [], by simp⟩

/-- A call on an empty log. -/
theorem Frame.source (h : Frame c c') (empty : c.log = []) :
    ∀ e ∈ c'.log, e.source = some c.sub := by
  obtain ⟨_, new, log, source⟩ := h
  rwa [log, empty, List.nil_append]

theorem Frame.trans (h : Frame c c') (h' : Frame c' c'') : Frame c c'' := by
  obtain ⟨new, hnew, source⟩ := h.log
  obtain ⟨new', hnew', source'⟩ := h'.log
  refine ⟨h'.sub.trans h.sub, new ++ new', by rw [hnew', hnew, List.append_assoc], ?_⟩
  intro e he
  rcases List.mem_append.mp he with he | he
  · exact source e he
  · exact h.sub ▸ source' e he

theorem Frame.of_same (sub : c'.sub = c.sub) (log : c'.log = c.log) : Frame c c' :=
  ⟨sub, [], by simp [log]⟩

theorem Frame.report {wanted : Bool} {e : Event} (h : Frame c c') (source : e.source = some c.sub) :
    Frame c (c'.report wanted e) := by
  refine h.trans ?_
  cases wanted with
  | false => exact .refl _
  | true => exact ⟨rfl, [e], rfl, by simpa [h.sub] using source⟩

@[simp] theorem report_sub (c : Ctx) (b : Bool) (e : Event) : (c.report b e).sub = c.sub := by
  cases b <;> rfl

@[simp] theorem report_result (c : Ctx) (b : Bool) (e : Event) :
    (c.report b e).result = c.result := by
  cases b <;> rfl

@[simp] theorem report_cancelled (c : Ctx) (b : Bool) (e : Event) :
    (c.report b e).cancelled = c.cancelled := by
  cases b <;> rfl

@[simp] theorem report_cancelledGroup (c : Ctx) (b : Bool) (e : Event) :
    (c.report b e).cancelledGroup = c.cancelledGroup := by
  cases b <;> rfl

theorem mem_report {b : Bool} {e x : Event} :
    e ∈ (c.report b x).log ↔ e ∈ c.log ∨ b = true ∧ e = x := by
  cases b <;> simp [report]

/-- The result of testdata `i`, a new one when it was never executed. -/
def td (c : Ctx) (i : Nat) : TestdataResult := c.result.tdResults[i]?.getD .new

/-- Group `g` is cancelled. -/
def Blames (c : Ctx) (g : Int) : Prop := ∃ groups, c.cancelledGroup = some groups ∧ g ∈ groups

theorem isCancelled_iff {groups : List Int} :
    c.isCancelled groups = true ↔
      c.cancelled = true ∨ groups ≠ [] ∧ ∀ g ∈ groups, c.Blames g := by
  unfold isCancelled Blames
  cases c.cancelledGroup with
  | none =>
    cases groups with
    | nil => simp
    | cons g groups =>
      simp only [Bool.or_false, ne_eq, reduceCtorEq, not_false_eq_true, true_and, false_and,
        exists_false, iff_self_or]
      intro all
      exact (all g List.mem_cons_self).elim
  | some cancelled => simp

end Ctx

open Ctx

variable {cfg : Config} {c c' : Ctx} {subtask stage listSize : Nat} {o : TaskOutcome}
  {files : BoxFiles}

/-! ## Compilation -/

/-- The verdict after a compile task. -/
def compileVerdict (subtask : CompileSubtask) (o : TaskOutcome) (verdict : Verdict) : Verdict :=
  if o.res.timekill = -1 then .je
  else if compileFails o then max verdict (failVerdict subtask o)
  else verdict

theorem setupCompile_spec {subtask : CompileSubtask} {launch : Bool}
    (h : setupCompile c subtask = (launch, c')) :
    Frame c c' ∧ launch = !c.cancelled ∧ c'.result = c.result ∧ c'.cancelled = c.cancelled ∧
      c'.cancelledGroup = c.cancelledGroup := by
  unfold setupCompile at h
  split at h
  · rename_i cancelled
    cases h
    simp [cancelled, Frame.refl]
  · rename_i notCancelled
    cases h
    exact ⟨(Frame.refl c).report rfl, by simpa using notCancelled, by simp⟩

theorem finalizeCompile_spec (cfg : Config) (c : Ctx) (subtask : CompileSubtask) (o : TaskOutcome) :
    let c' := finalizeCompile cfg c subtask o
    Frame c c' ∧ c'.result.verdict = compileVerdict subtask o c.result.verdict ∧
      c'.result.tdResults = c.result.tdResults ∧ c'.cancelled = c.cancelled ∧
      c'.cancelledGroup = c.cancelledGroup := by
  unfold finalizeCompile compileVerdict
  split
  · exact ⟨.of_same rfl rfl, by simp⟩
  · split
    · cases subtask with
      | userprog | specjudge | probprog =>
        dsimp only
        refine ⟨Frame.report ?_ rfl, by simp⟩
        exact .of_same rfl rfl
      | summary =>
        refine ⟨.of_same rfl rfl, ?_⟩
        dsimp only
        split_ifs <;> simp
    · exact ⟨.refl c, by simp⟩

/-! ## Execution -/

theorem prepareExecute_eq {launch : Bool} (h : prepareExecute c stage files = .ok launch) :
    launch = true ∧ files.complete c.sub stage = true := by
  unfold prepareExecute at h
  split at h
  · rename_i complete
    cases h
    exact ⟨rfl, complete⟩
  · cases h

theorem setupExecute_spec (h : setupExecute c subtask stage files = .ok true) :
    c.result.verdict = .nul ∧
      (∃ item, c.sub.testdata[subtask]? = some item ∧ c.isCancelled item.tdGroups = false) ∧
      (stage ≠ 0 → subtask < c.result.tdResults.length ∧ (c.td subtask).skipStage = false ∧
        (c.td subtask).verdict = .nul) := by
  unfold setupExecute at h
  split at h
  · cases h
  · rename_i verdict
    split at h
    · cases h
    · rename_i item found
      split at h
      · cases h
      · rename_i free
        refine ⟨not_not.mp verdict, ⟨item, found, by simpa using free⟩, fun later => ?_⟩
        rw [if_neg later] at h
        split at h
        · cases h
        · rename_i td here
          split at h
          · cases h
          · rename_i going
            refine ⟨(List.getElem?_eq_some_iff.mp here).1, ?_⟩
            simpa [Ctx.td, here] using going

theorem setupExecute_skips (h : setupExecute c subtask stage files = .ok false) :
    c.result.verdict ≠ .nul ∨
      (∃ item, c.sub.testdata[subtask]? = some item ∧ c.isCancelled item.tdGroups = true) ∨
      stage ≠ 0 ∧ ((c.td subtask).skipStage = true ∨ (c.td subtask).verdict ≠ .nul) := by
  unfold setupExecute at h
  split at h
  · rename_i verdict
    exact .inl verdict
  · split at h
    · cases h
    · rename_i item found
      split at h
      · rename_i cancelled
        exact .inr (.inl ⟨item, found, cancelled⟩)
      · split at h
        · cases (prepareExecute_eq h).1
        · rename_i later
          refine .inr (.inr ⟨later, ?_⟩)
          split at h
          · cases h
          · rename_i td here
            split at h
            · rename_i passed
              simpa [Ctx.td, here] using passed
            · cases (prepareExecute_eq h).1

/-- The setup of an execution leaves the submission as it is. -/
theorem setup_execute_iff {launch : Bool} :
    setup cfg c files (.execute subtask stage) = .ok (launch, c') ↔
      setupExecute c subtask stage files = .ok launch ∧ c' = c := by
  cases ready : setupExecute c subtask stage files with
  | error => simp [setup, ready, Except.map]
  | ok => simp [setup, ready, Except.map, eq_comm]

theorem growTo_length (tds : List TestdataResult) (i : Nat) :
    (growTo tds i).length = max tds.length (i + 1) := by
  simp only [growTo, List.length_append, List.length_replicate]
  omega

/-- A result that was not there before is a new one. -/
theorem growTo_getD (tds : List TestdataResult) (i k : Nat) :
    (growTo tds i)[k]?.getD .new = tds[k]?.getD .new := by
  rw [growTo, List.getElem?_append]
  split
  · rfl
  · rename_i outside
    rw [List.getElem?_eq_none (Nat.le_of_not_lt outside), List.getElem?_replicate]
    split <;> rfl

theorem finalizeExecute_spec (h : finalizeExecute cfg c subtask stage o = .ok c') :
    ∃ lim, c.sub.testdata[subtask]? = some lim ∧ Frame c c' ∧
      c'.log = c.log ++ [.executeFinished c.sub subtask stage (c'.td subtask)] ∧
      c'.result.verdict = c.result.verdict ∧ c'.cancelled = c.cancelled ∧
      c'.cancelledGroup = c.cancelledGroup ∧
      c'.result.tdResults.length = max c.result.tdResults.length (subtask + 1) ∧
      c'.td subtask = executeResult cfg c.sub lim stage o.res (c.td subtask) ∧
      ∀ k, k ≠ subtask → c'.td k = c.td k := by
  unfold finalizeExecute at h
  split at h
  · cases h
  · rename_i lim found
    cases h
    have inside : subtask < (growTo c.result.tdResults subtask).length := by
      rw [growTo_length]
      omega
    refine ⟨lim, found, Frame.report ?_ rfl, ?_, by simp, by simp, by simp, ?_, ?_, ?_⟩
    · exact .of_same rfl rfl
    · simp [Ctx.report, Ctx.td, inside]
    · simp [growTo_length]
    · simp only [Ctx.td, report_result, List.getElem?_set_self inside, Option.getD_some,
        growTo_getD]
    · intro k other
      simp only [Ctx.td, report_result, List.getElem?_set_ne (Ne.symm other), growTo_getD]

/-! ## Scoring -/

/-- The groups that are cancelled after the testdata was scored. -/
def groupsAfter (sub : Submission) (item : TestdataItem) (td : TestdataResult)
    (groups : Option (Finset Int)) : Option (Finset Int) :=
  if sub.skipGroup ∧ td.verdict ≠ .nul ∧ td.verdict ≠ .ac then
    some (groups.getD ∅ ∪ item.tdGroups.toFinset)
  else groups

/-- What `FinalizeScoring` does, called by the setup or not. -/
structure Scored (cfg : Config) (c : Ctx) (subtask stage : Nat) (o : TaskOutcome) (skipped : Bool)
    (c' : Ctx) : Prop where
  inside : subtask < c.result.tdResults.length
  frame : Frame c c'
  verdict : c'.result.verdict = c.result.verdict
  cancelled : c'.cancelled = c.cancelled
  groups : ∃ item, c.sub.testdata[subtask]? = some item ∧
    c'.cancelledGroup = groupsAfter c.sub item (c'.td subtask) c.cancelledGroup
  length : c'.result.tdResults.length = c.result.tdResults.length
  td : c'.td subtask = scoringOutcome cfg c.sub stage o skipped (c.td subtask)
  others : ∀ k, k ≠ subtask → c'.td k = c.td k
  log : c'.log = c.log ∨ c.cancelled = false ∧
    c'.log = c.log ++ [.scoringResult c.sub c'.result subtask stage]

theorem finalizeScoring_spec {skipped : Bool}
    (h : finalizeScoring cfg c subtask stage o skipped = .ok c') :
    Scored cfg c subtask stage o skipped c' := by
  unfold finalizeScoring at h
  split at h
  · cases h
  · cases h
  · rename_i td item here found
    cases h
    have inside := (List.getElem?_eq_some_iff.mp here).1
    refine ⟨inside, Frame.report ?_ rfl, by simp, by simp, ⟨item, found, ?_⟩, by simp, ?_, ?_, ?_⟩
    · exact .of_same rfl rfl
    · simp [groupsAfter, Ctx.td, inside]
    · have before : c.td subtask = td := by simp [Ctx.td, here]
      simp [Ctx.td, inside, ← before]
    · intro k other
      simp [Ctx.td, List.getElem?_set_ne (Ne.symm other)]
    · cases cancelled : c.cancelled with
      | true => simp [Ctx.report]
      | false =>
        rw [Ctx.report]
        split
        · exact .inr ⟨rfl, rfl⟩
        · exact .inl rfl

/-- The three ends of `SetupScoring`: launched, skipped as it is, or finalized
at once. -/
theorem setupScoring_ends {files : BoxFiles} {launch : Bool}
    (h : setupScoring cfg c subtask stage files = .ok (launch, c')) :
    (launch = true ∧ c' = c ∧ c.result.verdict = .nul ∧
      (∃ item, c.sub.testdata[subtask]? = some item ∧ c.isCancelled item.tdGroups = false) ∧
      subtask < c.result.tdResults.length ∧ (c.td subtask).skipStage = false) ∨
    (launch = false ∧ c' = c ∧ (c.result.verdict ≠ .nul ∨
      (∃ item, c.sub.testdata[subtask]? = some item ∧ c.isCancelled item.tdGroups = true) ∨
      (c.td subtask).skipStage = true)) ∨
    (launch = false ∧ c.result.verdict = .nul ∧
      (∃ item, c.sub.testdata[subtask]? = some item ∧ c.isCancelled item.tdGroups = false) ∧
      (c.td subtask).skipStage = false ∧
      ∃ skipped, (skipped = true → (c.td subtask).verdict ≠ .nul) ∧
        (skipped = false → c.sub.specjudgeType = .skip) ∧
        finalizeScoring cfg c subtask stage ⟨.zero, files⟩ skipped = .ok c') := by
  unfold setupScoring at h
  split at h
  · rename_i verdict
    cases h
    exact .inr (.inl ⟨rfl, rfl, .inl verdict⟩)
  · rename_i verdict
    have nul := not_not.mp verdict
    split at h
    · cases h
    · rename_i item found
      split at h
      · rename_i cancelled
        cases h
        exact .inr (.inl ⟨rfl, rfl, .inr (.inl ⟨item, found, cancelled⟩)⟩)
      · rename_i free
        split at h
        · cases h
        · rename_i td here
          have inside := (List.getElem?_eq_some_iff.mp here).1
          obtain rfl : c.td subtask = td := by simp [Ctx.td, here]
          have ends {skipped : Bool} (h : ((finalizeScoring cfg c subtask stage ⟨.zero, files⟩
              skipped).map fun c => (false, c)) = .ok (launch, c')) :
              launch = false ∧ finalizeScoring cfg c subtask stage ⟨.zero, files⟩ skipped = .ok c' := by
            cases scored : finalizeScoring cfg c subtask stage ⟨.zero, files⟩ skipped with
            | error => simp [scored, Except.map] at h
            | ok c'' =>
              simp only [scored, Except.map, Except.ok.injEq, Prod.mk.injEq] at h
              obtain ⟨launched, rfl⟩ := h
              exact ⟨launched.symm, rfl⟩
          split at h
          · rename_i skip
            cases h
            exact .inr (.inl ⟨rfl, rfl, .inr (.inr skip)⟩)
          · rename_i notSkip
            have notSkip : (c.td subtask).skipStage = false := by simpa using notSkip
            split at h
            · rename_i failed
              obtain ⟨rfl, scored⟩ := ends h
              exact .inr (.inr ⟨rfl, nul, ⟨item, found, by simpa using free⟩, notSkip, true,
                fun _ => failed.1, by simp, scored⟩)
            · split at h
              · rename_i skipType
                obtain ⟨rfl, scored⟩ := ends h
                exact .inr (.inr ⟨rfl, nul, ⟨item, found, by simpa using free⟩, notSkip, false,
                  by simp, fun _ => skipType, scored⟩)
              · cases h
                exact .inl ⟨rfl, rfl, nul, ⟨item, found, by simpa using free⟩, inside, notSkip⟩

theorem setupScoring_cases {files : BoxFiles} {launch : Bool}
    (h : setupScoring cfg c subtask stage files = .ok (launch, c')) :
    (launch = true ∧ c' = c ∧ c.result.verdict = .nul ∧
      (∃ item, c.sub.testdata[subtask]? = some item ∧ c.isCancelled item.tdGroups = false) ∧
      subtask < c.result.tdResults.length ∧ (c.td subtask).skipStage = false) ∨
    (launch = false ∧ c' = c ∧ (c.result.verdict ≠ .nul ∨
      (∃ item, c.sub.testdata[subtask]? = some item ∧ c.isCancelled item.tdGroups = true) ∨
      (c.td subtask).skipStage = true)) ∨
    (launch = false ∧ c.result.verdict = .nul ∧
      (∃ item, c.sub.testdata[subtask]? = some item ∧ c.isCancelled item.tdGroups = false) ∧
      (c.td subtask).skipStage = false ∧
      ∃ skipped, (skipped = true → (c.td subtask).verdict ≠ .nul) ∧
        (skipped = false → c.sub.specjudgeType = .skip) ∧
        Scored cfg c subtask stage ⟨.zero, files⟩ skipped c') := by
  rcases setupScoring_ends h with launched | kept | ⟨no, nul, free, go, skipped, failed, type, scored⟩
  · exact .inl launched
  · exact .inr (.inl kept)
  · exact .inr (.inr ⟨no, nul, free, go, skipped, failed, type, finalizeScoring_spec scored⟩)

/-! ## Summary -/

theorem setupSummary_spec {launch : Bool} (h : setupSummary c = .ok (launch, c')) :
    c' = { c with result := summaryResult c.sub c.result } ∧
      (launch = true ↔ c.sub.summaryType = .custom ∧ c'.result.verdict ≠ .jce) := by
  unfold setupSummary at h
  split at h
  · cases h
  · dsimp only at h
    split at h
    · rename_i ends
      cases h
      refine ⟨rfl, ?_⟩
      simp only [Bool.false_eq_true, false_iff, not_and, not_not]
      intro custom
      exact ends.resolve_left (by simp [custom])
    · rename_i goes
      split at h
      · cases h
      · cases h
        refine ⟨rfl, ?_⟩
        simp only [not_or] at goes
        cases kind : c.sub.summaryType with
        | none => exact absurd kind goes.1
        | custom => simpa using goes.2

theorem summaryResult_tdResults (sub : Submission) (res : SubmissionResult) :
    (summaryResult sub res).tdResults = res.tdResults := by
  unfold summaryResult
  split <;> rfl

theorem defaultTotals_spec {sub : Submission} {res res' : SubmissionResult}
    (h : defaultTotals cfg sub res = .ok res') :
    res'.verdict = res.verdict ∧ res'.tdResults = res.tdResults := by
  unfold defaultTotals at h
  split at h
  · cases scores : subtaskScores sub res.tdResults with
    | error => simp [scores, Except.map] at h
    | ok =>
      simp only [scores, Except.map, Except.ok.injEq] at h
      subst h
      exact ⟨rfl, rfl⟩
  · cases h
    exact ⟨rfl, rfl⟩

theorem customTotals_spec (cfg : Config) (o : TaskOutcome) (res : SubmissionResult) :
    (customTotals cfg o res).verdict ≠ .nul ∧ (customTotals cfg o res).tdResults = res.tdResults := by
  unfold customTotals summaryFailed
  split
  · simp
  · split
    · simp
    · unfold readSummaryResult
      rename_i output _ _
      cases cfg.parseJson output with
      | none => simp
      | some json =>
        simp only [Option.map_some, Option.getD_some, and_true]
        split_ifs with nul
        · simp
        · exact nul

/-- The overall verdict is at least `AC`. -/
theorem overallVerdict_ge (sub : Submission) (tds : List TestdataResult) :
    .ac ≤ overallVerdict sub tds := by
  unfold overallVerdict
  generalize tds.zip sub.testdata = pairs
  suffices ∀ v, Verdict.ac ≤ v → Verdict.ac ≤ pairs.foldl (fun v p =>
      if p.2.ignoreVerdict then v else if v < p.1.verdict then p.1.verdict else v) v from
    this .ac le_rfl
  intro v hv
  induction pairs generalizing v with
  | nil => exact hv
  | cons p pairs ih =>
    refine ih _ ?_
    dsimp only
    split_ifs with ignored larger
    · exact hv
    · exact hv.trans larger.le
    · exact hv

/-- The record that `FinalizeSummary` leaves, and its events. -/
theorem finalizeSummary_spec {skipped : Bool}
    (h : finalizeSummary cfg c o skipped listSize = .ok c') :
    Frame c c' ∧ c'.result.tdResults = c.result.tdResults ∧
      (skipped = true → c'.result.verdict = c.result.verdict) ∧
      (skipped = false → c'.result.verdict ≠ .nul) ∧
      c'.cancelled = false ∧ c'.cancelledGroup = none ∧
      c'.log = c.log ++
        (if !c.cancelled && c.sub.reporter.reportOverallResult then
          [.overallResult c.sub c'.result] else []) ++
        [.submissionFinished c.sub] ++
        (if c.sub.reporter.reportFinalized then
          [.reportFinalized c.sub c'.result listSize] else []) := by
  unfold finalizeSummary at h
  cases totals : defaultTotals cfg c.sub c.result with
  | error => simp [totals, Except.map] at h
  | ok res =>
    obtain ⟨verdict, tds⟩ := defaultTotals_spec totals
    simp only [totals, Except.map, Except.ok.injEq] at h
    subst h
    refine ⟨?_, ?_, ?_, ?_, ?_, ?_, ?_⟩
    · refine Frame.report (Frame.report ?_ (by simp [Event.source])) (by simp [Event.source])
      refine (Frame.report ?_ rfl : Frame c (Ctx.report _ _ _)).trans (.of_same rfl rfl)
      exact .of_same rfl rfl
    · cases skipped <;> simp [tds, (customTotals_spec cfg o res).2]
    · rintro rfl
      simpa using verdict
    · rintro rfl
      simpa using (customTotals_spec cfg o res).1
    · simp
    · simp
    · cases h1 : (!c.cancelled && c.sub.reporter.reportOverallResult) <;>
        cases h2 : c.sub.reporter.reportFinalized <;> simp [Ctx.report, h2]

/-! ## Any task -/

theorem setup_frame {files : BoxFiles} {t : Task} {launch : Bool}
    (h : setup cfg c files t = .ok (launch, c')) : Frame c c' := by
  cases t with
  | compile subtask =>
    simp only [setup, Except.ok.injEq] at h
    exact (setupCompile_spec h).1
  | execute i j =>
    obtain ⟨_, rfl⟩ := setup_execute_iff.mp h
    exact .refl _
  | scoring i j =>
    rcases setupScoring_cases h with ⟨_, rfl, _⟩ | ⟨_, rfl, _⟩ | ⟨_, _, _, _, _, _, _, scored⟩
    · exact .refl _
    · exact .refl _
    · exact scored.frame
  | summary =>
    rw [(setupSummary_spec h).1]
    exact .of_same rfl rfl

theorem finalize_frame {t : Task} {outcome : Option TaskOutcome}
    (h : finalize cfg c listSize t outcome = .ok c') : Frame c c' := by
  cases outcome with
  | none =>
    cases t with
    | compile | execute | scoring =>
      cases h
      exact .refl c
    | summary => exact (finalizeSummary_spec h).1
  | some o =>
    cases t with
    | compile subtask =>
      cases h
      exact (finalizeCompile_spec cfg c subtask o).1
    | execute i j =>
      obtain ⟨_, _, frame, _⟩ := finalizeExecute_spec h
      exact frame
    | scoring i j => exact (finalizeScoring_spec h).frame
    | summary => exact (finalizeSummary_spec h).1

theorem setup_verdict {files : BoxFiles} {t : Task} {launch : Bool} (ht : t ≠ .summary)
    (h : setup cfg c files t = .ok (launch, c')) : c'.result.verdict = c.result.verdict := by
  cases t with
  | compile subtask =>
    simp only [setup, Except.ok.injEq] at h
    rw [(setupCompile_spec h).2.2.1]
  | execute i j =>
    obtain ⟨_, rfl⟩ := setup_execute_iff.mp h
    rfl
  | scoring i j =>
    rcases setupScoring_cases h with ⟨_, rfl, _⟩ | ⟨_, rfl, _⟩ | ⟨_, _, _, _, _, _, _, scored⟩
    · rfl
    · rfl
    · exact scored.verdict
  | summary => exact absurd rfl ht

/-- Before the summary only compile tasks change the verdict. -/
theorem finalize_verdict {t : Task} {outcome : Option TaskOutcome} (ht : t ≠ .summary)
    (h : finalize cfg c listSize t outcome = .ok c') :
    c'.result.verdict = match t, outcome with
      | .compile subtask, some o => compileVerdict subtask o c.result.verdict
      | _, _ => c.result.verdict := by
  cases outcome with
  | none =>
    cases t with
    | compile | execute | scoring =>
      cases h
      rfl
    | summary => exact absurd rfl ht
  | some o =>
    cases t with
    | compile subtask =>
      cases h
      exact (finalizeCompile_spec cfg c subtask o).2.1
    | execute i j =>
      obtain ⟨_, _, _, _, verdict, _⟩ := finalizeExecute_spec h
      exact verdict
    | scoring i j => exact (finalizeScoring_spec h).verdict
    | summary => exact absurd rfl ht

/-- The events of a submission's setups and finalizers. -/
def Reports (id : Int) (es : List Event) : Prop :=
  ∀ e ∈ es, ∃ sub, e.source = some sub ∧ sub.submissionInternalId = id

theorem setup_reports {files : BoxFiles} {t : Task} {launch : Bool} (empty : c.log = [])
    (h : setup cfg c files t = .ok (launch, c')) :
    c'.sub = c.sub ∧ Reports c.sub.submissionInternalId c'.log := by
  have frame := setup_frame h
  exact ⟨frame.sub, fun e he => ⟨_, frame.source empty e he, rfl⟩⟩

theorem finalize_reports {t : Task} {outcome : Option TaskOutcome} (empty : c.log = [])
    (h : finalize cfg c listSize t outcome = .ok c') :
    c'.sub = c.sub ∧ Reports c.sub.submissionInternalId c'.log := by
  have frame := finalize_frame h
  exact ⟨frame.sub, fun e he => ⟨_, frame.source empty e he, rfl⟩⟩

theorem setup_cancelled {files : BoxFiles} {t : Task} {launch : Bool}
    (h : setup cfg c files t = .ok (launch, c')) : c'.cancelled = c.cancelled := by
  cases t with
  | compile subtask =>
    simp only [setup, Except.ok.injEq] at h
    exact (setupCompile_spec h).2.2.2.1
  | execute i j =>
    obtain ⟨_, rfl⟩ := setup_execute_iff.mp h
    rfl
  | scoring i j =>
    rcases setupScoring_cases h with ⟨_, rfl, _⟩ | ⟨_, rfl, _⟩ | ⟨_, _, _, _, _, _, _, scored⟩
    · rfl
    · rfl
    · exact scored.cancelled
  | summary => rw [(setupSummary_spec h).1]

theorem finalize_cancelled {t : Task} {outcome : Option TaskOutcome}
    (h : finalize cfg c listSize t outcome = .ok c') (on : c'.cancelled = true) :
    c.cancelled = true := by
  have summary {o : TaskOutcome} {skipped : Bool}
      (h : finalizeSummary cfg c o skipped listSize = .ok c') : False := by
    rw [(finalizeSummary_spec h).2.2.2.2.1] at on
    cases on
  cases outcome with
  | none =>
    cases t with
    | compile | execute | scoring =>
      cases h
      exact on
    | summary => exact (summary h).elim
  | some o =>
    cases t with
    | compile subtask =>
      cases h
      exact (finalizeCompile_spec cfg c subtask o).2.2.2.1.symm.trans on
    | execute i j =>
      obtain ⟨_, _, _, _, _, cancelled, _⟩ := finalizeExecute_spec h
      exact cancelled.symm.trans on
    | scoring i j => exact (finalizeScoring_spec h).cancelled.symm.trans on
    | summary => exact (summary h).elim

/-- The calls of `ReportScoringResult` and `ReportOverallResult`. -/
def Event.isResult : Event → Bool
  | .scoringResult .. | .overallResult .. => true
  | _ => false

/-- What is told of a task, other than a result. -/
def Event.isMessage : Event → Bool
  | .startCompiling .. | .ceMessage .. | .jceMessage .. | .executeFinished .. => true
  | _ => false

theorem Event.not_result (e : Event) (message : e.isMessage = true) : e.isResult = false := by
  cases e <;> first | rfl | cases message

/-- The event is a message, or the result that the task, a scoring, reports when the submission
is not cancelled. -/
def Ctx.Tells (c : Ctx) (t : Task) (e : Event) : Prop :=
  e.isMessage = true ∨
    c.cancelled = false ∧ ∃ i j res, t = .scoring i j ∧ e = .scoringResult c.sub res i j

theorem Scored.tells {skipped : Bool} {e : Event} (empty : c.log = [])
    (h : Scored cfg c subtask stage o skipped c') (he : e ∈ c'.log) :
    c.Tells (.scoring subtask stage) e := by
  rcases h.log with same | ⟨going, log⟩
  · simp [same, empty] at he
  · rw [log, empty] at he
    exact .inr ⟨going, subtask, stage, _, rfl, List.mem_singleton.mp he⟩

theorem setup_events {files : BoxFiles} {t : Task} {launch : Bool} {e : Event} (empty : c.log = [])
    (h : setup cfg c files t = .ok (launch, c')) (he : e ∈ c'.log) : c.Tells t e := by
  cases t with
  | compile subtask =>
    simp only [setup, Except.ok.injEq, setupCompile] at h
    split at h
    · cases h
      simp [empty] at he
    · cases h
      rcases mem_report.mp he with old | ⟨_, rfl⟩
      · simp [empty] at old
      · exact .inl rfl
  | execute i j =>
    obtain ⟨_, rfl⟩ := setup_execute_iff.mp h
    rw [empty] at he
    cases he
  | scoring i j =>
    rcases setupScoring_cases h with ⟨_, rfl, _⟩ | ⟨_, rfl, _⟩ | ⟨_, _, _, _, _, _, _, scored⟩
    · rw [empty] at he
      cases he
    · rw [empty] at he
      cases he
    · exact scored.tells empty he
  | summary =>
    rw [(setupSummary_spec h).1] at he
    simp [empty] at he

theorem finalize_events {t : Task} {outcome : Option TaskOutcome} {e : Event} (other : t ≠ .summary)
    (empty : c.log = []) (h : finalize cfg c listSize t outcome = .ok c') (he : e ∈ c'.log) :
    c.Tells t e := by
  cases outcome with
  | none =>
    cases t with
    | compile | execute | scoring =>
      cases h
      rw [empty] at he
      cases he
    | summary => exact absurd rfl other
  | some o =>
    cases t with
    | compile subtask =>
      cases h
      unfold finalizeCompile at he
      split at he
      · simp [empty] at he
      · split at he
        · cases subtask with
          | userprog | probprog | specjudge =>
            rcases mem_report.mp he with old | ⟨_, rfl⟩
            · simp [empty] at old
            · exact .inl rfl
          | summary => simp [empty] at he
        · rw [empty] at he
          cases he
    | execute i j =>
      obtain ⟨_, _, _, log, _⟩ := finalizeExecute_spec h
      rw [log, empty] at he
      obtain rfl := List.mem_singleton.mp he
      exact .inl rfl
    | scoring i j => exact (finalizeScoring_spec h).tells empty he
    | summary => exact absurd rfl other

/-- The finalizer of the summary is `FinalizeSummary`. -/
theorem finalize_summary {outcome : Option TaskOutcome}
    (h : finalize cfg c listSize .summary outcome = .ok c') :
    ∃ o skipped, finalizeSummary cfg c o skipped listSize = .ok c' := by
  cases outcome with
  | none => exact ⟨_, _, h⟩
  | some o => exact ⟨_, _, h⟩

theorem setup_results {files : BoxFiles} {t : Task} {launch : Bool} {e : Event} (empty : c.log = [])
    (h : setup cfg c files t = .ok (launch, c')) (he : e ∈ c'.log) (result : e.isResult = true) :
    c.cancelled = false ∧ ∃ i j res, e = .scoringResult c.sub res i j := by
  rcases setup_events empty h he with message | ⟨going, i, j, res, _, same⟩
  · rw [e.not_result message] at result
    cases result
  · exact ⟨going, i, j, res, same⟩

/-- The summary's finalizer reports the result of the submission. -/
theorem finalize_results {t : Task} {outcome : Option TaskOutcome} {e : Event} (empty : c.log = [])
    (h : finalize cfg c listSize t outcome = .ok c') (he : e ∈ c'.log) (result : e.isResult = true) :
    c.cancelled = false ∧ ((∃ i j res, e = .scoringResult c.sub res i j) ∨
      t = .summary ∧ e = .overallResult c.sub c'.result) := by
  by_cases last : t = .summary
  · subst last
    obtain ⟨_, _, h⟩ := finalize_summary h
    obtain ⟨_, _, _, _, _, _, log⟩ := finalizeSummary_spec h
    simp only [log, empty, List.nil_append, List.mem_append, List.mem_singleton] at he
    rcases he with (he | rfl) | he
    · split at he
      · rename_i wanted
        simp only [Bool.and_eq_true, Bool.not_eq_true'] at wanted
        exact ⟨wanted.1, .inr ⟨rfl, List.mem_singleton.mp he⟩⟩
      · cases he
    · cases result
    · split at he
      · obtain rfl := List.mem_singleton.mp he
        cases result
      · cases he
  · rcases finalize_events last empty h he with message | ⟨going, i, j, res, _, same⟩
    · rw [e.not_result message] at result
      cases result
    · exact ⟨going, .inl ⟨i, j, res, same⟩⟩

/-- What lasts until the summary is finalized. -/
structure Grows (c c' : Ctx) : Prop where
  verdict : c.result.verdict ≠ .nul → c'.result.verdict ≠ .nul
  cancelled : c.cancelled = true → c'.cancelled = true
  groups : ∀ g, c.Blames g → c'.Blames g
  length : c.result.tdResults.length ≤ c'.result.tdResults.length

theorem Grows.refl (c : Ctx) : Grows c c := ⟨id, id, fun _ => id, Nat.le_refl _⟩

/-- Cancellation by groups, for any checker of it: nothing is taken back. -/
theorem Grows.isCancelled {groups : List Int} (h : Grows c c')
    (cancelled : c.isCancelled groups = true) : c'.isCancelled groups = true := by
  rw [isCancelled_iff] at cancelled ⊢
  rcases cancelled with cancelled | ⟨nonempty, all⟩
  · exact .inl (h.cancelled cancelled)
  · exact .inr ⟨nonempty, fun g hg => h.groups g (all g hg)⟩

theorem compileVerdict_ne_nul {subtask : CompileSubtask} {v : Verdict} (h : v ≠ .nul) :
    compileVerdict subtask o v ≠ .nul := by
  unfold compileVerdict
  split
  · simp
  · split
    · intro impossible
      have upper : v ≤ .nul := impossible ▸ le_max_left _ _
      exact h (le_antisymm upper (Nat.zero_le _))
    · exact h

theorem summaryResult_verdict (sub : Submission) (res : SubmissionResult) :
    (summaryResult sub res).verdict ≠ .nul := by
  unfold summaryResult
  split
  · have lower := overallVerdict_ge sub res.tdResults
    intro impossible
    simp only at impossible
    rw [impossible] at lower
    exact absurd lower (by decide)
  · assumption

theorem Scored.grows {i j : Nat} {skipped : Bool} (h : Scored cfg c i j o skipped c') :
    Grows c c' := by
  refine ⟨fun nul => h.verdict ▸ nul, h.cancelled.trans, fun g hg => ?_, h.length.ge⟩
  obtain ⟨item, _, groups⟩ := h.groups
  obtain ⟨old, blamed, hg⟩ := hg
  unfold groupsAfter at groups
  split at groups
  · exact ⟨_, groups, by simp [blamed, hg]⟩
  · exact ⟨old, groups.trans blamed, hg⟩

theorem setup_grows {files : BoxFiles} {t : Task} {launch : Bool}
    (h : setup cfg c files t = .ok (launch, c')) : Grows c c' := by
  cases t with
  | compile subtask =>
    simp only [setup, Except.ok.injEq] at h
    obtain ⟨_, _, result, cancelled, groups⟩ := setupCompile_spec h
    exact ⟨fun nul => result ▸ nul, cancelled.trans, fun g hg => by simpa [Ctx.Blames, groups] using hg,
      by rw [result]⟩
  | execute i j =>
    obtain ⟨_, rfl⟩ := setup_execute_iff.mp h
    exact .refl _
  | scoring i j =>
    rcases setupScoring_cases h with ⟨_, rfl, _⟩ | ⟨_, rfl, _⟩ | ⟨_, _, _, _, _, _, _, scored⟩
    · exact .refl _
    · exact .refl _
    · exact scored.grows
  | summary =>
    obtain ⟨rfl, _⟩ := setupSummary_spec h
    exact ⟨fun _ => summaryResult_verdict _ _, id, fun _ hg => hg,
      by simp [summaryResult_tdResults]⟩

theorem finalize_grows {t : Task} {outcome : Option TaskOutcome} (ht : t ≠ .summary)
    (h : finalize cfg c listSize t outcome = .ok c') : Grows c c' := by
  cases outcome with
  | none =>
    cases t with
    | compile | execute | scoring =>
      cases h
      exact .refl c
    | summary => exact absurd rfl ht
  | some o =>
    cases t with
    | compile subtask =>
      cases h
      obtain ⟨_, verdict, tds, cancelled, groups⟩ := finalizeCompile_spec cfg c subtask o
      exact ⟨fun nul => verdict ▸ compileVerdict_ne_nul nul, cancelled.trans,
        fun g hg => by simpa [Ctx.Blames, groups] using hg, by rw [tds]⟩
    | execute i j =>
      obtain ⟨_, _, _, _, verdict, cancelled, groups, length, _⟩ := finalizeExecute_spec h
      exact ⟨fun nul => verdict ▸ nul, cancelled.trans,
        fun g hg => by simpa [Ctx.Blames, groups] using hg, by omega⟩
    | scoring i j => exact (finalizeScoring_spec h).grows
    | summary => exact absurd rfl ht

end TiojJudge.Judge
