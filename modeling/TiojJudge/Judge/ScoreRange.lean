import TiojJudge.Judge.Steps
import TiojJudge.Judge.Totals

/-!
# Scores stay in their range

`NormalizeScore` clamps with two comparisons, which NaN passes.

* `normalizeScore_range`: every other number ends up in the range;
* `storesNaN`: the JSON of a checker or a summary program has a score that `stold` reads as NaN;
* `scoringOutcome_range`, `finalize_bounded`: what a finalizer stores otherwise;
* `scores_bounded`: in every run all scores that are stored or reported are in the range.
-/

namespace TiojJudge.Judge
open Numerals Machine

variable {cfg : Config} {sub : Submission} {o : TaskOutcome} {td : TestdataResult}
  {lastStage skipped : Bool} {stage : Nat}

theorem normalizeScore_range (cfg : Config) (x : LongDouble) :
    InScoreRange (normalizeScore cfg x) ↔ (x = .nan → InScoreRange cfg.lroundNaN) := by
  cases x with
  | fin q => simp [normalizeScore_fin, clampRound_range]
  | inf negative =>
    have bound : InScoreRange (normalizeScore cfg (.inf negative)) := by
      cases negative
      · exact (by decide : InScoreRange 1000000000000)
      · exact (by decide : InScoreRange (-1000000000000))
    simp [bound]
  | nan => simp [normalizeScore]

theorem normalizeScore_ne_nan {x : LongDouble} (number : x ≠ .nan) :
    InScoreRange (normalizeScore cfg x) :=
  (normalizeScore_range cfg x).mpr fun nan => absurd nan number

theorem normalizeScore_fin_range (cfg : Config) (q : ℚ) : InScoreRange (normalizeScore cfg (.fin q)) :=
  normalizeScore_ne_nan LongDouble.noConfusion

theorem zero_range : InScoreRange 0 := by decide

theorem fullScore_range : InScoreRange fullScore := by decide

/-! ## The readers -/

/-- A stream has no NaN. -/
theorem extractLongDouble_ne_nan (text : List Char) : (extractLongDouble text).1 ≠ .nan := by
  unfold extractLongDouble
  dsimp only
  split_ifs <;> simp

/-- The member `score` is a string that is read as NaN. -/
def nanScore (json : Json) : Bool :=
  match json.find "score" with
  | some (.str s) => stold s.toList == some .nan
  | _ => false

theorem jsonScore_range {json : Json} (number : nanScore json = true → InScoreRange cfg.lroundNaN)
    {old : Int} (range : InScoreRange old) : InScoreRange ((jsonScore cfg json).getD old) := by
  unfold jsonScore
  unfold nanScore at number
  split
  · rename_i s found
    rw [found] at number
    cases read : stold s.toList with
    | none => exact range
    | some x => exact (normalizeScore_range cfg x).mpr fun nan => number (by simp [read, nan])
  · exact normalizeScore_fin_range cfg _
  · exact range

theorem setACOrContinue_range (range : InScoreRange td.score) :
    InScoreRange (setACOrContinue lastStage td).score := by
  unfold setACOrContinue
  split
  · exact fullScore_range
  · exact range

theorem overrideVerdict_range {allowScore scoreOverriden : Bool} {abr : String}
    (range : InScoreRange td.score) :
    InScoreRange (overrideVerdict allowScore scoreOverriden abr td).score := by
  unfold overrideVerdict
  dsimp only
  split
  · exact fullScore_range
  · exact range

theorem overrideNumber_score {cmd : String} {store : Int → TestdataResult → TestdataResult}
    (h : overrideNumber cmd = some store) (n : Int) : (store n td).score = td.score := by
  unfold overrideNumber at h
  split_ifs at h <;> (cases h; rfl)

theorem parseSpecjudgeOverrides_range {breakOnNonMatch allowScore scoreOverriden : Bool}
    {text : List Char} (range : InScoreRange td.score) :
    InScoreRange
      (parseSpecjudgeOverrides cfg breakOnNonMatch allowScore scoreOverriden text td).score := by
  fun_induction parseSpecjudgeOverrides with
  | case1 | case3 | case5 | case7 | case8 => exact range
  | case2 _ _ text _ _ _ _ score _ read ih =>
    refine ih (normalizeScore_ne_nan ?_)
    exact fun nan => extractLongDouble_ne_nan _ (nan ▸ congrArg Prod.fst read)
  | case4 _ _ _ _ _ _ _ _ _ _ _ ih => exact ih (overrideVerdict_range range)
  | case6 _ _ _ _ _ _ _ _ _ found n _ _ ih =>
    exact ih ((overrideNumber_score found n).symm ▸ range)
  | case9 _ _ _ _ _ _ _ _ _ _ ih => exact ih range

theorem readOldSpecjudgeResult_range {output : List Char} (range : InScoreRange td.score) :
    InScoreRange (readOldSpecjudgeResult cfg output lastStage td).score := by
  unfold readOldSpecjudgeResult
  split
  · split
    · exact parseSpecjudgeOverrides_range (setACOrContinue_range range)
    · exact range
  · exact range

theorem jsonVerdict_range {json : Json} (range : InScoreRange td.score) :
    InScoreRange (jsonVerdict json td).score := by
  unfold jsonVerdict
  split
  · dsimp only
    split
    · exact fullScore_range
    · exact range
  · exact range

theorem readNewSpecjudgeResult_range {output : List Char} (range : InScoreRange td.score)
    (number : ∀ json, cfg.parseJson output = some json → nanScore json = true →
      InScoreRange cfg.lroundNaN) :
    InScoreRange (readNewSpecjudgeResult cfg output td).score := by
  unfold readNewSpecjudgeResult
  split
  · exact range
  · rename_i json parsed
    exact jsonScore_range (number json parsed) (jsonVerdict_range range)

/-- The points of an exit code; it is at most 255. -/
theorem polygonScore_range {code : Int} (output : Option (List Char)) {score : Int}
    (status : code ≤ 255) (range : InScoreRange score) :
    InScoreRange (if code = 7 then polygonPoints cfg output
      else if 50 ≤ code then ((code - 50) * (fullScore / 200), output) else (score, output)).1 := by
  split
  · unfold polygonPoints
    split
    · split
      · exact normalizeScore_ne_nan (extractLongDouble_ne_nan _)
      · exact zero_range
    · exact zero_range
  · split
    · unfold InScoreRange scoreMax fullScore
      omega
    · exact range

theorem readPolygonSpecjudgeResult_range {code : Int} {output : Option (List Char)}
    (status : code ≤ 255) (range : InScoreRange td.score) :
    InScoreRange (readPolygonSpecjudgeResult cfg code output lastStage td).score := by
  unfold readPolygonSpecjudgeResult
  split
  · exact range
  · dsimp only
    have points := @polygonScore_range cfg _ output _ status
      (@setACOrContinue_range _ lastStage range)
    generalize (if code = 7 then polygonPoints cfg output
      else if 50 ≤ code then ((code - 50) * (fullScore / 200), output)
      else ((setACOrContinue lastStage td).score, output)) = read at points ⊢
    have checked : InScoreRange
        (if read.1 < fullScore then
          { setACOrContinue lastStage td with score := read.1, verdict := .wa }
        else { setACOrContinue lastStage td with score := read.1 }).score := by
      split
      · exact points
      · exact points
    split
    · exact parseSpecjudgeOverrides_range checked
    · exact checked

theorem kattisScore_range {file : Option (List Char)} {scale : ℚ} {score : Int}
    (range : InScoreRange score) : InScoreRange (kattisScore cfg file scale score) := by
  unfold kattisScore
  split
  · exact normalizeScore_fin_range cfg _
  · rename_i x _ _ read
    refine normalizeScore_ne_nan ?_
    obtain ⟨text, _, read⟩ := Option.map_eq_some_iff.mp read
    exact fun nan => extractLongDouble_ne_nan text (read ▸ nan)
  · exact range

theorem readKattisSpecjudgeResult_range {code : Int} {files : BoxFiles}
    (range : InScoreRange td.score) :
    InScoreRange (readKattisSpecjudgeResult cfg code files lastStage td).score := by
  have judged : InScoreRange
      (if code = 42 then kattisAccept cfg files lastStage td else { td with verdict := .wa }).score := by
    split
    · unfold kattisAccept
      dsimp only
      refine kattisScore_range (kattisScore_range ?_)
      split
      · exact setACOrContinue_range range
      · exact setACOrContinue_range range
    · exact range
  unfold readKattisSpecjudgeResult
  cases files.teammessage with
  | none =>
    cases files.judgemessage with
    | none => exact judged
    | some => exact parseSpecjudgeOverrides_range judged
  | some =>
    cases files.judgemessage with
    | none => exact judged
    | some => exact parseSpecjudgeOverrides_range judged

/-! ## What a finalizer stores -/

/-- The exit status of a process that exited has 8 bits. -/
def ExitStatus (o : TaskOutcome) : Prop := o.res.siCode = CLD_EXITED → o.res.siStatus ≤ 255

instance : DecidablePred ExitStatus := fun _ => inferInstanceAs (Decidable (_ → _))

/-- The finalizer of the task looks for a score in the JSON of the output. -/
def readsJson (sub : Submission) (o : TaskOutcome) : Task → Bool
  | .scoring _ _ => !specjudgeFailed sub.specjudgeType o &&
      decide (sub.specjudgeType ∈ [.normal, .specjudgeNew, .skip])
  | .summary => o.res.siStatus == 0
  | _ => false

/-- It finds a NaN there. -/
def storesNaN (cfg : Config) (sub : Submission) (t : Task) (o : TaskOutcome) : Bool :=
  readsJson sub o t && (o.files.output.bind cfg.parseJson).any nanScore

theorem storesNaN_of {t : Task} {output : List Char} {json : Json} (reads : readsJson sub o t = true)
    (out : o.files.output = some output) (parsed : cfg.parseJson output = some json)
    (nan : nanScore json = true) : storesNaN cfg sub t o = true := by
  simp [storesNaN, reads, out, parsed, nan]

theorem readSpecjudgeResult_range {i j : Nat} (range : InScoreRange td.score) (status : ExitStatus o)
    (number : storesNaN cfg sub (.scoring i j) o = true → InScoreRange cfg.lroundNaN) :
    InScoreRange (readSpecjudgeResult cfg sub o lastStage td).score := by
  unfold readSpecjudgeResult
  split
  · split
    · exact range
    · exact range
  · rename_i works
    simp only [Bool.not_eq_true] at works
    -- a checker that did not fail has output and exited
    obtain ⟨⟨output, out⟩, exited⟩ : (∃ output, o.files.output = some output) ∧
        o.res.siCode = CLD_EXITED := by
      simp only [specjudgeFailed, Bool.or_eq_false_iff, Option.isNone_eq_false_iff, bne_eq_false_iff_eq,
        and_assoc] at works
      exact ⟨Option.isSome_iff_exists.mp works.1, works.2.1⟩
    have json (type : sub.specjudgeType ∈ [.normal, .specjudgeNew, .skip]) :
        InScoreRange (readNewSpecjudgeResult cfg (o.files.output.getD []) td).score := by
      rw [out, Option.getD_some]
      refine readNewSpecjudgeResult_range range fun json parsed nan => number ?_
      exact storesNaN_of (by simp [readsJson, works, type]) out parsed nan
    cases type : sub.specjudgeType with
    | specjudgeOld => exact readOldSpecjudgeResult_range range
    | specjudgePolygon => exact readPolygonSpecjudgeResult_range (status exited) range
    | specjudgeKattis => exact readKattisSpecjudgeResult_range range
    | specjudgeNew | normal | skip => exact json (by simp [type])

theorem scoringOutcome_range {i : Nat} (status : ExitStatus o)
    (number : skipped = false → storesNaN cfg sub (.scoring i stage) o = true →
      InScoreRange cfg.lroundNaN) :
    InScoreRange (scoringOutcome cfg sub stage o skipped td).score := by
  have settled (last : Bool) {td : TestdataResult} (range : InScoreRange td.score) :
      InScoreRange (settleStage last td).score := by
    unfold settleStage
    split_ifs <;> exact range
  unfold scoringOutcome
  dsimp only
  cases skipped with
  | true => exact settled _ zero_range
  | false => exact settled _ (readSpecjudgeResult_range zero_range status (number rfl))

/-! ## The record of a submission -/

def Bounded (res : SubmissionResult) : Prop :=
  (∀ td ∈ res.tdResults, InScoreRange td.score) ∧ InScoreRange res.totalScore

/-- The record that a report shows. -/
def Event.record : Event → Option SubmissionResult
  | .startCompiling _ res | .ceMessage _ res | .jceMessage _ res | .scoringResult _ res _ _
  | .overallResult _ res | .reportFinalized _ res _ => some res
  | _ => none

def ReportsBounded (log : List Event) : Prop := ∀ e ∈ log, ∀ res, e.record = some res → Bounded res

namespace Ctx

variable {c c' : Ctx} {i j listSize : Nat}

structure Bounded (c : Ctx) : Prop where
  result : Judge.Bounded c.result
  log : ReportsBounded c.log

theorem Bounded.report (h : c.Bounded) {wanted : Bool} {e : Event}
    (event : ∀ res, e.record = some res → Judge.Bounded res) : (c.report wanted e).Bounded := by
  refine ⟨by simpa using h.result, fun x hx res record => ?_⟩
  rcases mem_report.mp hx with old | ⟨_, rfl⟩
  · exact h.log x old res record
  · exact event res record

theorem Bounded.with_result (h : c.Bounded) {res : SubmissionResult} (range : Judge.Bounded res) :
    Bounded { c with result := res } :=
  ⟨range, h.log⟩

theorem finalizeCompile_bounded (h : c.Bounded) (subtask : CompileSubtask) (o : TaskOutcome) :
    (finalizeCompile cfg c subtask o).Bounded := by
  unfold finalizeCompile
  split
  · exact h.with_result h.result
  · split
    · cases subtask with
      | userprog | probprog | specjudge =>
        refine Bounded.report (Bounded.with_result h ?_) ?_
        · exact h.result
        · rintro res ⟨⟩
          exact h.result
      | summary =>
        refine h.with_result ?_
        dsimp only
        split
        · exact h.result
        · exact h.result
    · exact h

theorem setupCompile_bounded (h : c.Bounded) {subtask : CompileSubtask} {launch : Bool}
    (done : setupCompile c subtask = (launch, c')) : c'.Bounded := by
  unfold setupCompile at done
  split at done
  · cases done
    exact h
  · cases done
    apply h.report
    rintro res ⟨⟩
    exact h.result

/-- One result is written, into a list that had only scores in the range. -/
theorem bounded_set {tds : List TestdataResult} {td : TestdataResult}
    (range : ∀ td ∈ tds, InScoreRange td.score) (new : InScoreRange td.score) :
    ∀ td' ∈ tds.set i td, InScoreRange td'.score := by
  intro td' h
  rcases List.mem_or_eq_of_mem_set h with old | rfl
  · exact range td' old
  · exact new

theorem finalizeExecute_bounded (h : c.Bounded) (done : finalizeExecute cfg c i j o = .ok c') :
    c'.Bounded := by
  unfold finalizeExecute at done
  split at done
  · cases done
  · rename_i lim _
    cases done
    have grown : ∀ td ∈ growTo c.result.tdResults i, InScoreRange td.score := by
      intro td htd
      rcases List.mem_append.mp htd with old | new
      · exact h.result.1 td old
      · exact List.eq_of_mem_replicate new ▸ zero_range
    have before : InScoreRange (((growTo c.result.tdResults i)[i]?).getD .new).score := by
      cases found : (growTo c.result.tdResults i)[i]? with
      | none => exact zero_range
      | some td => exact grown td (List.mem_of_getElem? found)
    have after : InScoreRange (executeResult cfg c.sub lim j o.res
        (((growTo c.result.tdResults i)[i]?).getD .new)).score := by
      unfold executeResult accumulate
      dsimp only
      split
      · exact zero_range
      · exact before
    refine Bounded.report (Bounded.with_result h ?_) ?_
    · exact ⟨bounded_set grown after, h.result.2⟩
    · rintro res ⟨⟩

theorem finalizeScoring_bounded (h : c.Bounded) (status : ExitStatus o)
    (number : skipped = false → storesNaN cfg c.sub (.scoring i j) o = true →
      InScoreRange cfg.lroundNaN)
    (done : finalizeScoring cfg c i j o skipped = .ok c') : c'.Bounded := by
  unfold finalizeScoring at done
  split at done
  · cases done
  · cases done
  · rename_i td item _ _
    cases done
    have record : Judge.Bounded { c.result with
        tdResults := c.result.tdResults.set i (scoringOutcome cfg c.sub j o skipped td) } :=
      ⟨bounded_set h.result.1 (scoringOutcome_range status number), h.result.2⟩
    refine Bounded.report (Bounded.mk ?_ ?_) ?_
    · exact record
    · exact h.log
    · rintro res ⟨⟩
      exact record

/-- A scoring that its setup finalizes reads no checker's output. -/
theorem setupScoring_bounded {files : BoxFiles} {launch : Bool} (h : c.Bounded)
    (done : setupScoring cfg c i j files = .ok (launch, c')) : c'.Bounded := by
  have exited : ExitStatus ⟨.zero, files⟩ := fun no => by cases no
  have unread : storesNaN cfg c.sub (.scoring i j) ⟨.zero, files⟩ = false := by
    simp [storesNaN, readsJson, specjudgeFailed, CjailResult.zero, CLD_EXITED]
  rcases setupScoring_ends done with ⟨_, rfl, _⟩ | ⟨_, rfl, _⟩ | ⟨_, _, _, _, _, _, _, scored⟩
  · exact h
  · exact h
  · exact finalizeScoring_bounded h exited (fun _ no => by simp [unread] at no) scored

theorem setupSummary_bounded {launch : Bool} (h : c.Bounded)
    (done : setupSummary c = .ok (launch, c')) : c'.Bounded := by
  obtain ⟨rfl, _⟩ := setupSummary_spec done
  refine h.with_result ?_
  unfold summaryResult
  split
  · exact h.result
  · exact h.result

theorem defaultTotals_bounded {res res' : SubmissionResult} (range : Judge.Bounded res)
    (done : defaultTotals cfg sub res = .ok res') : Judge.Bounded res' := by
  unfold defaultTotals at done
  split at done
  · cases folded : subtaskScores sub res.tdResults with
    | error => simp [folded, Except.map] at done
    | ok scores =>
      simp only [folded, Except.map, Except.ok.injEq] at done
      subst done
      exact ⟨range.1, normalizeScore_fin_range cfg _⟩
  · cases done
    exact ⟨range.1, zero_range⟩

theorem customTotals_bounded {res : SubmissionResult} (range : Judge.Bounded res)
    (number : storesNaN cfg sub .summary o = true → InScoreRange cfg.lroundNaN) :
    Judge.Bounded (customTotals cfg o res) := by
  unfold customTotals
  split
  · exact range
  · rename_i output out
    split
    · exact range
    · rename_i status
      unfold readSummaryResult
      cases parsed : cfg.parseJson output with
      | none => exact range
      | some json =>
        refine ⟨range.1, jsonScore_range (fun nan => number ?_) range.2⟩
        exact storesNaN_of (by simpa [readsJson] using status) out parsed nan

theorem finalizeSummary_bounded (h : c.Bounded)
    (number : skipped = false → storesNaN cfg c.sub .summary o = true → InScoreRange cfg.lroundNaN)
    (done : finalizeSummary cfg c o skipped listSize = .ok c') : c'.Bounded := by
  unfold finalizeSummary at done
  cases totals : defaultTotals cfg c.sub c.result with
  | error => simp [totals, Except.map] at done
  | ok res =>
    simp only [totals, Except.map, Except.ok.injEq] at done
    have range : Judge.Bounded (if skipped then res else customTotals cfg o res) := by
      have default := defaultTotals_bounded h.result totals
      cases skipped with
      | true => exact default
      | false => exact customTotals_bounded default (number rfl)
    subst done
    refine Bounded.report (Bounded.report ?_ ?_) ?_
    · have shown : Bounded (Ctx.report
          { c with result := if skipped then res else customTotals cfg o res }
          (!c.cancelled && c.sub.reporter.reportOverallResult)
          (.overallResult c.sub (if skipped then res else customTotals cfg o res))) := by
        refine Bounded.report (Bounded.mk ?_ ?_) ?_
        · exact range
        · exact h.log
        · rintro res ⟨⟩
          exact range
      exact ⟨shown.result, shown.log⟩
    · rintro res ⟨⟩
    · rintro res ⟨⟩
      exact range

theorem setup_bounded {files : BoxFiles} {t : Task} {launch : Bool} (h : c.Bounded)
    (done : setup cfg c files t = .ok (launch, c')) : c'.Bounded := by
  cases t with
  | compile subtask =>
    simp only [setup, Except.ok.injEq] at done
    exact setupCompile_bounded h done
  | execute i j =>
    obtain ⟨_, rfl⟩ := setup_execute_iff.mp done
    exact h
  | scoring i j => exact setupScoring_bounded h done
  | summary => exact setupSummary_bounded h done

theorem finalize_bounded {t : Task} {outcome : Option TaskOutcome} (h : c.Bounded)
    (numbers : ∀ o, outcome = some o →
      ExitStatus o ∧ (storesNaN cfg c.sub t o = true → InScoreRange cfg.lroundNaN))
    (done : finalize cfg c listSize t outcome = .ok c') : c'.Bounded := by
  cases outcome with
  | none =>
    cases t with
    | compile | execute | scoring =>
      cases done
      exact h
    | summary => exact finalizeSummary_bounded h (fun no => by cases no) done
  | some o =>
    obtain ⟨status, number⟩ := numbers o rfl
    cases t with
    | compile subtask =>
      cases done
      exact finalizeCompile_bounded h subtask o
    | execute i j => exact finalizeExecute_bounded h done
    | scoring i j => exact finalizeScoring_bounded h status (fun _ => number) done
    | summary => exact finalizeSummary_bounded h (fun _ => number) done

end Ctx

/-! ## Every run -/

/-- A task that returns left no NaN for its finalizer, or `lround` has NaN in the range. -/
def numberScores (cfg : Config) (s : State) : Label → Prop
  | .result handle o => ExitStatus o ∧
      ∀ tid ∈ s.handleMap.lookup handle, ∀ n ∈ s.graph.find tid,
        ∀ entry ∈ s.submissionList.lookup n.data.submissionInternalId,
          storesNaN cfg entry.sub n.data.task o = true → InScoreRange cfg.lroundNaN
  | _ => True

instance (s : State) : DecidablePred (numberScores cfg s)
  | .push .. | .wake | .dispatch .. | .block | .result .. | .exit => by
    unfold numberScores
    infer_instance

/-- All scores in the containers and in the log are in the range. -/
structure ScoresBounded (s : State) : Prop where
  entries : ∀ id entry, s.submissionList.lookup id = some entry → Bounded entry.result
  reports : ReportsBounded s.log

variable {s t : State} {entry : SubmissionAndResult} {c : Ctx}

theorem bounded_new : Bounded .new :=
  ⟨fun _ h => absurd h List.not_mem_nil, zero_range⟩

theorem ReportsBounded.append {log new : List Event} (h : ReportsBounded log)
    (h' : ReportsBounded new) : ReportsBounded (log ++ new) := by
  intro e he
  exact (List.mem_append.mp he).elim (h e) (h' e)

theorem ReportsBounded.emit {log : List Event} {e : Event} (h : ReportsBounded log)
    (none : e.record = none) : ReportsBounded (log ++ [e]) := by
  apply h.append
  intro x hx res record
  rw [List.mem_singleton.mp hx, none] at record
  cases record

namespace ScoresBounded

theorem init : ScoresBounded .init where
  entries := by
    intro id entry found
    simp [State.init] at found
  reports := by
    intro e he
    cases he

theorem ctx (h : ScoresBounded s) {id : Int} (listed : s.submissionList.lookup id = some entry) :
    (s.ctx entry).Bounded :=
  ⟨h.entries id entry listed, fun _ he => absurd he List.not_mem_nil⟩

/-- What a setup or finalizer wrote. -/
theorem putCtx (h : ScoresBounded s) (range : c.Bounded) (key : Int) :
    ScoresBounded (s.putCtx key c) where
  entries := by
    intro id entry found
    simp only [State.putCtx, UMap.lookup_insert_eq] at found
    split at found
    · cases found
      exact range.result
    · exact h.entries id entry found
  reports := h.reports.append range.log

theorem start (h : ScoresBounded s) (n : TaskGraph.Node TaskInfo) (range : c.Bounded) :
    ScoresBounded (s.start n c) := by
  apply putCtx ?_ range
  exact ⟨h.entries, h.reports.emit rfl⟩

/-- A submission leaves the list at its end. -/
theorem settle (h : ScoresBounded s) (n : TaskGraph.Node TaskInfo) (outcome : Option TaskOutcome)
    (range : c.Bounded) : ScoresBounded (s.settle n outcome c) := by
  have written := putCtx (s := s.emit (.finalizing n.id n.data.submissionInternalId n.data.task outcome))
    ⟨h.entries, h.reports.emit rfl⟩ range n.data.submissionInternalId
  refine ⟨?_, settle_log s n outcome c ▸ written.reports⟩
  intro id entry found
  unfold State.settle at found
  split at found
  · simp only [State.removeSubmission, UMap.lookup_erase_eq] at found
    split at found
    · cases found
    · exact written.entries id entry found
  · exact written.entries id entry found

theorem enqueue (h : ScoresBounded s) (id : Int) (sub : Submission) :
    ScoresBounded (s.enqueue id sub) where
  entries := by
    intro id' entry found
    simp only [State.enqueue] at found
    split at found
    · exact h.entries id' entry found
    · rw [UMap.lookup_insert_eq] at found
      split at found
      · cases found
        exact bounded_new
      · exact h.entries id' entry found
  reports := h.reports.emit rfl

theorem supersede (h : ScoresBounded s) (submissionId id : Int) :
    ScoresBounded (s.supersede submissionId id) where
  entries := h.entries
  reports := by
    apply h.reports.append
    intro e he res record
    obtain ⟨_, _, rfl⟩ := List.mem_map.mp he
    cases record

theorem step {l : Label} (h : ScoresBounded s) (numbers : numberScores cfg s l)
    (step : Step cfg s l t) : ScoresBounded t := by
  cases step with
  | refused => exact h
  | push => exact (h.enqueue _ _).supersede _ _
  | wake | block | exit => exact ⟨h.entries, h.reports⟩
  | @launch n _ _ _ _ _ _ listed ready =>
    have started := h.start n (Ctx.setup_bounded (h.ctx listed) ready)
    exact ⟨started.entries, started.reports.emit rfl⟩
  | @skip n _ _ _ c _ _ _ listed ready done =>
    have before := Ctx.setup_bounded (h.ctx listed) ready
    have cleared : Ctx.Bounded { c with log := [] } := ⟨before.result, fun _ he => by cases he⟩
    exact (h.start n before).settle n none (Ctx.finalize_bounded cleared (fun _ no => by cases no) done)
  | @result n handle o entry c _ handled found listed done =>
    obtain ⟨status, number⟩ := numbers
    have returned : ScoresBounded (s.returned handle) := ⟨h.entries, h.reports⟩
    have range := Ctx.finalize_bounded (h.ctx listed) (fun o' same => by
      cases same
      exact ⟨status, number _ handled _ found _ listed⟩) done
    have settled := returned.settle n (some o) range
    exact ⟨settled.entries, settled.reports⟩

end ScoresBounded

/-- In every run without a NaN among the scores that are read, all scores are in the range: none
is the sentinel, and the weighted sum has room. -/
theorem scores_bounded (h : (judge cfg).Reach (numberScores cfg) s) :
    ScoresBounded s ∧ ∀ id entry, s.submissionList.lookup id = some entry →
      (∀ td ∈ entry.result.tdResults, td.score ≠ kInfScore) ∧
      (GroupsFit entry.sub → entry.sub.groupScore.length ≤ maxGroups → ∀ scores,
        subtaskScores entry.sub entry.result.tdResults = .ok scores →
        ∀ k, -2 ^ 127 ≤ partialSum entry.sub scores k ∧ partialSum entry.sub scores k < 2 ^ 127) := by
  have bounded := h.invariant ScoresBounded.init fun _ _ _ _ ih numbers step =>
    ih.step numbers (step_cases step)
  refine ⟨bounded, fun id entry listed => ?_⟩
  have range := (bounded.entries id entry listed).1
  constructor
  · exact fun td htd => ((range td htd).2.trans_lt scoreMax_lt).ne
  · exact fun fits few scores folded k => partialSum_lt folded range fits few k

/-- One testdata, until its checker was read. -/
def judgedOnce : List Label :=
  [.push (sampleSubmission 1 1 [sampleItem false [0]]) 0, .wake] ++ runAlone 3 goodOutcome ++
    runAlone 1 goodOutcome ++ runAlone 2 goodOutcome

theorem scores_bounded_of_one :
    ∃ s, (judge (sampleConfig 1)).exec (numberScores (sampleConfig 1)) .init judgedOnce = some s ∧
      ScoresBounded s ∧ ∀ id entry, s.submissionList.lookup id = some entry →
        (∀ td ∈ entry.result.tdResults, td.score ≠ kInfScore) ∧
        (GroupsFit entry.sub → entry.sub.groupScore.length ≤ maxGroups → ∀ scores,
          subtaskScores entry.sub entry.result.tdResults = .ok scores →
          ∀ k, -2 ^ 127 ≤ partialSum entry.sub scores k ∧ partialSum entry.sub scores k < 2 ^ 127) := by
  have run : ((judge (sampleConfig 1)).exec (numberScores (sampleConfig 1)) .init
      judgedOnce).isSome = true := by decide +kernel
  obtain ⟨s, hs⟩ := Option.isSome_iff_exists.mp run
  exact ⟨s, hs, scores_bounded (reach_exec hs)⟩

/-- A checker whose score is `nan`. -/
def nanConfig (lroundNaN : Int) : Config :=
  { sampleConfig 1 with
    parseJson := fun text =>
      if text = acceptText then some [("verdict", .str "AC"), ("score", .str "nan")] else none
    lroundNaN := lroundNaN }

/-- A testdata gets this score. -/
def StoresNan (x : Int) : Prop :=
  ∃ s entry, (judge (nanConfig x)).exec anyStep .init judgedOnce = some s ∧
    s.submissionList.lookup 1 = some entry ∧ entry.result.tdResults.map TestdataResult.score = [x]

theorem storesNan_of_run {x : Int} (run : ((judge (nanConfig x)).exec anyStep .init judgedOnce).bind
    (fun s => (s.submissionList.lookup 1).map fun entry =>
      entry.result.tdResults.map TestdataResult.score) = some [x]) : StoresNan x := by
  obtain ⟨s, hs, seen⟩ := Option.bind_eq_some_iff.mp run
  obtain ⟨entry, listed, scores⟩ := Option.map_eq_some_iff.mp seen
  exact ⟨s, entry, hs, listed, scores⟩

/-- The score is whatever `lround` makes of NaN: it can be the sentinel, or the smallest `long`. -/
theorem nan_score_stored :
    (¬ InScoreRange kInfScore ∧ StoresNan kInfScore) ∧
      (¬ InScoreRange longMin ∧ StoresNan longMin) := by
  refine ⟨⟨?_, ?_⟩, ⟨?_, ?_⟩⟩
  · decide
  · exact storesNan_of_run (by decide +kernel)
  · decide
  · exact storesNan_of_run (by decide +kernel)

end TiojJudge.Judge
