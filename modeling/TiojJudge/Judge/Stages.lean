import Mathlib.Data.Finset.Union
import TiojJudge.Judge.Checker

/-!
# The stages of a submission

`SetupCompile` to `FinalizeSummary`, as functions on what one submission has in
the scheduler: its record, and what `cancelled_list` and `cancelled_group` say
about it. A setup returns whether the task is to be run.
-/

namespace TiojJudge.Judge
open Numerals

/-- The log lines of the scheduler and the calls of the reporter. -/
inductive Event where
  /-- The submission is enqueued; its tasks have the ids from `first` on. -/
  | enqueued (id : Int) (sub : Submission) (first : Nat)
  /-- The submission goes into `cancelled_list`, for a newer one with its `submission_id`. -/
  | superseded (id : Int)
  | dispatching (tid : Nat) (id : Int) (task : Task)
  | launched (tid : Nat) (id : Int) (task : Task) (handle : Int)
  /-- The task is finalized; `none` when it was skipped. -/
  | finalizing (tid : Nat) (id : Int) (task : Task) (outcome : Option TaskOutcome)
  | startCompiling (sub : Submission) (res : SubmissionResult)
  | ceMessage (sub : Submission) (res : SubmissionResult)
  | jceMessage (sub : Submission) (res : SubmissionResult)
  | executeFinished (sub : Submission) (subtask stage : Nat) (td : TestdataResult)
  | scoringResult (sub : Submission) (res : SubmissionResult) (subtask stage : Nat)
  | overallResult (sub : Submission) (res : SubmissionResult)
  | submissionFinished (sub : Submission)
  | reportFinalized (sub : Submission) (res : SubmissionResult) (queueSize : Nat)
  deriving DecidableEq

/-- What the setup and finalize functions of one submission read and write;
`log` takes the events of the call. -/
structure Ctx where
  sub : Submission
  result : SubmissionResult
  cancelled : Bool
  cancelledGroup : Option (Finset Int)
  log : List Event

def Ctx.report (c : Ctx) (wanted : Bool) (e : Event) : Ctx :=
  if wanted then { c with log := c.log ++ [e] } else c

/-- `IsCancelled`. -/
def Ctx.isCancelled (c : Ctx) (groups : List Int) : Bool :=
  c.cancelled ||
  match c.cancelledGroup with
  | none => false
  | some cancelled => !groups.isEmpty && groups.all (· ∈ cancelled)

/-! ## Compilation -/

def setupCompile (c : Ctx) (subtask : CompileSubtask) : Bool × Ctx :=
  if c.cancelled then (false, c)
  else (true, c.report (subtask == .userprog && c.sub.reporter.reportStartCompiling)
    (.startCompiling c.sub c.result))

/-- The compilation went wrong in a way other than `timekill == -1`. -/
def compileFails (o : TaskOutcome) : Bool :=
  o.res.timekill != 0 || decide (0 < o.res.oomkill) || o.res.siStatus != 0 ||
  !o.files.compileOutput

def failVerdict (subtask : CompileSubtask) (o : TaskOutcome) : Verdict :=
  if subtask ≠ .userprog then .jce
  else if o.res.timekill ≠ 0 ∨ 0 < o.res.oomkill then .cle
  else .ce

def kMaxMsgLen : Nat := 4000

def compileMessage (cfg : Config) (o : TaskOutcome) : List Char :=
  match o.files.compileMessage with
  | none => []
  | some text =>
    let message := cfg.filterMessage (text.take kMaxMsgLen)
    if kMaxMsgLen < text.length then
      message ++ "\n[Error message truncated after 4000 bytes]".toList
    else message

def finalizeCompile (cfg : Config) (c : Ctx) (subtask : CompileSubtask) (o : TaskOutcome) : Ctx :=
  if o.res.timekill = -1 then { c with result := { c.result with verdict := .je } }
  else if compileFails o then
    let res := { c.result with verdict := max c.result.verdict (failVerdict subtask o) }
    let message := compileMessage cfg o
    match subtask with
    | .userprog =>
      let res := { res with ceMessage := message }
      { c with result := res }.report c.sub.reporter.reportCEMessage (.ceMessage c.sub res)
    | .probprog | .specjudge =>
      let res := { res with jceMessage := message }
      { c with result := res }.report c.sub.reporter.reportJCEMessage (.jceMessage c.sub res)
    | .summary =>
      { c with result :=
          if res.jceMessage = [] then { res with jceMessage := message } else res }
  else c

/-! ## Execution -/

/-- The files that `SetupExecute` needs for the stage are there. -/
def BoxFiles.complete (files : BoxFiles) (sub : Submission) (stage : Nat) : Bool :=
  (sub.sandboxStrict || files.compiled && files.input) && (stage == 0 || files.moved)

/-- The file operations of `SetupExecute`, of which `fs::file_size` and `fs::permissions` throw
for a file that is not there. -/
def prepareExecute (c : Ctx) (stage : Nat) (files : BoxFiles) : Except Fault Bool :=
  if files.complete c.sub stage then .ok true else .error .filesystemError

def setupExecute (c : Ctx) (subtask stage : Nat) (files : BoxFiles) : Except Fault Bool :=
  if c.result.verdict ≠ .nul then .ok false
  else
    match c.sub.testdata[subtask]? with
    | none => .error .noTestdata
    | some item =>
      if c.isCancelled item.tdGroups then .ok false
      else if stage = 0 then prepareExecute c stage files
      else
        match c.result.tdResults[subtask]? with
        | none => .error .noTdResult
        | some td =>
          if td.skipStage ∨ td.verdict ≠ .nul then .ok false else prepareExecute c stage files

/-- `td_results.resize(subtask + 1)`, when it is shorter. -/
def growTo (tds : List TestdataResult) (subtask : Nat) : List TestdataResult :=
  tds ++ List.replicate (subtask + 1 - tds.length) .new

/-- The resources of a stage: set by the first, accumulated by the later ones. -/
def accumulate (cfg : Config) (stage : Nat) (res : CjailResult) (td : TestdataResult) :
    TestdataResult :=
  let time := toUs cfg res.utime + toUs cfg res.stime
  if stage = 0 then { td with vss := res.hiwaterVm, rss := res.maxrss, time := time, score := 0 }
  else
    { td with
      vss := max td.vss res.hiwaterVm
      rss := max td.rss res.maxrss
      time := td.time + time }

def exceedsMemory (lim : TestdataItem) (td : TestdataResult) : Bool :=
  (lim.vss != 0 && decide (lim.vss < td.vss)) || (lim.rss != 0 && decide (lim.rss < td.rss))

def executeVerdict (sub : Submission) (lim : TestdataItem) (res : CjailResult)
    (td : TestdataResult) : Verdict :=
  if res.timekill = -1 then .ee
  else if 0 < res.oomkill then .mle
  else if res.timekill ≠ 0 then .tle
  else if res.siCode = CLD_KILLED ∨ res.siCode = CLD_DUMPED then
    if res.siStatus = SIGXFSZ ∨ (sub.sandboxStrict = true ∧ res.siStatus = SIGPIPE) then .ole
    -- MLE will likely cause SIGSEGV or std::bad_alloc (SIGABRT), so we check it before SIG
    else if exceedsMemory lim td then .mle
    else .sig
  else if exceedsMemory lim td then .mle
  else if res.siStatus ≠ 0 then .re
  else if lim.time < td.time then .tle
  else .nul

def executeResult (cfg : Config) (sub : Submission) (lim : TestdataItem) (stage : Nat)
    (res : CjailResult) (td : TestdataResult) : TestdataResult :=
  let td := accumulate cfg stage res { td with executeResult := res }
  { td with verdict := executeVerdict sub lim res td }

def finalizeExecute (cfg : Config) (c : Ctx) (subtask stage : Nat) (o : TaskOutcome) :
    Except Fault Ctx :=
  match c.sub.testdata[subtask]? with
  | none => .error .noTestdata
  | some lim =>
    let tds := growTo c.result.tdResults subtask
    let td := executeResult cfg c.sub lim stage o.res ((tds[subtask]?).getD .new)
    .ok ({ c with result := { c.result with tdResults := tds.set subtask td } }.report true
      (.executeFinished c.sub subtask stage td))

/-! ## Scoring -/

def Submission.lastStage (sub : Submission) (stage : Nat) : Bool := (stage : Int) == sub.stages - 1

/-- `skip_stage` before the last stage, `WA` for want of a verdict at the last. -/
def settleStage (lastStage : Bool) (td : TestdataResult) : TestdataResult :=
  if !lastStage && td.verdict != .nul then { td with skipStage := true }
  else if lastStage && td.verdict == .nul then { td with verdict := .wa }
  else td

/-- The result of the testdata after `FinalizeScoring`. -/
def scoringOutcome (cfg : Config) (sub : Submission) (stage : Nat) (o : TaskOutcome)
    (skipped : Bool) (td : TestdataResult) : TestdataResult :=
  let lastStage := sub.lastStage stage
  let td := { td with score := 0 }
  let td := if skipped then td else readSpecjudgeResult cfg sub o lastStage td
  settleStage lastStage td

def finalizeScoring (cfg : Config) (c : Ctx) (subtask stage : Nat) (o : TaskOutcome)
    (skipped : Bool) : Except Fault Ctx :=
  match c.result.tdResults[subtask]?, c.sub.testdata[subtask]? with
  | none, _ => .error .noTdResult
  | _, none => .error .noTestdata
  | some td, some item =>
    let td := scoringOutcome cfg c.sub stage o skipped td
    let res := { c.result with tdResults := c.result.tdResults.set subtask td }
    let group :=
      if c.sub.skipGroup ∧ td.verdict ≠ .nul ∧ td.verdict ≠ .ac then
        some (c.cancelledGroup.getD ∅ ∪ item.tdGroups.toFinset)
      else c.cancelledGroup
    let wanted := !c.cancelled && c.sub.reporter.reportScoringResult &&
      (c.sub.reportIntermediateStage || c.sub.lastStage stage || td.skipStage)
    .ok ({ c with result := res, cancelledGroup := group }.report wanted
      (.scoringResult c.sub res subtask stage))

def setupScoring (cfg : Config) (c : Ctx) (subtask stage : Nat) (files : BoxFiles) :
    Except Fault (Bool × Ctx) :=
  if c.result.verdict ≠ .nul then .ok (false, c)
  else
    match c.sub.testdata[subtask]? with
    | none => .error .noTestdata
    | some item =>
      if c.isCancelled item.tdGroups then .ok (false, c)
      else
        match c.result.tdResults[subtask]? with
        | none => .error .noTdResult
        | some td =>
          if td.skipStage then .ok (false, c)
          -- if already TLE/MLE/etc, do not invoke judge when configured to do so
          else if td.verdict ≠ .nul ∧ c.sub.judgeAbnormallyTerminated = false then
            (finalizeScoring cfg c subtask stage ⟨.zero, files⟩ true).map fun c => (false, c)
          else if c.sub.specjudgeType = .skip then
            (finalizeScoring cfg c subtask stage ⟨.zero, files⟩ false).map fun c => (false, c)
          else .ok (true, c)

/-! ## Summary -/

/-- The maximum over the testdata whose verdict counts. -/
def overallVerdict (sub : Submission) (tds : List TestdataResult) : Verdict :=
  (tds.zip sub.testdata).foldl
    (fun v p => if p.2.ignoreVerdict then v else if v < p.1.verdict then p.1.verdict else v) .ac

/-- `ScoreToString`: `none` when the padding has a negative length and
`std::string` throws `length_error`. -/
def scoreToString (score : Int) : Option String :=
  let frac := toString (score.tmod 1000000)
  if 6 < frac.length then none
  else some (toString (score.tdiv 1000000) ++ "." ++
    String.ofList (List.replicate (6 - frac.length) '0') ++ frac)

/-- The scores `SummaryMeta` writes, of the testdata and of the groups. -/
def summaryMeta (sub : Submission) (res : SubmissionResult) :
    Option (List String × List String) := do
  let scores ← res.tdResults.mapM fun td => scoreToString td.score
  let subtaskScores ← sub.groupScore.mapM scoreToString
  return (scores, subtaskScores)

/-- The record after the verdict was calculated. -/
def summaryResult (sub : Submission) (res : SubmissionResult) : SubmissionResult :=
  if res.verdict = .nul then { res with verdict := overallVerdict sub res.tdResults } else res

def setupSummary (c : Ctx) : Except Fault (Bool × Ctx) :=
  if c.sub.testdata.length < c.result.tdResults.length then .error .noTestdata
  else
    let c := { c with result := summaryResult c.sub c.result }
    if c.sub.summaryType = .none ∨ c.result.verdict = .jce then .ok (false, c)
    else
      match summaryMeta c.sub c.result with
      | none => .error .lengthError
      | some _ => .ok (true, c)

def kInfScore : Int := 2000000000000

/-- `subtask_scores[group] = std::min(subtask_scores[group], td.score)`. -/
def lowerScore (scores : List Int) (group score : Int) : Except Fault (List Int) :=
  if 0 ≤ group ∧ group < scores.length then
    .ok (scores.modify group.toNat (min · score))
  else .error .noGroup

def subtaskScores (sub : Submission) (tds : List TestdataResult) : Except Fault (List Int) :=
  (tds.zip sub.testdata).foldlM
    (fun scores p =>
      if p.2.ignoreVerdict then .ok scores
      else p.2.tdGroups.foldlM (fun scores group => lowerScore scores group p.1.score) scores)
    (List.replicate sub.groupScore.length kInfScore)

def weightedScore (sub : Submission) (scores : List Int) : Int :=
  ((scores.zip sub.groupScore).map fun p =>
    (if p.1 = kInfScore then fullScore else p.1) * p.2).sum

/-- The record with the totals of the default summary. -/
def defaultTotals (cfg : Config) (sub : Submission) (res : SubmissionResult) :
    Except Fault SubmissionResult :=
  if res.verdict < .ce then
    let counted := (res.tdResults.zip sub.testdata).filter fun p => !p.2.ignoreVerdict
    (subtaskScores sub res.tdResults).map fun scores =>
      { res with
        totalMemory := counted.foldl (fun m p => max m p.1.rss) 0
        totalTime := counted.foldl (fun t p => Numerals.toInt64 (t + p.1.time)) 0
        totalScore := normalizeScore cfg
          (.fin (weightedScore sub scores / (100000000 * 1000000))) }
  else .ok { res with totalScore := 0 }

/-- `none` when the text is no JSON and the parser throws. -/
def readSummaryResult (cfg : Config) (output : List Char) (res : SubmissionResult) :
    Option SubmissionResult :=
  (cfg.parseJson output).map fun json =>
    let verdict := match json.find "verdict" with
      | some (.str s) => abrToVerdict s false
      | _ => res.verdict
    { res with
      verdict := if verdict = .nul then .wa else verdict
      totalScore := (jsonScore cfg json).getD res.totalScore
      totalTime := jsonNumber json "total_time_us" res.totalTime
      totalMemory := jsonNumber json "total_memory_kib" res.totalMemory
      ceMessage := match json.find "ce_message" with
        | some (.str s) => s.toList
        | _ => res.ceMessage }

def summaryFailed (res : SubmissionResult) : SubmissionResult :=
  { res with verdict := .jre, totalMemory := 0, totalTime := 0 }

/-- What a summary program that ran makes of the totals. -/
def customTotals (cfg : Config) (o : TaskOutcome) (res : SubmissionResult) : SubmissionResult :=
  match o.files.output with
  | none => summaryFailed res
  | some output =>
    if o.res.siStatus ≠ 0 then summaryFailed res
    else (readSummaryResult cfg output res).getD (summaryFailed res)

/-- `FinalizeSummary` up to the removal from the global containers; `listSize`
is `submission_list.size()`. -/
def finalizeSummary (cfg : Config) (c : Ctx) (o : TaskOutcome) (skipped : Bool) (listSize : Nat) :
    Except Fault Ctx :=
  (defaultTotals cfg c.sub c.result).map fun res =>
    let res := if skipped then res else customTotals cfg o res
    let c := { c with result := res }
    let c := c.report (!c.cancelled && c.sub.reporter.reportOverallResult)
      (.overallResult c.sub res)
    let c := { c with cancelled := false, cancelledGroup := none }
    let c := c.report true (.submissionFinished c.sub)
    c.report c.sub.reporter.reportFinalized (.reportFinalized c.sub res listSize)

end TiojJudge.Judge
