import Mathlib.Data.Finset.Basic
import TiojJudge.Containers
import TiojJudge.Numerals

/-!
# Submissions, results and tasks

The data of `include/tioj/submission.h`, `include/tioj/tasks.h` and `tasks.h`,
as far as the scheduler reads it. Files are left out but for what the judge
reads from the box of a finished task.
-/

namespace TiojJudge.Judge

/-- The enumeration of `ENUM_VERDICT_`, in its order. -/
inductive Verdict where
  | nul
  | ac | wa | tle | mle | ole | re | sig | jre | ee
  | ce | cle | jce | je
  deriving DecidableEq, Repr

namespace Verdict

def code : Verdict → Nat
  | nul => 0
  | ac => 1 | wa => 2 | tle => 3 | mle => 4 | ole => 5 | re => 6 | sig => 7 | jre => 8 | ee => 9
  | ce => 10 | cle => 11 | jce => 12 | je => 13

theorem code_injective : Function.Injective code := by
  intro a b h
  cases a <;> cases b <;> first | rfl | (simp [code] at h)

/-- Verdicts are compared by their place in the enumeration. -/
instance : LinearOrder Verdict := LinearOrder.lift' code code_injective

theorem le_def {a b : Verdict} : a ≤ b ↔ a.code ≤ b.code := Iff.rfl

theorem lt_def {a b : Verdict} : a < b ↔ a.code < b.code := Iff.rfl

end Verdict

/-- `kVerdictAbrTable`. -/
def verdictToAbr : Verdict → String
  | .nul => ""
  | .ac => "AC" | .wa => "WA" | .tle => "TLE" | .mle => "MLE" | .ole => "OLE" | .re => "RE"
  | .sig => "SIG" | .jre => "JRE" | .ee => "EE"
  | .ce => "CE" | .cle => "CLE" | .jce => "JCE" | .je => "JE"

/-- The verdicts from `AC` to before `CE`, and from `CE` to `JE`. -/
def runtimeVerdicts : List Verdict := [.ac, .wa, .tle, .mle, .ole, .re, .sig, .jre, .ee]
def compileVerdicts : List Verdict := [.ce, .cle, .jce, .je]

def abrToVerdict (str : String) (runtimeOnly : Bool) : Verdict :=
  match runtimeVerdicts.find? (fun v => str == verdictToAbr v) with
  | some v => v
  | none =>
    if runtimeOnly then .nul
    else if str == "ER" then .jce
    else (compileVerdicts.find? (fun v => str == verdictToAbr v)).getD .nul

inductive SpecjudgeType where
  | normal
  | specjudgeOld
  | specjudgeNew
  | specjudgePolygon
  | specjudgeKattis
  | skip
  deriving DecidableEq, Repr

inductive SummaryType where
  | none
  | custom
  deriving DecidableEq, Repr

inductive CompileSubtask where
  | userprog
  | specjudge
  | summary
  | probprog
  deriving DecidableEq, Repr

/-- `Task`: its type with the meaning `subtask` and `stage` have for it. -/
inductive Task where
  | compile (subtask : CompileSubtask)
  | execute (subtask stage : Nat)
  | scoring (subtask stage : Nat)
  | summary
  deriving DecidableEq, Repr

structure TestdataItem where
  vss : Int
  rss : Int
  output : Int
  time : Int
  ignoreVerdict : Bool
  tdGroups : List Int
  deriving DecidableEq, Repr

/-- Which callbacks of `Submission::Reporter` are set. -/
structure Reporter where
  reportStartCompiling : Bool
  reportOverallResult : Bool
  reportScoringResult : Bool
  reportCEMessage : Bool
  reportJCEMessage : Bool
  reportFinalized : Bool
  deriving DecidableEq, Repr

structure Submission where
  submissionInternalId : Int
  submissionId : Int
  priority : Int
  specjudgeType : SpecjudgeType
  summaryType : SummaryType
  stages : Int
  problemProgStages : OrdSet Int
  judgeBetweenStages : Bool
  judgeAbnormallyTerminated : Bool
  specjudgeReAsWa : Bool
  sandboxStrict : Bool
  testdata : List TestdataItem
  groupScore : List Int
  skipGroup : Bool
  reporter : Reporter
  reportIntermediateStage : Bool
  deriving DecidableEq

structure TimeVal where
  sec : Int
  usec : Int
  deriving DecidableEq, Repr

/-- `struct cjail_result`, as far as the judge reads it. -/
structure CjailResult where
  timekill : Int
  oomkill : Int
  siStatus : Int
  siCode : Int
  utime : TimeVal
  stime : TimeVal
  maxrss : Int
  hiwaterVm : Int
  deriving DecidableEq, Repr

/-- `cjail_result{}`. -/
def CjailResult.zero : CjailResult := ⟨0, 0, 0, 0, ⟨0, 0⟩, ⟨0, 0⟩, 0, 0⟩

def CLD_EXITED : Int := 1
def CLD_KILLED : Int := 2
def CLD_DUMPED : Int := 3
def SIGPIPE : Int := 13
def SIGXFSZ : Int := 25

structure TestdataResult where
  executeResult : CjailResult
  vss : Int
  rss : Int
  time : Int
  score : Int
  verdict : Verdict
  messageType : String
  message : List Char
  skipStage : Bool
  deriving DecidableEq, Repr

/-- `TestdataResult()`. -/
def TestdataResult.new : TestdataResult := ⟨.zero, 0, 0, 0, 0, .nul, "", [], false⟩

structure SubmissionResult where
  tdResults : List TestdataResult
  verdict : Verdict
  totalMemory : Int
  totalTime : Int
  totalScore : Int
  ceMessage : List Char
  jceMessage : List Char
  deriving DecidableEq, Repr

/-- `SubmissionResult()`. -/
def SubmissionResult.new : SubmissionResult := ⟨[], .nul, 0, 0, 0, [], []⟩

structure SubmissionAndResult where
  sub : Submission
  result : SubmissionResult

/-- The files a finished task leaves for its finalizer: `none` for one that is
not a regular file, or cannot be opened. The last three are files that `SetupExecute`
finds, or does not. -/
structure BoxFiles where
  compileOutput : Bool
  compileMessage : Option (List Char)
  output : Option (List Char)
  nextpass : Bool
  scoreMultiplier : Option (List Char)
  score : Option (List Char)
  teammessage : Option (List Char)
  judgemessage : Option (List Char)
  /-- The compiled program and the input of the testdata, for `fs::file_size`. -/
  compiled : Bool
  input : Bool
  /-- The input that comes from the stage before, for `fs::permissions`. -/
  moved : Bool
  deriving DecidableEq, Repr

/-- No file is left by a task, and none is missing. -/
def BoxFiles.empty : BoxFiles := ⟨false, none, none, false, none, none, none, none, true, true, true⟩

structure TaskOutcome where
  res : CjailResult
  files : BoxFiles
  deriving DecidableEq, Repr

/-- A value in a JSON object: only strings and numbers are looked at. -/
inductive JsonValue where
  | str (s : String)
  | num (q : ℚ)
  | other
  deriving DecidableEq

/-- The members of a JSON object; another JSON value has none. -/
abbrev Json := List (String × JsonValue)

def Json.find (json : Json) (key : String) : Option JsonValue :=
  (json.find? (fun member => member.1 == key)).map Prod.snd

/-- The settings of the judge, and what it uses from outside: the JSON parser,
`lround` of NaN and the filter of compiler messages. -/
structure Config where
  kMaxParallel : Int
  loop : Bool
  kTimeMultiplier : ℚ
  parseJson : List Char → Option Json
  lroundNaN : Int
  filterMessage : List Char → List Char

/-- `ToUs`: `(long)v.tv_sec * 1'000'000 + v.tv_usec`, scaled. -/
def toUs (cfg : Config) (v : TimeVal) : Int :=
  Numerals.toLong ((v.sec * 1000000 + v.usec) * cfg.kTimeMultiplier)

/-- How the source leaves its defined behaviour: an index or key that is not
there, or an exception nobody catches. -/
inductive Fault where
  | noSubmission
  | noTask
  | noHandle
  | noTestdata
  | noTdResult
  | noGroup
  | noStage
  | lengthError
  | filesystemError
  deriving DecidableEq, Repr

end TiojJudge.Judge
