import TiojJudge.Incidence
import TiojJudge.JsonTree
import TiojJudge.Judge.Languages
import TiojJudge.TestdataStore.Model

/-!
# Frames with a submission

The first part of `DealOneSubmission`: what it reads from the data of a frame, and when
it gives up. Programs are kept as the texts that it writes to its temporary directory.

* `parseFrame`: the submission that is read;
* `Received.WellFormed`: what it is always like;
* `encodeFrame`: a frame with it;
* `parseFrame_range`: what is read from frames are the well-formed submissions, and
  nothing of one is lost on the way.
-/

namespace TiojJudge.Receiver

open JsonTree
open Judge (Compiler getCompiler compilerName getCompiler_compilerName TestdataItem)
open TestdataStore (TdItem)

/-! ## What is read -/

structure Program where
  lang : Compiler
  code : String

structure Checker where
  program : Program
  judgeBetweenStages : Bool
  compileArgs : String
  judgeAbnormallyTerminated : Bool
  reAsWa : Bool

/-- `specjudge_type`, with what is read for it. -/
inductive Scoring where
  | normal (defaultScoringArgs : List String)
  | special (type : Int) (checker : Checker)

structure Interlib where
  type : Int
  header : String
  impl : String

structure Problem where
  problemId : Int
  sandboxStrict : Bool
  stages : Int
  problemProgStages : OrdSet Int
  problemProg : Option Program
  scoring : Scoring
  /-- None is the type zero. -/
  interlib : Option Interlib
  /-- Likewise. -/
  summary : Option (Int × Program)

/-- The submission information, without the testdata. -/
structure Header where
  submissionId : Int
  contestId : Int
  priority : Int
  lang : Compiler
  submissionTime : Int
  skipGroup : Bool
  codeBase64 : String

structure User where
  submitterId : Int
  submitterName : String
  submitterNickname : String

structure Received where
  header : Header
  user : User
  problem : Problem
  processLimit : Int
  td : List TdItem
  testdata : List TestdataItem
  groupScore : List Int

/-- What the parser uses from outside: conversions of floating numbers, and a setting of the build. -/
structure Reading where
  truncate : ℚ → Int
  haskellProcessLimit : Int

section Parser

variable (cfg : Reading)

/-! ## The parser -/

def getProgram (compiler code : String) (v : JsonTree) : Option Program := do
  let lang ← v.fieldAs getString compiler
  let code ← v.fieldAs getString code
  return ⟨getCompiler lang, code⟩

/-- `problem_prog_stages`, and the program of these stages. -/
def parseProblemProg (problem : JsonTree) (stages : Int) : Option (OrdSet Int × Option Program) := do
  let progStages ← problem.value (getSet (getInt cfg.truncate)) "problem_prog_stages" ∅
  if progStages.elems.any fun s => s < 0 ∨ stages ≤ s then none
  else if progStages.elems = [] then return (progStages, none)
  else
    let program ← getProgram "problem_prog_compiler" "problem_prog_code" problem
    return (progStages, some program)

def parseScoring (problem : JsonTree) : Option Scoring := do
  let type ← problem.fieldAs (getInt cfg.truncate) "specjudge_type"
  if type = 0 then
    let args ← problem.fieldAs (getList getString) "default_scoring_args"
    return .normal args
  else
    let program ← getProgram "specjudge_compiler" "sjcode" problem
    let between ← problem.fieldAs getBool "judge_between_stages"
    let compileArgs ← problem.fieldAs getString "specjudge_compile_args"
    -- `SPECJUDGE_NEW` is the type 2
    let terminated ← problem.value getBool "judge_abnormally_terminated" (type == 2)
    let reAsWa ← problem.value getBool "judge_re_as_wa" true
    return .special type ⟨program, between, compileArgs, terminated, reAsWa⟩

def parseInterlib (problem : JsonTree) : Option (Option Interlib) := do
  let type ← problem.fieldAs (getInt cfg.truncate) "interlib_type"
  if type = 0 then return none
  else
    let header ← problem.fieldAs getString "interlib"
    let impl ← problem.fieldAs getString "interlib_impl"
    return some ⟨type, header, impl⟩

def parseSummary (problem : JsonTree) : Option (Option (Int × Program)) := do
  let type ← problem.value (getInt cfg.truncate) "summary_type" 0
  if type = 0 then return none
  else
    let program ← getProgram "summary_compiler" "summary_code" problem
    return some (type, program)

def parseProblem (problem : JsonTree) : Option Problem := do
  let id ← problem.fieldAs (getInt cfg.truncate) "id"
  let strict ← problem.fieldAs getBool "strict_mode"
  let stages ← problem.fieldAs (getInt cfg.truncate) "num_stages"
  -- `std::clamp`
  let stages := max 1 (min stages 32)
  let prog ← parseProblemProg cfg problem stages
  let scoring ← parseScoring cfg problem
  let interlib ← parseInterlib cfg problem
  let summary ← parseSummary cfg problem
  return ⟨id, strict, stages, prog.1, prog.2, scoring, interlib, summary⟩

/-- Haskell uses a lot of VSS, thus we limit RSS instead. -/
def limitsFor (lang : Compiler) (item : TestdataItem) : TestdataItem :=
  if lang = .haskell ∧ 0 < item.vss then
    { item with rss := if item.rss = 0 then item.vss else min item.vss item.rss, vss := 0 }
  else item

/-- An element of `td`: its row, and the limits. -/
def parseTd (lang : Compiler) (item : JsonTree) : Option (TdItem × TestdataItem) := do
  let id ← item.fieldAs (getInt cfg.truncate) "id"
  let updatedAt ← item.fieldAs (getLong cfg.truncate) "updated_at"
  let inputCompressed ← item.value getBool "input_compressed" false
  let outputCompressed ← item.value getBool "output_compressed" false
  let time ← item.fieldAs (getLong cfg.truncate) "time"
  let vss ← item.fieldAs (getLong cfg.truncate) "vss"
  let rss ← item.fieldAs (getLong cfg.truncate) "rss"
  let output ← item.fieldAs (getLong cfg.truncate) "output"
  let ignoreVerdict ← item.fieldAs getBool "verdict_ignore"
  return (⟨id, updatedAt, inputCompressed, outputCompressed⟩,
    limitsFor lang ⟨max vss 0, max rss 0, max output 0, time, ignoreVerdict, []⟩)

/-- A position in `positions`, of which there are `tdCount`. -/
def getPosition (tdCount : Nat) (v : JsonTree) : Option Nat := do
  let p ← v.getInt cfg.truncate
  if p < 0 ∨ tdCount ≤ p then none else return p.toNat

/-- An element of `tasks`: the positions, and the score. -/
def parseTask (tdCount : Nat) (item : JsonTree) : Option (List Nat × Int) := do
  let positions ← item.field "positions"
  let positions ← positions.items.mapM (getPosition cfg tdCount)
  let score ← item.fieldAs (getLong cfg.truncate) "score"
  return (positions, score)

/-- `sub.testdata[p].td_groups.push_back(i)`, for each task `i` and its positions `p`. -/
def withGroups (testdata : List TestdataItem) (positions : List (List Nat)) : List TestdataItem :=
  List.zipWith (fun item groups => { item with tdGroups := groups.map Nat.cast }) testdata
    (Incidence.columns testdata.length positions)

def parseHeader (data : JsonTree) : Option Header := do
  let submissionId ← data.fieldAs (getInt cfg.truncate) "submission_id"
  let contestId ← data.fieldAs (getInt cfg.truncate) "contest_id"
  let priority ← data.fieldAs (getLong cfg.truncate) "priority"
  let lang ← data.fieldAs getString "compiler"
  let time ← data.fieldAs (getLong cfg.truncate) "time"
  let skipGroup ← data.value getBool "skip_group" false
  let code ← data.fieldAs getString "code_base64"
  return ⟨submissionId, contestId, priority, getCompiler lang, time, skipGroup, code⟩

def parseUser (user : JsonTree) : Option User := do
  let id ← user.fieldAs (getInt cfg.truncate) "id"
  let name ← user.fieldAs getString "name"
  let nickname ← user.fieldAs getString "nickname"
  return ⟨id, name, nickname⟩

def parseFrame (data : JsonTree) : Option Received :=
  if data.isEmpty then none else do
  let header ← parseHeader cfg data
  let user ← data.fieldAs (parseUser cfg) "user"
  let problem ← data.fieldAs (parseProblem cfg) "problem"
  let td ← data.fieldAs (getEach (parseTd cfg header.lang)) "td"
  let tasks ← data.fieldAs (getEach (parseTask cfg td.length)) "tasks"
  return {
    header := header
    user := user
    problem := problem
    processLimit := if header.lang = .haskell then max 1 cfg.haskellProcessLimit else 1
    td := td.map Prod.fst
    testdata := withGroups (td.map Prod.snd) (tasks.map Prod.fst)
    groupScore := tasks.map Prod.snd }

end Parser

/-! ## What a received submission is like -/

def Scoring.WellFormed : Scoring → Prop
  | .normal _ => True
  | .special type _ => FitsInt type ∧ type ≠ 0

structure Problem.WellFormed (p : Problem) : Prop where
  problemId : FitsInt p.problemId
  stages : 1 ≤ p.stages ∧ p.stages ≤ 32
  progStages : ∀ s ∈ p.problemProgStages.elems, 0 ≤ s ∧ s < p.stages
  prog : p.problemProg = none ↔ p.problemProgStages.elems = []
  scoring : p.scoring.WellFormed
  interlib : ∀ i ∈ p.interlib, FitsInt i.type ∧ i.type ≠ 0
  summary : ∀ s ∈ p.summary, FitsInt s.1 ∧ s.1 ≠ 0

/-- The limits of a testdata; zero is unlimited. -/
structure LimitsFor (lang : Compiler) (item : TestdataItem) : Prop where
  time : FitsLong item.time
  vss : FitsLong item.vss ∧ 0 ≤ item.vss
  rss : FitsLong item.rss ∧ 0 ≤ item.rss
  output : FitsLong item.output ∧ 0 ≤ item.output
  haskell : lang = .haskell → item.vss = 0

structure Header.WellFormed (h : Header) : Prop where
  submissionId : FitsInt h.submissionId
  contestId : FitsInt h.contestId
  priority : FitsLong h.priority
  submissionTime : FitsLong h.submissionTime

structure Received.WellFormed (cfg : Reading) (r : Received) : Prop where
  header : r.header.WellFormed
  user : FitsInt r.user.submitterId
  problem : r.problem.WellFormed
  processLimit :
    r.processLimit = if r.header.lang = .haskell then max 1 cfg.haskellProcessLimit else 1
  td : r.td.length = r.testdata.length
  rows : ∀ item ∈ r.td, FitsInt item.id ∧ FitsLong item.updatedAt
  limits : ∀ item ∈ r.testdata, LimitsFor r.header.lang item
  groups : ∀ item ∈ r.testdata, item.tdGroups.Pairwise (· ≤ ·) ∧
    ∀ g ∈ item.tdGroups, 0 ≤ g ∧ g < r.groupScore.length
  /-- A position is an `int`. -/
  positions : ∀ (p : Nat) item, r.testdata[p]? = some item → item.tdGroups ≠ [] → FitsInt p
  scores : ∀ x ∈ r.groupScore, FitsLong x

section Sound

variable {cfg : Reading} {v : JsonTree} {lang : Compiler}

theorem parseProblemProg_sound {stages : Int} {result : OrdSet Int × Option Program}
    (h : parseProblemProg cfg v stages = some result) :
    (∀ s ∈ result.1.elems, 0 ≤ s ∧ s < stages) ∧ (result.2 = none ↔ result.1.elems = []) := by
  simp only [parseProblemProg, Option.bind_eq_bind, Option.bind_eq_some_iff, Option.pure_def] at h
  obtain ⟨progStages, _, h⟩ := h
  split at h
  · cases h
  · rename_i inside
    have bounds : ∀ s ∈ progStages.elems, 0 ≤ s ∧ s < stages := by
      simpa using inside
    split at h
    · rename_i empty
      cases h
      exact ⟨bounds, iff_of_true rfl empty⟩
    · rename_i some_
      obtain ⟨program, _, h⟩ := Option.bind_eq_some_iff.mp h
      cases h
      exact ⟨bounds, iff_of_false (by simp) some_⟩

theorem parseScoring_sound {scoring : Scoring} (h : parseScoring cfg v = some scoring) :
    scoring.WellFormed := by
  simp only [parseScoring, Option.bind_eq_bind, Option.bind_eq_some_iff, Option.pure_def] at h
  obtain ⟨type, number, h⟩ := h
  split at h
  · simp only [Option.bind_eq_some_iff, Option.some.injEq] at h
    obtain ⟨_, _, rfl⟩ := h
    trivial
  · rename_i special
    simp only [Option.bind_eq_some_iff, Option.some.injEq] at h
    obtain ⟨_, _, _, _, _, _, _, _, _, _, rfl⟩ := h
    exact ⟨fieldAs_fits number, special⟩

theorem parseInterlib_sound {interlib : Option Interlib} (h : parseInterlib cfg v = some interlib) :
    ∀ i ∈ interlib, FitsInt i.type ∧ i.type ≠ 0 := by
  simp only [parseInterlib, Option.bind_eq_bind, Option.bind_eq_some_iff, Option.pure_def] at h
  obtain ⟨type, number, h⟩ := h
  split at h
  · cases h
    simp
  · rename_i other
    simp only [Option.bind_eq_some_iff, Option.some.injEq] at h
    obtain ⟨_, _, _, _, rfl⟩ := h
    rintro i ⟨⟩
    exact ⟨fieldAs_fits number, other⟩

theorem parseSummary_sound {summary : Option (Int × Program)} (h : parseSummary cfg v = some summary) :
    ∀ s ∈ summary, FitsInt s.1 ∧ s.1 ≠ 0 := by
  simp only [parseSummary, Option.bind_eq_bind, Option.bind_eq_some_iff, Option.pure_def] at h
  obtain ⟨type, number, h⟩ := h
  split at h
  · cases h
    simp
  · rename_i other
    simp only [Option.bind_eq_some_iff, Option.some.injEq] at h
    obtain ⟨_, _, rfl⟩ := h
    rintro s ⟨⟩
    exact ⟨value_fits fitsInt_zero number, other⟩

theorem parseProblem_sound {p : Problem} (h : parseProblem cfg v = some p) : p.WellFormed := by
  simp only [parseProblem, Option.bind_eq_bind, Option.bind_eq_some_iff, Option.pure_def,
    Option.some.injEq] at h
  obtain ⟨id, number, _, _, stages, _, prog, hprog, scoring, hscoring, interlib, hinterlib, summary,
    hsummary, rfl⟩ := h
  obtain ⟨bounds, none⟩ := parseProblemProg_sound hprog
  exact ⟨fieldAs_fits number, by dsimp only; omega, bounds, none, parseScoring_sound hscoring,
    parseInterlib_sound hinterlib, parseSummary_sound hsummary⟩

theorem limitsFor_sound {vss rss output time : Int} {ignoreVerdict : Bool} (hv : FitsLong vss)
    (hr : FitsLong rss) (ho : FitsLong output) (ht : FitsLong time) (v0 : 0 ≤ vss) (r0 : 0 ≤ rss)
    (o0 : 0 ≤ output) :
    LimitsFor lang (limitsFor lang ⟨vss, rss, output, time, ignoreVerdict, []⟩) := by
  unfold limitsFor
  split
  · rename_i limited
    refine ⟨ht, ⟨fitsLong_zero, le_rfl⟩, ?_, ⟨ho, o0⟩, fun _ => rfl⟩
    dsimp only
    split
    · exact ⟨hv, v0⟩
    · exact ⟨hv.min hr, le_min v0 r0⟩
  · rename_i free
    refine ⟨ht, ⟨hv, v0⟩, ⟨hr, r0⟩, ⟨ho, o0⟩, fun haskell => ?_⟩
    have := not_and.mp free haskell
    dsimp only at this ⊢
    omega

theorem parseTd_sound {result : TdItem × TestdataItem} (h : parseTd cfg lang v = some result) :
    (FitsInt result.1.id ∧ FitsLong result.1.updatedAt) ∧ LimitsFor lang result.2 := by
  simp only [parseTd, Option.bind_eq_bind, Option.bind_eq_some_iff, Option.pure_def,
    Option.some.injEq] at h
  obtain ⟨_, id, _, updatedAt, _, _, _, _, _, time, _, vss, _, rss, _, output, _, _, rfl⟩ := h
  exact ⟨⟨fieldAs_fits id, fieldAs_fits_long updatedAt⟩,
    limitsFor_sound ((fieldAs_fits_long vss).max fitsLong_zero) ((fieldAs_fits_long rss).max fitsLong_zero)
      ((fieldAs_fits_long output).max fitsLong_zero) (fieldAs_fits_long time) (le_max_right _ _)
      (le_max_right _ _) (le_max_right _ _)⟩

theorem parseTask_sound {tdCount : Nat} {result : List Nat × Int}
    (h : parseTask cfg tdCount v = some result) :
    (∀ p ∈ result.1, p < tdCount ∧ FitsInt p) ∧ FitsLong result.2 := by
  simp only [parseTask, Option.bind_eq_bind, Option.bind_eq_some_iff, Option.pure_def,
    Option.some.injEq] at h
  obtain ⟨_, _, positions, read, score, number, rfl⟩ := h
  refine ⟨fun p hp => ?_, fieldAs_fits_long number⟩
  obtain ⟨w, _, here⟩ := mem_mapM read p hp
  simp only [getPosition, Option.bind_eq_bind, Option.bind_eq_some_iff] at here
  obtain ⟨n, number, here⟩ := here
  split at here
  · cases here
  · rename_i inside
    obtain rfl := Option.some.inj here
    have fits : FitsInt n := getInt_fits number
    have same : (n.toNat : Int) = n := by omega
    exact ⟨by omega, by rwa [same]⟩

/-! ### Groups -/

variable {testdata : List TestdataItem} {positions : List (List Nat)} {p : Nat} {item : TestdataItem}

theorem withGroups_length : (withGroups testdata positions).length = testdata.length := by
  simp [withGroups]

theorem withGroups_getElem? (h : (withGroups testdata positions)[p]? = some item) :
    ∃ old, testdata[p]? = some old ∧
      item = { old with tdGroups := (Incidence.noted p 0 positions).map Nat.cast } := by
  obtain ⟨old, groups, found, here, rfl⟩ := List.getElem?_zipWith_eq_some.mp h
  rw [Incidence.columns_getElem? (List.getElem?_eq_some_iff.mp found).1, Option.some.injEq] at here
  exact ⟨old, found, here ▸ rfl⟩

/-- The groups of a testdata are the tasks that it is in. -/
theorem mem_withGroups (h : item ∈ withGroups testdata positions) :
    (∃ old ∈ testdata, item = { old with tdGroups := item.tdGroups }) ∧
      item.tdGroups.Pairwise (· ≤ ·) ∧ ∀ g ∈ item.tdGroups, 0 ≤ g ∧ g < positions.length := by
  obtain ⟨p, here⟩ := List.mem_iff_getElem?.mp h
  obtain ⟨old, found, rfl⟩ := withGroups_getElem? here
  refine ⟨⟨old, List.mem_of_getElem? found, rfl⟩, ?_, fun g hg => ?_⟩
  · exact List.pairwise_map.mpr (Incidence.noted_sorted.imp Int.ofNat_le.mpr)
  · obtain ⟨k, hk, rfl⟩ := List.mem_map.mp hg
    have := Incidence.mem_noted hk
    omega

theorem count_withGroups {g : Nat} (h : (withGroups testdata positions)[p]? = some item) :
    item.tdGroups.count (g : Int) = ((positions[g]?).getD []).count p := by
  obtain ⟨old, _, rfl⟩ := withGroups_getElem? h
  rw [List.count_map_of_injective _ _ Nat.cast_injective, Incidence.count_noted]
  simp

theorem parseHeader_sound {header : Header} (h : parseHeader cfg v = some header) :
    header.WellFormed := by
  simp only [parseHeader, Option.bind_eq_bind, Option.bind_eq_some_iff, Option.pure_def,
    Option.some.injEq] at h
  obtain ⟨_, id, _, contest, _, priority, _, _, _, time, _, _, _, _, rfl⟩ := h
  exact ⟨fieldAs_fits id, fieldAs_fits contest, fieldAs_fits_long priority, fieldAs_fits_long time⟩

theorem parseUser_sound {user : User} (h : parseUser cfg v = some user) : FitsInt user.submitterId := by
  simp only [parseUser, Option.bind_eq_bind, Option.bind_eq_some_iff, Option.pure_def,
    Option.some.injEq] at h
  obtain ⟨_, id, _, _, _, _, rfl⟩ := h
  exact fieldAs_fits id

theorem parseFrame_sound {r : Received} (h : parseFrame cfg v = some r) : r.WellFormed cfg := by
  unfold parseFrame at h
  split at h
  · cases h
  simp only [Option.bind_eq_bind, Option.bind_eq_some_iff, Option.pure_def, Option.some.injEq] at h
  obtain ⟨header, hheader, user, huser, problem, hproblem, td, htd, tasks, htasks, rfl⟩ := h
  obtain ⟨_, _, huser⟩ := Option.bind_eq_some_iff.mp huser
  obtain ⟨_, _, hproblem⟩ := Option.bind_eq_some_iff.mp hproblem
  have td_sound : ∀ line ∈ td, (FitsInt line.1.id ∧ FitsLong line.1.updatedAt) ∧
      LimitsFor header.lang line.2 := by
    intro line hl
    obtain ⟨_, here⟩ := mem_getEach htd line hl
    exact parseTd_sound here
  have tasks_sound : ∀ task ∈ tasks, (∀ p ∈ task.1, p < td.length ∧ FitsInt p) ∧ FitsLong task.2 := by
    intro task ht
    obtain ⟨_, here⟩ := mem_getEach htasks task ht
    exact parseTask_sound here
  exact {
    header := parseHeader_sound hheader
    user := parseUser_sound huser
    problem := parseProblem_sound hproblem
    processLimit := rfl
    td := by simp [withGroups_length]
    rows := by
      intro item hi
      obtain ⟨line, hl, rfl⟩ := List.mem_map.mp hi
      exact (td_sound line hl).1
    limits := by
      intro item hi
      obtain ⟨⟨old, ho, same⟩, _⟩ := mem_withGroups hi
      obtain ⟨line, hl, rfl⟩ := List.mem_map.mp ho
      have limits := (td_sound line hl).2
      rw [same]
      exact ⟨limits.time, limits.vss, limits.rss, limits.output, limits.haskell⟩
    groups := by
      intro item hi
      simpa using (mem_withGroups hi).2
    positions := by
      intro p item here some_
      obtain ⟨old, _, rfl⟩ := withGroups_getElem? here
      obtain ⟨g, hg⟩ := List.exists_mem_of_ne_nil _ some_
      obtain ⟨k, hk, rfl⟩ := List.mem_map.mp hg
      obtain ⟨row, there, here⟩ := Incidence.row_of_noted hk
      obtain ⟨task, ht, rfl⟩ := List.mem_map.mp (List.mem_of_getElem? there)
      exact ((tasks_sound task ht).1 p here).2
    scores := by
      intro x hx
      obtain ⟨task, ht, rfl⟩ := List.mem_map.mp hx
      exact (tasks_sound task ht).2 }

/-- The tasks that were read, and the testdata at their positions. -/
theorem parseFrame_tasks {r : Received} (h : parseFrame cfg v = some r) :
    ∃ tasks, v.fieldAs (getEach (parseTask cfg r.testdata.length)) "tasks" = some tasks ∧
      r.groupScore = tasks.map Prod.snd ∧
      ∀ p item, r.testdata[p]? = some item → ∀ g : Nat,
        item.tdGroups.count (g : Int) = (((tasks.map Prod.fst)[g]?).getD []).count p := by
  unfold parseFrame at h
  split at h
  · cases h
  simp only [Option.bind_eq_bind, Option.bind_eq_some_iff, Option.pure_def, Option.some.injEq] at h
  obtain ⟨header, _, user, _, problem, _, td, _, tasks, htasks, rfl⟩ := h
  have tdCount : (withGroups (td.map Prod.snd) (tasks.map Prod.fst)).length = td.length := by
    simp [withGroups_length]
  exact ⟨tasks, tdCount ▸ htasks, rfl, fun p item here g => count_withGroups here⟩

end Sound

/-! ## Frames with a given submission -/

/-- A member that may be missing. -/
def member {α : Type} (part : Option α) (put : α → JsonTree) : JsonTree := part.elim .null put

def Scoring.type : Scoring → Int
  | .normal _ => 0
  | .special type _ => type

def Scoring.args : Scoring → Option (List String)
  | .normal args => some args
  | .special .. => none

def Scoring.checker : Scoring → Option Checker
  | .normal _ => none
  | .special _ checker => some checker

def encodeProblem (p : Problem) : JsonTree := .obj [
  ("id", .int p.problemId),
  ("strict_mode", .bool p.sandboxStrict),
  ("num_stages", .int p.stages),
  ("problem_prog_stages", .arr (p.problemProgStages.elems.map .int)),
  ("problem_prog_compiler", member p.problemProg fun prog => .str (compilerName prog.lang)),
  ("problem_prog_code", member p.problemProg fun prog => .str prog.code),
  ("specjudge_type", .int p.scoring.type),
  ("default_scoring_args", member p.scoring.args fun args => .arr (args.map .str)),
  ("specjudge_compiler", member p.scoring.checker fun c => .str (compilerName c.program.lang)),
  ("sjcode", member p.scoring.checker fun c => .str c.program.code),
  ("judge_between_stages", member p.scoring.checker fun c => .bool c.judgeBetweenStages),
  ("specjudge_compile_args", member p.scoring.checker fun c => .str c.compileArgs),
  ("judge_abnormally_terminated",
    member p.scoring.checker fun c => .bool c.judgeAbnormallyTerminated),
  ("judge_re_as_wa", member p.scoring.checker fun c => .bool c.reAsWa),
  ("interlib_type", .int (p.interlib.elim 0 Interlib.type)),
  ("interlib", member p.interlib fun i => .str i.header),
  ("interlib_impl", member p.interlib fun i => .str i.impl),
  ("summary_type", .int (p.summary.elim 0 Prod.fst)),
  ("summary_compiler", member p.summary fun s => .str (compilerName s.2.lang)),
  ("summary_code", member p.summary fun s => .str s.2.code)]

def encodeTd (line : TdItem × TestdataItem) : JsonTree := .obj [
  ("id", .int line.1.id),
  ("updated_at", .int line.1.updatedAt),
  ("input_compressed", .bool line.1.inputCompressed),
  ("output_compressed", .bool line.1.outputCompressed),
  ("time", .int line.2.time),
  ("vss", .int line.2.vss),
  ("rss", .int line.2.rss),
  ("output", .int line.2.output),
  ("verdict_ignore", .bool line.2.ignoreVerdict)]

def encodeTask (task : List Nat × Int) : JsonTree := .obj [
  ("positions", .arr (task.1.map fun p : Nat => .int p)),
  ("score", .int task.2)]

/-- The groups of each testdata, and the testdata of each task. -/
def Received.groups (r : Received) : List (List Nat) :=
  r.testdata.map fun item => item.tdGroups.map Int.toNat

def Received.positions (r : Received) : List (List Nat) :=
  Incidence.columns r.groupScore.length r.groups

def encodeFrame (r : Received) : JsonTree := .obj [
  ("submission_id", .int r.header.submissionId),
  ("contest_id", .int r.header.contestId),
  ("priority", .int r.header.priority),
  ("compiler", .str (compilerName r.header.lang)),
  ("time", .int r.header.submissionTime),
  ("skip_group", .bool r.header.skipGroup),
  ("code_base64", .str r.header.codeBase64),
  ("user", .obj [
    ("id", .int r.user.submitterId),
    ("name", .str r.user.submitterName),
    ("nickname", .str r.user.submitterNickname)]),
  ("problem", encodeProblem r.problem),
  ("td", .arr ((r.td.zip r.testdata).map encodeTd)),
  ("tasks", .arr ((r.positions.zip r.groupScore).map encodeTask))]

section Encoded

variable {cfg : Reading} {lang : Compiler} {r : Received} {p : Problem}

theorem parseProblemProg_encode (wf : p.WellFormed) :
    parseProblemProg cfg (encodeProblem p) p.stages = some (p.problemProgStages, p.problemProg) := by
  have stages : (getSet (getInt cfg.truncate)) (.arr (p.problemProgStages.elems.map .int)) =
      some p.problemProgStages := by
    apply getSet_put
    intro s hs
    have := wf.progStages s hs
    have := wf.stages
    exact getInt_int (fitsInt_of_lt (by omega) (by omega))
  have read : (encodeProblem p).value (getSet (getInt cfg.truncate)) "problem_prog_stages" ∅ =
      some p.problemProgStages := by
    simpa [encodeProblem, value, List.lookup_cons] using stages
  have inside : (p.problemProgStages.elems.any fun s => decide (s < 0 ∨ p.stages ≤ s)) = false := by
    simpa using wf.progStages
  unfold parseProblemProg
  rw [read]
  simp only [Option.bind_eq_bind, Option.bind_some, inside, Bool.false_eq_true, if_false]
  split
  · rename_i empty
    rw [wf.prog.mpr empty]
    rfl
  · rename_i some_
    obtain ⟨prog, here⟩ := Option.ne_none_iff_exists'.mp (mt wf.prog.mp some_)
    simp [getProgram, encodeProblem, fieldAs, field, List.lookup_cons, here, member, getString,
      getCompiler_compilerName]

theorem parseScoring_encode (wf : p.WellFormed) :
    parseScoring cfg (encodeProblem p) = some p.scoring := by
  have fits := wf.scoring
  cases here : p.scoring with
  | normal args =>
    have list : getList getString (.arr (args.map .str)) = some args := getList_put fun _ _ => rfl
    simp [parseScoring, encodeProblem, fieldAs, field, List.lookup_cons, here, Scoring.type, Scoring.args,
      member, getInt_int fitsInt_zero, list]
  | special type c =>
    rw [here] at fits
    obtain ⟨type32, other⟩ := fits
    simp [parseScoring, encodeProblem, fieldAs, value, field, List.lookup_cons, here, Scoring.type,
      Scoring.checker, member, getInt_int type32, other, getProgram, getString, getBool, getCompiler_compilerName]

theorem parseInterlib_encode (wf : p.WellFormed) :
    parseInterlib cfg (encodeProblem p) = some p.interlib := by
  have fits := wf.interlib
  cases here : p.interlib with
  | none =>
    simp [parseInterlib, encodeProblem, fieldAs, field, List.lookup_cons, here, getInt_int fitsInt_zero]
  | some i =>
    obtain ⟨type32, other⟩ := fits i here
    simp [parseInterlib, encodeProblem, fieldAs, field, List.lookup_cons, here, member, getInt_int type32, other,
      getString]

theorem parseSummary_encode (wf : p.WellFormed) :
    parseSummary cfg (encodeProblem p) = some p.summary := by
  have fits := wf.summary
  cases here : p.summary with
  | none =>
    simp [parseSummary, encodeProblem, value, List.lookup_cons, here, getInt_int fitsInt_zero]
  | some s =>
    obtain ⟨type32, other⟩ := fits s here
    simp [parseSummary, encodeProblem, fieldAs, value, field, List.lookup_cons, here, member, getInt_int type32, other,
      getProgram, getString, getCompiler_compilerName]

theorem parseProblem_encode (wf : p.WellFormed) : parseProblem cfg (encodeProblem p) = some p := by
  have stages := wf.stages
  have id : (encodeProblem p).fieldAs (getInt cfg.truncate) "id" = some p.problemId :=
    congrArg some wf.problemId
  have strict : (encodeProblem p).fieldAs getBool "strict_mode" = some p.sandboxStrict := rfl
  have count : (encodeProblem p).fieldAs (getInt cfg.truncate) "num_stages" = some p.stages :=
    congrArg some (fitsInt_of_lt (n := p.stages) (by omega) (by omega))
  have clamped : max 1 (min p.stages 32) = p.stages := by omega
  simp [parseProblem, id, strict, count, clamped, parseProblemProg_encode wf, parseScoring_encode wf,
    parseInterlib_encode wf, parseSummary_encode wf]

/-- The groups come with the tasks. -/
def ungrouped (item : TestdataItem) : TestdataItem := { item with tdGroups := [] }

theorem parseTd_encode {line : TdItem × TestdataItem} (id : FitsInt line.1.id)
    (updatedAt : FitsLong line.1.updatedAt) (limits : LimitsFor lang line.2) :
    parseTd cfg lang (encodeTd line) = some (line.1, ungrouped line.2) := by
  have free : ¬(lang = .haskell ∧ 0 < line.2.vss) := by
    rintro ⟨haskell, positive⟩
    rw [limits.haskell haskell] at positive
    exact lt_irrefl 0 positive
  simp [parseTd, encodeTd, fieldAs, value, field, List.lookup_cons, getInt_int id, getLong_int updatedAt,
    getLong_int limits.time, getLong_int limits.vss.1, getLong_int limits.rss.1,
    getLong_int limits.output.1, getBool, max_eq_left limits.vss.2, max_eq_left limits.rss.2, max_eq_left limits.output.2, limitsFor, free,
    ungrouped]

theorem parseTask_encode {tdCount : Nat} {task : List Nat × Int}
    (positions : ∀ q ∈ task.1, q < tdCount ∧ FitsInt q) (score : FitsLong task.2) :
    parseTask cfg tdCount (encodeTask task) = some task := by
  have list : (task.1.map fun q : Nat => JsonTree.int q).mapM (getPosition cfg tdCount) =
      some task.1 := by
    have each : ∀ q ∈ task.1, getPosition cfg tdCount (.int q) = some (id q) := by
      intro q hq
      obtain ⟨inside, fits⟩ := positions q hq
      simp [getPosition, getInt_int fits, inside]
    rw [mapM_map each, List.map_id]
  simp [parseTask, encodeTask, fieldAs, field, List.lookup_cons, items, list, getLong_int score]

theorem groups_sorted (wf : r.WellFormed cfg) : ∀ groups ∈ r.groups,
    groups.Pairwise (· ≤ ·) ∧ ∀ g ∈ groups, g < r.groupScore.length := by
  intro groups hg
  obtain ⟨item, hi, rfl⟩ := List.mem_map.mp hg
  obtain ⟨sorted, bound⟩ := wf.groups item hi
  constructor
  · exact List.pairwise_map.mpr (sorted.imp Int.toNat_le_toNat)
  · intro g hg
    obtain ⟨k, hk, rfl⟩ := List.mem_map.mp hg
    have := bound k hk
    omega

theorem positions_fit (wf : r.WellFormed cfg) : ∀ row ∈ r.positions,
    ∀ q ∈ row, q < r.testdata.length ∧ FitsInt q := by
  intro row hr q hq
  obtain ⟨g, hg, rfl⟩ := List.getElem_of_mem hr
  have inside : g < r.groupScore.length := by simpa [Received.positions] using hg
  have here : some r.positions[g] = some (Incidence.noted g 0 r.groups) :=
    (List.getElem?_eq_getElem hg).symm.trans (Incidence.columns_getElem? inside)
  rw [Option.some.inj here] at hq
  obtain ⟨groups, found, mem⟩ := Incidence.row_of_noted hq
  simp only [Received.groups, Nat.sub_zero, List.getElem?_map, Option.map_eq_some_iff] at found
  obtain ⟨item, found, rfl⟩ := found
  refine ⟨(List.getElem?_eq_some_iff.mp found).1, wf.positions q item found ?_⟩
  intro empty
  rw [empty] at mem
  cases mem

theorem withGroups_positions (wf : r.WellFormed cfg) :
    withGroups (r.testdata.map ungrouped) r.positions = r.testdata := by
  have count : r.testdata.length = r.groups.length := by simp [Received.groups]
  rw [withGroups, List.length_map, count, Received.positions,
    Incidence.columns_columns (groups_sorted wf), Received.groups, List.zipWith_map, List.zipWith_self]
  conv_rhs => rw [← List.map_id r.testdata]
  apply List.map_congr_left
  intro item hi
  have back : (item.tdGroups.map Int.toNat).map Nat.cast = item.tdGroups := by
    rw [List.map_map]
    conv_rhs => rw [← List.map_id item.tdGroups]
    apply List.map_congr_left
    intro g hg
    exact Int.toNat_of_nonneg ((wf.groups item hi).2 g hg).1
  simp only [back, ungrouped, id]

theorem parseFrame_encode (wf : r.WellFormed cfg) : parseFrame cfg (encodeFrame r) = some r := by
  have header : parseHeader cfg (encodeFrame r) = some r.header := by
    simp [parseHeader, encodeFrame, fieldAs, value, field, List.lookup_cons, getInt_int wf.header.submissionId,
      getInt_int wf.header.contestId, getLong_int wf.header.priority,
      getLong_int wf.header.submissionTime, getString, getBool, getCompiler_compilerName]
  have user : (encodeFrame r).fieldAs (parseUser cfg) "user" = some r.user := by
    simp [encodeFrame, parseUser, fieldAs, field, List.lookup_cons, getInt_int wf.user, getString]
  have problem : (encodeFrame r).fieldAs (parseProblem cfg) "problem" = some r.problem :=
    parseProblem_encode wf.problem
  have td : (encodeFrame r).fieldAs (getEach (parseTd cfg r.header.lang)) "td" =
      some (r.td.zip (r.testdata.map ungrouped)) := by
    rw [List.zip_map_right]
    apply mapM_map
    intro line hl
    obtain ⟨row, limits⟩ := List.of_mem_zip hl
    exact parseTd_encode (wf.rows _ row).1 (wf.rows _ row).2 (wf.limits _ limits)
  have tdCount : (r.td.zip (r.testdata.map ungrouped)).length = r.testdata.length := by
    simp [wf.td]
  have tasks : (encodeFrame r).fieldAs (getEach (parseTask cfg r.testdata.length)) "tasks" =
      some (r.positions.zip r.groupScore) := by
    refine (mapM_map (f := id) fun task ht => ?_).trans (by rw [List.map_id])
    obtain ⟨row, score⟩ := List.of_mem_zip ht
    exact parseTask_encode (positions_fit wf _ row) (wf.scores _ score)
  have rows : r.positions.length = r.groupScore.length := by simp [Received.positions]
  have items : r.td.length = (r.testdata.map ungrouped).length := by simp [wf.td]
  have some_ : (encodeFrame r).isEmpty = false := rfl
  simp only [parseFrame, some_, Bool.false_eq_true, if_false, header, user, problem, td, tdCount, tasks,
    Option.bind_eq_bind, Option.bind_some, Option.pure_def, List.map_fst_zip items.le,
    List.map_snd_zip items.ge, List.map_fst_zip rows.le, List.map_snd_zip rows.ge,
    withGroups_positions wf, ← wf.processLimit]

end Encoded

/-- What is read from frames are the well-formed submissions, and each comes back from its own. -/
theorem parseFrame_range (cfg : Reading) (r : Received) :
    ((∃ data, parseFrame cfg data = some r) ↔ r.WellFormed cfg) ∧
      (r.WellFormed cfg ↔ parseFrame cfg (encodeFrame r) = some r) := by
  have sound (data : JsonTree) (h : parseFrame cfg data = some r) : r.WellFormed cfg :=
    parseFrame_sound h
  constructor
  · constructor
    · rintro ⟨data, h⟩
      exact sound data h
    · intro wf
      exact ⟨encodeFrame r, parseFrame_encode wf⟩
  · exact ⟨parseFrame_encode, sound (encodeFrame r)⟩

end TiojJudge.Receiver
