import TiojJudge.Judge.Readers

/-!
# Verdict and score of a checker's result

* `Matched`: the full score for an accepted testdata, 0 for any other;
* `Overrides`, `Unscored`: whether a checker says anything of the score;
* `finalizeScoring_matched_iff`: a checker that does not leaves verdict and score
  matched, but for one branch of the Kattis protocol;
* `setupScoring_skip_iff`: a user's output in the place of a checker's is not read.
-/

namespace TiojJudge.Judge
open Numerals

variable {cfg : Config} {sub : Submission} {o : TaskOutcome} {td td' : TestdataResult}
  {lastStage skipped : Bool} {stage : Nat}

structure Matched (td : TestdataResult) : Prop where
  full : td.verdict = .ac ↔ td.score = fullScore
  zero : td.verdict ≠ .ac → td.score = 0

namespace Matched

theorem accepted (ac : td.verdict = .ac) (full : td.score = fullScore) : Matched td :=
  ⟨iff_of_true ac full, fun no => absurd ac no⟩

theorem failed (no : td.verdict ≠ .ac) (zero : td.score = 0) : Matched td :=
  ⟨iff_of_false no (by rw [zero]; decide), fun _ => zero⟩

theorem of_same (h : Matched td) (verdict : td'.verdict = td.verdict) (score : td'.score = td.score) :
    Matched td' :=
  ⟨by rw [verdict, score]; exact h.full, by rw [verdict, score]; exact h.zero⟩

/-- Neither change of the verdict is to or from `AC`. -/
theorem settle_iff : Matched (settleStage lastStage td) ↔ Matched td := by
  have score : (settleStage lastStage td).score = td.score := by
    unfold settleStage
    split_ifs <;> rfl
  have ac : (settleStage lastStage td).verdict = .ac ↔ td.verdict = .ac := by
    unfold settleStage
    split
    · exact Iff.rfl
    · split
      · rename_i unset
        obtain ⟨-, nul⟩ := Bool.and_eq_true_iff.mp unset
        have nul : td.verdict = .nul := beq_iff_eq.mp nul
        exact iff_of_false nofun (by rw [nul]; nofun)
      · exact Iff.rfl
  constructor
  · exact fun h => ⟨ac.symm.trans (score ▸ h.full), fun no => score ▸ h.zero (mt ac.mp no)⟩
  · exact fun h => ⟨ac.trans (score.symm ▸ h.full), fun no => score.trans (h.zero (mt ac.mpr no))⟩

end Matched

/-! ## Override commands -/

/-- The parser comes to a command for the verdict, or for the score where one is allowed. -/
inductive Overrides (breakOnNonMatch allowScore : Bool) : List Char → Prop
  | score {text rest rest' : List Char} {score : LongDouble} (allowed : allowScore = true)
      (cmd : extractWord text = some ("SPECJUDGE_OVERRIDE_SCORE", rest))
      (number : extractLongDouble rest = (score, some rest')) :
      Overrides breakOnNonMatch allowScore text
  | verdict {text rest rest' : List Char} {abr : String}
      (cmd : extractWord text = some ("SPECJUDGE_OVERRIDE_VERDICT", rest))
      (word : extractWord rest = some (abr, rest')) : Overrides breakOnNonMatch allowScore text
  | number {text rest rest' : List Char} {cmd : String} {n : Int}
      {store : Int → TestdataResult → TestdataResult}
      (word : extractWord text = some (cmd, rest)) (stores : overrideNumber cmd = some store)
      (number : extractInt longMin longMax rest = some (n, rest'))
      (later : Overrides breakOnNonMatch allowScore rest') : Overrides breakOnNonMatch allowScore text
  | other {text rest : List Char} {cmd : String} (goes : breakOnNonMatch = false)
      (word : extractWord text = some (cmd, rest)) (unknown : overrideNumber cmd = none)
      (later : Overrides breakOnNonMatch allowScore rest) : Overrides breakOnNonMatch allowScore text

theorem overrideNumber_keeps {cmd : String} {store : Int → TestdataResult → TestdataResult}
    (h : overrideNumber cmd = some store) (n : Int) :
    (store n td).verdict = td.verdict ∧ (store n td).score = td.score := by
  unfold overrideNumber at h
  split_ifs at h <;> (cases h; exact ⟨rfl, rfl⟩)

/-- Without one, verdict and score stay. -/
theorem parse_keeps {breakOnNonMatch allowScore scoreOverriden : Bool} {text : List Char}
    (plain : ¬ Overrides breakOnNonMatch allowScore text) :
    (parseSpecjudgeOverrides cfg breakOnNonMatch allowScore scoreOverriden text td).verdict =
        td.verdict ∧
      (parseSpecjudgeOverrides cfg breakOnNonMatch allowScore scoreOverriden text td).score =
        td.score := by
  fun_induction parseSpecjudgeOverrides with
  | case1 | case3 | case5 | case7 | case8 => exact ⟨rfl, rfl⟩
  | case2 _ _ _ _ _ word isScore _ _ number _ =>
    obtain ⟨allowed, cmd⟩ := Bool.and_eq_true_iff.mp isScore
    exact absurd (.score allowed (beq_iff_eq.mp cmd ▸ word) number) plain
  | case4 _ _ _ _ _ word _ isVerdict _ _ found _ =>
    exact absurd (.verdict (beq_iff_eq.mp isVerdict ▸ word) found) plain
  | case6 _ _ _ _ _ word _ _ _ stores _ _ number ih =>
    obtain ⟨verdict, score⟩ := ih fun later => plain (.number word stores number later)
    obtain ⟨same_verdict, same_score⟩ := overrideNumber_keeps stores _
    exact ⟨verdict.trans same_verdict, score.trans same_score⟩
  | case9 _ _ _ _ _ word _ _ unknown goes ih =>
    exact ih fun later => plain (.other (Bool.eq_false_iff.mpr goes) word unknown later)

/-! ## The four protocols -/

/-- The checker gives no score, and does not override the verdict. -/
def Unscored (cfg : Config) (type : SpecjudgeType) (o : TaskOutcome) : Prop :=
  match type with
  | .specjudgeOld => ∀ output ∈ o.files.output, ∀ n ∈ extractInt intMin intMax output,
      ¬ Overrides true true n.2
  | .specjudgeNew => ∀ output ∈ o.files.output, ∀ json ∈ cfg.parseJson output,
      json.find "score" = none
  | .specjudgePolygon => o.res.siStatus < 50 ∧
      (o.res.siStatus = 7 → ∀ word ∈ o.files.output.bind extractWord,
        word.1 ≠ "points" ∧ ¬ Overrides false false word.2) ∧
      (o.res.siStatus = 0 → ∀ output ∈ o.files.output, ¬ Overrides false false output)
  | .specjudgeKattis => o.files.scoreMultiplier = none ∧ o.files.score = none ∧
      ∀ text ∈ o.files.judgemessage, ¬ Overrides true false text
  | .normal | .skip => False

theorem setACOrContinue_matched (no : td.verdict ≠ .ac) (zero : td.score = 0) :
    Matched (setACOrContinue lastStage td) := by
  unfold setACOrContinue
  split
  · exact .accepted rfl rfl
  · exact .failed no zero

theorem readOldSpecjudgeResult_matched {output : List Char} (no : td.verdict ≠ .ac)
    (zero : td.score = 0)
    (plain : ∀ n ∈ extractInt intMin intMax output, ¬ Overrides true true n.2) :
    Matched (readOldSpecjudgeResult cfg output lastStage td) := by
  unfold readOldSpecjudgeResult
  split
  · rename_i x rest read
    split
    · obtain ⟨verdict, score⟩ := parse_keeps (plain (x, rest) read)
      exact (setACOrContinue_matched no zero).of_same verdict score
    · exact .failed nofun zero
  · exact .failed nofun zero

theorem jsonVerdict_matched {json : Json} (no : td.verdict ≠ .ac) (zero : td.score = 0) :
    Matched (jsonVerdict json td) := by
  unfold jsonVerdict
  split
  · rename_i s _
    by_cases ac : abrToVerdict s true = .ac
    · exact .accepted ac (if_pos ac)
    · exact .failed ac ((if_neg ac).trans zero)
  · exact .failed no zero

theorem readNewSpecjudgeResult_matched {output : List Char} (no : td.verdict ≠ .ac)
    (zero : td.score = 0) (plain : ∀ json ∈ cfg.parseJson output, json.find "score" = none) :
    Matched (readNewSpecjudgeResult cfg output td) := by
  unfold readNewSpecjudgeResult
  split
  · exact .failed no zero
  · rename_i json parsed
    have none : jsonScore cfg json = none := by rw [jsonScore, plain json parsed]
    have verdict : Matched (jsonVerdict json td) := jsonVerdict_matched no zero
    refine verdict.of_same rfl ?_
    dsimp only
    rw [none]
    rfl

theorem polygonPoints_unscored {output : Option (List Char)}
    (plain : ∀ word ∈ output.bind extractWord,
      word.1 ≠ "points" ∧ ¬ Overrides false false word.2) :
    (polygonPoints cfg output).1 = 0 ∧
      ∀ rest ∈ (polygonPoints cfg output).2, ¬ Overrides false false rest := by
  unfold polygonPoints
  split
  · rename_i word rest found
    obtain ⟨other, quiet⟩ := plain (word, rest) found
    have other : (word == "points") = false := beq_eq_false_iff_ne.mpr other
    simp [other, quiet]
  · exact ⟨rfl, nofun⟩

theorem readPolygonSpecjudgeResult_matched {code : Int} {output : Option (List Char)}
    (no : td.verdict ≠ .ac) (zero : td.score = 0) (whole : code < 50)
    (points : code = 7 → ∀ word ∈ output.bind extractWord,
      word.1 ≠ "points" ∧ ¬ Overrides false false word.2)
    (plain : code = 0 → ∀ text ∈ output, ¬ Overrides false false text) :
    Matched (readPolygonSpecjudgeResult cfg code output lastStage td) := by
  -- a score below the full one makes the verdict `WA`
  have checked {td : TestdataResult} (h : Matched td) :
      Matched (if td.score < fullScore then { td with verdict := .wa } else td) := by
    split
    · rename_i less
      exact .failed nofun (h.zero fun ac => less.ne (h.full.mp ac))
    · exact h
  have parsed {td : TestdataResult} {text : List Char} (h : Matched td)
      (quiet : ¬ Overrides false false text) :
      Matched (parseSpecjudgeOverrides cfg false false false text td) :=
    h.of_same (parse_keeps quiet).1 (parse_keeps quiet).2
  have start : Matched (setACOrContinue lastStage td) := setACOrContinue_matched no zero
  unfold readPolygonSpecjudgeResult
  split
  · exact .failed nofun zero
  · rename_i range
    dsimp only
    by_cases seven : code = 7
    · obtain ⟨none, quiet⟩ : (polygonPoints cfg output).1 = 0 ∧ _ :=
        polygonPoints_unscored (points seven)
      simp only [if_pos seven, none]
      rw [if_pos (by decide)]
      split
      · rename_i rest found
        exact parsed (.failed nofun rfl) (quiet rest found)
      · exact .failed nofun rfl
    · have ok : code = 0 := by
        by_contra other
        exact range ⟨whole, other, seven⟩
      simp only [if_neg seven, if_neg whole.not_ge]
      split
      · exact parsed (checked start) (plain ok _ rfl)
      · exact checked start

/-- A stage before the last one that is accepted without a `nextpass.in`. -/
def ImmediateSuccess (lastStage : Bool) (code : Int) (files : BoxFiles) : Prop :=
  code = 42 ∧ lastStage = false ∧ files.nextpass = false

theorem kattisAccept_matched_iff {files : BoxFiles} (no : td.verdict ≠ .ac) (zero : td.score = 0)
    (multiplier : files.scoreMultiplier = none) (score : files.score = none) :
    Matched (kattisAccept cfg files lastStage td) ↔
      ¬ (lastStage = false ∧ files.nextpass = false) := by
  have start : Matched (setACOrContinue lastStage td) := setACOrContinue_matched no zero
  unfold kattisAccept
  simp only [multiplier, score, kattisScore, Option.map_none]
  cases lastStage with
  | true => exact iff_of_true start fun early => Bool.noConfusion early.1
  | false =>
    cases pass : files.nextpass with
    | true => exact iff_of_true start fun missing => Bool.noConfusion missing.2
    | false =>
      refine iff_of_false (fun matched => ?_) (not_not.mpr ⟨rfl, rfl⟩)
      have full : td.score = fullScore := matched.full.mp rfl
      rw [zero] at full
      exact absurd full (by decide)

theorem readKattisSpecjudgeResult_matched_iff {code : Int} {files : BoxFiles} (no : td.verdict ≠ .ac)
    (zero : td.score = 0) (multiplier : files.scoreMultiplier = none) (score : files.score = none)
    (plain : ∀ text ∈ files.judgemessage, ¬ Overrides true false text) :
    Matched (readKattisSpecjudgeResult cfg code files lastStage td) ↔
      ¬ ImmediateSuccess lastStage code files := by
  have judged : Matched (if code = 42 then kattisAccept cfg files lastStage td
      else { td with verdict := .wa }) ↔ ¬ ImmediateSuccess lastStage code files := by
    split
    · rename_i accepts
      rw [kattisAccept_matched_iff no zero multiplier score]
      simp [ImmediateSuccess, accepts]
    · rename_i rejects
      exact iff_of_true (.failed nofun zero) fun success => rejects success.1
  rw [← judged]
  unfold readKattisSpecjudgeResult
  generalize (if code = 42 then kattisAccept cfg files lastStage td
    else { td with verdict := .wa }) = td'
  have same {td td' : TestdataResult} (verdict : td'.verdict = td.verdict)
      (score : td'.score = td.score) : Matched td' ↔ Matched td :=
    ⟨fun h => h.of_same verdict.symm score.symm, fun h => h.of_same verdict score⟩
  cases message : files.judgemessage with
  | none => cases files.teammessage <;> exact same rfl rfl
  | some text =>
    cases files.teammessage with
    | none => exact same (parse_keeps (plain text message)).1 (parse_keeps (plain text message)).2
    | some team => exact same (parse_keeps (plain text message)).1 (parse_keeps (plain text message)).2

/-- A Kattis checker that ran to its end accepts a stage before the last one, and leaves no
`nextpass.in`. -/
def EndsAtOnce (sub : Submission) (stage : Nat) (o : TaskOutcome) (skipped : Bool) : Prop :=
  skipped = false ∧ sub.specjudgeType = .specjudgeKattis ∧
    specjudgeFailed sub.specjudgeType o = false ∧
    ImmediateSuccess (sub.lastStage stage) o.res.siStatus o.files

theorem readSpecjudgeResult_matched_iff (no : td.verdict ≠ .ac) (zero : td.score = 0)
    (unscored : Unscored cfg sub.specjudgeType o) :
    Matched (readSpecjudgeResult cfg sub o (sub.lastStage stage) td) ↔
      ¬ EndsAtOnce sub stage o false := by
  unfold readSpecjudgeResult
  cases failed : specjudgeFailed sub.specjudgeType o with
  | true =>
    refine iff_of_true ?_ fun success => by cases failed.symm.trans success.2.2.1
    rw [if_pos rfl]
    split
    · refine .failed ?_ zero
      dsimp only
      split <;> nofun
    · exact .failed no zero
  | false =>
    rw [if_neg Bool.false_ne_true]
    have other (type : sub.specjudgeType ≠ .specjudgeKattis) : ¬ EndsAtOnce sub stage o false :=
      fun success => type success.2.1
    have output {p : List Char → Prop} (h : ∀ output ∈ o.files.output, p output) :
        p (o.files.output.getD []) := by
      cases found : o.files.output with
      | none => simp [specjudgeFailed, found] at failed
      | some output => exact h output found
    cases type : sub.specjudgeType with
    | specjudgeOld =>
      rw [type] at unscored
      exact iff_of_true (readOldSpecjudgeResult_matched no zero (output unscored))
        (other (by rw [type]; decide))
    | specjudgeNew =>
      rw [type] at unscored
      exact iff_of_true (readNewSpecjudgeResult_matched no zero (output unscored))
        (other (by rw [type]; decide))
    | specjudgePolygon =>
      rw [type] at unscored
      obtain ⟨whole, points, plain⟩ := unscored
      exact iff_of_true (readPolygonSpecjudgeResult_matched no zero whole points plain)
        (other (by rw [type]; decide))
    | specjudgeKattis =>
      rw [type] at unscored
      obtain ⟨multiplier, score, plain⟩ := unscored
      refine (readKattisSpecjudgeResult_matched_iff no zero multiplier score plain).trans (not_congr ?_)
      exact ⟨fun success => ⟨rfl, type, failed, success⟩, fun ends => ends.2.2.2⟩
    | normal | skip =>
      rw [type] at unscored
      exact unscored.elim

theorem executeVerdict_ne_ac (sub : Submission) (lim : TestdataItem) (res : CjailResult)
    (td : TestdataResult) : executeVerdict sub lim res td ≠ .ac := by
  unfold executeVerdict
  split_ifs <;> nofun

section Scoring

variable {c c' : Ctx} {i : Nat} {files : BoxFiles}

/-- The execution of this or an earlier stage left the testdata as it is. -/
theorem finalizeScoring_matched_iff {lim : TestdataItem} {executed : Nat} {res : CjailResult}
    (left : c.td i = executeResult cfg c.sub lim executed res td)
    (unscored : skipped = false → Unscored cfg c.sub.specjudgeType o)
    (h : finalizeScoring cfg c i stage o skipped = .ok c') :
    Matched (c'.td i) ↔ ¬ EndsAtOnce c.sub stage o skipped := by
  have no : (c.td i).verdict ≠ .ac := by
    rw [left]
    exact executeVerdict_ne_ac _ _ _ _
  rw [(finalizeScoring_spec h).td, scoringOutcome, Matched.settle_iff]
  cases skipped with
  | true => exact iff_of_true (.failed no rfl) fun ends => by cases ends.1
  | false => exact readSpecjudgeResult_matched_iff no rfl (unscored rfl)

/-- One testdata whose first of two stages was executed. -/
def executedCtx (type : SpecjudgeType) : Ctx where
  sub := { sampleSubmission 1 1 [sampleItem false [0]] with
    specjudgeType := type
    stages := 2
    judgeBetweenStages := true }
  result := { SubmissionResult.new with
    tdResults := [{ TestdataResult.new with executeResult := exited 0 }] }
  cancelled := false
  cancelledGroup := none
  log := []

theorem executedCtx_left (type : SpecjudgeType) : (executedCtx type).td 0 =
    executeResult (sampleConfig 1) (executedCtx type).sub (sampleItem false [0]) 0 (exited 0) .new := by
  cases type <;> decide +kernel

theorem finalizeScoring_matched_old : ∃ c', finalizeScoring (sampleConfig 1)
    (executedCtx .specjudgeOld) 0 1 ⟨exited 0, { BoxFiles.empty with output := some ['0'] }⟩ false =
      .ok c' ∧ Matched (c'.td 0) := by
  have quiet : Unscored (sampleConfig 1) .specjudgeOld
      ⟨exited 0, { BoxFiles.empty with output := some ['0'] }⟩ := by
    rintro output ⟨⟩ n ⟨⟩ overrides
    cases overrides with
    | score _ cmd | verdict cmd | number cmd | other _ cmd => cases cmd
  refine ⟨_, rfl, ?_⟩
  apply (finalizeScoring_matched_iff (executedCtx_left _) (fun _ => quiet) rfl).mpr
  rintro ⟨-, type, -⟩
  cases type

/-- A first stage is accepted without a `nextpass.in`. -/
theorem finalizeScoring_unmatched_kattis : ∃ c', finalizeScoring (sampleConfig 1)
    (executedCtx .specjudgeKattis) 0 0 ⟨exited 42, { BoxFiles.empty with output := some [] }⟩ false =
      .ok c' ∧
    (executedCtx .specjudgeKattis).td 0 = executeResult (sampleConfig 1)
      (executedCtx .specjudgeKattis).sub (sampleItem false [0]) 0 (exited 0) .new ∧
    Unscored (sampleConfig 1) .specjudgeKattis
      ⟨exited 42, { BoxFiles.empty with output := some [] }⟩ ∧
    (c'.td 0).verdict = .ac ∧ (c'.td 0).score = 0 ∧ ¬ Matched (c'.td 0) := by
  refine ⟨_, rfl, executedCtx_left _, ⟨rfl, rfl, nofun⟩, by decide, by decide, fun matched => ?_⟩
  exact absurd (matched.full.mp (by decide)) (by decide)

/-! ## A user's output in the place of a checker's -/

/-- What `ReadNewSpecjudgeResult` makes of a file after the last stage. -/
def readByFile (cfg : Config) (text : List Char) (td : TestdataResult) : TestdataResult :=
  settleStage true (readNewSpecjudgeResult cfg text { td with score := 0 })

/-- The member `verdict`, `NUL` where there is none that is known. -/
def namedVerdict (json : Json) : Verdict :=
  match json.find "verdict" with
  | some (.str s) => abrToVerdict s true
  | _ => .nul

/-- The file names the verdict of a checker that failed, and no score but 0. -/
def NamesFailure (cfg : Config) (sub : Submission) (text : List Char) : Prop :=
  (if sub.specjudgeReAsWa then (cfg.parseJson text).elim .nul namedVerdict ∈ [Verdict.nul, .wa]
    else (cfg.parseJson text).elim .nul namedVerdict = .jre) ∧
  ∀ score ∈ (cfg.parseJson text).bind (jsonScore cfg), score = 0

theorem jsonVerdict_named {json : Json} (nul : td.verdict = .nul) (zero : td.score = 0) :
    (jsonVerdict json td).verdict = namedVerdict json ∧
      (namedVerdict json ≠ .ac → (jsonVerdict json td).score = 0) := by
  unfold jsonVerdict namedVerdict
  cases json.find "verdict" with
  | none => exact ⟨nul, fun _ => zero⟩
  | some member =>
    cases member with
    | str s => exact ⟨rfl, fun no => (if_neg no).trans zero⟩
    | num _ | other => exact ⟨nul, fun _ => zero⟩

theorem readByFile_verdict {text : List Char} (nul : td.verdict = .nul) :
    (readByFile cfg text td).verdict =
      if (cfg.parseJson text).elim .nul namedVerdict = .nul then .wa
      else (cfg.parseJson text).elim .nul namedVerdict := by
  have read : (readNewSpecjudgeResult cfg text { td with score := 0 }).verdict =
      (cfg.parseJson text).elim .nul namedVerdict := by
    unfold readNewSpecjudgeResult
    cases cfg.parseJson text with
    | none => exact nul
    | some json => exact (@jsonVerdict_named { td with score := 0 } json nul rfl).1
  rw [readByFile, settleStage, ← read]
  split_ifs <;> simp_all

theorem readByFile_score {text : List Char} (nul : td.verdict = .nul)
    (no : (cfg.parseJson text).elim .nul namedVerdict ≠ .ac) :
    (readByFile cfg text td).score = ((cfg.parseJson text).bind (jsonScore cfg)).getD 0 := by
  have settled (td : TestdataResult) : (settleStage true td).score = td.score := by
    unfold settleStage
    split_ifs <;> rfl
  rw [readByFile, settled, readNewSpecjudgeResult]
  cases parsed : cfg.parseJson text with
  | none => rfl
  | some json =>
    rw [parsed] at no
    exact congrArg (jsonScore cfg json).getD ((@jsonVerdict_named { td with score := 0 } json nul rfl).2 no)

/-- What is stored instead: the all-zero result of a process does not pass for one that exited. -/
theorem scoringOutcome_skip (type : sub.specjudgeType = .skip) (last : sub.lastStage stage = true)
    (nul : td.verdict = .nul) :
    (scoringOutcome cfg sub stage ⟨.zero, files⟩ false td).verdict =
        (if sub.specjudgeReAsWa then .wa else .jre) ∧
      (scoringOutcome cfg sub stage ⟨.zero, files⟩ false td).score = 0 := by
  have failed : specjudgeFailed sub.specjudgeType ⟨.zero, files⟩ = true := by
    rw [type]
    simp [specjudgeFailed, CjailResult.zero, CLD_EXITED]
  rw [scoringOutcome, last, readSpecjudgeResult, failed]
  cases sub.specjudgeReAsWa <;> simp [settleStage, nul]

theorem namesFailure_iff {text : List Char} (nul : td.verdict = .nul) :
    ((if sub.specjudgeReAsWa then .wa else .jre) = (readByFile cfg text td).verdict ∧
        0 = (readByFile cfg text td).score) ↔ NamesFailure cfg sub text := by
  have score (no : (cfg.parseJson text).elim .nul namedVerdict ≠ .ac) :
      0 = (readByFile cfg text td).score ↔
        ∀ score ∈ (cfg.parseJson text).bind (jsonScore cfg), score = 0 := by
    rw [readByFile_score nul no]
    cases (cfg.parseJson text).bind (jsonScore cfg) <;> simp [eq_comm]
  rw [NamesFailure, readByFile_verdict nul]
  generalize (cfg.parseJson text).elim .nul namedVerdict = named at score ⊢
  cases sub.specjudgeReAsWa <;> cases named <;> simp [score]

/-- The last stage of a submission that has no checker: the file in the place of the checker's
output decides if and only if it names what a failed checker gives anyway. -/
theorem setupScoring_skip_iff {item : TestdataItem} {text : List Char} {launch : Bool}
    (type : c.sub.specjudgeType = .skip) (last : c.sub.lastStage stage = true)
    (running : c.result.verdict = .nul) (found : c.sub.testdata[i]? = some item)
    (free : c.isCancelled item.tdGroups = false) (here : c.result.tdResults[i]? = some td)
    (nul : td.verdict = .nul) (go : td.skipStage = false)
    (h : setupScoring cfg c i stage { files with output := some text } = .ok (launch, c')) :
    ((c'.td i).verdict = (readByFile cfg text td).verdict ∧
      (c'.td i).score = (readByFile cfg text td).score) ↔ NamesFailure cfg c.sub text := by
  have same : c.td i = td := by simp [Ctx.td, here]
  have scored : (finalizeScoring cfg c i stage ⟨.zero, { files with output := some text }⟩ false).map
      (fun c => (false, c)) = .ok (launch, c') := by
    simpa [setupScoring, running, found, free, here, nul, go, type] using h
  cases result : finalizeScoring cfg c i stage ⟨.zero, { files with output := some text }⟩ false with
  | error e =>
    rw [result] at scored
    cases scored
  | ok c'' =>
    rw [result] at scored
    cases scored
    have td_after := (finalizeScoring_spec result).td
    rw [same] at td_after
    obtain ⟨verdict, score⟩ :=
      @scoringOutcome_skip cfg _ td _ { files with output := some text } type last nul
    rw [td_after, verdict, score]
    exact namesFailure_iff nul

/-- A checker that fails rejects, and the file is no JSON. -/
theorem setupScoring_skip_reWa : ∃ c', setupScoring (sampleConfig 1)
    { executedCtx .skip with sub := { (executedCtx .skip).sub with specjudgeReAsWa := true } } 0 1
      { BoxFiles.empty with output := some [] } = .ok (false, c') ∧
    (c'.td 0).verdict = .wa ∧
    (((c'.td 0).verdict = (readByFile (sampleConfig 1) [] ((executedCtx .skip).td 0)).verdict ∧
        (c'.td 0).score = (readByFile (sampleConfig 1) [] ((executedCtx .skip).td 0)).score) ↔
      NamesFailure (sampleConfig 1) { (executedCtx .skip).sub with specjudgeReAsWa := true } []) := by
  refine ⟨_, rfl, by decide, ?_⟩
  exact setupScoring_skip_iff
    (c := { executedCtx .skip with sub := { (executedCtx .skip).sub with specjudgeReAsWa := true } })
    rfl rfl rfl rfl rfl rfl rfl rfl rfl

/-- The user's output is a JSON that accepts. -/
theorem setupScoring_skip_unread : ∃ c', setupScoring (sampleConfig 1) (executedCtx .skip) 0 1
      { BoxFiles.empty with output := some acceptText } = .ok (false, c') ∧
    ((executedCtx .skip).td 0).verdict = .nul ∧
    ¬ ((c'.td 0).verdict = (readByFile (sampleConfig 1) acceptText ((executedCtx .skip).td 0)).verdict ∧
      (c'.td 0).score = (readByFile (sampleConfig 1) acceptText ((executedCtx .skip).td 0)).score) :=
  ⟨_, rfl, rfl, by decide⟩

end Scoring

end TiojJudge.Judge
