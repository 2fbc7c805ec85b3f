import TiojJudge.Judge.Totals

/-!
# The outcome of a summary program

`FinalizeSummary` calculates the totals, and then puts what the summary program wrote in
their place. When it wrote nothing that can be used, only the verdict, the memory and the
time are set again.

* `SummaryReported`: what should be reported;
* `DefaultsToZero`: the default summary gives no points;
* `custom_summary`: when it is reported.
-/

namespace TiojJudge.Judge
open Numerals

/-- What the summary program wrote, when it ended with status 0. -/
def summaryJson (cfg : Config) (o : TaskOutcome) : Option Json :=
  if o.res.siStatus = 0 then o.files.output.bind cfg.parseJson else none

/-- No result at all. -/
structure Blank (res : SubmissionResult) : Prop where
  verdict : res.verdict = .jre
  score : res.totalScore = 0
  time : res.totalTime = 0
  memory : res.totalMemory = 0

def isString : Option JsonValue → Bool
  | some (.str _) => true
  | _ => false

def isNumber : Option JsonValue → Bool
  | some (.num _) => true
  | _ => false

/-- The record after the summary program, by its members. -/
structure Overridden (cfg : Config) (json : Json) (totals res : SubmissionResult) : Prop where
  verdict : isString (json.find "verdict") = false → totals.verdict ≠ .nul → res.verdict = totals.verdict
  notNul : res.verdict ≠ .nul
  score : jsonScore cfg json = none → res.totalScore = totals.totalScore
  time : isNumber (json.find "total_time_us") = false → res.totalTime = totals.totalTime
  memory : isNumber (json.find "total_memory_kib") = false → res.totalMemory = totals.totalMemory
  ceMessage : isString (json.find "ce_message") = false → res.ceMessage = totals.ceMessage
  tdResults : res.tdResults = totals.tdResults
  jceMessage : res.jceMessage = totals.jceMessage

/-- What is reported after a summary program: nothing that cannot be used, and the totals for
what it does not set. -/
structure SummaryReported (cfg : Config) (sub : Submission) (before : SubmissionResult)
    (o : TaskOutcome) (res : SubmissionResult) : Prop where
  unusable : summaryJson cfg o = none → Blank res
  usable : ∀ json, summaryJson cfg o = some json →
    ∃ totals, defaultTotals cfg sub before = .ok totals ∧ Overridden cfg json totals res

/-- There was no program to judge, or the weighted sum of the groups is less than half a unit. -/
def DefaultsToZero (sub : Submission) (res : SubmissionResult) : Prop :=
  let points := ∑ g, sub.groupScore.get g * groupValue sub res.tdResults g
  .ce ≤ res.verdict ∨ -50000000 < points ∧ points < 50000000

instance (sub : Submission) (res : SubmissionResult) : Decidable (DefaultsToZero sub res) :=
  inferInstanceAs (Decidable (_ ∨ _))

variable {cfg : Config} {sub : Submission} {res totals : SubmissionResult} {o : TaskOutcome}
  {json : Json}

/-! ## The default total -/

theorem lround_eq_zero {x : ℚ} : lround x = 0 ↔ 2 * |x| < 1 := by
  have floor {y : ℚ} (nonneg : 0 ≤ y) : (y + 1 / 2).floor = 0 ↔ 2 * y < 1 := by
    change ⌊y + 1 / 2⌋ = 0 ↔ _
    rw [Int.floor_eq_zero_iff, Set.mem_Ico]
    constructor
    · rintro ⟨_, below⟩
      linarith
    · intro below
      exact ⟨by linarith, by linarith⟩
  unfold lround
  rcases le_or_gt 0 x with nonneg | neg
  · rw [if_pos nonneg, abs_of_nonneg nonneg, floor nonneg]
  · rw [if_neg (not_le.mpr neg), abs_of_neg neg, neg_eq_zero, floor (by linarith)]

/-- The bounds of a score do not matter to zero. -/
theorem clampRound_eq_zero {x : ℚ} : clampRound x = 0 ↔ 2 * |x| < 1 := by
  have large : (1 : ℚ) ≤ (scoreMax : ℤ) := by norm_num [scoreMax]
  rw [clampRound, lround_eq_zero]
  rcases le_or_gt x (scoreMax : ℤ) with below | above
  · rw [min_eq_left below]
    rcases le_or_gt (-(scoreMax : ℤ) : ℚ) x with inside | under
    · rw [max_eq_right inside]
    · rw [max_eq_left under.le, abs_neg, abs_of_nonneg (by linarith), abs_of_neg (by linarith)]
      exact iff_of_false (by linarith) (by linarith)
  · rw [min_eq_right above.le, max_eq_right (by linarith), abs_of_nonneg (by linarith),
      abs_of_nonneg (by linarith)]
    exact iff_of_false (by linarith) (by linarith)

theorem defaultTotals_zero (h : defaultTotals cfg sub res = .ok totals) :
    totals.totalScore = 0 ↔ DefaultsToZero sub res := by
  unfold defaultTotals at h
  split at h
  · rename_i low
    cases folded : subtaskScores sub res.tdResults with
    | error => simp [folded, Except.map] at h
    | ok scores =>
      have sum : weightedScore sub scores =
          ∑ g, sub.groupScore.get g * groupValue sub res.tdResults g := by
        rw [weightedScore, weightedTerms_eq folded, List.sum_ofFn]
        rfl
      simp only [folded, Except.map, Except.ok.injEq] at h
      subst h
      rw [normalizeScore_fin, clampRound_eq_zero, DefaultsToZero, ← sum,
        or_iff_right (not_le.mpr low)]
      have units : (1000000 * (weightedScore sub scores / (100000000 * 1000000)) : ℚ) =
          weightedScore sub scores / 100000000 := by ring
      rw [units, abs_div, abs_of_pos (by norm_num : (0 : ℚ) < 100000000), mul_div_assoc',
        div_lt_one (by norm_num)]
      have half : 2 * |(weightedScore sub scores : ℚ)| < 100000000 ↔
          |(weightedScore sub scores : ℚ)| < 50000000 :=
        ⟨fun h => by linarith, fun h => by linarith⟩
      rw [half, abs_lt]
      norm_cast
  · rename_i high
    cases h
    exact iff_of_true rfl (.inl (not_lt.mp high))

/-! ## The two outcomes -/

theorem customTotals_unusable (none : summaryJson cfg o = none) :
    customTotals cfg o totals = summaryFailed totals := by
  unfold summaryJson at none
  unfold customTotals
  cases written : o.files.output with
  | none => rfl
  | some output =>
    dsimp only
    split
    · rfl
    · rename_i ended
      rw [not_not] at ended
      rw [if_pos ended, written, Option.bind_some] at none
      rw [readSummaryResult, none]
      rfl

theorem jsonNumber_other {attr : String} {target : Int} (other : isNumber (json.find attr) = false) :
    jsonNumber json attr target = target := by
  unfold jsonNumber
  split
  · rename_i found
    rw [found] at other
    cases other
  · rfl

theorem customTotals_usable (found : summaryJson cfg o = some json) :
    Overridden cfg json totals (customTotals cfg o totals) := by
  obtain ⟨ended, written⟩ := Option.ite_none_right_eq_some.mp found
  obtain ⟨output, here, parsed⟩ := Option.bind_eq_some_iff.mp written
  simp only [customTotals, here, ended, readSummaryResult, parsed, Option.map_some, Option.getD_some,
    ne_eq, not_true_eq_false, if_false]
  constructor
  · intro other keeps
    dsimp only
    split
    · rename_i found
      rw [found] at other
      cases other
    · rw [if_neg keeps]
  · dsimp only
    split_ifs with nul
    · decide
    · exact nul
  · intro none
    simp [none]
  · exact jsonNumber_other
  · exact jsonNumber_other
  · intro other
    dsimp only
    split
    · rename_i found
      rw [found] at other
      cases other
    · rfl
  · rfl
  · rfl

/-- What is reported after a summary program is right if it is usable, or the default summary
gives no points. -/
theorem custom_summary {c c' : Ctx} {listSize : Nat}
    (done : finalizeSummary cfg c o false listSize = .ok c') :
    (SummaryReported cfg c.sub c.result o c'.result ↔
      (summaryJson cfg o = none → DefaultsToZero c.sub c.result)) ∧
    ∀ res, .overallResult c.sub res ∈ c'.log.drop c.log.length → res = c'.result := by
  have log := (finalizeSummary_spec done).2.2.2.2.2.2
  unfold finalizeSummary at done
  cases calculated : defaultTotals cfg c.sub c.result with
  | error => simp [calculated, Except.map] at done
  | ok totals =>
    have after : c'.result = customTotals cfg o totals := by
      simp only [calculated, Except.map, Except.ok.injEq] at done
      subst done
      simp
    refine ⟨?_, fun res reported => ?_⟩
    · rw [after]
      constructor
      · intro right none
        have blank := (right.unusable none).score
        rw [customTotals_unusable none] at blank
        exact (defaultTotals_zero calculated).mp blank
      · intro zero
        refine ⟨fun none => ?_, fun json found => ⟨totals, calculated, customTotals_usable found⟩⟩
        rw [customTotals_unusable none]
        exact ⟨rfl, (defaultTotals_zero calculated).mpr (zero none), rfl, rfl⟩
    · rw [log, List.append_assoc, List.append_assoc, List.drop_left] at reported
      have same : (c.cancelled = false ∧ c.sub.reporter.reportOverallResult = true) ∧
          res = c'.result := by simpa using reported
      exact same.2

/-- A summary program that is killed, after a testdata with 30.5 points. -/
def killedSummary : TaskOutcome :=
  ⟨{ CjailResult.zero with siStatus := 9, siCode := CLD_KILLED }, .empty⟩

/-- `custom_summary` for a compile error. -/
theorem custom_summary_of_ce :
    ∃ c c', finalizeSummary (sampleConfig 1) c killedSummary false 1 = .ok c' ∧
      SummaryReported (sampleConfig 1) c.sub c.result killedSummary c'.result :=
  let c : Ctx := { scoredCtx 100 with result := { (scoredCtx 100).result with verdict := .ce } }
  ⟨c, _, rfl, (custom_summary (c := c) rfl).1.mpr fun _ => .inl le_rfl⟩

/-- The points of the default summary are reported with the verdict `JRE`. -/
theorem custom_summary_scored :
    ∃ c', finalizeSummary (sampleConfig 1) (scoredCtx 100) killedSummary false 1 = .ok c' ∧
      c'.result.verdict = .jre ∧ c'.result.totalScore = 30500000 ∧
      ¬ SummaryReported (sampleConfig 1) (scoredCtx 100).sub (scoredCtx 100).result killedSummary
        c'.result := by
  have points : ∃ c', finalizeSummary (sampleConfig 1) (scoredCtx 100) killedSummary false 1 = .ok c' ∧
      c'.result.verdict = .jre ∧ c'.result.totalScore = 30500000 := ⟨_, rfl, rfl, by decide +kernel⟩
  obtain ⟨c', done, verdict, score⟩ := points
  refine ⟨c', done, verdict, score, fun right => ?_⟩
  have blank := (right.unusable rfl).score
  rw [score] at blank
  cases blank

end TiojJudge.Judge
