import Mathlib.Algebra.BigOperators.Fin
import Mathlib.Algebra.Order.BigOperators.Group.List
import Mathlib.Tactic.FieldSimp
import TiojJudge.Decimals
import TiojJudge.Judge.Faults

/-!
# The totals of the default summary

* `AtMost`, `subtaskScores_atMost`: the scores of the groups, by their lower bounds;
* `InScoreRange`, `normalizeScore_range`: what `NormalizeScore` returns;
* `sentinelMinimum`, `groupScores_eq`: the score of a group is the minimum over the results that
  count in it, from a sentinel that is no score (`sentinel_iff`);
* `partialSum_lt`: the weighted sum has room in 128 bits;
* `SumsFit`, `sum_wrapped`: a sum that is kept in 64 bits;
* `default_summary`: what `FinalizeSummary` makes of the results.
-/

namespace TiojJudge.Judge
open Numerals

variable {cfg : Config} {sub : Submission}

/-! ## By lower bounds -/

/-- `x` is a lower bound of the score of group `g`, when there is one. -/
def AtMost (x : Int) (g : Nat) (scores : List Int) : Prop := ∀ y ∈ scores[g]?, x ≤ y

/-- A property of a fold's value to which every step adds one of its element. -/
theorem foldlM_iff {α β : Type} {f : β → α → Except Fault β} {P : β → Prop} {Q : α → Prop}
    (step : ∀ a b b', f b a = .ok b' → (P b' ↔ P b ∧ Q a)) {as : List α} :
    ∀ {b b' : β}, as.foldlM f b = .ok b' → (P b' ↔ P b ∧ ∀ a ∈ as, Q a) := by
  induction as with
  | nil =>
    intro b b' h
    cases h
    simp
  | cons a as ih =>
    intro b b' h
    rw [List.foldlM_cons] at h
    cases first : f b a with
    | error =>
      rw [first] at h
      cases h
    | ok b'' =>
      rw [first] at h
      rw [ih h, step a b b'' first, List.forall_mem_cons, and_assoc]

theorem lowerScore_atMost {x : Int} {k : Nat} {group score : Int} {scores scores' : List Int}
    (h : lowerScore scores group score = .ok scores') :
    AtMost x k scores' ↔ AtMost x k scores ∧ ((k : Int) = group → x ≤ score) := by
  unfold lowerScore at h
  split at h
  · rename_i inside
    cases h
    unfold AtMost
    rw [List.getElem?_modify]
    by_cases this : (k : Int) = group
    · have index : group.toNat = k := by omega
      have here : k < scores.length := by omega
      simp [this, index, here]
    · have index : group.toNat ≠ k := by omega
      simp [this, index]
  · cases h

/-- The score of a group is the minimum over the results that count in it. -/
theorem subtaskScores_atMost {tds : List TestdataResult} {scores : List Int} {x : Int} {k : Nat}
    (h : subtaskScores sub tds = .ok scores) :
    AtMost x k scores ↔ AtMost x k (List.replicate sub.groupScore.length kInfScore) ∧
      ∀ p ∈ tds.zip sub.testdata, p.2.ignoreVerdict = false → (k : Int) ∈ p.2.tdGroups →
        x ≤ p.1.score := by
  refine foldlM_iff (fun p b b' step => ?_) h
  cases counts : p.2.ignoreVerdict with
  | true =>
    rw [counts] at step
    cases step
    simp
  | false =>
    rw [counts] at step
    have groups := foldlM_iff (Q := fun group => (k : Int) = group → x ≤ p.1.score)
      (fun group b b' lowered => lowerScore_atMost lowered) step
    have member : (∀ group ∈ p.2.tdGroups, (k : Int) = group → x ≤ p.1.score) ↔
        ((k : Int) ∈ p.2.tdGroups → x ≤ p.1.score) :=
      ⟨fun all here => all _ here rfl, fun one group here same => one (same ▸ here)⟩
    rw [groups, member]
    simp

theorem lowerScore_length {n : Nat} {group score : Int} {scores scores' : List Int}
    (h : lowerScore scores group score = .ok scores') :
    scores'.length = n ↔ scores.length = n ∧ True := by
  unfold lowerScore at h
  split at h
  · cases h
    simp
  · cases h

theorem subtaskScores_length {tds : List TestdataResult} {scores : List Int}
    (h : subtaskScores sub tds = .ok scores) : scores.length = sub.groupScore.length := by
  have kept := foldlM_iff (P := fun scores : List Int => scores.length = sub.groupScore.length)
    (Q := fun _ => True) (fun p b b' step => ?_) h
  · exact kept.mpr ⟨List.length_replicate, fun _ _ => trivial⟩
  · cases counts : p.2.ignoreVerdict with
    | true =>
      rw [counts] at step
      cases step
      simp
    | false =>
      rw [counts] at step
      rw [foldlM_iff (fun group b b' lowered => lowerScore_length lowered) step]
      simp

/-! ## What `NormalizeScore` returns -/

/-- A million points. -/
def scoreMax : Int := 1000000000000

def InScoreRange (score : Int) : Prop := -scoreMax ≤ score ∧ score ≤ scoreMax

instance : DecidablePred InScoreRange := fun _ => inferInstanceAs (Decidable (_ ∧ _))

/-- A number of score units, clamped and rounded. -/
def clampRound (x : ℚ) : Int := lround (max (-scoreMax) (min x scoreMax))

theorem clampRound_range (x : ℚ) : InScoreRange (clampRound x) := by
  constructor
  · apply le_lround
    push_cast
    exact le_max_left _ _
  · apply lround_le
    exact max_le (by norm_num [scoreMax]) (min_le_right _ _)

theorem normalizeScore_fin (q : ℚ) : normalizeScore cfg (.fin q) = clampRound (1000000 * q) := by
  have clamped : (max (-scoreMax) (min (1000000 * q) scoreMax) : ℚ) =
      max (-1000000) (min q 1000000) * 1000000 := by
    rw [max_mul_of_nonneg _ _ (by norm_num), min_mul_of_nonneg _ _ (by norm_num), mul_comm q]
    norm_num [scoreMax]
  rw [clampRound, clamped]
  simp only [normalizeScore]
  congr 2
  by_cases above : 1000000 < q
  · rw [if_pos above, if_neg (by norm_num), min_eq_right above.le, max_eq_right (by norm_num)]
  · rw [if_neg above, min_eq_left (not_lt.mp above)]
    split
    · rename_i below
      rw [max_eq_left below.le]
    · rename_i inside
      rw [max_eq_right (not_lt.mp inside)]

/-! ## The minimum of a group -/

section Totals

variable (sub : Submission) (tds : List TestdataResult)

/-- The results that are not ignored. -/
def counted : List TestdataResult :=
  ((tds.zip sub.testdata).filter fun p => !p.2.ignoreVerdict).map Prod.fst

/-- The scores that count in group `g`. -/
def countedScores (g : Nat) : List Int :=
  ((tds.zip sub.testdata).filter fun p =>
    !p.2.ignoreVerdict && decide ((g : Int) ∈ p.2.tdGroups)).map fun p => p.1.score

def groupMinimum (g : Nat) : Int := (countedScores sub tds g).min?.getD fullScore

/-- The minimum with the sentinel, as the loop computes it. -/
def sentinelMinimum (g : Nat) : Int := (countedScores sub tds g).foldl min kInfScore

/-- What the group adds to the sum, but for its weight. -/
def groupValue (g : Nat) : Int :=
  if sentinelMinimum sub tds g = kInfScore then fullScore else sentinelMinimum sub tds g

/-- The groups' minima, weighted with the scores of the groups. -/
def weightedMinima : Int :=
  ∑ g : Fin sub.groupScore.length, sub.groupScore[g] * groupMinimum sub tds g

/-- `total_score` in the loop of `FinalizeSummary`, after `k` groups. -/
def partialSum (scores : List Int) (k : Nat) : Int :=
  (((scores.zip sub.groupScore).take k).map fun p =>
    (if p.1 = kInfScore then fullScore else p.1) * p.2).sum

end Totals

variable {tds : List TestdataResult} {scores : List Int} {g : Nat}

theorem mem_countedScores {score : Int} : score ∈ countedScores sub tds g ↔
    ∃ p ∈ tds.zip sub.testdata, p.2.ignoreVerdict = false ∧ (g : Int) ∈ p.2.tdGroups ∧
      p.1.score = score := by
  simp [countedScores, and_assoc]

/-- The minimum of a list and a start value, by its lower bounds. -/
theorem le_foldl_min {xs : List Int} {start x : Int} :
    x ≤ xs.foldl min start ↔ x ≤ start ∧ ∀ y ∈ xs, x ≤ y := by
  induction xs generalizing start with
  | nil => simp
  | cons y ys ih => rw [List.foldl_cons, ih, le_min_iff, List.forall_mem_cons, and_assoc]

theorem groupScores_eq (h : subtaskScores sub tds = .ok scores) (hg : g < sub.groupScore.length) :
    scores[g]? = some (sentinelMinimum sub tds g) := by
  have inside : g < scores.length := subtaskScores_length h ▸ hg
  rw [List.getElem?_eq_getElem inside, Option.some.injEq]
  apply eq_of_forall_le_iff
  intro x
  have bound := subtaskScores_atMost (x := x) (k := g) h
  simp only [AtMost, List.getElem?_eq_getElem inside, Option.mem_some_iff, forall_eq',
    List.getElem?_replicate, hg, if_true] at bound
  rw [bound, sentinelMinimum, le_foldl_min]
  refine and_congr_right fun _ => ⟨fun all y hy => ?_, fun all p hp counts here => ?_⟩
  · obtain ⟨p, hp, counts, here, rfl⟩ := mem_countedScores.mp hy
    exact all p hp counts here
  · exact all _ (mem_countedScores.mpr ⟨p, hp, counts, here, rfl⟩)

theorem scoreMax_lt : scoreMax < kInfScore := by decide

/-- No score in the range is taken for the sentinel. -/
theorem sentinel_iff (range : ∀ td ∈ tds, InScoreRange td.score) :
    (sentinelMinimum sub tds g = kInfScore ↔ countedScores sub tds g = []) ∧
      groupValue sub tds g = groupMinimum sub tds g := by
  have below : ∀ y ∈ countedScores sub tds g, y < kInfScore := by
    intro y hy
    obtain ⟨p, hp, _, _, rfl⟩ := mem_countedScores.mp hy
    exact (range p.1 (List.of_mem_zip hp).1).2.trans_lt scoreMax_lt
  unfold groupValue sentinelMinimum groupMinimum
  cases counted : countedScores sub tds g with
  | nil => simp
  | cons y ys =>
    rw [counted] at below
    have first : y < kInfScore := below y List.mem_cons_self
    have least : ys.foldl min y ≤ y := (le_foldl_min.mp le_rfl).1
    have other : ys.foldl min y ≠ kInfScore := (least.trans_lt first).ne
    rw [List.foldl_cons, min_eq_right first.le, List.min?_cons', Option.getD_some, if_neg other]
    simp [other]

theorem groupMinimum_range (range : ∀ td ∈ tds, InScoreRange td.score) :
    InScoreRange (groupMinimum sub tds g) := by
  unfold groupMinimum
  cases least : (countedScores sub tds g).min? with
  | none => exact (by decide : InScoreRange fullScore)
  | some m =>
    obtain ⟨p, hp, _, _, rfl⟩ := mem_countedScores.mp (List.min?_eq_some_iff.mp least).1
    exact range p.1 (List.of_mem_zip hp).1

/-- The terms of the weighted sum. -/
theorem weightedTerms_eq (h : subtaskScores sub tds = .ok scores) :
    (scores.zip sub.groupScore).map (fun p => (if p.1 = kInfScore then fullScore else p.1) * p.2) =
      List.ofFn fun g : Fin sub.groupScore.length => sub.groupScore[g] * groupValue sub tds g := by
  have size := subtaskScores_length h
  apply List.ext_getElem
  · simp [size]
  · intro g hg hg'
    have inside : g < sub.groupScore.length := by simpa using hg'
    obtain ⟨_, value⟩ := List.getElem?_eq_some_iff.mp (groupScores_eq h inside)
    simp only [List.getElem_map, List.getElem_zip, List.getElem_ofFn, value]
    exact mul_comm _ _

/-- The terms, when all scores are in the range. -/
theorem weightedTerms_range (h : subtaskScores sub tds = .ok scores)
    (range : ∀ td ∈ tds, InScoreRange td.score) :
    (scores.zip sub.groupScore).map (fun p => (if p.1 = kInfScore then fullScore else p.1) * p.2) =
      List.ofFn fun g : Fin sub.groupScore.length => sub.groupScore[g] * groupMinimum sub tds g := by
  rw [weightedTerms_eq h]
  congr 1
  funext g
  rw [(sentinel_iff range).2]

theorem weightedScore_eq (h : subtaskScores sub tds = .ok scores)
    (range : ∀ td ∈ tds, InScoreRange td.score) :
    weightedScore sub scores = weightedMinima sub tds := by
  rw [weightedScore, weightedTerms_range h range, List.sum_ofFn]
  rfl

/-- The scores of the groups are values of `long`. -/
def GroupsFit (sub : Submission) : Prop := ∀ score ∈ sub.groupScore, longMin ≤ score ∧ score ≤ longMax

instance : DecidablePred GroupsFit := fun sub => by
  unfold GroupsFit
  infer_instance

/-- A product of a score and the score of a group. -/
theorem term_abs_le {score weight : Int} (range : InScoreRange score)
    (fits : longMin ≤ weight ∧ weight ≤ longMax) : |weight * score| ≤ 2 ^ 63 * scoreMax := by
  have small : |score| ≤ scoreMax := abs_le.mpr range
  have narrow : |weight| ≤ 2 ^ 63 := by
    obtain ⟨low, high⟩ := fits
    unfold longMin at low
    unfold longMax at high
    exact abs_le.mpr ⟨by omega, by omega⟩
  rw [abs_mul]
  exact mul_le_mul narrow small (abs_nonneg _) (by norm_num)

/-- The groups for which the sum has room. -/
def maxGroups : Nat := 18446744

/-- No step of the loop leaves `__int128_t`. -/
theorem partialSum_lt (h : subtaskScores sub tds = .ok scores)
    (range : ∀ td ∈ tds, InScoreRange td.score) (fits : GroupsFit sub)
    (few : sub.groupScore.length ≤ maxGroups) (k : Nat) :
    -2 ^ 127 ≤ partialSum sub scores k ∧ partialSum sub scores k < 2 ^ 127 := by
  have terms : ((scores.zip sub.groupScore).take k).map
      (fun p => (if p.1 = kInfScore then fullScore else p.1) * p.2) =
      (List.ofFn fun g : Fin sub.groupScore.length =>
        sub.groupScore[g] * groupMinimum sub tds g).take k := by
    rw [List.map_take, weightedTerms_range h range]
  unfold partialSum
  rw [terms]
  set ts := (List.ofFn fun g : Fin sub.groupScore.length =>
    sub.groupScore[g] * groupMinimum sub tds g).take k with hts
  have size : ts.length ≤ maxGroups := by
    rw [hts, List.length_take, List.length_ofFn]
    omega
  have bound : ∀ t ∈ ts, |t| ≤ 2 ^ 63 * scoreMax := by
    intro t ht
    obtain ⟨g, rfl⟩ := List.mem_ofFn.mp (List.mem_of_mem_take ht)
    exact term_abs_le (groupMinimum_range range) (fits _ (List.getElem_mem _))
  have upper := ts.sum_le_card_nsmul _ fun t ht => (abs_le.mp (bound t ht)).2
  have lower := ts.card_nsmul_le_sum _ fun t ht => (abs_le.mp (bound t ht)).1
  simp only [nsmul_eq_mul] at upper lower
  have room : (ts.length : Int) * (2 ^ 63 * scoreMax) < 2 ^ 127 := by
    unfold maxGroups at size
    unfold scoreMax
    omega
  constructor
  · linarith
  · linarith

/-! ## A sum in 64 bits -/

/-- No sum on the way, from `start` on, leaves `int64_t`. -/
def SumsFit (start : Int) (xs : List Int) : Prop :=
  ∀ k ≤ xs.length, longMin ≤ start + (xs.take k).sum ∧ start + (xs.take k).sum ≤ longMax

instance (start : Int) (xs : List Int) : Decidable (SumsFit start xs) :=
  inferInstanceAs (Decidable (∀ k ≤ xs.length, _))

theorem toInt64_fits {n : Int} (low : longMin ≤ n) (high : n ≤ longMax) : toInt64 n = n := by
  unfold longMin at low
  unfold longMax at high
  apply Int.bmod_eq_of_le <;> omega

/-- Then the sum is the one over the integers. -/
theorem sum_wrapped {xs : List Int} {start : Int} (fits : SumsFit start xs) :
    xs.foldl (fun t x => toInt64 (t + x)) start = start + xs.sum := by
  induction xs generalizing start with
  | nil => simp
  | cons x xs ih =>
    have later (k : Nat) (hk : k ≤ xs.length) :
        longMin ≤ start + x + (xs.take k).sum ∧ start + x + (xs.take k).sum ≤ longMax := by
      have := fits (k + 1) (Nat.succ_le_succ hk)
      rwa [List.take_succ_cons, List.sum_cons, ← add_assoc] at this
    have first := later 0 (Nat.zero_le _)
    rw [List.take_zero, List.sum_nil, add_zero] at first
    rw [List.foldl_cons, toInt64_fits first.1 first.2, ih later, List.sum_cons, add_assoc]

/-! ## The record after `FinalizeSummary` -/

/-- What the default summary makes of the results. -/
structure Totals (sub : Submission) (tds : List TestdataResult) (res : SubmissionResult) : Prop where
  score : res.totalScore = clampRound (1000000 * weightedMinima sub tds / 100000000000000)
  time : SumsFit 0 ((counted sub tds).map TestdataResult.time) →
    res.totalTime = ((counted sub tds).map TestdataResult.time).sum
  memory : res.totalMemory = ((counted sub tds).map TestdataResult.rss).foldl max 0

theorem defaultTotals_eq {res res' : SubmissionResult} (low : res.verdict < .ce)
    (range : ∀ td ∈ res.tdResults, InScoreRange td.score)
    (h : defaultTotals cfg sub res = .ok res') : Totals sub res.tdResults res' := by
  unfold defaultTotals at h
  rw [if_pos low] at h
  cases folded : subtaskScores sub res.tdResults with
  | error => simp [folded, Except.map] at h
  | ok scores =>
    simp only [folded, Except.map, Except.ok.injEq] at h
    subst h
    constructor
    · rw [normalizeScore_fin, weightedScore_eq folded range, mul_div_assoc]
      norm_num
    · intro fits
      rw [← Int.zero_add (List.sum _), ← sum_wrapped fits]
      simp [counted, List.foldl_map]
    · simp [counted, List.foldl_map]

/-- The total score is the weighted sum of the minima, clamped and rounded; the sum fits, and the
sentinel is no score. -/
theorem default_summary {c : Ctx} (plain : c.sub.summaryType = .none)
    (size : c.result.tdResults.length ≤ c.sub.testdata.length) (indexed : GroupsIndexed c.sub)
    (range : ∀ td ∈ c.result.tdResults, InScoreRange td.score) (fits : GroupsFit c.sub)
    (few : c.sub.groupScore.length < 1000000) (listSize : Nat) :
    ∃ c₁ c₂ scores, setupSummary c = .ok (false, c₁) ∧
      finalize cfg c₁ listSize .summary none = .ok c₂ ∧
      subtaskScores c.sub c.result.tdResults = .ok scores ∧
      (∀ k, -2 ^ 127 ≤ partialSum c.sub scores k ∧ partialSum c.sub scores k < 2 ^ 127) ∧
      (∀ g < c.sub.groupScore.length,
        scores[g]? = some kInfScore ↔ countedScores c.sub c.result.tdResults g = []) ∧
      (c₁.result.verdict < .ce → Totals c.sub c.result.tdResults c₂.result) := by
  obtain ⟨scores, folded⟩ := subtaskScores_ok indexed c.result.tdResults
  have skipped : setupSummary c = .ok (false, { c with result := summaryResult c.sub c.result }) := by
    rw [setupSummary, if_neg (Nat.not_lt.mpr size)]
    exact if_pos (.inl plain)
  obtain ⟨c₂, done⟩ := @finalizeSummary_ok cfg { c with result := summaryResult c.sub c.result }
    listSize ⟨.zero, .empty⟩ true indexed
  refine ⟨_, c₂, scores, skipped, done, folded, ?_, ?_, ?_⟩
  · intro k
    have room : c.sub.groupScore.length ≤ maxGroups := by
      unfold maxGroups
      omega
    exact partialSum_lt folded range fits room k
  · intro g hg
    rw [groupScores_eq folded hg, Option.some.injEq]
    exact (sentinel_iff range).1
  · intro low
    have same := summaryResult_tdResults c.sub c.result
    unfold finalizeSummary at done
    cases totals : defaultTotals cfg c.sub (summaryResult c.sub c.result) with
    | error => simp [totals, Except.map] at done
    | ok res =>
      have eq := defaultTotals_eq low (by rwa [same]) totals
      simp only [totals, Except.map, Except.ok.injEq] at done
      subst done
      rw [same] at eq
      simpa using eq

/-- One testdata that counts, with 30.5 points. -/
def scoredCtx (rss : Int) : Ctx where
  sub := sampleSubmission 1 1 [sampleItem false [0]]
  result := { SubmissionResult.new with
    tdResults := [{ TestdataResult.new with score := 30500000, rss := rss, verdict := .wa }] }
  cancelled := false
  cancelledGroup := none
  log := []

theorem default_summary_of_scored :
    ∃ c₁ c₂ scores, setupSummary (scoredCtx 100) = .ok (false, c₁) ∧
      finalize (sampleConfig 1) c₁ 1 .summary none = .ok c₂ ∧
      subtaskScores (scoredCtx 100).sub (scoredCtx 100).result.tdResults = .ok scores ∧
      (∀ k, -2 ^ 127 ≤ partialSum (scoredCtx 100).sub scores k ∧
        partialSum (scoredCtx 100).sub scores k < 2 ^ 127) ∧
      (∀ g < (scoredCtx 100).sub.groupScore.length, scores[g]? = some kInfScore ↔
        countedScores (scoredCtx 100).sub (scoredCtx 100).result.tdResults g = []) ∧
      (c₁.result.verdict < .ce →
        Totals (scoredCtx 100).sub (scoredCtx 100).result.tdResults c₂.result) :=
  default_summary rfl (by decide) (by decide) (by decide) (by decide) (by decide) 1

/-- Two testdata that count, each with the greatest time. -/
def slowCtx : Ctx where
  sub := sampleSubmission 1 1 [sampleItem false [0], sampleItem false [0]]
  result := { SubmissionResult.new with
    tdResults := List.replicate 2 { TestdataResult.new with time := longMax, verdict := .wa } }
  cancelled := false
  cancelledGroup := none
  log := []

/-- A negative `rss` does not reach the total, nor does a sum of times that is no `int64_t`. -/
theorem totals_lost :
    (∃ c₁ c₂, setupSummary (scoredCtx (-1)) = .ok (false, c₁) ∧ c₁.result.verdict < .ce ∧
      finalize (sampleConfig 1) c₁ 1 .summary none = .ok c₂ ∧ c₂.result.totalMemory = 0 ∧
      ((counted (scoredCtx (-1)).sub (scoredCtx (-1)).result.tdResults).map
        TestdataResult.rss).max? = some (-1)) ∧
    ∃ c₁ c₂, setupSummary slowCtx = .ok (false, c₁) ∧ c₁.result.verdict < .ce ∧
      finalize (sampleConfig 1) c₁ 1 .summary none = .ok c₂ ∧ c₂.result.totalTime = -2 ∧
      ((counted slowCtx.sub slowCtx.result.tdResults).map TestdataResult.time).sum = 2 ^ 64 - 2 :=
  ⟨⟨_, _, rfl, by decide, rfl, rfl, by decide⟩, ⟨_, _, rfl, by decide, rfl, by decide +kernel, by decide⟩⟩

end TiojJudge.Judge
