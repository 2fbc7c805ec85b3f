import TiojJudge.Judge.Determined
import TiojJudge.Judge.Totals

/-!
# Testdata that were never executed

`FinalizeSummary` goes over `td_results`, which ends at the last testdata that was
executed. A testdata before it that was skipped has a new result, with score 0; one
after it is not looked at.

* `padded`: the results with a new one for each testdata behind the last;
* `Unrun`, `unrun`: the result of a testdata that was never executed is new;
* `groupValue_padded_iff`: when the testdata that are not looked at make no difference to a group;
* `skipped_counts_zero`: then they count as score 0, wherever they stand.
-/

namespace TiojJudge.Judge
open Machine

variable {cfg : Config} {sub sub' : Submission} {tds tds' : List TestdataResult} {g : Nat}

/-! ## The results that are not there -/

def padded (sub : Submission) (tds : List TestdataResult) : List TestdataResult :=
  tds ++ List.replicate (sub.numTds - tds.length) .new

/-- A testdata of the group that counts has no result. -/
def Missed (sub : Submission) (tds : List TestdataResult) (g : Nat) : Prop :=
  ∃ item ∈ sub.testdata.drop tds.length, item.ignoreVerdict = false ∧ (g : Int) ∈ item.tdGroups

/-- What is not looked at makes no difference to the group. -/
def CountsZero (sub : Submission) (tds : List TestdataResult) (g : Nat) : Prop :=
  Missed sub tds g → ∃ score ∈ countedScores sub tds g, score ≤ 0

instance (sub : Submission) (tds : List TestdataResult) : DecidablePred (CountsZero sub tds) :=
  fun g => by
    unfold CountsZero Missed
    infer_instance

def weightedSum (weights : List Int) (value : Nat → Int) : Int :=
  ∑ g : Fin weights.length, weights[g] * value g

/-- The total score of the default summary. -/
def defaultScore (sub : Submission) (tds : List TestdataResult) : Int :=
  clampRound (1000000 *
    (weightedSum sub.groupScore (groupValue sub tds) / (100000000 * 1000000)))

/-- A list that is continued with one value, beside a longer list. -/
theorem zip_append_replicate {α β : Type} (a : α) {as : List α} {bs : List β}
    (size : as.length ≤ bs.length) : (as ++ List.replicate (bs.length - as.length) a).zip bs =
      as.zip bs ++ (bs.drop as.length).map fun b => (a, b) := by
  induction bs generalizing as with
  | nil => simp
  | cons b bs ih =>
    cases as with
    | nil => simpa [List.replicate_succ] using @ih [] (Nat.zero_le _)
    | cons a' as => simpa using ih (Nat.le_of_succ_le_succ size)

theorem padded_zip (size : tds.length ≤ sub.numTds) : (padded sub tds).zip sub.testdata =
    tds.zip sub.testdata ++ (sub.testdata.drop tds.length).map fun item => (.new, item) :=
  zip_append_replicate _ size

/-- The testdata that are not looked at would add zeros. -/
theorem countedScores_padded (size : tds.length ≤ sub.numTds) (g : Nat) :
    ∃ zeros, countedScores sub (padded sub tds) g = countedScores sub tds g ++ zeros ∧
      (∀ score ∈ zeros, score = 0) ∧ (zeros = [] ↔ ¬ Missed sub tds g) := by
  refine ⟨(((sub.testdata.drop tds.length).map fun item => (TestdataResult.new, item)).filter
    fun p => !p.2.ignoreVerdict && decide ((g : Int) ∈ p.2.tdGroups)).map fun p => p.1.score, ?_, ?_, ?_⟩
  · unfold countedScores
    rw [padded_zip size, List.filter_append, List.map_append]
  · intro score h
    obtain ⟨p, hp, rfl⟩ := List.mem_map.mp h
    obtain ⟨item, _, rfl⟩ := List.mem_map.mp (List.mem_filter.mp hp).1
    rfl
  · simp only [List.map_eq_nil_iff, List.filter_eq_nil_iff, List.forall_mem_map, Missed, not_exists,
      not_and, Bool.and_eq_true, Bool.not_eq_true', decide_eq_true_eq]

theorem foldl_min_append_zeros {zeros : List Int} (zero : ∀ score ∈ zeros, score = 0) (start : Int) :
    zeros.foldl min start = if zeros = [] then start else min start 0 := by
  apply eq_of_forall_le_iff
  intro x
  rw [le_foldl_min]
  by_cases none : zeros = []
  · simp [none]
  · obtain ⟨score, here⟩ := List.exists_mem_of_ne_nil _ none
    rw [if_neg none, le_min_iff]
    refine and_congr_right fun _ => ⟨fun all => zero score here ▸ all score here, fun le y hy => ?_⟩
    exact zero y hy ▸ le

theorem sentinelMinimum_padded (size : tds.length ≤ sub.numTds) (g : Nat) [Decidable (Missed sub tds g)] :
    sentinelMinimum sub (padded sub tds) g =
      if Missed sub tds g then min (sentinelMinimum sub tds g) 0 else sentinelMinimum sub tds g := by
  obtain ⟨zeros, counted, zero, none⟩ := countedScores_padded size g
  unfold sentinelMinimum
  rw [counted, List.foldl_append, foldl_min_append_zeros zero]
  by_cases missed : Missed sub tds g
  · rw [if_neg fun no => none.mp no missed, if_pos missed]
  · rw [if_pos (none.mpr missed), if_neg missed]

theorem sentinelMinimum_nonpos : sentinelMinimum sub tds g ≤ 0 ↔
    ∃ score ∈ countedScores sub tds g, score ≤ 0 := by
  rw [← not_lt, ← Int.add_one_le_iff, sentinelMinimum, le_foldl_min]
  have top : (0 : Int) + 1 ≤ kInfScore := by decide
  simp only [top, true_and, Int.add_one_le_iff, not_forall, not_lt, exists_prop]

/-- The value of a group is the one with zeros for all testdata that were not executed exactly when
there is none that is not looked at, or a score that counts is no more. -/
theorem groupValue_padded_iff (size : tds.length ≤ sub.numTds) (g : Nat) :
    groupValue sub tds g = groupValue sub (padded sub tds) g ↔ CountsZero sub tds g := by
  classical
  unfold CountsZero groupValue
  rw [sentinelMinimum_padded size, ← sentinelMinimum_nonpos]
  by_cases missed : Missed sub tds g
  · simp only [missed, if_true, forall_const]
    have full : fullScore = 100000000 := rfl
    have top : kInfScore = 2000000000000 := rfl
    split_ifs <;> omega
  · simp [missed]

/-! ## Testdata that were never executed -/

/-- The testdata was not executed, at any stage. -/
def NeverExecuted (id : Int) (i : Nat) (log : List Event) : Prop :=
  ∀ j o, ¬ Life.Ended id (.execute i j) (some o) log

/-- The result that a report at the end shows. -/
def Event.final : Event → Option SubmissionResult
  | .overallResult _ res | .reportFinalized _ res _ => some res
  | _ => none

theorem Event.final_of_message {e : Event} (message : e.isMessage = true) : e.final = none := by
  cases e <;> first | rfl | cases message

namespace Life

variable {id : Int} {base i : Nat} {l l' : Life} {res : SubmissionResult}

/-- The first execution of the testdata was skipped. -/
structure Unrun (l : Life) (i : Nat) : Prop where
  excused : l.Excused i
  fresh : l.ctx.td i = .new
  idle : ∀ t ∈ l.running, t.testdata ≠ some i

theorem Unrun.step (u : Unrun l i) (h : Step cfg id base l l') (left : .summary ∈ l'.todo) :
    Unrun l' i := by
  have excused := u.excused.step h left
  rcases h.testdata i with ⟨td, chain⟩ | @⟨t, mine, _, wanted, _⟩ |
    ⟨_, _, _, td, _, running⟩ |
    ⟨_, free, _⟩ | ⟨here, _⟩ | ⟨here, _⟩
  · exact ⟨excused, td.trans u.fresh, fun t ht mine => u.idle t ((chain t mine).2.mp ht) mine⟩
  · cases t with
    | execute | scoring => exact absurd u.excused wanted.1
    | compile | summary => cases mine
  · exact ⟨excused, td.trans u.fresh, fun t ht => u.idle t (running ▸ ht)⟩
  · exact absurd u.excused free
  · exact absurd rfl (u.idle _ here)
  · exact absurd rfl (u.idle _ here)

theorem unrun (wf : sub.WellFormed) (hi : i < sub.numTds) (h : Reachable cfg id base sub l)
    (left : .summary ∈ l.todo) (skipped : Ended id (.execute i 0) none l.ctx.log) : Unrun l i := by
  induction h with
  | start => simp [Life.start, Ended] at skipped
  | @next l l' reach step ih =>
    have shape := shape wf reach
    rcases step.ended skipped with old | ⟨_, ready, _, _, setup⟩ | ⟨_, _, _, no, _⟩
    · exact (ih (step.todo_subset shape left) old).step step left
    · have before : Unrun l i := by
        refine ⟨excused_of_skip setup, (tested wf hi reach).fresh ready.1, fun t ht mine => ?_⟩
        obtain rfl := shape.alone wf (.inr ready) ht rfl mine
        exact ready.2.1 ht
      exact before.step step left
    · cases no

/-- A final report shows what the summary made of the results. -/
theorem reported_of_final (wf : sub.WellFormed) (plain : sub.summaryType = .none)
    (h : Reachable cfg id base sub l) {e : Event} (he : e ∈ l.ctx.log) (final : e.final = some res) :
    Reported cfg id base sub l res := by
  have quiet {c : Ctx} {t : Task} (tells : c.Tells t e) : False := by
    rcases tells with message | ⟨_, _, _, _, _, rfl⟩
    · rw [Event.final_of_message message] at final
      cases final
    · cases final
  induction h with
  | start =>
    obtain rfl := List.mem_singleton.mp he
    cases final
  | @next l l' reach step ih =>
    have whole := step
    cases step with
    | launch _ setup =>
      simp only [launched, started, Ctx.withLog, List.mem_append, List.mem_singleton] at he
      rcases he with ((old | rfl) | new) | rfl
      · exact (ih old).step whole
      · cases final
      · exact (quiet (setup_events rfl setup new)).elim
      · cases final
    | @skip t _ _ c c' ready setup done =>
      simp only [settled, started, Ctx.withLog, List.mem_append, List.mem_singleton] at he
      rcases he with (((old | rfl) | new) | rfl) | new
      · exact (ih old).step whole
      · cases final
      · exact (quiet (setup_events rfl setup new)).elim
      · cases final
      · by_cases last : t = .summary
        · subst last
          obtain ⟨same, _⟩ := setupSummary_spec setup
          have totals := finalizeSummary_totals done
          simp only [same, Ctx.cleared, (shape wf reach).same] at totals
          obtain ⟨_, _, _, _, _, _, log⟩ := finalizeSummary_spec done
          obtain rfl : c'.result = res := by
            rw [log] at new
            simp only [List.mem_append, List.mem_ite_nil_right, List.mem_singleton] at new
            rcases new with ((no | ⟨_, rfl⟩) | rfl) | ⟨_, rfl⟩
            · cases no
            · exact Option.some.inj final
            · cases final
            · exact Option.some.inj final
          have now : Reported cfg id base sub l c'.result := ⟨l, reach, ready, ⟨[], by simp⟩, totals⟩
          exact now.step whole
        · exact (quiet (finalize_events last rfl done new)).elim
    | @finish t _ _ c running done =>
      simp only [settled, Ctx.withLog, List.mem_append, List.mem_singleton] at he
      rcases he with (old | rfl) | new
      · exact (ih old).step whole
      · cases final
      · have other : t ≠ .summary := by
          rintro rfl
          exact summary_idle plain wf reach running
        exact (quiet (finalize_events other rfl done new)).elim
    | cancel =>
      simp only [Life.cancel, List.mem_append, List.mem_singleton] at he
      rcases he with old | rfl
      · exact (ih old).step whole
      · cases final

/-- What a final report shows, without a compile failure. -/
theorem reported_score (wf : sub.WellFormed) (r : Reported cfg id base sub l res)
    (success : NoCompileFailure id l.ctx.log) :
    res.tdResults.length ≤ sub.numTds ∧ res.totalScore = defaultScore sub res.tdResults ∧
      ∀ i < sub.numTds, NeverExecuted id i l.ctx.log → (padded sub res.tdResults)[i]? = some .new := by
  obtain ⟨l₀, reach, ready, ⟨new, log⟩, totals⟩ := r
  have nul := nul_of_compiled reach (log ▸ success).before ready.1 ready.2.1
  have tds : res.tdResults = l₀.ctx.result.tdResults :=
    (defaultTotals_spec totals).2.trans (summaryResult_tdResults _ _)
  have size := (indexed wf reach).size
  refine ⟨tds ▸ size, ?_, fun i hi never => ?_⟩
  · have low : (summaryResult sub l₀.ctx.result).verdict < .ce := by
      rw [summaryResult, if_pos nul]
      exact overallVerdict_at_summary reach
    unfold defaultTotals at totals
    rw [if_pos low] at totals
    cases folded : subtaskScores sub (summaryResult sub l₀.ctx.result).tdResults with
    | error => simp [folded, Except.map] at totals
    | ok scores =>
      simp only [folded, Except.map, Except.ok.injEq] at totals
      subst totals
      rw [normalizeScore_fin, weightedScore, weightedTerms_eq folded, List.sum_ofFn]
      rfl
  · -- the first execution is over, and was skipped
    have gone := (shape wf reach).before_ready (Submission.leads_summary wf (t := .execute i 0)
      ⟨hi, wf.numStages.1⟩) ready (by simp)
    obtain ⟨outcome, ended⟩ :=
      (finalized_in_log wf reach (t := .execute i 0) ⟨hi, wf.numStages.1⟩).mp gone
    cases outcome with
    | some o => exact absurd (log ▸ ended.append) (never 0 o)
    | none =>
      have fresh := (unrun wf hi reach ready.1 ended).fresh
      rw [padded, tds]
      by_cases inside : i < l₀.ctx.result.tdResults.length
      · rw [List.getElem?_append_left inside, List.getElem?_eq_getElem inside]
        simpa [Ctx.td, inside] using fresh
      · rw [List.getElem?_append_right (by omega), List.getElem?_replicate, if_pos (by omega)]

end Life

theorem countedScores_perm (same : (tds'.zip sub'.testdata).Perm (tds.zip sub.testdata)) (g : Nat) :
    (countedScores sub' tds' g).Perm (countedScores sub tds g) :=
  (same.filter _).map _

/-- The score depends on the results with their testdata, not on their order. -/
theorem defaultScore_perm (groups : sub'.groupScore = sub.groupScore)
    (same : (tds'.zip sub'.testdata).Perm (tds.zip sub.testdata)) :
    defaultScore sub' tds' = defaultScore sub tds := by
  have value : groupValue sub' tds' = groupValue sub tds := by
    funext g
    have least : sentinelMinimum sub' tds' g = sentinelMinimum sub tds g := by
      apply eq_of_forall_le_iff
      intro x
      simp only [sentinelMinimum, le_foldl_min, (countedScores_perm same g).mem_iff]
    simp only [groupValue, least]
  rw [defaultScore, defaultScore, value, groups]

theorem defaultScore_padded (size : tds.length ≤ sub.numTds)
    (zero : ∀ g < sub.groupScore.length, CountsZero sub tds g) :
    defaultScore sub tds = defaultScore sub (padded sub tds) := by
  have value (g : Fin sub.groupScore.length) :
      groupValue sub tds g = groupValue sub (padded sub tds) g :=
    (groupValue_padded_iff size g).mpr (zero g g.isLt)
  simp only [defaultScore, weightedSum, value]

/-! ## Every run -/

/-- In the run that led to `s` nothing of the submission failed to compile, and the default summary
left `res`. -/
structure DefaultReport (cfg : Config) (s : State) (id : Int) (sub : Submission)
    (res : SubmissionResult) : Prop where
  reach : (judge cfg).Reach freshId s
  enqueued : ∃ base, .enqueued id sub base ∈ s.log
  plain : sub.summaryType = .none
  compiled : Life.NoCompileFailure id s.log
  reported : res ∈ (s.log.filter (Event.about id)).filterMap Event.final

variable {s : State} {id : Int} {res : SubmissionResult}

theorem DefaultReport.score (r : DefaultReport cfg s id sub res) :
    res.tdResults.length ≤ sub.numTds ∧ res.totalScore = defaultScore sub res.tdResults ∧
      ∀ i < sub.numTds, NeverExecuted id i s.log → (padded sub res.tdResults)[i]? = some .new := by
  obtain ⟨base, enq⟩ := r.enqueued
  obtain ⟨e, here, final⟩ := List.mem_filterMap.mp r.reported
  obtain ⟨l, wf, _, reach, log⟩ := lived r.reach enq
  rw [log] at here
  have success : Life.NoCompileFailure id l.ctx.log :=
    fun subtask o ended => r.compiled subtask o (ended_filter.mp (log ▸ ended))
  obtain ⟨size, score, fresh⟩ :=
    Life.reported_score wf (Life.reported_of_final wf r.plain reach here final) success
  exact ⟨size, score, fun i hi never =>
    fresh i hi fun j o ended => never j o (ended_filter.mp (log ▸ ended))⟩

/-- A group has the score that it has with zeros for all testdata that were never executed exactly
when there is none behind the last one that was executed, or a score that counts is no more. When
that is so for each group, the total is the one with zeros, in any order of the testdata. -/
theorem skipped_counts_zero (r : DefaultReport cfg s id sub res) :
    (∀ i < sub.numTds, NeverExecuted id i s.log → (padded sub res.tdResults)[i]? = some .new) ∧
    res.totalScore = defaultScore sub res.tdResults ∧
    (∀ g, groupValue sub res.tdResults g = groupValue sub (padded sub res.tdResults) g ↔
      CountsZero sub res.tdResults g) ∧
    ((∀ g < sub.groupScore.length, CountsZero sub res.tdResults g) →
      res.totalScore = defaultScore sub (padded sub res.tdResults) ∧
      ∀ cfg' s' id' sub' res', DefaultReport cfg' s' id' sub' res' →
        sub'.groupScore = sub.groupScore →
        ((padded sub' res'.tdResults).zip sub'.testdata).Perm
          ((padded sub res.tdResults).zip sub.testdata) →
        (∀ g < sub'.groupScore.length, CountsZero sub' res'.tdResults g) →
        res'.totalScore = res.totalScore) := by
  obtain ⟨size, score, fresh⟩ := r.score
  refine ⟨fresh, score, groupValue_padded_iff size, fun zero => ?_⟩
  have total := score.trans (defaultScore_padded size zero)
  refine ⟨total, fun cfg' s' id' sub' res' r' groups same zero' => ?_⟩
  obtain ⟨size', score', _⟩ := r'.score
  rw [total, score'.trans (defaultScore_padded size' zero'), defaultScore_perm groups same]

/-- The compile task did not fail, if the event is the end of one. -/
def Event.compiles : Event → Bool
  | .finalizing _ _ (.compile _) (some o) => !compileFails o
  | _ => true

theorem noCompileFailure_of_all {log : List Event} (all : log.all Event.compiles = true) :
    Life.NoCompileFailure id log := by
  rintro subtask o ⟨tid, ended⟩
  simpa [Event.compiles] using List.all_eq_true.mp all _ ended

/-- A checker that gives half of the points. -/
def halfConfig : Config :=
  { sampleConfig 1 with
    parseJson := fun text =>
      if text = acceptText then some [("verdict", .str "WA"), ("score", .num 50)] else none }

/-- Two groups; the testdata that is in both is judged first. -/
def twoGroups (testdata : List TestdataItem) : Submission :=
  { sampleSubmission 1 1 testdata with skipGroup := true, groupScore := [100000000, 100000000] }

/-- Testdata `first` is judged, and the other one is skipped. -/
def otherSkipped (testdata : List TestdataItem) (first other : Nat) : List Label :=
  [.push (twoGroups testdata) 0, .wake] ++ runAlone 5 goodOutcome ++ runAlone first goodOutcome ++
    runAlone (first + 1) goodOutcome ++
    [.dispatch other 5 .empty, .dispatch (other + 1) 5 .empty, .dispatch 0 5 .empty]

def halfResult : TestdataResult :=
  { TestdataResult.new with executeResult := exited 0, score := 50000000, verdict := .wa }

/-- A run whose report is known. -/
theorem defaultReport_of_exec (ls : List Label) (testdata : List TestdataItem)
    (tds : List TestdataResult) (total : Int)
    (run : ((judge halfConfig).exec freshId .init ls).map (fun s => decide
      (.enqueued 1 (twoGroups testdata) 0 ∈ s.log ∧ s.log.all Event.compiles = true ∧
        ((s.log.filter (Event.about 1)).filterMap Event.final).head?.map
          (fun res => (res.tdResults, res.totalScore)) = some (tds, total))) = some true) :
    ∃ s res, DefaultReport halfConfig s 1 (twoGroups testdata) res ∧ res.tdResults = tds ∧
      res.totalScore = total := by
  obtain ⟨s, hs, seen⟩ := Option.map_eq_some_iff.mp run
  obtain ⟨enq, compiles, seen⟩ := of_decide_eq_true seen
  obtain ⟨res, first, same⟩ := Option.map_eq_some_iff.mp seen
  obtain ⟨rfl, rfl⟩ := Prod.mk.inj same
  have reported := List.mem_of_mem_head? first
  exact ⟨s, res, ⟨reach_exec hs, ⟨0, enq⟩, rfl, noCompileFailure_of_all compiles, reported⟩, rfl, rfl⟩

theorem skipped_counts_zero_in_front :
    ∃ s res, DefaultReport halfConfig s 1 (twoGroups [sampleItem false [0], sampleItem false [0, 1]]) res ∧
      res.totalScore = defaultScore (twoGroups [sampleItem false [0], sampleItem false [0, 1]])
        (padded (twoGroups [sampleItem false [0], sampleItem false [0, 1]]) res.tdResults) := by
  obtain ⟨s, res, r, tds, _⟩ := defaultReport_of_exec
    (otherSkipped [sampleItem false [0], sampleItem false [0, 1]] 3 1)
    [sampleItem false [0], sampleItem false [0, 1]]
    [.new, halfResult] 50000000 (by decide +kernel)
  have zero : ∀ g < 2, CountsZero (twoGroups [sampleItem false [0], sampleItem false [0, 1]])
      [.new, halfResult] g := by decide +kernel
  exact ⟨s, res, r, ((skipped_counts_zero r).2.2.2 (tds ▸ zero)).1⟩

/-- The same two testdata with the same results, in the other order. -/
theorem skipped_behind_not_counted :
    ∃ s res s' res', DefaultReport halfConfig s 1 (twoGroups [sampleItem false [0, 1], sampleItem false [0]]) res ∧
      DefaultReport halfConfig s' 1 (twoGroups [sampleItem false [0], sampleItem false [0, 1]]) res' ∧
      ((padded (twoGroups [sampleItem false [0], sampleItem false [0, 1]]) res'.tdResults).zip
        [sampleItem false [0], sampleItem false [0, 1]]).Perm
      ((padded (twoGroups [sampleItem false [0, 1], sampleItem false [0]]) res.tdResults).zip
        [sampleItem false [0, 1], sampleItem false [0]]) ∧
      res.totalScore = 100000000 ∧ res'.totalScore = 50000000 := by
  obtain ⟨s, res, r, tds, total⟩ := defaultReport_of_exec
    (otherSkipped [sampleItem false [0, 1], sampleItem false [0]] 1 3)
    [sampleItem false [0, 1], sampleItem false [0]]
    [halfResult] 100000000 (by decide +kernel)
  obtain ⟨s', res', r', tds', total'⟩ := defaultReport_of_exec
    (otherSkipped [sampleItem false [0], sampleItem false [0, 1]] 3 1)
    [sampleItem false [0], sampleItem false [0, 1]]
    [.new, halfResult] 50000000 (by decide +kernel)
  refine ⟨s, res, s', res', r, r', ?_, total, total'⟩
  rw [tds, tds']
  exact List.Perm.swap _ _ _

end TiojJudge.Judge
