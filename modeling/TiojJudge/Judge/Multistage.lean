import TiojJudge.Judge.Accepted
import TiojJudge.Judge.Selected

/-!
# Submissions judged between the stages

When every execution and every checker of a submission succeeds, its testdata go
through all stages. `ReadPolygonSpecjudgeResult` makes an exception: before the
last stage the score of an accepting checker is 0, which is no full score.

* `Favourable`: the events that are not in the way;
* `finalized_in_order`: the tasks of a testdata are finalized in their order;
* `Smooth`, `Halted`: the invariants of favourable lives, without that exception and with it;
* `stages_passed_iff`: a testdata passes all stages unless the checker is of type
  `SPECJUDGE_POLYGON` and there is more than one.
-/

namespace TiojJudge.Judge
open Machine

/-- Nothing goes wrong for submission `id`: it is not superseded, programs compile, executions
end without a verdict and checkers accept. -/
def Event.Favourable (cfg : Config) (sub : Submission) (id : Int) : Event → Prop
  | .superseded k => k ≠ id
  | .finalizing _ k (.compile _) (some o) => k = id → compileFails o = false
  | .finalizing _ k (.scoring _ j) (some o) =>
    k = id → CheckerAccepts cfg sub.specjudgeType (sub.lastStage j) o
  | .executeFinished sub' _ _ td => sub'.submissionInternalId = id → td.verdict = .nul
  | _ => True

instance (cfg : Config) (sub : Submission) (id : Int) : DecidablePred (Event.Favourable cfg sub id) :=
  fun e => by
    unfold Event.Favourable
    split <;> infer_instance

def AllFavourable (cfg : Config) (sub : Submission) (id : Int) (log : List Event) : Prop :=
  ∀ e ∈ log, e.Favourable cfg sub id

/-- The task of testdata `i` that the event finalizes. -/
def Event.finalizedTask (id : Int) (i : Nat) : Event → Option Task
  | .finalizing _ k t _ => if k = id ∧ t.testdata = some i then some t else none
  | _ => none

/-- The tasks of testdata `i`, in the order they were finalized. -/
abbrev finalizedTasks (id : Int) (i : Nat) (log : List Event) : List Task :=
  log.filterMap (Event.finalizedTask id i)

theorem AllFavourable.before {cfg : Config} {sub : Submission} {id : Int} {base : Nat} {l l' : Life}
    (h : AllFavourable cfg sub id l'.ctx.log) (step : Life.Step cfg id base l l') :
    AllFavourable cfg sub id l.ctx.log := by
  obtain ⟨new, log⟩ := step.log
  exact fun e he => h e (log ▸ List.mem_append_left new he)

/-- The result of testdata `i`. -/
def AcceptedAt (res : SubmissionResult) (i : Nat) : Prop :=
  ∃ td, res.tdResults[i]? = some td ∧ td.verdict = .ac ∧ td.score = fullScore

/-- No task of the testdata was skipped, all were finalized in the order of the stages, and
the testdata is accepted with the full score: in the list, as long as the submission is there,
and in what is reported of it. -/
structure StagesPassed (sub : Submission) (id : Int) (i : Nat) (s : State) : Prop where
  ran : ∀ t, t.testdata = some i → ¬ Life.Ended id t none s.log
  order : finalizedTasks id i s.log = sub.chainTasks i
  listed : ∀ entry, s.submissionList.lookup id = some entry → AcceptedAt entry.result i
  reported : ∀ res, .overallResult sub res ∈ s.log → AcceptedAt res i

namespace Life

variable {cfg : Config} {id : Int} {base : Nat} {sub : Submission} {l l' : Life} {i : Nat}

/-! ## The order of the tasks -/

instance : OfTasks (Event.finalizedTask id i) where
  others e other := by cases e <;> first | rfl | cases other

@[simp] theorem finalizedTasks_finalizing {tid : Nat} {t : Task} {outcome : Option TaskOutcome}
    {log : List Event} : finalizedTasks id i (.finalizing tid id t outcome :: log) =
      (if t.testdata = some i then [t] else []) ++ finalizedTasks id i log := by
  by_cases mine : t.testdata = some i <;> simp [Event.finalizedTask, mine]

@[simp] theorem finalizedTasks_launched {tid : Nat} {t : Task} {handle : Int} {log : List Event} :
    finalizedTasks id i (.launched tid id t handle :: log) = finalizedTasks id i log := rfl

/-- A step finalizes an active task, or none. -/
theorem Step.finalized (h : Step cfg id base l l') (i : Nat) :
    (l'.todo = l.todo ∧ finalizedTasks id i l'.ctx.log = finalizedTasks id i l.ctx.log) ∨
    ∃ t, l.Active t ∧ l'.todo = l.todo.erase t ∧ finalizedTasks id i l'.ctx.log =
      finalizedTasks id i l.ctx.log ++ if t.testdata = some i then [t] else [] := by
  cases h with
  | launch _ setup =>
    have reports : finalizedTasks id i _ = [] := (setup_reports rfl setup).2.selects
    refine .inl ⟨rfl, ?_⟩
    simp [launched, started, Ctx.withLog, reports]
  | @skip t _ _ _ _ ready setup done =>
    have before : finalizedTasks id i _ = [] := (setup_reports rfl setup).2.selects
    have after : finalizedTasks id i _ = [] := (finalize_reports rfl done).2.selects
    refine .inr ⟨t, .inr ready, rfl, ?_⟩
    simp [settled, started, Ctx.withLog, before, after]
  | @finish t _ _ _ running done =>
    have after : finalizedTasks id i _ = [] := (finalize_reports rfl done).2.selects
    refine .inr ⟨t, .inl running, rfl, ?_⟩
    simp [settled, Ctx.withLog, after]
  | cancel =>
    refine .inl ⟨rfl, ?_⟩
    rw [Life.cancel, finalizedTasks, List.filterMap_append]
    exact List.append_nil _

end Life

/-- The first of the elements that are left is split off. -/
theorem filter_eq_cons {α : Type*} [DecidableEq α] {f : α → Nat} {as : List α} {p : α → Bool} {t : α}
    (sorted : as.Pairwise fun a b => f a < f b) (ht : t ∈ as) (pt : p t = true)
    (least : ∀ b ∈ as, p b = true → b ≠ t → f t < f b) :
    as.filter p = t :: as.filter fun b => !decide (b = t) && p b := by
  induction as with
  | nil => cases ht
  | cons a as ih =>
    obtain ⟨above, sorted⟩ := List.pairwise_cons.mp sorted
    by_cases same : a = t
    · subst same
      rw [List.filter_cons_of_pos pt, List.filter_cons_of_neg (by simp)]
      refine congrArg _ (List.filter_congr fun b hb => ?_)
      have other : b ≠ a := fun same => absurd (above b hb) (same ▸ Nat.lt_irrefl _)
      simp [other]
    · have ht := (List.mem_cons.mp ht).resolve_left (Ne.symm same)
      have pa : p a = false := by
        by_contra pa
        have := least a List.mem_cons_self (by simpa using pa) same
        have := above t ht
        omega
      rw [List.filter_cons_of_neg (by simp [pa]), List.filter_cons_of_neg (by simp [pa])]
      exact ih sorted ht fun b hb => least b (List.mem_cons_of_mem _ hb)

namespace Life

variable {cfg : Config} {id : Int} {base : Nat} {sub : Submission} {l l' : Life} {i : Nat}

/-- The tasks of a testdata that were finalized, and those that are left, in the order of the
stages. -/
theorem finalized_in_order (wf : sub.WellFormed) (hi : i < sub.numTds)
    (h : Reachable cfg id base sub l) :
    finalizedTasks id i l.ctx.log ++ (sub.chainTasks i).filter (· ∈ l.todo) = sub.chainTasks i := by
  have chain {t : Task} (ht : t ∈ sub.chainTasks i) : sub.Planned t ∧ t.testdata = some i := by
    rcases Submission.mem_chainTasks.mp ht with ⟨j, hj, rfl⟩ | ⟨j, hj, rfl⟩
    · exact ⟨⟨hi, hj⟩, rfl⟩
    · exact ⟨⟨hi, hj⟩, rfl⟩
  have member {t : Task} (ht : sub.Planned t) (mine : t.testdata = some i) :
      t ∈ sub.chainTasks i := by
    cases t with
    | execute k j =>
      obtain rfl := Option.some.inj mine
      exact Submission.mem_chainTasks.mpr (.inl ⟨j, ht.2, rfl⟩)
    | scoring k j =>
      obtain rfl := Option.some.inj mine
      exact Submission.mem_chainTasks.mpr (.inr ⟨j, ht.2, rfl⟩)
    | compile | summary => cases mine
  induction h with
  | start =>
    rw [show finalizedTasks id i (start id base sub).ctx.log = [] from rfl, List.nil_append]
    refine List.filter_eq_self.mpr fun t ht => ?_
    exact decide_eq_true (List.mem_toFinset.mpr (Submission.mem_planTasks.mpr (chain ht).1))
  | @next l l' reach step ih =>
    have shape := shape wf reach
    rcases step.finalized i with ⟨todo, same⟩ | ⟨t, active, todo, more⟩
    · simpa only [todo, same] using ih
    · rw [more, todo]
      by_cases mine : t.testdata = some i
      · have here := shape.active_todo active
        have split := filter_eq_cons (p := fun b => decide (b ∈ l.todo))
          (Submission.chainTasks_sorted wf i) (member (shape.planned t here) mine) (by simpa using here)
          fun b hb left other => Submission.Leads.rank_lt wf
            (shape.front wf active (by simpa using left) mine (chain hb).2) (Ne.symm other)
        rw [split] at ih
        rw [if_pos mine, List.append_assoc, List.singleton_append]
        simpa using ih
      · rw [if_neg mine, List.append_nil]
        refine Eq.trans (congrArg _ (List.filter_congr fun b hb => ?_)) ih
        have other : b ≠ t := fun same => mine (same ▸ (chain hb).2)
        simp [other]

/-! ## Favourable lives -/

theorem going_of_favourable (reach : Reachable cfg id base sub l)
    (fav : AllFavourable cfg sub id l.ctx.log) : l.ctx.cancelled = false := by
  by_contra on
  exact fav _ (superseded_of_cancelled reach (by simpa using on)) rfl

theorem nul_of_favourable (reach : Reachable cfg id base sub l)
    (fav : AllFavourable cfg sub id l.ctx.log) (left : .summary ∈ l.todo)
    (idle : .summary ∉ l.running) : l.ctx.result.verdict = .nul := by
  apply nul_of_compiled reach ?_ left idle
  rintro subtask o ⟨tid, ended⟩
  exact fav _ ended rfl

/-- A testdata whose tasks are left is not excused when no testdata is rejected. -/
theorem not_excused_of_favourable {t : Task} (wf : sub.WellFormed)
    (reach : Reachable cfg id base sub l) (fav : AllFavourable cfg sub id l.ctx.log)
    (passing : ∀ k, k < sub.numTds → ¬ Rejected sub l k) (ht : t ∈ l.todo)
    (mine : t.testdata = some i) : ¬ l.Excused i := by
  have shape := shape wf reach
  have other : .summary ≠ t := by
    rintro rfl
    cases mine
  obtain ⟨left, idle⟩ := shape.leads (Submission.leads_summary wf (shape.planned t ht)) ht
  rintro (set | ⟨item, found, cancelled⟩)
  · exact set (nul_of_favourable reach fav left (idle other))
  · rcases Ctx.isCancelled_iff.mp cancelled with on | ⟨nonempty, all⟩
    · rw [going_of_favourable reach fav] at on
      cases on
    · obtain ⟨g, hg⟩ := List.exists_mem_of_ne_nil _ nonempty
      obtain ⟨_, k, _, found, _, rejected⟩ := blamed wf reach (all g hg)
      exact passing k (List.getElem?_eq_some_iff.mp found).1 rejected

/-- No testdata has a verdict before its last scoring, and then it is accepted. -/
def Smooth (sub : Submission) (l : Life) : Prop :=
  ∀ i, i < sub.numTds → (l.ctx.td i).skipStage = false ∧
    if sub.lastScoring i ∈ l.todo then (l.ctx.td i).verdict = .nul
    else (l.ctx.td i).verdict = .ac ∧ (l.ctx.td i).score = fullScore

theorem Smooth.not_rejected (smooth : Smooth sub l) (hi : i < sub.numTds) : ¬ Rejected sub l i := by
  intro rejected
  obtain ⟨_, verdict⟩ := smooth i hi
  split at verdict
  · exact rejected.set verdict
  · exact rejected.failed verdict.1

/-- The setup of a task of a testdata launches it. -/
theorem Smooth.launches {t : Task} {files : BoxFiles} {c : Ctx} (smooth : Smooth sub l)
    (wf : sub.WellFormed) (hi : i < sub.numTds) (reach : Reachable cfg id base sub l)
    (fav : AllFavourable cfg sub id l.ctx.log) (noSkip : sub.specjudgeType ≠ .skip)
    (ready : l.Ready t) (mine : t.testdata = some i) :
    setup cfg l.ctx.cleared files t ≠ .ok (false, c) := by
  intro setup
  have shape := shape wf reach
  obtain ⟨go, verdict⟩ := smooth i hi
  rw [if_pos (shape.last_left wf ready.1 mine)] at verdict
  rcases setup_unwanted mine setup with ⟨excused | skip | ⟨set, _⟩, _⟩ |
    ⟨_, skipped, _, _, _, failed, type, _⟩
  · exact not_excused_of_favourable wf reach fav (fun _ hk => smooth.not_rejected hk) ready.1 mine
      excused
  · rw [go] at skip
    cases skip
  · exact set verdict
  · cases skipped with
    | true => exact failed rfl verdict
    | false => exact noSkip (shape.same ▸ type rfl)

theorem Smooth.start (wf : sub.WellFormed) : Smooth sub (start id base sub) := by
  intro i hi
  have here : sub.lastScoring i ∈ (Life.start id base sub).todo :=
    List.mem_toFinset.mpr (Submission.mem_planTasks.mpr (Submission.planned_lastScoring wf hi))
  rw [if_pos here]
  exact ⟨rfl, rfl⟩

/-- Without `SPECJUDGE_POLYGON` before the last stage, nothing stops a testdata. -/
theorem Smooth.step (smooth : Smooth sub l) (wf : sub.WellFormed)
    (key : sub.submissionInternalId = id) (noSkip : sub.specjudgeType ≠ .skip)
    (oneStage : sub.specjudgeType = .specjudgePolygon → sub.numStages = 1)
    (reach : Reachable cfg id base sub l) (step : Step cfg id base l l')
    (fav : AllFavourable cfg sub id l'.ctx.log) : Smooth sub l' := by
  intro i hi
  have shape := shape wf reach
  have passing (k : Nat) (hk : k < sub.numTds) : ¬ Rejected sub l k := smooth.not_rejected hk
  obtain ⟨go, verdict⟩ := smooth i hi
  -- the last scoring is left while a task of the testdata is active
  have nul {t : Task} (active : l.Active t) (mine : t.testdata = some i) :
      (l.ctx.td i).verdict = .nul := by
    rwa [if_pos (shape.last_left wf (shape.active_todo active) mine)] at verdict
  have wanted {t : Task} (ready : l.Ready t) (mine : t.testdata = some i) : ¬ l.Excused i :=
    not_excused_of_favourable wf reach (fav.before step) passing ready.1 mine
  rcases step.testdata i with ⟨td, chain⟩ | ⟨_, _, _, td, todo, _⟩ |
    ⟨mine, ready, unwanted, -, -, -⟩ | ⟨ready, -, -, failed, type, -, -, -⟩ |
    ⟨here, td, todo, -, finished⟩ | ⟨here, td, todo, -, tid, ended⟩
  · have last := (chain (sub.lastScoring i) rfl).1
    simp only [td, last]
    exact ⟨go, verdict⟩
  · simp only [td, todo]
    exact ⟨go, verdict⟩
  · rcases unwanted with excused | skip | ⟨set, _⟩
    · exact absurd excused (wanted ready mine)
    · rw [go] at skip
      cases skip
    · exact absurd (nul (.inr ready) mine) set
  · rename_i skipped
    cases skipped with
    | true => exact absurd (nul (.inr ready) rfl) (failed rfl)
    | false => exact absurd (shape.same ▸ type rfl) noSkip
  · rename_i j _ _
    have other : sub.lastScoring i ≠ .execute i j := by simp [Submission.lastScoring]
    have same : (l'.ctx.td i).skipStage = (l.ctx.td i).skipStage := by
      rw [td]
      unfold executeResult accumulate
      split <;> rfl
    refine ⟨same.trans go, ?_⟩
    rw [todo, if_pos (Finset.mem_erase.mpr ⟨other, shape.last_left wf (shape.running here) rfl⟩)]
    exact fav _ finished ((congrArg _ shape.same).trans key)
  · rename_i j o
    have accepts : CheckerAccepts cfg sub.specjudgeType (sub.lastStage j) o := fav _ ended rfl
    obtain ⟨accepted, skips, full⟩ := scoringOutcome_accepts accepts (nul (.inl here) rfl) go
    rw [shape.same] at td
    rw [← td] at accepted skips full
    have planned := shape.planned _ (shape.running here)
    by_cases last : sub.lastStage j = true
    · obtain rfl := (lastStage_iff wf).mp last
      have gone : sub.lastScoring i ∉ l'.todo := by
        rw [todo]
        exact Finset.notMem_erase _ _
      rw [if_neg gone]
      rw [last] at accepted skips
      exact ⟨by simpa using skips, accepted, full last⟩
    · have early : j ≠ sub.numStages - 1 := fun same => last ((lastStage_iff wf).mpr same)
      have other : sub.lastScoring i ≠ .scoring i j := fun same => by
        simp only [Submission.lastScoring, Task.scoring.injEq, true_and] at same
        exact early same.symm
      have ordinary : sub.specjudgeType ≠ .specjudgePolygon := fun polygon => by
        have := Submission.scoredStage_lt wf planned.2
        have := oneStage polygon
        omega
      rw [todo, if_pos (Finset.mem_erase.mpr ⟨other, shape.last_left wf (shape.running here) rfl⟩)]
      simp only [Bool.not_eq_true] at last
      simp only [last, ordinary, and_false, iff_false, Bool.not_eq_true] at skips
      exact ⟨skips, by simpa [acceptedVerdict, last, ordinary] using accepted⟩

theorem smooth (wf : sub.WellFormed) (key : sub.submissionInternalId = id)
    (noSkip : sub.specjudgeType ≠ .skip)
    (oneStage : sub.specjudgeType = .specjudgePolygon → sub.numStages = 1)
    (reach : Reachable cfg id base sub l) (fav : AllFavourable cfg sub id l.ctx.log) :
    Smooth sub l := by
  induction reach with
  | start => exact .start wf
  | next reach step ih => exact (ih (fav.before step)).step wf key noSkip oneStage reach step fav

/-- No task of a testdata is skipped. -/
theorem never_skipped {t : Task} (wf : sub.WellFormed) (key : sub.submissionInternalId = id)
    (noSkip : sub.specjudgeType ≠ .skip)
    (oneStage : sub.specjudgeType = .specjudgePolygon → sub.numStages = 1)
    (reach : Reachable cfg id base sub l) (fav : AllFavourable cfg sub id l.ctx.log)
    (hi : i < sub.numTds) (mine : t.testdata = some i) : ¬ Ended id t none l.ctx.log := by
  induction reach with
  | start => simp [Life.start, Ended]
  | next reach step ih =>
    intro ended
    have before := fav.before step
    rcases step.ended ended with old | ⟨_, ready, _, _, setup⟩ | ⟨_, _, _, no, _⟩
    · exact ih before old
    · exact (Life.smooth wf key noSkip oneStage reach before).launches wf hi reach before noSkip ready
        mine setup
    · cases no

theorem Smooth.accepted (smooth : Smooth sub l) (hi : i < sub.numTds)
    (done : sub.lastScoring i ∉ l.todo) : AcceptedAt l.ctx.result i := by
  obtain ⟨_, verdict⟩ := smooth i hi
  rw [if_neg done] at verdict
  cases found : l.ctx.result.tdResults[i]? with
  | none => simp [Ctx.td, found, TestdataResult.new] at verdict
  | some td => exact ⟨td, found, by simpa [Ctx.td, found] using verdict⟩

/-- What is reported at the end are the results that the submission has then. -/
theorem reported_testdata (wf : sub.WellFormed) (reach : Reachable cfg id base sub l)
    {sub' : Submission} {res : SubmissionResult} (report : .overallResult sub' res ∈ l.ctx.log) :
    .summary ∉ l.todo ∧ res.tdResults = l.ctx.result.tdResults := by
  induction reach with
  | start => simp [Life.start] at report
  | @next l l' reach step ih =>
    have shape := shape wf reach
    have still {t : Task} (active : l.Active t) (old : .overallResult sub' res ∈ l.ctx.log) : False :=
      (ih old).1 (shape.summary_left wf (shape.active_todo active))
    have silent {files : BoxFiles} {t : Task} {launch : Bool} {c : Ctx}
        (setup : setup cfg l.ctx.cleared files t = .ok (launch, c))
        (report : .overallResult sub' res ∈ c.log) : False := by
      obtain ⟨_, _, _, _, no⟩ := setup_results rfl setup report rfl
      cases no
    cases step with
    | launch ready setup =>
      simp only [launched, started, Ctx.withLog, List.mem_append, List.mem_singleton, reduceCtorEq,
        or_false] at report
      exact report.elim (fun old => (still (.inr ready) old).elim) fun new => (silent setup new).elim
    | @skip t _ _ c c' ready setup done =>
      simp only [settled, started, Ctx.withLog, List.mem_append, List.mem_singleton, reduceCtorEq,
        or_false] at report
      rcases report with (old | new) | new
      · exact (still (.inr ready) old).elim
      · exact (silent setup new).elim
      · obtain ⟨_, ⟨_, _, _, no⟩ | ⟨rfl, same⟩⟩ := finalize_results rfl done new rfl
        · cases no
        · cases same
          exact ⟨Finset.notMem_erase _ _, rfl⟩
    | @finish t _ _ c running done =>
      simp only [settled, Ctx.withLog, List.mem_append, List.mem_singleton, reduceCtorEq,
        or_false] at report
      rcases report with old | new
      · exact (still (.inl running) old).elim
      · obtain ⟨_, ⟨_, _, _, no⟩ | ⟨rfl, same⟩⟩ := finalize_results rfl done new rfl
        · cases no
        · cases same
          exact ⟨Finset.notMem_erase _ _, rfl⟩
    | cancel =>
      simp only [Life.cancel, List.mem_append, List.mem_singleton, reduceCtorEq, or_false] at report
      exact ih report

/-! ## Polygon checkers before the last stage -/

/-- After the first stage no stage of the testdata runs. -/
structure Halted (sub : Submission) (i : Nat) (l : Life) : Prop where
  fresh : .scoring i 0 ∈ l.todo → (l.ctx.td i).verdict = .nul
  stopped : .summary ∈ l.todo → .scoring i 0 ∉ l.todo →
    (l.ctx.td i).skipStage = true ∨ l.Excused i
  idle : ∀ t ∈ l.running, t.testdata = some i → t = .execute i 0 ∨ t = .scoring i 0

theorem planned_scoring (wf : sub.WellFormed) (hi : i < sub.numTds)
    (between : sub.judgeBetweenStages = true) : sub.Planned (.scoring i 0) := by
  refine ⟨hi, ?_⟩
  simpa [Submission.scoredStage, between] using wf.numStages.1

/-- The tasks of later stages wait for the first scoring. -/
theorem first_scoring_leads {t : Task} (wf : sub.WellFormed) (hi : i < sub.numTds)
    (between : sub.judgeBetweenStages = true) (planned : sub.Planned t)
    (mine : t.testdata = some i) (later : t ≠ .execute i 0) : sub.Leads (.scoring i 0) t := by
  rcases Submission.chain_total wf (planned_scoring wf hi between) planned rfl mine with leads | leads
  · exact leads
  · by_cases same : t = .scoring i 0
    · exact same ▸ .refl
    · have low := leads.rank_lt wf same
      cases t with
      | execute k j =>
        obtain rfl := Option.some.inj mine
        obtain rfl : j = 0 := by
          simp only [Submission.rank] at low
          omega
        exact absurd rfl later
      | scoring =>
        simp only [Submission.rank] at low
        omega
      | compile | summary => cases mine

theorem Halted.start (wf : sub.WellFormed) (hi : i < sub.numTds)
    (between : sub.judgeBetweenStages = true) : Halted sub i (start id base sub) where
  fresh := fun _ => rfl
  stopped := fun _ gone => by
    refine absurd (List.mem_toFinset.mpr ?_) gone
    exact Submission.mem_planTasks.mpr (planned_scoring wf hi between)
  idle := fun t ht => absurd ht (Finset.notMem_empty t)

/-- The score 0 of the accepting checker, before the last stage, halts the testdata. -/
theorem Halted.step (halted : Halted sub i l) (wf : sub.WellFormed)
    (key : sub.submissionInternalId = id) (hi : i < sub.numTds)
    (between : sub.judgeBetweenStages = true) (polygon : sub.specjudgeType = .specjudgePolygon)
    (many : 2 ≤ sub.numStages) (reach : Reachable cfg id base sub l) (step : Step cfg id base l l')
    (fav : AllFavourable cfg sub id l'.ctx.log) : Halted sub i l' := by
  have shape := shape wf reach
  have left {t : Task} (active : l.Active t) : .summary ∈ l.todo :=
    shape.summary_left wf (shape.active_todo active)
  have before (left : .summary ∈ l'.todo) : .summary ∈ l.todo := step.todo_subset shape left
  have kept (td : l'.ctx.td i = l.ctx.td i) (left : .summary ∈ l'.todo)
      (gone : .scoring i 0 ∉ l.todo) : (l'.ctx.td i).skipStage = true ∨ l'.Excused i := by
    rw [td]
    exact (halted.stopped (before left) gone).imp_right fun excused => excused.step step left
  -- a task of a later stage is active when the first scoring is finalized
  have gone {t : Task} (ready : l.Ready t) (mine : t.testdata = some i) (later : t ≠ .execute i 0)
      (other : t ≠ .scoring i 0) : .scoring i 0 ∉ l.todo :=
    shape.before_ready (first_scoring_leads wf hi between (shape.planned t ready.1) mine later) ready
      (Ne.symm other)
  rcases step.testdata i with ⟨td, chain⟩ | ⟨mine, ready, wanted, td, todo, running⟩ |
    ⟨mine, ready, unwanted, td, todo, running⟩ | ⟨ready, free, go, failed, type, td, todo, running⟩ |
    ⟨here, td, todo, running, finished⟩ | ⟨here, td, todo, running, tid, ended⟩
  · refine ⟨fun first => ?_, fun left gone => ?_, fun t ht mine => ?_⟩
    · exact td ▸ halted.fresh ((chain _ rfl).1.mp first)
    · exact kept td left fun here => gone ((chain _ rfl).1.mpr here)
    · exact halted.idle t ((chain t mine).2.mp ht) mine
  · rename_i t
    refine ⟨fun first => td ▸ halted.fresh (todo ▸ first), fun left gone => kept td left (todo ▸ gone),
      fun t' ht' mine' => ?_⟩
    rcases Finset.mem_insert.mp (running ▸ ht') with rfl | old
    · by_contra later
      rw [not_or] at later
      have stopped := halted.stopped (left (.inr ready)) (gone ready mine later.1 later.2)
      cases t' with
      | execute k j =>
        obtain rfl := Option.some.inj mine
        have hj : j ≠ 0 := fun first => later.1 (first ▸ rfl)
        rcases stopped with skip | excused
        · rw [(wanted.2 hj).1] at skip
          cases skip
        · exact wanted.1 excused
      | scoring k j =>
        obtain rfl := Option.some.inj mine
        rcases stopped with skip | excused
        · rw [wanted.2] at skip
          cases skip
        · exact wanted.1 excused
      | compile | summary => cases mine
    · exact halted.idle t' old mine'
  · rename_i t
    refine ⟨fun first => td ▸ halted.fresh (Finset.mem_of_mem_erase (todo ▸ first)),
      fun left gone => ?_, fun t' ht' mine' => halted.idle t' (running ▸ ht') mine'⟩
    by_cases here : .scoring i 0 ∈ l.todo
    · obtain rfl : .scoring i 0 = t := by
        by_contra other
        exact gone (todo ▸ Finset.mem_erase.mpr ⟨other, here⟩)
      rcases unwanted with excused | skip | ⟨_, j, no⟩
      · exact .inr (excused.step step left)
      · exact .inl (td ▸ skip)
      · cases no
    · exact kept td left here
  · rename_i j _ skipped
    have set : (l.ctx.td i).verdict ≠ .nul := by
      cases skipped with
      | true => exact failed rfl
      | false =>
        rw [shape.same, polygon] at type
        cases type rfl
    have scored : .scoring i 0 ∉ l.todo := fun first => set (halted.fresh first)
    rcases halted.stopped (left (.inr ready)) scored with skip | excused
    · rw [go] at skip
      cases skip
    · exact absurd excused free
  · rename_i j _ _
    obtain rfl : j = 0 := by simpa using halted.idle _ here rfl
    have first := (shape.leads (Submission.leads_scoring wf hi le_rfl
      (planned_scoring wf hi between).2) (shape.running here)).1
    refine ⟨fun _ => fav _ finished ((congrArg _ shape.same).trans key), fun _ gone => ?_,
      fun t ht mine => halted.idle t (Finset.mem_of_mem_erase (running ▸ ht)) mine⟩
    exact absurd (todo ▸ Finset.mem_erase.mpr ⟨by simp, first⟩) gone
  · rename_i j o
    obtain rfl : j = 0 := by simpa using halted.idle _ here rfl
    have go := (tested wf hi reach).active _ here rfl
    have accepts : CheckerAccepts cfg sub.specjudgeType (sub.lastStage 0) o := fav _ ended rfl
    have nul := halted.fresh (shape.running here)
    have early : sub.lastStage 0 = false := by
      by_contra last
      have := (lastStage_iff wf).mp (by simpa using last)
      omega
    refine ⟨fun first => ?_, fun _ _ => .inl ?_,
      fun t ht mine => halted.idle t (Finset.mem_of_mem_erase (running ▸ ht)) mine⟩
    · exact absurd (todo ▸ first) (Finset.notMem_erase _ _)
    · rw [td, shape.same]
      exact (scoringOutcome_accepts accepts nul go).2.1.mpr ⟨early, polygon⟩

theorem halted (wf : sub.WellFormed) (key : sub.submissionInternalId = id) (hi : i < sub.numTds)
    (between : sub.judgeBetweenStages = true) (polygon : sub.specjudgeType = .specjudgePolygon)
    (many : 2 ≤ sub.numStages) (reach : Reachable cfg id base sub l)
    (fav : AllFavourable cfg sub id l.ctx.log) : Halted sub i l := by
  induction reach with
  | start => exact .start wf hi between
  | next reach step ih =>
    exact (ih (fav.before step)).step wf key hi between polygon many reach step fav

/-- The last scoring never runs. -/
theorem last_never_ran {o : TaskOutcome} (wf : sub.WellFormed) (key : sub.submissionInternalId = id)
    (hi : i < sub.numTds) (between : sub.judgeBetweenStages = true)
    (polygon : sub.specjudgeType = .specjudgePolygon) (many : 2 ≤ sub.numStages)
    (reach : Reachable cfg id base sub l) (fav : AllFavourable cfg sub id l.ctx.log) :
    ¬ Ended id (sub.lastScoring i) (some o) l.ctx.log := by
  induction reach with
  | start => simp [Life.start, Ended]
  | next reach step ih =>
    intro ended
    have before := fav.before step
    rcases step.ended ended with old | ⟨no, _⟩ | ⟨_, _, _, _, running, _⟩
    · exact ih before old
    · cases no
    · have only := (Life.halted wf key hi between polygon many reach before).idle _ running rfl
      simp only [Submission.lastScoring, Task.scoring.injEq, true_and, reduceCtorEq, false_or] at only
      omega

end Life

variable {cfg : Config} {s : State} {sub : Submission} {id : Int} {base i : Nat}

theorem favourable_filter :
    AllFavourable cfg sub id (s.log.filter (Event.about id)) ↔ AllFavourable cfg sub id s.log := by
  refine ⟨fun fav e he => ?_, fun fav e he => fav e (List.mem_of_mem_filter he)⟩
  by_cases about : e.about id = true
  · exact fav e (List.mem_filter.mpr ⟨he, about⟩)
  · unfold Event.Favourable
    split
    all_goals simp_all [Event.about]

theorem finalizedTask_other (e : Event) (other : e.about id = false) :
    e.finalizedTask id i = none := by
  unfold Event.finalizedTask
  split
  · simp_all [Event.about]
  · rfl

/-- Once the last scoring is finalized, all tasks of the testdata are, in their order. -/
theorem Life.all_finalized {l : Life} (wf : sub.WellFormed) (hi : i < sub.numTds)
    (reach : Life.Reachable cfg id base sub l) (gone : sub.lastScoring i ∉ l.todo) :
    finalizedTasks id i l.ctx.log = sub.chainTasks i := by
  have none_left : (sub.chainTasks i).filter (· ∈ l.todo) = [] := by
    refine List.filter_eq_nil_iff.mpr fun t ht left => gone ?_
    refine (shape wf reach).last_left wf (by simpa using left) ?_
    rcases Submission.mem_chainTasks.mp ht with ⟨_, _, rfl⟩ | ⟨_, _, rfl⟩ <;> rfl
  simpa [none_left] using Life.finalized_in_order wf hi reach

/-- A submission judged between the stages, where every execution and every checker
succeeds, passes all stages unless the checker is of type `SPECJUDGE_POLYGON` and there is
more than one. -/
theorem stages_passed_iff (h : (judge cfg).Reach freshId s) (enq : .enqueued id sub base ∈ s.log)
    (between : sub.judgeBetweenStages = true)
    (type : sub.specjudgeType ∈ [.specjudgeOld, .specjudgeNew, .specjudgePolygon, .specjudgeKattis])
    (fav : AllFavourable cfg sub id s.log) (hi : i < sub.numTds)
    (done : Life.Over id (sub.lastScoring i) s.log) :
    StagesPassed sub id i s ↔ (sub.specjudgeType = .specjudgePolygon → sub.numStages = 1) := by
  obtain ⟨held, r⟩ := refined h
  obtain ⟨wf, key⟩ := r.sound id sub base enq
  obtain ⟨l, reach, follows⟩ := r.lives id sub base enq
  have fav : AllFavourable cfg sub id l.ctx.log := follows.log ▸ favourable_filter.mpr fav
  have ended {t : Task} {outcome : Option TaskOutcome} :
      Life.Ended id t outcome s.log ↔ Life.Ended id t outcome l.ctx.log := by
    rw [← follows.log, ended_filter]
  obtain ⟨outcome, done⟩ := done
  rw [ended] at done
  constructor
  · intro passed polygon
    by_contra more
    obtain ⟨positive, _⟩ := wf.numStages
    cases outcome with
    | none => exact passed.ran _ rfl (ended.mpr done)
    | some o => exact Life.last_never_ran wf key hi between polygon (by omega) reach fav done
  · intro oneStage
    have noSkip : sub.specjudgeType ≠ .skip := by
      intro skip
      simp [skip] at type
    have gone : sub.lastScoring i ∉ l.todo :=
      (Life.finalized_in_log wf reach (Submission.planned_lastScoring wf hi)).mpr ⟨outcome, done⟩
    have accepted := (Life.smooth wf key noSkip oneStage reach fav).accepted hi gone
    refine ⟨fun t mine skipped => ?_, ?_, fun entry listed => ?_, fun res report => ?_⟩
    · exact Life.never_skipped wf key noSkip oneStage reach fav hi mine (ended.mp skipped)
    · have same : finalizedTasks id i (s.log.filter (Event.about id)) = finalizedTasks id i s.log :=
        selects_about finalizedTask_other _
      rw [← same, follows.log]
      exact Life.all_finalized wf hi reach gone
    · by_cases left : .summary ∈ l.todo
      · rw [(follows.listed left).1] at listed
        exact Option.some.inj listed ▸ accepted
      · rw [(follows.gone left).1] at listed
        cases listed
    · have report : .overallResult sub res ∈ l.ctx.log :=
        follows.log ▸ List.mem_filter.mpr ⟨report, by simp [Event.about, key]⟩
      rw [AcceptedAt, (Life.reported_testdata wf reach report).2]
      exact accepted

/-- One testdata, two stages. -/
def stagesSubmission (type : SpecjudgeType) : Submission :=
  { sampleSubmission 1 1 [sampleItem false [0]] with
    specjudgeType := type
    stages := 2
    judgeBetweenStages := true }

def kattisAccepts : TaskOutcome :=
  ⟨exited 42, { BoxFiles.empty with output := some [], nextpass := true }⟩

/-- Every task runs. -/
def kattisRun : List Label :=
  [.push (stagesSubmission .specjudgeKattis) 0, .wake] ++ runAlone 5 goodOutcome ++
    runAlone 6 goodOutcome ++ runAlone 1 goodOutcome ++ runAlone 2 kattisAccepts ++
    runAlone 3 goodOutcome ++ runAlone 4 kattisAccepts

theorem stages_passed_by_kattis :
    ∃ s, (judge (sampleConfig 1)).exec freshId .init kattisRun = some s ∧
      StagesPassed (stagesSubmission .specjudgeKattis) 1 0 s := by
  have run : ((judge (sampleConfig 1)).exec freshId .init kattisRun).map (fun s =>
      (s.log.contains (.enqueued 1 (stagesSubmission .specjudgeKattis) 0),
        s.log.all fun e => decide (e.Favourable (sampleConfig 1) (stagesSubmission .specjudgeKattis) 1),
        s.log.contains (.finalizing 4 1 (.scoring 0 1) (some kattisAccepts)))) =
      some (true, true, true) := by decide +kernel
  obtain ⟨s, hs, seen⟩ := Option.map_eq_some_iff.mp run
  simp only [Prod.mk.injEq, List.all_eq_true, decide_eq_true_eq, List.contains_iff_mem] at seen
  obtain ⟨enq, fav, done⟩ := seen
  refine ⟨s, hs, ?_⟩
  exact (stages_passed_iff (reach_exec hs) enq rfl (by decide) fav (by decide) ⟨_, _, done⟩).mpr
    (by decide)

/-- The second stage is skipped. -/
def polygonRun : List Label :=
  [.push (stagesSubmission .specjudgePolygon) 0, .wake] ++ runAlone 5 goodOutcome ++
    runAlone 6 goodOutcome ++ runAlone 1 goodOutcome ++ runAlone 2 goodOutcome ++
    [.dispatch 3 5 .empty, .dispatch 4 5 .empty]

theorem stages_halted_by_polygon :
    ∃ s, (judge (sampleConfig 1)).exec freshId .init polygonRun = some s ∧
      AllFavourable (sampleConfig 1) (stagesSubmission .specjudgePolygon) 1 s.log ∧
      Life.Over 1 (.scoring 0 1) s.log ∧
      ¬ StagesPassed (stagesSubmission .specjudgePolygon) 1 0 s := by
  have run : ((judge (sampleConfig 1)).exec freshId .init polygonRun).map (fun s =>
      (s.log.all fun e => decide (e.Favourable (sampleConfig 1) (stagesSubmission .specjudgePolygon) 1),
        s.log.contains (.finalizing 4 1 (.scoring 0 1) none))) = some (true, true) := by decide +kernel
  obtain ⟨s, hs, seen⟩ := Option.map_eq_some_iff.mp run
  simp only [Prod.mk.injEq, List.all_eq_true, decide_eq_true_eq, List.contains_iff_mem] at seen
  obtain ⟨fav, skipped⟩ := seen
  exact ⟨s, hs, fav, ⟨_, _, skipped⟩, fun passed => passed.ran (.scoring 0 1) rfl ⟨_, skipped⟩⟩

end TiojJudge.Judge
