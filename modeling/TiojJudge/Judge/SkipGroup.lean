import TiojJudge.Judge.Determined
import TiojJudge.Judge.Totals

/-!
# Runs with and without skipped groups

`FinalizeScoring` cancels the groups of a testdata that fails, and the testdata
whose groups are all cancelled are skipped. The default summary takes the minimum
over each group, and so it comes to the same when a testdata that counts has
failed in the group; one that is ignored does not lower it.

* `Concluded`, `blamed_outcome`: a cancelled group has a testdata that failed in its outcome;
* `GroupsAgree`: where a testdata can be skipped, those that count decide;
* `skip_group_agrees`: then a run with `skip_group` and one without report the same score, and
  both or none report `AC`.
-/

namespace TiojJudge.Judge
open Machine

variable {cfg : Config} {sub : Submission} {out : Task → TaskOutcome} {id : Int} {base : Nat}
  {i j : Nat} {g : Int}

/-! ## A testdata that failed -/

/-- After `skip_stage` nothing happens but a first execution. -/
theorem afterTask_skip {td : TestdataResult} {t : Task} (skip : td.skipStage = true)
    (later : ∀ k, t ≠ .execute k 0) : afterTask cfg sub out td t = td := by
  cases t with
  | execute k stage =>
    have after : stage ≠ 0 := by
      rintro rfl
      exact later k rfl
    cases found : sub.testdata[k]? with
    | none => simp only [afterTask, found]
    | some => simp only [afterTask, found, if_pos (And.intro after (Or.inl skip))]
  | scoring => simp only [afterTask, skip, if_true]
  | compile | summary => rfl

theorem made_skip {ts ts' : List Task} (skip : (made cfg sub out ts).skipStage = true)
    (later : ∀ t ∈ ts', ∀ k, t ≠ .execute k 0) :
    made cfg sub out (ts ++ ts') = made cfg sub out ts := by
  induction ts' generalizing ts with
  | nil => rw [List.append_nil]
  | cons t ts' ih =>
    have same : made cfg sub out (ts ++ [t]) = made cfg sub out ts := by
      rw [made_concat]
      exact afterTask_skip skip (later t List.mem_cons_self)
    rw [← List.singleton_append, ← List.append_assoc, ih (same ▸ skip) fun t ht =>
      later t (List.mem_cons_of_mem _ ht), same]

namespace Life

variable {l l' : Life} {t : Task}

/-- A step that ends a task which is not skipped for the others' sake. -/
theorem Played.ends (p : Played cfg sub out i l) (wf : sub.WellFormed) (hi : i < sub.numTds)
    (shape : Shape sub l) (fixed : Fixed out id l'.ctx.log) (h : Step cfg id base l l')
    (mine : t.testdata = some i) (here : t ∈ l.todo) (gone : t ∉ l'.todo)
    (going : t ∈ l.running ∨ ¬ l.Excused i) :
    l'.ctx.td i = made cfg sub out (passed sub l' i) := by
  have this {t' : Task} (todo : l'.todo = l.todo.erase t') : t' = t := by
    by_contra other
    exact gone (todo ▸ Finset.mem_erase.mpr ⟨Ne.symm other, here⟩)
  rcases h.plays fixed fun t ht mine => shape.same ▸ (p.busy t ht mine).2 with
    ⟨_, chain⟩ | ⟨_, _, _, _, todo, _⟩ | @⟨t', _, ready, idle, td, todo, _⟩ |
    @⟨t', _, active, free, td, todo, _⟩
  · exact absurd ((chain t mine).1.mpr here) gone
  · exact absurd (todo ▸ here) gone
  · obtain rfl := this todo
    have free := going.resolve_left ready.2.1
    exact p.work wf hi shape mine (.inr ready) (fun _ => free) (td.trans (idle free).symm) todo
  · obtain rfl := this todo
    exact p.work wf hi shape mine active free td todo

/-- The testdata failed, with its outcome. -/
structure Concluded (cfg : Config) (sub : Submission) (out : Task → TaskOutcome) (l : Life)
    (i : Nat) : Prop where
  rejected : Rejected sub l i
  outcome : l.ctx.td i = testdataOutcome cfg sub out i

/-- The tasks of a testdata that are left come last in its chain. -/
theorem Shape.chain_split (s : Shape sub l) (wf : sub.WellFormed) (hi : i < sub.numTds) :
    sub.chainTasks i = Life.passed sub l i ++ (sub.chainTasks i).filter fun t => t ∈ l.todo := by
  have order := Submission.chain_leads wf hi
  unfold Life.passed
  generalize sub.chainTasks i = tasks at order ⊢
  induction tasks with
  | nil => rfl
  | cons a as ih =>
    obtain ⟨after, order⟩ := List.pairwise_cons.mp order
    by_cases here : a ∈ l.todo
    · have left : ∀ b ∈ as, b ∈ l.todo := fun b hb => (s.leads (after b hb) here).1
      rw [List.filter_eq_nil_iff.mpr (by simpa [here] using left), List.nil_append,
        List.filter_eq_self.mpr (by simpa [here] using left)]
    · rw [List.filter_cons_of_pos (by simpa using here), List.filter_cons_of_neg (by simpa using here),
        List.cons_append, ← ih order]

/-- A testdata that was scored and rejected has its outcome. -/
theorem concluded_of_scored (wf : sub.WellFormed) (hi : i < sub.numTds) (shape : Shape sub l)
    (r : Rejected sub l i) (gone : .scoring i j ∉ l.todo) (planned : sub.Planned (.scoring i j))
    (complete : l.ctx.td i = made cfg sub out (passed sub l i)) : Concluded cfg sub out l i := by
  refine ⟨r, ?_⟩
  rw [testdataOutcome, shape.chain_split wf hi]
  rcases r.final with skip | last
  · rw [made_skip (complete ▸ skip), complete]
    rintro t ht k rfl
    obtain ⟨ht, left⟩ := List.mem_filter.mp ht
    obtain rfl : k = i := Option.some.inj ((Submission.mem_chain hi).mp ht).2
    have leads := Submission.first_leads wf planned rfl
    exact gone (shape.leads leads (by simpa using left)).1
  · rw [List.filter_eq_nil_iff.mpr, List.append_nil, complete]
    intro t ht left
    have mine := ((Submission.mem_chain hi).mp ht).2
    exact last (shape.last_left wf (by simpa using left) mine)

theorem Concluded.step (c : Concluded cfg sub out l i) (wf : sub.WellFormed) (shape : Shape sub l)
    (tested : Tested sub i l) (h : Step cfg id base l l') : Concluded cfg sub out l' i :=
  ⟨c.rejected.step wf shape tested h, (Final.kept c.rejected.final wf shape tested h).trans c.outcome⟩

/-- Every cancelled group has a testdata that failed. -/
theorem blamed_outcome (wf : sub.WellFormed) (h : Reachable cfg id base sub l)
    (fixed : Fixed out id l.ctx.log) (left : .summary ∈ l.todo) (hg : l.ctx.Blames g) :
    ∃ i item, sub.testdata[i]? = some item ∧ g ∈ item.tdGroups ∧ Concluded cfg sub out l i := by
  induction h with
  | start =>
    obtain ⟨_, no, _⟩ := hg
    cases no
  | next reach step ih =>
    have shape := shape wf reach
    have fixedBefore := Fixed.step step fixed
    have leftBefore := step.todo_subset shape left
    rcases step.blames wf shape hg with old | ⟨_, i, j, item, found, mem, r, here, gone, going⟩
    · obtain ⟨i, item, found, mem, c⟩ := ih fixedBefore leftBefore old
      have hi : i < sub.numTds := (List.getElem?_eq_some_iff.mp found).1
      exact ⟨i, item, found, mem, c.step wf shape (tested wf hi reach) step⟩
    · have hi : i < sub.numTds := (List.getElem?_eq_some_iff.mp found).1
      have complete := (played wf hi reach fixedBefore leftBefore).ends wf hi shape fixed step rfl here
        gone going
      exact ⟨i, item, found, mem, concluded_of_scored wf hi (shape.step step) r gone
        (shape.planned _ here) complete⟩

end Life

/-! ## The scores of the groups -/

/-- `scores` are the minima of `score` over the testdata that count. -/
structure GroupMinima (sub : Submission) (score : Nat → Int) (scores : List Int) : Prop where
  length : scores.length = sub.groupScore.length
  minimum : ∀ x k, AtMost x k scores ↔
    AtMost x k (List.replicate sub.groupScore.length kInfScore) ∧
      ∀ i item, sub.testdata[i]? = some item → item.ignoreVerdict = false →
        (k : Int) ∈ item.tdGroups → x ≤ score i

theorem GroupMinima.unique {score score' : Nat → Int} {scores scores' : List Int}
    (m : GroupMinima sub score scores) (m' : GroupMinima sub score' scores')
    (same : ∀ i < sub.numTds, score i = score' i) : scores = scores' := by
  have bounds (x : Int) (k : Nat) : AtMost x k scores ↔ AtMost x k scores' := by
    rw [m.minimum, m'.minimum]
    refine and_congr_right fun _ => forall₂_congr fun i item => forall_congr' fun found => ?_
    rw [same i (List.getElem?_eq_some_iff.mp found).1]
  apply List.ext_getElem (m.length.trans m'.length.symm)
  intro k hk hk'
  apply le_antisymm
  · have lower : AtMost scores[k] k scores := by simp [AtMost, hk]
    simpa [AtMost, hk'] using (bounds _ _).mp lower
  · have lower : AtMost scores'[k] k scores' := by simp [AtMost, hk']
    simpa [AtMost, hk] using (bounds _ _).mpr lower

/-! ## What a run with skipped groups leaves -/

section Functions

variable (cfg : Config) (sub : Submission) (out : Task → TaskOutcome)

/-- The outcome of the testdata is worse than `AC`. -/
def Fails (i : Nat) : Prop := .ac < (testdataOutcome cfg sub out i).verdict

instance (i : Nat) : Decidable (Fails cfg sub out i) := by
  unfold Fails
  infer_instance

/-- In each of its groups, and in one at least, some testdata fails. -/
def Skippable (item : TestdataItem) : Prop :=
  item.tdGroups ≠ [] ∧ ∀ g ∈ item.tdGroups, ∃ k < sub.numTds, ∃ other ∈ sub.testdata[k]?,
    g ∈ other.tdGroups ∧ Fails cfg sub out k

instance (item : TestdataItem) : Decidable (Skippable cfg sub out item) := by
  unfold Skippable
  infer_instance

/-- No ignored testdata that fails is in a group of testdata `i`, and no task of it leaves a
negative score. -/
def Replaceable (i : Nat) (item : TestdataItem) : Prop :=
  (∀ k < sub.numTds, ∀ other ∈ sub.testdata[k]?, other.ignoreVerdict = true →
    Fails cfg sub out k → ∀ g ∈ item.tdGroups, g ∉ other.tdGroups) ∧
  ∀ done ∈ (sub.chainTasks i).inits, 0 ≤ (made cfg sub out done).score

instance (i : Nat) (item : TestdataItem) : Decidable (Replaceable cfg sub out i item) := by
  unfold Replaceable
  infer_instance

/-- What counts and can be skipped is replaced by what counts and failed. -/
def GroupsAgree : Prop :=
  ∀ i < sub.numTds, ∀ item ∈ sub.testdata[i]?, item.ignoreVerdict = false →
    Skippable cfg sub out item → Replaceable cfg sub out i item

instance : Decidable (GroupsAgree cfg sub out) := by
  unfold GroupsAgree
  infer_instance

/-- Outcomes other than `AC` have score 0, and `AC` has no negative one. -/
def PlainScores : Prop :=
  ∀ i < sub.numTds, ((testdataOutcome cfg sub out i).verdict ≠ .ac →
    (testdataOutcome cfg sub out i).score = 0) ∧
    ((testdataOutcome cfg sub out i).verdict = .ac → 0 ≤ (testdataOutcome cfg sub out i).score)

instance : Decidable (PlainScores cfg sub out) := by
  unfold PlainScores
  infer_instance

/-- A testdata that counts has its outcome among the results, or one of each of its groups
that counts has, and fails. -/
def Decided (tds : List TestdataResult) : Prop :=
  ∀ i item, sub.testdata[i]? = some item → item.ignoreVerdict = false →
    tds[i]? = some (testdataOutcome cfg sub out i) ∨
    ((∀ td ∈ tds[i]?, 0 ≤ td.score) ∧ item.tdGroups ≠ [] ∧
      ∀ g ∈ item.tdGroups, ∃ k other, sub.testdata[k]? = some other ∧ other.ignoreVerdict = false ∧
        g ∈ other.tdGroups ∧ tds[k]? = some (testdataOutcome cfg sub out k) ∧ Fails cfg sub out k)

end Functions

theorem PlainScores.zero (plain : PlainScores cfg sub out) (hi : i < sub.numTds)
    (fails : Fails cfg sub out i) : (testdataOutcome cfg sub out i).score = 0 :=
  (plain i hi).1 fails.ne'

theorem PlainScores.nonneg (plain : PlainScores cfg sub out) (hi : i < sub.numTds) :
    0 ≤ (testdataOutcome cfg sub out i).score := by
  by_cases accepted : (testdataOutcome cfg sub out i).verdict = .ac
  · exact (plain i hi).2 accepted
  · exact ((plain i hi).1 accepted).ge

/-- Results and testdata by their index. -/
theorem forall_zip {tds : List TestdataResult} {R : TestdataResult → TestdataItem → Prop} :
    (∀ p ∈ tds.zip sub.testdata, R p.1 p.2) ↔
      ∀ (i : Nat) td item, tds[i]? = some td → sub.testdata[i]? = some item → R td item := by
  constructor
  · intro all i td item here found
    apply all (td, item)
    apply List.mem_of_getElem? (i := i)
    simp [List.getElem?_zip_eq_some, here, found]
  · rintro all ⟨td, item⟩ hp
    obtain ⟨i, hi⟩ := List.mem_iff_getElem?.mp hp
    obtain ⟨here, found⟩ := List.getElem?_zip_eq_some.mp hi
    exact all i td item here found

theorem Decided.minima {tds : List TestdataResult} {scores : List Int} (d : Decided cfg sub out tds)
    (plain : PlainScores cfg sub out) (h : subtaskScores sub tds = .ok scores) :
    GroupMinima sub (fun i => (testdataOutcome cfg sub out i).score) scores := by
  refine ⟨subtaskScores_length h, fun x k => ?_⟩
  rw [subtaskScores_atMost h, forall_zip (R := fun td item => item.ignoreVerdict = false →
    (k : Int) ∈ item.tdGroups → x ≤ td.score)]
  refine and_congr_right fun _ => ⟨fun all i item found counts mem => ?_,
    fun all i td item here found counts mem => ?_⟩
  · rcases d i item found counts with here | ⟨_, _, failed⟩
    · exact all i _ item here found counts mem
    · obtain ⟨j, other, found', counts', mem', here, fails⟩ := failed k mem
      have low := all j _ other here found' counts' mem'
      rw [plain.zero (List.getElem?_eq_some_iff.mp found').1 fails] at low
      exact low.trans (plain.nonneg (List.getElem?_eq_some_iff.mp found).1)
  · rcases d i item found counts with outcome | ⟨nonneg, _, failed⟩
    · obtain rfl := Option.some.inj (here.symm.trans outcome)
      exact all i item found counts mem
    · obtain ⟨j, other, found', counts', mem', _, fails⟩ := failed k mem
      have low := all j other found' counts' mem'
      rw [plain.zero (List.getElem?_eq_some_iff.mp found').1 fails] at low
      exact low.trans (nonneg td here)

/-- The submission is accepted when no testdata that counts fails. -/
theorem Decided.accepted_iff {tds : List TestdataResult} (d : Decided cfg sub out tds) :
    overallVerdict sub tds = .ac ↔
      ∀ i item, sub.testdata[i]? = some item → item.ignoreVerdict = false → ¬ Fails cfg sub out i := by
  have entries : overallVerdict sub tds ≤ .ac ↔ ∀ p ∈ tds.zip sub.testdata,
      p.2.ignoreVerdict = false → p.1.verdict ≤ .ac := by
    rw [overallVerdict_eq, foldl_max_le, countedVerdicts, List.forall_mem_map]
    simp
  rw [le_antisymm_iff, and_iff_left (overallVerdict_ge sub tds), entries,
    forall_zip (R := fun td item => item.ignoreVerdict = false → td.verdict ≤ .ac)]
  refine ⟨fun all i item found counts => ?_, fun all i td item here found counts => ?_⟩
  · rcases d i item found counts with here | ⟨_, nonempty, failed⟩
    · exact not_lt.mpr (all i _ item here found counts)
    · obtain ⟨g, hg⟩ := List.exists_mem_of_ne_nil _ nonempty
      obtain ⟨k, other, found', counts', _, here, fails⟩ := failed g hg
      exact absurd fails (not_lt.mpr (all k _ other here found' counts'))
  · rcases d i item found counts with outcome | ⟨_, nonempty, failed⟩
    · obtain rfl := Option.some.inj (here.symm.trans outcome)
      exact not_lt.mp (all i item found counts)
    · obtain ⟨g, hg⟩ := List.exists_mem_of_ne_nil _ nonempty
      obtain ⟨k, other, found', counts', _, _, fails⟩ := failed g hg
      exact absurd fails (all k other found' counts')

theorem defaultTotals_score {res res' : SubmissionResult} (low : res.verdict < .ce)
    (h : defaultTotals cfg sub res = .ok res') :
    ∃ scores, subtaskScores sub res.tdResults = .ok scores ∧
      res'.totalScore =
        normalizeScore cfg (.fin (weightedScore sub scores / (100000000 * 1000000))) := by
  unfold defaultTotals at h
  rw [if_pos low] at h
  cases scores : subtaskScores sub res.tdResults with
  | error => simp [scores, Except.map] at h
  | ok =>
    simp only [scores, Except.map, Except.ok.injEq] at h
    subst h
    exact ⟨_, rfl, rfl⟩

namespace Life

variable {l : Life}

/-- Where the summary is next, what was skipped is replaced by what failed. -/
theorem decided_at_summary (wf : sub.WellFormed) (reach : Reachable cfg id base sub l)
    (fixed : Fixed out id l.ctx.log) (ready : l.Ready .summary) (kept : .superseded id ∉ l.ctx.log)
    (nul : l.ctx.result.verdict = .nul) (agree : sub.skipGroup = true → GroupsAgree cfg sub out) :
    Decided cfg sub out l.ctx.result.tdResults := by
  have shape := shape wf reach
  intro i item found counts
  have hi : i < sub.numTds := (List.getElem?_eq_some_iff.mp found).1
  by_cases excused : l.Excused i
  · obtain ⟨item', found', cancelled⟩ := excused.resolve_left (not_not.mpr nul)
    rw [shape.same] at found'
    obtain rfl := Option.some.inj (found.symm.trans found')
    obtain ⟨nonempty, all⟩ : item.tdGroups ≠ [] ∧ ∀ g ∈ item.tdGroups, l.ctx.Blames g := by
      refine (Ctx.isCancelled_iff.mp cancelled).resolve_left fun on => ?_
      exact kept (superseded_of_cancelled reach on)
    -- in each group, the testdata that failed
    have failed : ∀ g ∈ item.tdGroups, ∃ k other, sub.testdata[k]? = some other ∧
        g ∈ other.tdGroups ∧ Fails cfg sub out k ∧
        l.ctx.result.tdResults[k]? = some (testdataOutcome cfg sub out k) := by
      intro g hg
      obtain ⟨k, other, found', mem, c⟩ := blamed_outcome wf reach fixed ready.1 (all g hg)
      have set := c.rejected.set
      have fails : Fails cfg sub out k := by
        have failed := c.rejected.failed
        unfold Fails
        rw [← c.outcome]
        revert set failed
        cases (l.ctx.td k).verdict <;> decide
      refine ⟨k, other, found', mem, fails, ?_⟩
      rw [← c.outcome]
      cases here : l.ctx.result.tdResults[k]? with
      | none => simp [Ctx.td, here, TestdataResult.new] at set
      | some td => simp [Ctx.td, here]
    obtain ⟨g₀, hg₀⟩ := List.exists_mem_of_ne_nil _ nonempty
    have skippable : Skippable cfg sub out item := by
      refine ⟨nonempty, fun g hg => ?_⟩
      obtain ⟨k, other, found', mem, fails, _⟩ := failed g hg
      exact ⟨k, (List.getElem?_eq_some_iff.mp found').1, other, found', mem, fails⟩
    obtain ⟨counted, nonneg⟩ :=
      agree (blamed wf reach (all g₀ hg₀)).1 i hi item found counts skippable
    refine .inr ⟨fun td here => ?_, nonempty, fun g hg => ?_⟩
    · obtain ⟨done, before, made⟩ := (played wf hi reach fixed ready.1).part
      have same : l.ctx.td i = td := by
        have here : l.ctx.result.tdResults[i]? = some td := here
        simp [Ctx.td, here]
      rw [← same, made]
      exact nonneg done ((List.mem_inits _ _).mpr before)
    · obtain ⟨k, other, found', mem, fails, here⟩ := failed g hg
      refine ⟨k, other, found', ?_, mem, here, fails⟩
      apply Bool.eq_false_iff.mpr
      intro ignored
      exact counted k (List.getElem?_eq_some_iff.mp found').1 other found' ignored fails g hg mem
  · exact .inl (entry_at_summary wf hi reach fixed ready excused)

/-- A report of a submission whose compile tasks failed. -/
theorem Reported.failed {res : SubmissionResult} (r : Reported cfg id base sub l res)
    (wf : sub.WellFormed) (fixed : Fixed out id l.ctx.log) (kept : .superseded id ∉ l.ctx.log)
    (failure : compileFailure sub out ≠ .nul) : res.totalScore = 0 ∧ res.verdict ≠ .ac := by
  obtain ⟨l₀, reach, ready, fixed, kept, totals⟩ := r.made fixed kept
  have verdict := failure_at_summary wf reach fixed ready kept
  have set : l₀.ctx.result.verdict ≠ .nul := verdict ▸ failure
  have failed := (verdict_cases reach ready.1 ready.2.1).resolve_left set
  simp only [summaryResult, set, if_false] at totals
  have overall := defaultTotals_failed failed (noTotals reach wf ready.1) totals
  obtain ⟨same, score, _⟩ := Overall.mk.inj overall
  refine ⟨score, fun ac => ?_⟩
  rw [← same, ac] at failed
  exact absurd failed (by decide)

/-- A report of a submission that was compiled. -/
theorem Reported.compiled {res : SubmissionResult} (r : Reported cfg id base sub l res)
    (wf : sub.WellFormed) (fixed : Fixed out id l.ctx.log) (kept : .superseded id ∉ l.ctx.log)
    (compiles : compileFailure sub out = .nul) (plain : PlainScores cfg sub out)
    (agree : sub.skipGroup = true → GroupsAgree cfg sub out) :
    (res.verdict = .ac ↔ ∀ i item, sub.testdata[i]? = some item → item.ignoreVerdict = false →
      ¬ Fails cfg sub out i) ∧
    ∃ scores, GroupMinima sub (fun i => (testdataOutcome cfg sub out i).score) scores ∧
      res.totalScore =
        normalizeScore cfg (.fin (weightedScore sub scores / (100000000 * 1000000))) := by
  obtain ⟨l₀, reach, ready, fixed, kept, totals⟩ := r.made fixed kept
  have nul : l₀.ctx.result.verdict = .nul :=
    (failure_at_summary wf reach fixed ready kept).trans compiles
  have decided := decided_at_summary wf reach fixed ready kept nul agree
  have made : (summaryResult sub l₀.ctx.result).verdict =
      overallVerdict sub l₀.ctx.result.tdResults := by simp [summaryResult, nul]
  have low := overallVerdict_at_summary reach
  obtain ⟨scores, minima, score⟩ := defaultTotals_score (made ▸ low) totals
  rw [summaryResult_tdResults] at minima
  refine ⟨?_, scores, decided.minima plain minima, score⟩
  rw [(defaultTotals_spec totals).1, made]
  exact decided.accepted_iff

end Life

/-! ## Two runs -/

/-- The testdata have the same outcomes, and the compile tasks fail in both or in none. -/
structure SameOutcomes (cfg : Config) (sub : Submission) (out out' : Task → TaskOutcome) : Prop where
  compiles : compileFailure sub out = .nul ↔ compileFailure sub out' = .nul
  verdict : ∀ i < sub.numTds,
    (testdataOutcome cfg sub out i).verdict = (testdataOutcome cfg sub out' i).verdict
  score : ∀ i < sub.numTds,
    (testdataOutcome cfg sub out i).score = (testdataOutcome cfg sub out' i).score

/-- Neither `skip_group` nor the parallelism is looked at by a task. -/
theorem made_skipGroup (k : Int) (skip : Bool) :
    made { cfg with kMaxParallel := k } { sub with skipGroup := skip } out = made cfg sub out := by
  rw [made_parallel]
  have after : afterTask cfg { sub with skipGroup := skip } out = afterTask cfg sub out := by
    funext td t
    cases t with
    | execute | scoring | compile | summary => rfl
  funext ts
  simp only [made, after]

theorem testdataOutcome_skipGroup (k : Int) (skip : Bool) :
    testdataOutcome { cfg with kMaxParallel := k } { sub with skipGroup := skip } out =
      testdataOutcome cfg sub out := by
  funext i
  simp only [testdataOutcome, made_skipGroup]
  rfl

theorem groupsAgree_skipGroup (k : Int) (skip : Bool) :
    GroupsAgree { cfg with kMaxParallel := k } { sub with skipGroup := skip } out ↔
      GroupsAgree cfg sub out := by
  simp only [GroupsAgree, Skippable, Replaceable, Fails, testdataOutcome, made_skipGroup]
  rfl

theorem plainScores_skipGroup (k : Int) (skip : Bool) :
    PlainScores { cfg with kMaxParallel := k } { sub with skipGroup := skip } out ↔
      PlainScores cfg sub out := by
  simp only [PlainScores, testdataOutcome, made_skipGroup]
  rfl

variable {s s' : State} {out' : Task → TaskOutcome} {base' : Nat}

/-- What is reported of a submission was made where its summary was next. -/
theorem reported_of_overall {o : Overall} (h : (judge cfg).Reach freshId s)
    (enq : .enqueued id sub base ∈ s.log) (none : sub.summaryType = .none)
    (kept : .superseded id ∉ s.log) (fixed : Fixed out id s.log)
    (report : o ∈ overalls (s.log.filter (Event.about id))) :
    ∃ l res, sub.WellFormed ∧ Life.Reported cfg id base sub l res ∧ Fixed out id l.ctx.log ∧
      .superseded id ∉ l.ctx.log ∧ o = res.overall := by
  obtain ⟨l, wf, _, reach, log⟩ := lived h enq
  have keptIn : .superseded id ∉ l.ctx.log := by
    rw [← log]
    exact fun here => kept (List.mem_filter.mp here).1
  have fixedIn : Fixed out id l.ctx.log := by
    rw [← log]
    exact fun t o ended => fixed t o (ended_filter.mp ended)
  have reports := Life.overalls_once wf none reach keptIn
  rw [log] at report
  by_cases left : .summary ∈ l.todo
  · rw [reports.before left] at report
    cases report
  · obtain ⟨res, reported, once⟩ := reports.after left
    rw [once] at report
    split at report
    · exact ⟨l, res, wf, reported, fixedIn, keptIn, List.mem_singleton.mp report⟩
    · cases report

/-- Skipping groups changes neither the score nor whether a submission is accepted, when what
is skipped is replaced by what failed. -/
theorem skip_group_agrees {k k' : Int}
    (h : (judge { cfg with kMaxParallel := k }).Reach freshId s)
    (h' : (judge { cfg with kMaxParallel := k' }).Reach freshId s')
    (enq : .enqueued id { sub with skipGroup := true } base ∈ s.log)
    (enq' : .enqueued id { sub with skipGroup := false } base' ∈ s'.log)
    (none : sub.summaryType = .none) (kept : .superseded id ∉ s.log)
    (kept' : .superseded id ∉ s'.log) (fixed : Fixed out id s.log) (fixed' : Fixed out' id s'.log)
    (same : SameOutcomes cfg sub out out') (plain : PlainScores cfg sub out)
    (agree : GroupsAgree cfg sub out) :
    ∀ o ∈ overalls (s.log.filter (Event.about id)),
      ∀ o' ∈ overalls (s'.log.filter (Event.about id)),
        o.totalScore = o'.totalScore ∧ (o.verdict = .ac ↔ o'.verdict = .ac) := by
  intro o report o' report'
  obtain ⟨l, res, wf, reported, fixed, kept, rfl⟩ :=
    reported_of_overall h enq none kept fixed report
  obtain ⟨l', res', wf', reported', fixed', kept', rfl⟩ :=
    reported_of_overall h' enq' none kept' fixed' report'
  by_cases compiles : compileFailure sub out = .nul
  · have plain' : PlainScores cfg sub out' := by
      intro i hi
      rw [← same.verdict i hi, ← same.score i hi]
      exact plain i hi
    obtain ⟨accepted, scores, minima, score⟩ := reported.compiled wf fixed kept compiles
      ((plainScores_skipGroup k true).mpr plain) fun _ => (groupsAgree_skipGroup k true).mpr agree
    obtain ⟨accepted', scores', minima', score'⟩ := reported'.compiled wf' fixed' kept'
      (same.compiles.mp compiles) ((plainScores_skipGroup k' false).mpr plain') nofun
    simp only [Fails, testdataOutcome_skipGroup] at accepted accepted' minima minima'
    have minima' : GroupMinima { sub with skipGroup := true }
        (fun i => (testdataOutcome cfg sub out' i).score) scores' := ⟨minima'.length, minima'.minimum⟩
    refine ⟨?_, accepted.trans (Iff.trans ?_ accepted'.symm)⟩
    · obtain rfl := minima.unique minima' same.score
      exact score.trans score'.symm
    · refine forall₂_congr fun i item => forall_congr' fun found => ?_
      rw [same.verdict i (List.getElem?_eq_some_iff.mp found).1]
  · obtain ⟨score, failed⟩ := reported.failed wf fixed kept compiles
    obtain ⟨score', failed'⟩ := reported'.failed wf' fixed' kept'
      fun nul => compiles (same.compiles.mpr nul)
    exact ⟨score.trans score'.symm, iff_of_false failed failed'⟩

/-- Two testdata of group 0. -/
def pairSubmission (ignoreSecond : Bool) : Submission :=
  sampleSubmission 1 1 [sampleItem false [0], sampleItem ignoreSecond [0]]

/-- All goes well but the execution of testdata `i`. -/
def failsOn (i : Nat) (t : Task) : TaskOutcome :=
  if t = .execute i 0 then ⟨exited 1, .empty⟩ else goodOutcome

/-- The first testdata fails, and the second one is skipped. -/
def secondSkipped : List Label :=
  [.push { pairSubmission false with skipGroup := true } 0, .wake] ++ runAlone 5 goodOutcome ++
    runAlone 1 ⟨exited 1, .empty⟩ ++
    [.dispatch 2 5 .empty, .dispatch 3 5 .empty, .dispatch 4 5 .empty, .dispatch 0 5 .empty]

/-- Both testdata are judged at the same time. -/
def bothJudged : List Label :=
  [.push (pairSubmission false) 0, .wake] ++ runAlone 5 goodOutcome ++
    [.dispatch 1 5 .empty, .dispatch 3 6 .empty, .block, .result 6 goodOutcome,
      .dispatch 4 6 .empty, .block, .result 5 ⟨exited 1, .empty⟩, .dispatch 2 5 .empty, .block,
      .result 6 goodOutcome, .dispatch 0 5 .empty]

theorem skip_group_agrees_on_pair :
    ∃ s s' o o', (judge (sampleConfig 1)).exec freshId .init secondSkipped = some s ∧
      (judge (sampleConfig 2)).exec freshId .init bothJudged = some s' ∧
      overalls (s.log.filter (Event.about 1)) = [o] ∧
      overalls (s'.log.filter (Event.about 1)) = [o'] ∧
      o.totalScore = o'.totalScore ∧ (o.verdict = .ac ↔ o'.verdict = .ac) := by
  have run : ((judge (sampleConfig 1)).exec freshId .init secondSkipped).map (fun s => decide
      (.enqueued 1 { pairSubmission false with skipGroup := true } 0 ∈ s.log ∧
        .superseded 1 ∉ s.log ∧ s.log.all (Event.returns (failsOn 0)) = true ∧
        overalls (s.log.filter (Event.about 1)) = [⟨.re, 0, 0, 0⟩])) = some true := by
    decide +kernel
  have run' : ((judge (sampleConfig 2)).exec freshId .init bothJudged).map (fun s => decide
      (.enqueued 1 { pairSubmission false with skipGroup := false } 0 ∈ s.log ∧
        .superseded 1 ∉ s.log ∧ s.log.all (Event.returns (failsOn 0)) = true ∧
        overalls (s.log.filter (Event.about 1)) = [⟨.re, 0, 0, 0⟩])) = some true := by
    decide +kernel
  obtain ⟨s, hs, seen⟩ := Option.map_eq_some_iff.mp run
  obtain ⟨s', hs', seen'⟩ := Option.map_eq_some_iff.mp run'
  obtain ⟨enq, kept, fixed, report⟩ := of_decide_eq_true seen
  obtain ⟨enq', kept', fixed', report'⟩ := of_decide_eq_true seen'
  have reach : (judge { sampleConfig 0 with kMaxParallel := 1 }).Reach freshId s := reach_exec hs
  have reach' : (judge { sampleConfig 0 with kMaxParallel := 2 }).Reach freshId s' := reach_exec hs'
  have same : SameOutcomes (sampleConfig 0) (pairSubmission false) (failsOn 0) (failsOn 0) :=
    ⟨Iff.rfl, fun _ _ => rfl, fun _ _ => rfl⟩
  have plain : PlainScores (sampleConfig 0) (pairSubmission false) (failsOn 0) := by decide +kernel
  have agree : GroupsAgree (sampleConfig 0) (pairSubmission false) (failsOn 0) := by decide +kernel
  refine ⟨s, s', _, _, hs, hs', report, report', ?_⟩
  exact skip_group_agrees reach reach' enq enq' rfl kept kept' (fixed_of_returns fixed)
    (fixed_of_returns fixed') same plain agree _ (by simp [report]) _ (by simp [report'])

/-- The second testdata fails and is ignored; the first one is judged all the same. -/
def firstJudged : List Label :=
  [.push (pairSubmission true) 0, .wake] ++ runAlone 5 goodOutcome ++ runAlone 1 goodOutcome ++
    runAlone 2 goodOutcome ++ runAlone 3 ⟨exited 1, .empty⟩ ++
    [.dispatch 4 5 .empty, .dispatch 0 5 .empty]

/-- An ignored testdata that fails takes the score of the one that counts. -/
theorem skip_group_loses_score :
    ∃ s s', (judge (sampleConfig 2)).exec freshId .init ignoredFailureRun = some s ∧
      (judge (sampleConfig 1)).exec freshId .init firstJudged = some s' ∧
      .enqueued 1 { pairSubmission true with skipGroup := true } 0 ∈ s.log ∧
      .enqueued 1 { pairSubmission true with skipGroup := false } 0 ∈ s'.log ∧
      .superseded 1 ∉ s.log ∧ .superseded 1 ∉ s'.log ∧
      Fixed (failsOn 1) 1 s.log ∧ Fixed (failsOn 1) 1 s'.log ∧
      PlainScores (sampleConfig 0) (pairSubmission true) (failsOn 1) ∧
      overalls (s.log.filter (Event.about 1)) = [⟨.ac, 0, 0, 0⟩] ∧
      overalls (s'.log.filter (Event.about 1)) = [⟨.ac, 100000000, 0, 0⟩] := by
  have run : ((judge (sampleConfig 2)).exec freshId .init ignoredFailureRun).map (fun s => decide
      (.enqueued 1 { pairSubmission true with skipGroup := true } 0 ∈ s.log ∧
        .superseded 1 ∉ s.log ∧ s.log.all (Event.returns (failsOn 1)) = true ∧
        overalls (s.log.filter (Event.about 1)) = [⟨.ac, 0, 0, 0⟩])) = some true := by
    decide +kernel
  have run' : ((judge (sampleConfig 1)).exec freshId .init firstJudged).map (fun s => decide
      (.enqueued 1 { pairSubmission true with skipGroup := false } 0 ∈ s.log ∧
        .superseded 1 ∉ s.log ∧ s.log.all (Event.returns (failsOn 1)) = true ∧
        overalls (s.log.filter (Event.about 1)) = [⟨.ac, 100000000, 0, 0⟩])) = some true := by
    decide +kernel
  obtain ⟨s, hs, seen⟩ := Option.map_eq_some_iff.mp run
  obtain ⟨s', hs', seen'⟩ := Option.map_eq_some_iff.mp run'
  obtain ⟨enq, kept, fixed, report⟩ := of_decide_eq_true seen
  obtain ⟨enq', kept', fixed', report'⟩ := of_decide_eq_true seen'
  exact ⟨s, s', hs, hs', enq, enq', kept, kept', fixed_of_returns fixed, fixed_of_returns fixed',
    by decide +kernel, report, report'⟩

end TiojJudge.Judge
