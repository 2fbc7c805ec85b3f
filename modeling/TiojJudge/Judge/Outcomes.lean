import TiojJudge.Judge.Accepted

/-!
# Submissions whose tasks have fixed outcomes

What a submission comes to is a function of what its tasks return.

* `afterTask`, `testdataOutcome`: the result of a testdata, task by task in the
  order of its chain;
* `compileFailure`: the verdict of the compile tasks, in any order;
* `Fixed`: the tasks in a log that ran returned these outcomes;
* `Played`: in a life with fixed outcomes the result of a testdata is what its
  finished tasks made of it, as long as it is not excused.
-/

namespace TiojJudge.Judge

/-! ## The outcome as a function -/

section Functions

variable (cfg : Config) (sub : Submission) (out : Task → TaskOutcome)

/-- The result of a testdata after a task of it that is not skipped for the other tasks'
sake. A scoring that is not launched reads no files. -/
def afterTask (td : TestdataResult) : Task → TestdataResult
  | .execute i stage =>
    match sub.testdata[i]? with
    | none => td
    | some lim =>
      if stage ≠ 0 ∧ (td.skipStage = true ∨ td.verdict ≠ .nul) then td
      else executeResult cfg sub lim stage (out (.execute i stage)).res td
  | .scoring i stage =>
    if td.skipStage then td
    else if td.verdict ≠ .nul ∧ sub.judgeAbnormallyTerminated = false then
      scoringOutcome cfg sub stage ⟨.zero, .empty⟩ true td
    else if sub.specjudgeType = .skip then scoringOutcome cfg sub stage ⟨.zero, .empty⟩ false td
    else scoringOutcome cfg sub stage (out (.scoring i stage)) false td
  | .compile _ | .summary => td

/-- What the tasks, one after the other, make of a new result. -/
def made (ts : List Task) : TestdataResult := ts.foldl (afterTask cfg sub out) .new

def testdataOutcome (i : Nat) : TestdataResult := made cfg sub out (sub.chainTasks i)

/-- What a compile task adds to the verdict, `NUL` when it succeeded. -/
def failure : Task → Verdict
  | .compile subtask => compileVerdict subtask (out (.compile subtask)) .nul
  | _ => .nul

/-- The maximum over the compile tasks. -/
def compileFailure : Verdict := (sub.compileTasks.map (failure out)).foldl max .nul

end Functions

/-- The tasks of submission `id` that ran returned what `out` says. -/
def Fixed (out : Task → TaskOutcome) (id : Int) (log : List Event) : Prop :=
  ∀ t o, Life.Ended id t (some o) log → o = out t

variable {cfg : Config} {sub : Submission} {out : Task → TaskOutcome} {id : Int} {i j : Nat}

theorem Fixed.before {log new : List Event} (h : Fixed out id (log ++ new)) : Fixed out id log :=
  fun t o ended => h t o ended.append

theorem made_concat (ts : List Task) (t : Task) :
    made cfg sub out (ts ++ [t]) = afterTask cfg sub out (made cfg sub out ts) t := by
  simp only [made, List.foldl_append, List.foldl_cons, List.foldl_nil]

/-! ## Setups and finalizers -/

/-- What the setup of a task that it launches looked at. -/
def Launched (sub : Submission) (td : TestdataResult) : Task → Prop
  | .execute _ stage => stage ≠ 0 → td.skipStage = false ∧ td.verdict = .nul
  | .scoring .. => td.skipStage = false ∧
      ¬ (td.verdict ≠ .nul ∧ sub.judgeAbnormallyTerminated = false) ∧ sub.specjudgeType ≠ .skip
  | .compile _ | .summary => True

/-- A checker that is not run leaves no result to read. -/
theorem scoringOutcome_unread (type : sub.specjudgeType = .skip) (stage : Nat) (files : BoxFiles)
    (td : TestdataResult) : scoringOutcome cfg sub stage ⟨.zero, files⟩ false td =
      scoringOutcome cfg sub stage ⟨.zero, .empty⟩ false td := by
  have failed (files : BoxFiles) : specjudgeFailed sub.specjudgeType ⟨.zero, files⟩ = true := by
    rw [type]
    simp [specjudgeFailed, CjailResult.zero, CLD_EXITED]
  simp only [scoringOutcome, Bool.false_eq_true, if_false, readSpecjudgeResult, failed, if_true]

section Calls

variable {c c' : Ctx} {files : BoxFiles}

theorem setupScoring_launched (h : setupScoring cfg c i j files = .ok (true, c')) :
    Launched c.sub (c.td i) (.scoring i j) := by
  unfold setupScoring at h
  split at h
  · cases h
  · split at h
    · cases h
    · split at h
      · cases h
      · split at h
        · cases h
        · rename_i td here
          have same : c.td i = td := by simp [Ctx.td, here]
          rw [same]
          split_ifs at h with skip terminated type
          · cases h
          · cases scored : finalizeScoring cfg c i j ⟨.zero, files⟩ true <;>
              simp [scored, Except.map] at h
          · cases scored : finalizeScoring cfg c i j ⟨.zero, files⟩ false <;>
              simp [scored, Except.map] at h
          · exact ⟨by simpa using skip, terminated, type⟩

/-- A scoring that is not launched makes of the testdata what it does in any run. -/
theorem setupScoring_after (h : setupScoring cfg c i j files = .ok (false, c'))
    (nul : c.result.verdict = .nul)
    (free : ∀ item, c.sub.testdata[i]? = some item → c.isCancelled item.tdGroups = false) :
    c'.td i = afterTask cfg c.sub out (c.td i) (.scoring i j) := by
  unfold setupScoring at h
  rw [if_neg (not_not.mpr nul)] at h
  split at h
  · cases h
  · rename_i item found
    rw [free item found, if_neg Bool.false_ne_true] at h
    split at h
    · cases h
    · rename_i td here
      obtain rfl : c.td i = td := by simp [Ctx.td, here]
      unfold afterTask
      split_ifs at h ⊢ with skip terminated type
      · cases h
        rfl
      · cases scored : finalizeScoring cfg c i j ⟨.zero, files⟩ true with
        | error => simp [scored, Except.map] at h
        | ok =>
          simp only [scored, Except.map, Except.ok.injEq, Prod.mk.injEq, true_and] at h
          subst h
          exact (finalizeScoring_spec scored).td
      · cases scored : finalizeScoring cfg c i j ⟨.zero, files⟩ false with
        | error => simp [scored, Except.map] at h
        | ok =>
          simp only [scored, Except.map, Except.ok.injEq, Prod.mk.injEq, true_and] at h
          subst h
          exact (finalizeScoring_spec scored).td.trans (scoringOutcome_unread type j files _)
      · cases h

theorem finalizeExecute_after (launched : Launched c.sub (c.td i) (.execute i j))
    (h : finalizeExecute cfg c i j (out (.execute i j)) = .ok c') :
    c'.td i = afterTask cfg c.sub out (c.td i) (.execute i j) := by
  obtain ⟨lim, found, _, _, _, _, _, _, td, _⟩ := finalizeExecute_spec h
  have goes : ¬ (j ≠ 0 ∧ ((c.td i).skipStage = true ∨ (c.td i).verdict ≠ .nul)) := by
    rintro ⟨later, no⟩
    obtain ⟨go, nul⟩ := launched later
    simp [go, nul] at no
  simp only [afterTask, found, if_neg goes]
  exact td

theorem finalizeScoring_after (launched : Launched c.sub (c.td i) (.scoring i j))
    (h : finalizeScoring cfg c i j (out (.scoring i j)) false = .ok c') :
    c'.td i = afterTask cfg c.sub out (c.td i) (.scoring i j) := by
  obtain ⟨go, unset, type⟩ := launched
  simp only [afterTask, go, Bool.false_eq_true, if_false, if_neg unset, if_neg type]
  exact (finalizeScoring_spec h).td

/-- A setup that skips an execution of a testdata that goes on leaves it as it is in any run. -/
theorem setupExecute_after (h : setupExecute c i j files = .ok false) (nul : c.result.verdict = .nul)
    (free : ∀ item, c.sub.testdata[i]? = some item → c.isCancelled item.tdGroups = false) :
    afterTask cfg c.sub out (c.td i) (.execute i j) = c.td i := by
  rcases setupExecute_skips h with set | ⟨item, found, cancelled⟩ | ⟨later, done⟩
  · exact absurd nul set
  · rw [free item found] at cancelled
    cases cancelled
  · cases found : c.sub.testdata[i]? with
    | none => simp only [afterTask, found]
    | some => simp only [afterTask, found, if_pos (And.intro later done)]

end Calls

/-! ## One testdata in a life -/

theorem Submission.mem_chain (hi : i < sub.numTds) {t : Task} :
    t ∈ sub.chainTasks i ↔ sub.Planned t ∧ t.testdata = some i := by
  rw [Submission.mem_chainTasks]
  cases t with
  | execute k j =>
    simp only [Task.execute.injEq, reduceCtorEq, and_false, exists_false, or_false,
      Submission.Planned, Task.testdata, Option.some.injEq]
    constructor
    · rintro ⟨_, hj, rfl, rfl⟩
      exact ⟨⟨hi, hj⟩, rfl⟩
    · rintro ⟨⟨_, hj⟩, rfl⟩
      exact ⟨j, hj, rfl, rfl⟩
  | scoring k j =>
    simp only [Task.scoring.injEq, reduceCtorEq, and_false, exists_false, false_or,
      Submission.Planned, Task.testdata, Option.some.injEq]
    constructor
    · rintro ⟨_, hj, rfl, rfl⟩
      exact ⟨⟨hi, hj⟩, rfl⟩
    · rintro ⟨⟨_, hj⟩, rfl⟩
      exact ⟨j, hj, rfl, rfl⟩
  | compile | summary => simp [Task.testdata]

/-- In the chain of a testdata, a task waits for those before it. -/
theorem Submission.chain_leads (wf : sub.WellFormed) (hi : i < sub.numTds) :
    (sub.chainTasks i).Pairwise sub.Leads := by
  apply (Submission.chainTasks_sorted wf i).imp_of_mem
  intro a b ha hb less
  obtain ⟨pa, ma⟩ := (Submission.mem_chain hi).mp ha
  obtain ⟨pb, mb⟩ := (Submission.mem_chain hi).mp hb
  rcases Submission.chain_total wf pa pb ma mb with leads | leads
  · exact leads
  · exact absurd (leads.rank_le wf) (Nat.not_le.mpr less)

namespace Life

variable {base : Nat} {l l' : Life} {t : Task}

/-- The tasks of a testdata that are finalized. -/
def passed (sub : Submission) (l : Life) (i : Nat) : List Task :=
  (sub.chainTasks i).filter fun t => t ∉ l.todo

/-- Where the chain of a testdata is when one of its tasks is active. -/
theorem Shape.passed (s : Shape sub l) (wf : sub.WellFormed) (active : l.Active t)
    (mine : t.testdata = some i) (hi : i < sub.numTds) :
    ∃ later, sub.chainTasks i = passed sub l i ++ t :: later ∧
      ∀ l' : Life, l'.todo = l.todo.erase t → Life.passed sub l' i = Life.passed sub l i ++ [t] := by
  have here := s.active_todo active
  have planned := s.planned t here
  obtain ⟨earlier, later, chain⟩ := List.append_of_mem ((Submission.mem_chain hi).mpr ⟨planned, mine⟩)
  have order := Submission.chain_leads wf hi
  have nodup : (sub.chainTasks i).Nodup := Submission.nodup_chainTasks i
  rw [chain, List.pairwise_append, List.pairwise_cons] at order
  rw [chain, List.nodup_append, List.nodup_cons] at nodup
  obtain ⟨_, ⟨after, _⟩, before⟩ := order
  have gone : ∀ a ∈ earlier, a ∉ l.todo := fun a ha =>
    s.before_active (before a ha t List.mem_cons_self) active
      (nodup.2.2 a ha t List.mem_cons_self)
  have left : ∀ b ∈ later, b ∈ l.todo := fun b hb => (s.leads (after b hb) here).1
  have now : Life.passed sub l i = earlier := by
    rw [Life.passed, chain, List.filter_append, List.filter_eq_self.mpr (by simpa using gone),
      List.filter_eq_nil_iff.mpr, List.append_nil]
    simpa [here] using left
  refine ⟨later, by rw [now, chain], fun l' todo => ?_⟩
  have none : (t :: later).filter (fun b => b ∉ l'.todo) = [t] := by
    rw [List.filter_cons_of_pos (by simp [todo]), List.filter_eq_nil_iff.mpr]
    intro b hb
    have other : b ≠ t := fun same => nodup.2.1.1 (same ▸ hb)
    simp [todo, other, left b hb]
  rw [now, Life.passed, chain, List.filter_append, none, List.filter_eq_self.mpr]
  intro a ha
  simp [todo, gone a ha]

/-- A step of the submission, seen from testdata `i`, when its tasks return what `out` says. -/
inductive Plays (cfg : Config) (out : Task → TaskOutcome) (i : Nat) (l l' : Life) : Prop where
  | other : l'.ctx.td i = l.ctx.td i →
      (∀ t, t.testdata = some i → (t ∈ l'.todo ↔ t ∈ l.todo) ∧ (t ∈ l'.running ↔ t ∈ l.running)) →
      Plays cfg out i l l'
  | launch {t : Task} : t.testdata = some i → ¬ l.Excused i → Launched l.ctx.sub (l.ctx.td i) t →
      l'.ctx.td i = l.ctx.td i → l'.todo = l.todo → l'.running = insert t l.running →
      Plays cfg out i l l'
  | skip {t : Task} : t.testdata = some i → l.Ready t →
      (¬ l.Excused i → afterTask cfg l.ctx.sub out (l.ctx.td i) t = l.ctx.td i) →
      l'.ctx.td i = l.ctx.td i → l'.todo = l.todo.erase t → l'.running = l.running →
      Plays cfg out i l l'
  | work {t : Task} : t.testdata = some i → l.Active t → (t ∉ l.running → ¬ l.Excused i) →
      l'.ctx.td i = afterTask cfg l.ctx.sub out (l.ctx.td i) t → l'.todo = l.todo.erase t →
      l'.running = l.running.erase t → Plays cfg out i l l'

/-- What `Excused` says of the submission's other tasks. -/
theorem free_of_not_excused (going : ¬ l.Excused i) :
    l.ctx.result.verdict = .nul ∧
      ∀ item, l.ctx.sub.testdata[i]? = some item → l.ctx.isCancelled item.tdGroups = false := by
  unfold Excused at going
  rw [not_or, not_not] at going
  refine ⟨going.1, fun item found => ?_⟩
  apply Bool.eq_false_iff.mpr
  intro cancelled
  exact going.2 ⟨item, found, cancelled⟩

theorem setup_launched {files : BoxFiles} {c : Ctx} (mine : t.testdata = some i)
    (h : setup cfg l.ctx.cleared files t = .ok (true, c)) :
    ¬ l.Excused i ∧ Launched l.ctx.sub (l.ctx.td i) t := by
  have wanted := setup_wanted mine h
  cases t with
  | execute k j =>
    obtain rfl : k = i := Option.some.inj mine
    exact wanted
  | scoring k j =>
    obtain rfl : k = i := Option.some.inj mine
    exact ⟨wanted.1, setupScoring_launched (c := l.ctx.cleared) h⟩
  | compile | summary => cases mine

/-- The setup of a task of the testdata skips it, or finalizes it. -/
theorem setup_after {files : BoxFiles} {c : Ctx} (mine : t.testdata = some i)
    (h : setup cfg l.ctx.cleared files t = .ok (false, c)) :
    (c.td i = l.ctx.td i ∧
      (¬ l.Excused i → afterTask cfg l.ctx.sub out (l.ctx.td i) t = l.ctx.td i)) ∨
    (¬ l.Excused i ∧ c.td i = afterTask cfg l.ctx.sub out (l.ctx.td i) t) := by
  by_cases excused : l.Excused i
  · rcases setup_unwanted mine h with ⟨_, kept⟩ | ⟨_, _, _, free, _⟩
    · exact .inl ⟨kept, fun going => absurd excused going⟩
    · exact absurd excused free
  · obtain ⟨nul, free⟩ := free_of_not_excused excused
    cases t with
    | execute k j =>
      obtain rfl : k = i := Option.some.inj mine
      obtain ⟨ready, rfl⟩ := setup_execute_iff.mp h
      exact .inl ⟨rfl, fun _ => setupExecute_after ready nul free⟩
    | scoring k j =>
      obtain rfl : k = i := Option.some.inj mine
      exact .inr ⟨excused, setupScoring_after (c := l.ctx.cleared) h nul free⟩
    | compile | summary => cases mine

theorem Step.plays (h : Step cfg id base l l') (fixed : Fixed out id l'.ctx.log)
    (busy : ∀ t ∈ l.running, t.testdata = some i → Launched l.ctx.sub (l.ctx.td i) t) :
    Plays cfg out i l l' := by
  cases h with
  | @launch t _ _ c ready setup =>
    have kept : c.td i = l.ctx.cleared.td i := setup_launch_td setup
    by_cases mine : t.testdata = some i
    · obtain ⟨going, launched⟩ := setup_launched mine setup
      exact .launch mine going launched kept rfl rfl
    · refine .other kept fun t' ht' => ⟨Iff.rfl, ?_⟩
      have ne : t' ≠ t := fun same => mine (same ▸ ht')
      simp [Life.launched, started, ne]
  | @skip t _ _ c c' ready setup done =>
    have running : (insert t l.running).erase t = l.running := Finset.erase_insert ready.2.1
    by_cases mine : t.testdata = some i
    · have same : c'.td i = c.td i := by
        cases t with
        | execute | scoring =>
          cases done
          rfl
        | compile | summary => cases mine
      rcases setup_after mine setup with ⟨kept, idle⟩ | ⟨going, made⟩
      · exact .skip mine ready idle (same.trans kept) rfl running
      · refine .work mine (.inr ready) (fun _ => going) (same.trans made) rfl ?_
        rw [Finset.erase_eq_of_notMem ready.2.1]
        exact running
    · have before : c.td i = l.ctx.cleared.td i := setup_td mine setup
      have after : c'.td i = c.cleared.td i := finalize_td mine done
      refine .other (after.trans before) fun t' ht' => ?_
      have ne : t' ≠ t := fun same => mine (same ▸ ht')
      simp [settled, started, ne]
  | @finish t o listSize c here done =>
    by_cases mine : t.testdata = some i
    · obtain rfl : o = out t := fixed t o (by simp [settled, Ctx.withLog])
      refine .work mine (.inl here) (fun idle => absurd here idle) ?_ rfl rfl
      have launched := busy t here mine
      cases t with
      | execute k j =>
        obtain rfl : k = i := Option.some.inj mine
        have after : c.td k = afterTask cfg l.ctx.sub out (l.ctx.td k) (.execute k j) :=
          finalizeExecute_after (c := l.ctx.cleared) launched done
        exact after
      | scoring k j =>
        obtain rfl : k = i := Option.some.inj mine
        have after : c.td k = afterTask cfg l.ctx.sub out (l.ctx.td k) (.scoring k j) :=
          finalizeScoring_after (c := l.ctx.cleared) launched done
        exact after
      | compile | summary => cases mine
    · have after : c.td i = l.ctx.cleared.td i := finalize_td mine done
      refine .other after fun t' ht' => ?_
      have ne : t' ≠ t := fun same => mine (same ▸ ht')
      simp [settled, ne]
  | cancel => exact .other rfl fun t _ => ⟨Iff.rfl, Iff.rfl⟩

/-- The result of a testdata is what its finished tasks made of it, as long as it is not
excused or one of them runs; after that it stays what some of them made of it. -/
structure Played (cfg : Config) (sub : Submission) (out : Task → TaskOutcome) (i : Nat)
    (l : Life) : Prop where
  live : ¬ l.Excused i → l.ctx.td i = made cfg sub out (passed sub l i)
  busy : ∀ t ∈ l.running, t.testdata = some i →
    l.ctx.td i = made cfg sub out (passed sub l i) ∧ Launched sub (l.ctx.td i) t
  part : ∃ done, done <+: sub.chainTasks i ∧ l.ctx.td i = made cfg sub out done

theorem Played.start (hi : i < sub.numTds) :
    Played cfg sub out i (start id base sub) where
  live := by
    intro _
    have none : passed sub (Life.start id base sub) i = [] := by
      apply List.filter_eq_nil_iff.mpr
      intro t ht
      have planned := ((Submission.mem_chain hi).mp ht).1
      simp [Life.start, Submission.mem_planTasks.mpr planned]
    rw [none]
    rfl
  busy := fun t ht => absurd ht (Finset.notMem_empty t)
  part := ⟨[], List.nil_prefix, rfl⟩

theorem passed_congr (hi : i < sub.numTds)
    (same : ∀ t : Task, t.testdata = some i → (t ∈ l'.todo ↔ t ∈ l.todo)) :
    passed sub l' i = passed sub l i := by
  apply List.filter_congr
  intro t ht
  simp only [same t ((Submission.mem_chain hi).mp ht).2]

/-- A task that works goes on from what the finished tasks made. -/
theorem Played.work (p : Played cfg sub out i l) (wf : sub.WellFormed) (hi : i < sub.numTds)
    (shape : Shape sub l) (mine : t.testdata = some i) (active : l.Active t)
    (free : t ∉ l.running → ¬ l.Excused i)
    (td : l'.ctx.td i = afterTask cfg l.ctx.sub out (l.ctx.td i) t)
    (todo : l'.todo = l.todo.erase t) : l'.ctx.td i = made cfg sub out (passed sub l' i) := by
  obtain ⟨_, _, passed⟩ := shape.passed wf active mine hi
  have before : l.ctx.td i = made cfg sub out (Life.passed sub l i) := by
    by_cases here : t ∈ l.running
    · exact (p.busy t here mine).1
    · exact p.live (free here)
  rw [passed l' todo, made_concat, ← before, td, shape.same]

theorem Played.step (p : Played cfg sub out i l) (wf : sub.WellFormed) (hi : i < sub.numTds)
    (shape : Shape sub l) (fixed : Fixed out id l'.ctx.log) (h : Step cfg id base l l')
    (left : .summary ∈ l'.todo) : Played cfg sub out i l' := by
  have going (free : ¬ l'.Excused i) : ¬ l.Excused i := fun excused => free (excused.step h left)
  have alone {t t' : Task} (active : l.Active t) (mine : t.testdata = some i)
      (running : t' ∈ l.running) (mine' : t'.testdata = some i) : t' = t :=
    shape.alone wf active running mine mine'
  rcases h.plays fixed fun t ht mine => shape.same ▸ (p.busy t ht mine).2 with
    ⟨td, chain⟩ | @⟨t, mine, free, launched, td, todo, running⟩ |
    @⟨t, mine, ready, idle, td, todo, running⟩ | @⟨t, mine, active, free, td, todo, running⟩
  · have same := passed_congr hi fun t mine => (chain t mine).1
    refine ⟨fun free => ?_, fun t ht mine => ?_, td ▸ p.part⟩
    · rw [td, same]
      exact p.live (going free)
    · rw [td, same]
      exact p.busy t ((chain t mine).2.mp ht) mine
  · have same : passed sub l' i = passed sub l i := passed_congr hi fun _ _ => by rw [todo]
    refine ⟨fun free => ?_, fun t' ht' mine' => ?_, td ▸ p.part⟩
    · rw [td, same]
      exact p.live (going free)
    · rw [td, same]
      rcases Finset.mem_insert.mp (running ▸ ht') with rfl | old
      · exact ⟨p.live free, shape.same ▸ launched⟩
      · exact p.busy t' old mine'
  · refine ⟨fun free => ?_, fun t' ht' mine' => ?_, td ▸ p.part⟩
    · -- the task would have left the result as it is
      have idle := idle (going free)
      exact p.work wf hi shape mine (.inr ready) (fun _ => going free) (td.trans idle.symm) todo
    · rw [running] at ht'
      obtain rfl := alone (.inr ready) mine ht' mine'
      exact absurd ht' ready.2.1
  · have complete := p.work wf hi shape mine active free td todo
    refine ⟨fun _ => complete, fun t' ht' mine' => ?_, passed sub l' i, ?_, complete⟩
    · obtain ⟨other, old⟩ := Finset.mem_erase.mp (running ▸ ht')
      exact absurd (alone active mine old mine') other
    · obtain ⟨later, chain, passed⟩ := shape.passed wf active mine hi
      rw [passed l' todo, chain]
      exact ⟨later, by simp⟩

theorem Fixed.step (h : Step cfg id base l l') (fixed : Fixed out id l'.ctx.log) :
    Fixed out id l.ctx.log := by
  obtain ⟨new, log⟩ := h.log
  rw [log] at fixed
  exact fixed.before

theorem played (wf : sub.WellFormed) (hi : i < sub.numTds) (h : Reachable cfg id base sub l)
    (fixed : Fixed out id l.ctx.log) (left : .summary ∈ l.todo) : Played cfg sub out i l := by
  induction h with
  | start => exact .start hi
  | next reach step ih =>
    have shape := shape wf reach
    exact (ih (Fixed.step step fixed) (step.todo_subset shape left)).step wf hi shape fixed step left

/-- When the summary is next, a testdata that is not excused has its outcome. -/
theorem outcome_at_summary (wf : sub.WellFormed) (hi : i < sub.numTds)
    (reach : Reachable cfg id base sub l) (fixed : Fixed out id l.ctx.log) (ready : l.Ready .summary)
    (going : ¬ l.Excused i) : l.ctx.td i = testdataOutcome cfg sub out i := by
  have shape := shape wf reach
  have all : passed sub l i = sub.chainTasks i := by
    apply List.filter_eq_self.mpr
    intro t ht
    obtain ⟨planned, mine⟩ := (Submission.mem_chain hi).mp ht
    have other : t ≠ .summary := by
      rintro rfl
      cases mine
    simpa using shape.before_ready (Submission.leads_summary wf planned) ready other
  rw [(played wf hi reach fixed ready.1).live going, all, testdataOutcome]

end Life

/-! ## The compile tasks -/

theorem foldl_max_le {vs : List Verdict} {u v : Verdict} :
    vs.foldl max u ≤ v ↔ u ≤ v ∧ ∀ w ∈ vs, w ≤ v := by
  induction vs generalizing u with
  | nil => simp
  | cons w vs ih =>
    rw [List.foldl_cons, ih, max_le_iff, List.forall_mem_cons, and_assoc]

theorem compileVerdict_max (subtask : CompileSubtask) (o : TaskOutcome) (v : Verdict) :
    compileVerdict subtask o v = max v (compileVerdict subtask o .nul) := by
  have below (u : Verdict) : .nul ≤ u ∧ u ≤ .je := by cases u <;> decide
  unfold compileVerdict
  split_ifs
  · rw [max_eq_right (below v).2]
  · rw [max_eq_right (below _).1]
  · rw [max_eq_left (below v).1]

theorem compileFailure_le {v : Verdict} : compileFailure sub out ≤ v ↔
    ∀ subtask, sub.Planned (.compile subtask) → failure out (.compile subtask) ≤ v := by
  have bottom : Verdict.nul ≤ v := by cases v <;> decide
  have mem (subtask : CompileSubtask) :
      .compile subtask ∈ sub.compileTasks ↔ sub.Planned (.compile subtask) := by
    cases subtask <;> simp [Submission.compileTasks, Submission.compileOrder, Submission.Planned]
  rw [compileFailure, foldl_max_le]
  constructor
  · rintro ⟨_, all⟩ subtask planned
    exact all _ (List.mem_map_of_mem ((mem subtask).mpr planned))
  · intro all
    refine ⟨bottom, fun w hw => ?_⟩
    obtain ⟨t, ht, rfl⟩ := List.mem_map.mp hw
    obtain ⟨subtask, _, rfl⟩ := List.mem_map.mp ht
    exact all subtask ((mem subtask).mp ht)

namespace Life

variable {base : Nat} {l l' : Life} {t : Task}

theorem planned_of_ended (wf : sub.WellFormed) (h : Reachable cfg id base sub l)
    {outcome : Option TaskOutcome} (ended : Ended id t outcome l.ctx.log) : sub.Planned t := by
  induction h with
  | start => simp [Life.start, Ended] at ended
  | next reach step ih =>
    have shape := shape wf reach
    rcases step.ends shape.running with ⟨_, ends⟩ | ⟨t', here, _, _, ends⟩
    · exact ih ((ends _ _).mp ended)
    · rcases (ends _ _).mp ended with old | ⟨rfl, _⟩
      · exact ih old
      · exact shape.planned t here

/-- Compile tasks are skipped when the submission is superseded. -/
theorem superseded_of_skipped {subtask : CompileSubtask} (h : Reachable cfg id base sub l)
    (ended : Ended id (.compile subtask) none l.ctx.log) : .superseded id ∈ l.ctx.log := by
  induction h with
  | start => simp [Life.start, Ended] at ended
  | @next l l' reach step ih =>
    obtain ⟨new, log⟩ := step.log
    rw [log]
    apply List.mem_append_left
    rcases step.ended ended with old | ⟨_, _, _, _, setup⟩ | ⟨_, _, _, no, _⟩
    · exact ih old
    · simp only [Judge.setup, Except.ok.injEq] at setup
      have cancelled := (setupCompile_spec setup).2.1
      exact superseded_of_cancelled reach (by simpa [Ctx.cleared] using cancelled)
    · cases no

/-- Until the summary the verdict is the maximum of the failures so far. -/
theorem verdict_le (h : Reachable cfg id base sub l) (fixed : Fixed out id l.ctx.log)
    (left : .summary ∈ l.todo) (idle : .summary ∉ l.running) {v : Verdict} :
    l.ctx.result.verdict ≤ v ↔ ∀ subtask o, Ended id (.compile subtask) (some o) l.ctx.log →
      failure out (.compile subtask) ≤ v := by
  induction h with
  | start =>
    have bottom : Verdict.nul ≤ v := by cases v <;> decide
    refine iff_of_true bottom fun subtask o ended => ?_
    simp [Life.start, Ended] at ended
  | next reach step ih =>
    obtain ⟨left', idle'⟩ := step.idle left idle
    have ih := ih (Fixed.step step fixed) left' idle'
    rcases step.compiles left idle with ⟨verdict, ended⟩ | ⟨subtask, o, verdict, ended⟩
    · simp only [verdict, ended, ih]
    · obtain rfl : o = out (.compile subtask) := fixed _ _ ((ended _ _).mpr (.inr ⟨rfl, rfl⟩))
      rw [verdict, compileVerdict_max, max_le_iff, ih]
      constructor
      · rintro ⟨old, new⟩ subtask' o' h
        rcases (ended _ _).mp h with h | ⟨rfl, _⟩
        · exact old subtask' o' h
        · exact new
      · intro all
        refine ⟨fun subtask' o' h => all subtask' o' ((ended _ _).mpr (.inl h)), ?_⟩
        exact all subtask _ ((ended _ _).mpr (.inr ⟨rfl, rfl⟩))

/-- When the summary is next, all compile tasks have ended. -/
theorem failure_at_summary (wf : sub.WellFormed) (reach : Reachable cfg id base sub l)
    (fixed : Fixed out id l.ctx.log) (ready : l.Ready .summary)
    (kept : .superseded id ∉ l.ctx.log) : l.ctx.result.verdict = compileFailure sub out := by
  apply eq_of_forall_ge_iff
  intro v
  rw [verdict_le reach fixed ready.1 ready.2.1, compileFailure_le]
  constructor
  · intro all subtask planned
    have gone := (shape wf reach).before_ready (Submission.leads_summary wf planned) ready (by simp)
    obtain ⟨outcome, ended⟩ := (finalized_in_log wf reach planned).mp gone
    cases outcome with
    | none => exact absurd (superseded_of_skipped reach ended) kept
    | some o => exact all subtask o ended
  · intro all subtask o ended
    exact all subtask (planned_of_ended wf reach ended)

end Life

end TiojJudge.Judge
