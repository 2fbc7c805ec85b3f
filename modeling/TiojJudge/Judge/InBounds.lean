import TiojJudge.Judge.Completion

/-!
# Reads of `td_results`

`FinalizeExecute` enlarges `td_results`, in the order in which executions end, and later
tasks index it without a check.

* `limTime`: the read in `RunExecute`;
* `Life.setup_reads`, `Life.finalize_reads`: no call in a life finds its result missing;
* `td_results_in_bounds`: so it is in every run of the scheduler.
-/

namespace TiojJudge.Judge
open Machine TaskGraph

variable {cfg : Config} {s : State} {c : Ctx} {held : List Nat}

/-- `lim_time` of `RunExecute`: what the stages before left of the limit. -/
def limTime (c : Ctx) (subtask stage : Nat) : Except Fault Int :=
  match c.sub.testdata[subtask]? with
  | none => .error .noTestdata
  | some lim =>
    if stage = 0 then .ok (max lim.time 0)
    else
      match c.result.tdResults[subtask]? with
      | none => .error .noTdResult
      | some td => .ok (max (lim.time - td.time) 0)

/-- A launched execution finds the result of its testdata. -/
theorem limTime_ok {i j : Nat} (h : setupExecute c i j files = .ok true) :
    ∃ limit, limTime c i j = .ok limit ∧ 0 ≤ limit := by
  obtain ⟨_, ⟨lim, found, _⟩, later⟩ := setupExecute_spec h
  unfold limTime
  by_cases first : j = 0
  · simp [found, first]
  · have inside := (later first).1
    simp [found, first, inside]

/-! ## The faults of the summary -/

/-- A fold has the faults of its steps. -/
theorem foldlM_fault {α β : Type} {f : β → α → Except Fault β} {fault : Fault}
    (only : ∀ b a e, f b a = .error e → e = fault) {as : List α} :
    ∀ {b e}, as.foldlM f b = .error e → e = fault := by
  induction as with
  | nil =>
    intro b e h
    cases h
  | cons a as ih =>
    intro b e h
    rw [List.foldlM_cons] at h
    cases first : f b a with
    | error e' =>
      rw [first] at h
      cases h
      exact only b a _ first
    | ok b' =>
      rw [first] at h
      exact ih h

theorem lowerScore_fault {scores : List Int} {group score : Int} {e : Fault}
    (h : lowerScore scores group score = .error e) : e = .noGroup := by
  unfold lowerScore at h
  split at h
  · cases h
  · cases h
    rfl

theorem subtaskScores_fault {sub : Submission} {tds : List TestdataResult} {e : Fault}
    (h : subtaskScores sub tds = .error e) : e = .noGroup := by
  refine foldlM_fault (fun scores p e step => ?_) h
  split at step
  · cases step
  · exact foldlM_fault (fun scores group e lowered => lowerScore_fault lowered) step

theorem finalizeSummary_fault {o : TaskOutcome} {skipped : Bool} {listSize : Nat} {e : Fault}
    (h : finalizeSummary cfg c o skipped listSize = .error e) : e = .noGroup := by
  unfold finalizeSummary at h
  cases totals : defaultTotals cfg c.sub c.result with
  | ok => simp [totals, Except.map] at h
  | error e' =>
    simp only [totals, Except.map, Except.error.injEq] at h
    subst h
    unfold defaultTotals at totals
    split at totals
    · cases folded : subtaskScores c.sub c.result.tdResults with
      | ok => simp [folded, Except.map] at totals
      | error e =>
        simp only [folded, Except.map, Except.error.injEq] at totals
        exact totals ▸ subtaskScores_fault folded
    · cases totals

namespace Life

variable {id : Int} {base : Nat} {sub : Submission} {l : Life} {t : Task}

theorem setup_reads (wf : sub.WellFormed) (reach : Reachable cfg id base sub l) (ready : l.Ready t)
    (files : BoxFiles) : setup cfg l.ctx.cleared files t ≠ .error .noTdResult := by
  intro fault
  by_cases last : t = .summary
  · subst last
    simp only [setup, setupSummary] at fault
    split at fault
    · cases fault
    · split at fault
      · cases fault
      · split at fault <;> cases fault
  · by_cases complete : t.Complete l.ctx.cleared files
    · obtain ⟨launch, c, ok⟩ := setup_ok wf reach ready (fun summary => absurd summary last) complete
      cases ok.symm.trans fault
    · cases (setup_throws wf reach ready complete).symm.trans fault

theorem finalize_reads {o : TaskOutcome} {listSize : Nat} (wf : sub.WellFormed)
    (reach : Reachable cfg id base sub l) (running : t ∈ l.running) :
    finalize cfg l.ctx.cleared listSize t (some o) ≠ .error .noTdResult := by
  intro fault
  have shape := shape wf reach
  have inside := (indexed wf reach).judged
  cases t with
  | compile => cases fault
  | execute i j =>
    simp only [finalize, finalizeExecute] at fault
    split at fault <;> cases fault
  | scoring i j =>
    have item : i < l.ctx.cleared.sub.testdata.length := by
      rw [show l.ctx.cleared.sub = sub from shape.same]
      exact (shape.planned _ (shape.running running)).1
    obtain ⟨c, ok⟩ := @finalizeScoring_ok cfg l.ctx.cleared i j o false item (inside i j running)
    cases ok.symm.trans fault
  | summary => cases finalizeSummary_fault fault

end Life

/-! ## Every run -/

/-- A task that cannot be finalized is not there, or its finalizer faults. -/
theorem finalizeTask_fault {tid : Nat} {outcome : Option TaskOutcome} {e : Fault}
    (h : s.finalizeTask cfg tid outcome = .error e) : e = .noTask ∨ e = .noSubmission ∨
      ∃ n entry, s.graph.find tid = some n ∧
        s.submissionList.lookup n.data.submissionInternalId = some entry ∧
        finalize cfg (s.ctx entry) s.queueSize n.data.task outcome = .error e := by
  unfold State.finalizeTask at h
  split at h
  · cases h
    exact .inl rfl
  · rename_i n found
    split at h
    · cases h
      exact .inr (.inl rfl)
    · rename_i entry listed
      cases done : finalize cfg (s.ctx entry) s.queueSize n.data.task outcome with
      | ok => simp [done, Except.map] at h
      | error =>
        simp only [done, Except.map, Except.error.injEq] at h
        exact .inr (.inr ⟨n, entry, found, listed, h ▸ done⟩)

/-- A task that is skipped has no result to look for. -/
theorem finalize_skipped_reads {listSize : Nat} (t : Task) :
    finalize cfg c listSize t none ≠ .error .noTdResult := by
  intro fault
  cases t with
  | compile | execute | scoring => cases fault
  | summary => cases finalizeSummary_fault fault

theorem dispatch_reads {tid : Nat} {handle : Int} {files : BoxFiles} (r : Refined cfg s held)
    (queued : tid ∈ s.graph.queue) : s.dispatchTask cfg tid handle files ≠ .error .noTdResult := by
  obtain ⟨n, hn, rfl⟩ := r.wired.inv.known tid (.inl queued)
  have found := Graph.find_eq r.wired.inv.distinct hn
  obtain ⟨sub, base, l, _, wf, reach, listed, ctx, ready, _⟩ := r.entry hn
  have reads := Life.setup_reads wf reach (ready queued) files
  rw [← ctx] at reads
  intro fault
  simp only [State.dispatchTask, found, listed] at fault
  split at fault
  · rename_i e setup
    cases fault
    exact reads setup
  · cases fault
  · rcases finalizeTask_fault fault with no | no | ⟨n', entry, _, _, done⟩
    · cases no
    · cases no
    · exact finalize_skipped_reads n'.data.task done

theorem result_reads {handle : Int} {o : TaskOutcome} (r : Refined cfg s held) :
    s.resultTask cfg handle o ≠ .error .noTdResult := by
  intro fault
  unfold State.resultTask at fault
  cases handled : s.handleMap.lookup handle with
  | none =>
    rw [handled] at fault
    cases fault
  | some tid =>
    have value : tid ∈ UMap.values s.handleMap :=
      (UMap.values_erase handled).mem_iff.mpr List.mem_cons_self
    obtain ⟨n, hn, rfl⟩ := r.wired.inv.known tid (.inr (r.wired.handles.subset value))
    have found := Graph.find_eq r.wired.inv.distinct hn
    obtain ⟨sub, base, l, _, wf, reach, listed, ctx, _, running⟩ := r.entry hn
    cases finalized : (s.returned handle).finalizeTask cfg n.id (some o) with
    | ok => simp [handled, finalized, Except.map] at fault
    | error e =>
      simp only [handled, finalized, Except.map, Except.error.injEq] at fault
      subst fault
      rcases finalizeTask_fault finalized with no | no | ⟨n', entry, found', listed', done⟩
      · cases no
      · cases no
      · obtain rfl : n = n' := Option.some.inj (found.symm.trans found')
        obtain rfl := Option.some.inj (listed.symm.trans listed')
        have same : (s.returned handle).ctx ⟨l.ctx.sub, l.ctx.result⟩ = l.ctx.cleared := ctx
        rw [same] at done
        exact Life.finalize_reads wf reach (running (r.wired.handles.subset value)) done

/-- What is listed of a submission is what its life has. -/
theorem Refined.size_le {id : Int} {entry : SubmissionAndResult} (r : Refined cfg s held)
    (listed : s.submissionList.lookup id = some entry) :
    entry.result.tdResults.length ≤ entry.sub.testdata.length := by
  obtain ⟨_, l, _, wf, _, reach, same⟩ := r.listed listed
  have size := (Life.indexed wf reach).size
  rwa [same] at size ⊢

/-- No read of `td_results` is outside it, and it never has more entries than there are testdata:
`perform` does what the setups and finalizers do, and `limTime` is what a task reads that was
launched as an execution. -/
theorem td_results_in_bounds (h : (judge cfg).Reach freshId s) :
    (∀ id entry, s.submissionList.lookup id = some entry →
      entry.result.tdResults.length ≤ entry.sub.testdata.length) ∧
    (∀ l, Enabled cfg s l → perform cfg s l ≠ .error .noTdResult) ∧
    ∀ tid handle files n entry c i j, Enabled cfg s (.dispatch tid handle files) →
      s.graph.find tid = some n → n.data.task = .execute i j →
      s.submissionList.lookup n.data.submissionInternalId = some entry →
      setup cfg (s.ctx entry) files n.data.task = .ok (true, c) → ∃ limit, limTime c i j = .ok limit := by
  obtain ⟨held, r⟩ := refined h
  refine ⟨fun id entry listed => r.size_le listed, fun l enabled => ?_, ?_⟩
  · cases l with
    | push sub maxQueue =>
      intro fault
      simp only [perform, State.pushSubmission] at fault
      split at fault
      · cases fault
      · split at fault <;> cases fault
    | wake | block | exit => exact fun fault => by cases fault
    | dispatch tid handle files => exact dispatch_reads r enabled.2.2.1.1
    | result handle o => exact result_reads r
  · intro tid handle files n entry c i j _ _ task _ ready
    rw [task] at ready
    obtain ⟨run, rfl⟩ := setup_execute_iff.mp ready
    obtain ⟨limit, ok, _⟩ := limTime_ok run
    exact ⟨limit, ok⟩

/-- A submission of two stages, until the second one is next. -/
def secondStageNext : List Label :=
  [.push { sampleSubmission 1 1 [sampleItem false [0]] with stages := 2 } 0, .wake] ++
    runAlone 4 goodOutcome ++ runAlone 1 goodOutcome

theorem td_results_in_bounds_at_second_stage :
    ∃ s, (judge (sampleConfig 1)).exec freshId .init secondStageNext = some s ∧
      Enabled (sampleConfig 1) s (.dispatch 2 5 .empty) ∧
      (∀ id entry, s.submissionList.lookup id = some entry →
        entry.result.tdResults.length ≤ entry.sub.testdata.length) ∧
      (∀ l, Enabled (sampleConfig 1) s l → perform (sampleConfig 1) s l ≠ .error .noTdResult) ∧
      ∀ tid handle files n entry c i j, Enabled (sampleConfig 1) s (.dispatch tid handle files) →
        s.graph.find tid = some n → n.data.task = .execute i j →
        s.submissionList.lookup n.data.submissionInternalId = some entry →
        setup (sampleConfig 1) (s.ctx entry) files n.data.task = .ok (true, c) →
        ∃ limit, limTime c i j = .ok limit := by
  have run : ((judge (sampleConfig 1)).exec freshId .init secondStageNext).map (fun s =>
      decide (Enabled (sampleConfig 1) s (.dispatch 2 5 .empty))) = some true := by decide +kernel
  obtain ⟨s, hs, enabled⟩ := Option.map_eq_some_iff.mp run
  exact ⟨s, hs, of_decide_eq_true enabled, td_results_in_bounds (reach_exec hs)⟩

end TiojJudge.Judge
