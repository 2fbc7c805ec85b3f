import TiojJudge.WorkLoop.Model

/-!
# The handles of both sides

* `Linked`: a run of the loop is a run of the scheduler and one of the runner,
  and the handles that one waits for are those that the other has;
* `loop_refines`: this is so as long as `RunTask` fails at most once at a time, and
  each step of the loop is one of theirs.
-/

namespace TiojJudge.WorkLoop
open Machine
open Judge (CjailResult TaskOutcome BoxFiles noSecondFailure)
open Runner (plainCalls kUidPoolSize held)

variable {cfg : Config} {s t : State} {l : Label} {P : Judge.State → Judge.Label → Prop}

/-! ## What the calls of the runner do -/

section Calls

variable {cfg : Runner.Config} {r r' : Runner.State} {handle : Int}

theorem runTask_effect {spawn : Runner.Spawn} (h : r.runTask cfg spawn = some r') :
    (handleOf spawn = -1 ∧ (∀ tid, childOf tid spawn = []) ∧ r'.log = r.log ++ [.failed] ∧
      r'.tasks = r.tasks ∧ ∀ k, r'.Pending k ↔ r.Pending k) ∨
    ∃ fd pid, spawn = .child fd pid ∧ r'.log = r.log ++ [.started r.tasks fd] ∧
      r'.tasks = r.tasks + 1 ∧ ∀ k, r'.Pending k ↔ k = fd ∨ r.Pending k := by
  obtain ⟨running, finished, _, _, log⟩ := Runner.prepared_frame cfg r
  have tasks : (r.prepared cfg).tasks = r.tasks := by
    unfold Runner.State.prepared
    split <;> rfl
  cases Runner.runTask_iff.mp h with
  | noPipe | noFork =>
    refine .inl ⟨rfl, fun _ => rfl, congrArg (· ++ _) log, tasks, fun k => ?_⟩
    simp only [Runner.State.Pending, Runner.State.emit, running, finished]
  | @child fd pid uid last =>
    refine .inr ⟨fd, pid, rfl, ?_, congrArg (· + 1) tasks, fun k => ?_⟩
    · simp only [Runner.State.launch, Runner.State.emit, log, tasks]
    · simp only [Runner.State.Pending, Runner.State.launch, Runner.State.emit, running, finished,
        OrdMap.mem_keys_insert, or_assoc]

theorem exit_effect {fd : Int} {written : Option CjailResult} (h : r.exit fd written = some r') :
    (∃ task, r'.log = r.log ++ [.ended task written]) ∧ r'.tasks = r.tasks ∧
      ∀ k, r'.Pending k ↔ r.Pending k := by
  obtain ⟨_, running, _, _, finished, _, log⟩ := Runner.exit_frame h
  refine ⟨log, ?_, fun k => by simp only [Runner.State.Pending, running, finished]⟩
  unfold Runner.State.exit at h
  split at h <;> cases h
  rfl

theorem collected_pending {k : Int} : r.collected.Pending k ↔ r.Pending k := by
  unfold Runner.State.collected
  split
  · exact Runner.wait_pending
  · rfl

theorem waitAny_effect (inv : Runner.Inv cfg r) (h : r.waitAny handle = some r') :
    r'.log = r.log ++ [.returned handle (returned r')] ∧ r'.tasks = r.tasks ∧
      (handle = -1 ∧ returned r' = .zero ∧ (∀ k, ¬ r.Pending k) ∧ (∀ k, ¬ r'.Pending k) ∨
        r.Pending handle ∧ ∀ k, r'.Pending k ↔ r.Pending k ∧ k ≠ handle) := by
  rcases Runner.waitAny_cases h with ⟨running, finished, rfl, rfl⟩ | ⟨res, found, rfl⟩
  · have none (k : Int) : ¬ r.Pending k := by
      rintro (here | here)
      · simp [OrdMap.keys, running] at here
      · simp [AList.mem_keys, AList.keys, finished] at here
    refine ⟨?_, rfl, .inl ⟨rfl, ?_, none, none⟩⟩ <;> simp [returned, Runner.State.emit]
  · have log : ((r.collected.give handle res).close handle).log = r.log ++ [.returned handle res] :=
      congrArg (· ++ _) (Runner.collected_log r)
    have value : returned ((r.collected.give handle res).close handle) = res := by
      simp [returned, log]
    have tasks : r.collected.tasks = r.tasks := by
      unfold Runner.State.collected
      split
      · exact Runner.wait_tasks r
      · rfl
    have here : handle ∈ r.collected.finished :=
      AList.lookup_isSome.mp (Option.isSome_of_eq_some found)
    refine ⟨value.symm ▸ log, tasks, .inr ⟨collected_pending.mp (.inr here), fun k => ?_⟩⟩
    have apart : k = handle → k ∉ r.collected.running.keys := by
      rintro rfl running
      exact inv.collected.handles.apart k running here
    rw [← collected_pending (r := r)]
    simp only [Runner.State.Pending, Runner.State.close, Runner.State.give, Runner.State.emit,
      AList.mem_erase]
    tauto

end Calls

/-! ## What the calls of the scheduler do -/

section Scheduler

open Judge

variable {cfg : Judge.Config} {j j' : Judge.State}

theorem quiet_effect {l : Judge.Label} (h : (judge cfg).step j l = some j')
    (noDispatch : ∀ tid handle files, l ≠ .dispatch tid handle files)
    (noResult : ∀ handle o, l ≠ .result handle o) :
    j'.running = j.running ∧ j'.handleMap = j.handleMap := by
  cases step_cases h with
  | refused | push | wake | block | exit => exact ⟨rfl, rfl⟩
  | launch | skip => exact absurd rfl (noDispatch _ _ _)
  | result => exact absurd rfl (noResult _ _)

theorem dispatch_effect {tid : Nat} {handle : Int} {files : BoxFiles}
    (h : (judge cfg).step j (.dispatch tid handle files) = some j') :
    tid ∈ j.graph.queue ∧ Dispatched tid j'.log ∧
    (launches cfg j tid files = true ∧ j'.handleMap = j.handleMap.insert handle tid ∧
      (∀ k, k ∈ j'.running ↔ k ∈ j.running ∨ k = handle ∧ handle ≠ -1) ∧
      (∃ id task, .launched tid id task handle ∈ j'.log) ∨
    launches cfg j tid files = false ∧ j'.handleMap = j.handleMap ∧ j'.running = j.running) := by
  cases step_cases h with
  | @launch n _ _ _ c enabled found listed ready =>
    refine ⟨enabled.2.2.1.1, ?_, .inl ⟨?_, rfl, fun k => ?_, ?_⟩⟩
    · exact ⟨n.data.submissionInternalId, n.data.task, by simp⟩
    · simp [launches, found, listed, ready]
    · simp only [State.launch, State.emit, State.start, State.putCtx]
      split_ifs with failed <;> simp [failed, or_comm]
    · exact ⟨n.data.submissionInternalId, n.data.task, by simp⟩
  | @skip n _ _ _ c c' enabled found listed ready =>
    refine ⟨enabled.2.2.1.1, ?_, .inr ⟨?_, ?_, ?_⟩⟩
    · exact ⟨n.data.submissionInternalId, n.data.task, by simp⟩
    · simp [launches, found, listed, ready]
    · rw [settle_handleMap, start_handleMap]
    · rw [settle_running, start_running]

theorem result_effect {handle : Int} {o : TaskOutcome}
    (h : (judge cfg).step j (.result handle o) = some j') :
    ∃ n : TaskGraph.Node TaskInfo, j.handleMap.lookup handle = some n.id ∧ j'.handleMap = j.handleMap.erase handle ∧
      j'.running = j.running.erase handle ∧
      .finalizing n.id n.data.submissionInternalId n.data.task (some o) ∈ j'.log := by
  cases step_cases h with
  | @result n _ _ _ c _ handled =>
    refine ⟨n, handled, ?_, ?_, by simp⟩
    · simp only [State.resume, settle_handleMap, State.returned]
    · simp only [State.resume, settle_running, State.returned]

end Scheduler

/-! ## The link -/

structure Linked (cfg : Config) (P : Judge.State → Judge.Label → Prop) (s : State) : Prop where
  judge : (Judge.judge cfg.judge).Reach P s.judge
  runner : (Runner.runner cfg.runner).Reach plainCalls s.runner
  handles : ∀ k, k ∈ s.judge.running ↔ s.runner.Pending k
  count : s.children.length = s.runner.tasks
  /-- `handle_map` has the task whose child writes to the pipe. -/
  own : ∀ fd k, (held s.runner.log).lookup fd = some k →
    ∃ tid, s.children[k]? = some tid ∧ s.judge.handleMap.lookup fd = some tid

theorem Linked.init : Linked cfg P (workLoop cfg).init where
  judge := .init
  runner := .init
  handles := by simp [workLoop, Judge.State.init, Runner.State.init, Runner.State.Pending, OrdMap.keys]
  count := rfl
  own := by simp [workLoop, Runner.State.init, held]

/-- The step is one of the scheduler, or leaves it alone. -/
theorem Linked.judge_part (h : Linked cfg P s) (step : (workLoop cfg).step s l = some t) :
    (∀ l' ∈ s.judgeLabel cfg l, (Judge.judge cfg.judge).step s.judge l' = some t.judge) ∧
    (s.judgeLabel cfg l = none → t.judge = s.judge) := by
  obtain ⟨enabled, done⟩ := step_iff.mp step
  have same {l' : Judge.Label} (enabled : Judge.Enabled cfg.judge s.judge l')
      (done : s.alone cfg l' = some t) : (Judge.judge cfg.judge).step s.judge l' = some t.judge :=
    Judge.judge_step.mpr ⟨enabled, (alone_iff.mp done).1⟩
  have inv := Runner.inv h.runner
  cases l with
  | push | wake | block | exit =>
    refine ⟨?_, by simp [State.judgeLabel]⟩
    rintro _ ⟨⟩
    exact same enabled done
  | child =>
    obtain ⟨r, _, rfl⟩ := Option.map_eq_some_iff.mp done
    exact ⟨by simp [State.judgeLabel], fun _ => rfl⟩
  | dispatch tid spawn files =>
    obtain ⟨working, slots, top, fresh⟩ := enabled
    refine ⟨?_, by simp [State.judgeLabel]⟩
    rintro _ ⟨⟩
    refine Judge.judge_step.mpr ⟨⟨working, slots, top, ?_⟩, ?_⟩
    · split_ifs with launch
      · cases spawn with
        | noPipe | noFork => exact .inl rfl
        | child fd pid =>
          refine .inr ⟨fresh.1, fun here => fresh.2 ?_⟩
          exact inv.handles.opened fd ((h.handles fd).mp here)
      · exact .inr (unusedHandle_fresh _)
    · have done := dispatchTask_iff.mp done
      split_ifs at done ⊢ with launch
      · exact done.2.1
      · exact done.1
  | result handle files =>
    obtain ⟨waited, done, _⟩ := waitTask_iff.mp done
    have value : ((s.runner.waitAny handle).map returned).getD .zero = returned t.runner := by
      rw [waited, Option.map_some, Option.getD_some]
    refine ⟨?_, by simp [State.judgeLabel]⟩
    rintro _ ⟨⟩
    rw [value]
    refine Judge.judge_step.mpr ⟨⟨enabled, ?_⟩, done⟩
    obtain ⟨_, _, ⟨rfl, zero, none, _⟩ | ⟨here, _⟩⟩ := waitAny_effect inv waited
    · refine .inr ⟨List.eq_nil_iff_forall_not_mem.mpr fun k hk => none k ((h.handles k).mp hk), rfl, zero⟩
    · exact .inl ((h.handles handle).mpr here)

theorem running_le (par : 1 ≤ cfg.judge.kMaxParallel) (failures : ∀ a l, P a l → noSecondFailure a l)
    (h : Linked cfg P s) : (s.runner.running.entries.length : Int) ≤ s.judge.taskRunning := by
  have r := (Judge.running_wired par (h.judge.weaken failures)).1
  have nodup : s.runner.running.keys.Nodup :=
    s.runner.running.sorted.imp ne_of_lt
  have inside : s.runner.running.keys ⊆ s.judge.handleMap.keys := by
    intro k hk
    have here := (h.handles k).mpr (.inl hk)
    have other : k ≠ -1 := fun same => r.real (same ▸ here)
    exact AList.mem_keys.mpr ((r.keys k other).mpr here)
  have short := (List.subperm_of_subset nodup inside).length_le
  have count := r.count
  simp only [OrdMap.keys, List.length_map, UMap.values, AList.keys, List.keys] at short count
  omega

/-- The step is one of the runner, with a user id left, or leaves it alone. -/
theorem Linked.runner_part (par : 1 ≤ cfg.judge.kMaxParallel)
    (few : cfg.judge.kMaxParallel ≤ kUidPoolSize) (failures : ∀ a l, P a l → noSecondFailure a l)
    (h : Linked cfg P s) (step : (workLoop cfg).step s l = some t) :
    (∀ l' ∈ s.runnerLabel cfg l, plainCalls s.runner l' ∧
      (Runner.runner cfg.runner).step s.runner l' = some t.runner) ∧
    (s.runnerLabel cfg l = none → t.runner = s.runner) := by
  obtain ⟨enabled, done⟩ := step_iff.mp step
  have idle := (Runner.plain h.runner).idle
  cases l with
  | push | wake | block | exit => exact ⟨by simp [State.runnerLabel], fun _ => (alone_iff.mp done).2.1⟩
  | child fd written =>
    obtain ⟨r, ended, rfl⟩ := Option.map_eq_some_iff.mp done
    refine ⟨?_, by simp [State.runnerLabel]⟩
    rintro _ ⟨⟩
    exact ⟨trivial, Runner.step_iff.mpr ⟨trivial, ended⟩⟩
  | dispatch tid spawn files =>
    have done := dispatchTask_iff.mp done
    simp only [State.runnerLabel]
    split_ifs at done ⊢ with launch
    · obtain ⟨_, slots, _, fresh⟩ := enabled
      have most := running_le par failures h
      have free : s.runner.running.entries.length < kUidPoolSize := by omega
      refine ⟨?_, by simp⟩
      rintro _ ⟨⟩
      exact ⟨free, Runner.step_iff.mpr ⟨⟨idle, fresh⟩, done.1⟩⟩
    · exact ⟨by simp, fun _ => done.2.1⟩
  | result handle files =>
    refine ⟨?_, by simp [State.runnerLabel]⟩
    rintro _ ⟨⟩
    exact ⟨trivial, Runner.step_iff.mpr ⟨idle, (waitTask_iff.mp done).1⟩⟩

/-- No result of `-1` is held. -/
theorem held_nonneg (h : Linked cfg P s) {fd : Int} {k : Nat}
    (here : (held s.runner.log).lookup fd = some k) : 0 ≤ fd := by
  have inv := Runner.inv h.runner
  exact inv.handles.nonneg fd (inv.handles.opened fd ((inv.handles.held fd k).mp here).1)

theorem Linked.step (par : 1 ≤ cfg.judge.kMaxParallel) (few : cfg.judge.kMaxParallel ≤ kUidPoolSize)
    (failures : ∀ a l, P a l → noSecondFailure a l) (h : Linked cfg P s) (cond : meets cfg P s l)
    (step : (workLoop cfg).step s l = some t) : Linked cfg P t := by
  have judge := h.judge_part step
  have runner := h.runner_part par few failures step
  obtain ⟨enabled, done⟩ := step_iff.mp step
  have inv := Runner.inv h.runner
  have running := (Judge.running_wired par (h.judge.weaken failures)).1
  cases l with
  | push | wake | block | exit =>
    obtain ⟨_, same, children⟩ := alone_iff.mp done
    have kept := quiet_effect (judge.1 _ rfl) (by simp) (by simp)
    refine ⟨h.judge.step (cond _ rfl) (judge.1 _ rfl), same ▸ h.runner, ?_, ?_, ?_⟩
    · rw [kept.1, same]
      exact h.handles
    · rw [children, same]
      exact h.count
    · rw [same, children, kept.2]
      exact h.own
  | child fd written =>
    obtain ⟨_, children⟩ : t.judge = s.judge ∧ t.children = s.children := by
      obtain ⟨r, _, rfl⟩ := Option.map_eq_some_iff.mp done
      exact ⟨rfl, rfl⟩
    obtain ⟨r, ended, rfl⟩ := Option.map_eq_some_iff.mp done
    obtain ⟨⟨task, log⟩, tasks, pending⟩ := exit_effect ended
    obtain ⟨call, exited⟩ := runner.1 _ rfl
    have reach := h.runner.step call exited
    refine ⟨h.judge, reach, fun k => ?_, ?_, fun fd k here => ?_⟩
    · exact (h.handles k).trans (pending k).symm
    · exact h.count.trans tasks.symm
    · rw [log, Runner.held_snoc] at here
      exact h.own fd k here
  | dispatch tid spawn files =>
    have judge := judge.1 _ rfl
    have effect := (dispatch_effect judge).2.2
    have done := dispatchTask_iff.mp done
    have reach := h.judge.step (cond _ rfl) judge
    by_cases launch : launches cfg.judge s.judge tid files = true
    · simp only [launch, if_true, Bool.true_eq_false, false_and, or_false, true_and] at effect done
      obtain ⟨call, started⟩ := runner.1 (.run spawn) (by simp [State.runnerLabel, launch])
      have reach' := h.runner.step call started
      obtain ⟨handleMap, runs, _⟩ := effect
      obtain ⟨ran, _, children⟩ := done
      rcases runTask_effect ran with ⟨failed, none, log, tasks, pending⟩ |
        ⟨fd, pid, rfl, log, tasks, pending⟩
      · refine ⟨reach, reach', fun k => ?_, ?_, fun fd k here => ?_⟩
        · rw [runs, pending, failed, h.handles]
          simp
        · rw [children, none, List.append_nil, tasks]
          exact h.count
        · rw [log, Runner.held_snoc] at here
          have nonneg := held_nonneg h here
          rw [children, none, List.append_nil, handleMap, failed, UMap.lookup_insert_eq,
            if_neg (by omega)]
          exact h.own fd k here
      · refine ⟨reach, reach', fun k => ?_, ?_, fun fd' k here => ?_⟩
        · have nonneg : 0 ≤ fd := enabled.2.2.2.1
          have real : fd ≠ -1 := by omega
          rw [runs, pending, h.handles, handleOf]
          tauto
        · rw [children, childOf, List.length_append, List.length_singleton, tasks, h.count]
        · rw [log, Runner.held_snoc, Runner.Event.hold, UMap.lookup_insert_eq] at here
          rw [children, childOf, handleMap, handleOf, UMap.lookup_insert_eq]
          split_ifs at here ⊢ with same
          · obtain rfl := Option.some.inj here
            exact ⟨tid, by rw [← h.count, List.getElem?_concat_length], rfl⟩
          · obtain ⟨tid', child, found⟩ := h.own fd' k here
            refine ⟨tid', ?_, found⟩
            rw [List.getElem?_append_left (List.getElem?_eq_some_iff.mp child).1]
            exact child
    · simp only [launch, Bool.false_eq_true, if_false, false_and, false_or] at effect done
      have runner := runner.2 (by simp [State.runnerLabel, launch])
      obtain ⟨_, handleMap, runs⟩ := effect
      refine ⟨reach, runner ▸ h.runner, ?_, ?_, ?_⟩
      · rw [runs, runner]
        exact h.handles
      · rw [done.2.2, runner]
        exact h.count
      · rw [runner, done.2.2, handleMap]
        exact h.own
  | result handle files =>
    obtain ⟨waited, _, children⟩ := waitTask_iff.mp done
    have judge := judge.1 _ rfl
    obtain ⟨call, returned⟩ := runner.1 _ rfl
    have reach := h.judge.step (cond _ rfl) judge
    have reach' := h.runner.step call returned
    obtain ⟨n, handled, handleMap, runs, _⟩ := result_effect judge
    obtain ⟨log, tasks, effect⟩ := waitAny_effect inv waited
    refine ⟨reach, reach', fun k => ?_, ?_, fun fd k here => ?_⟩
    · rw [runs, running.nodup.mem_erase_iff, h.handles]
      rcases effect with ⟨_, _, none, none'⟩ | ⟨_, pending⟩
      · exact iff_of_false (fun here => none k here.2) (none' k)
      · rw [pending, and_comm]
    · rw [children, tasks]
      exact h.count
    · rw [log, Runner.held_snoc, Runner.Event.hold, UMap.lookup_erase_eq] at here
      rw [children, handleMap, UMap.lookup_erase_eq]
      split_ifs at here ⊢
      exact h.own fd k here

theorem linked (par : 1 ≤ cfg.judge.kMaxParallel) (few : cfg.judge.kMaxParallel ≤ kUidPoolSize)
    (failures : ∀ a l, P a l → noSecondFailure a l) (h : (workLoop cfg).Reach (meets cfg P) s) :
    Linked cfg P s :=
  h.invariant .init fun _ _ _ _ linked cond step => linked.step par few failures cond step

/-- The loop refines the scheduler and the runner: each step is one of theirs. -/
structure Refines (cfg : Config) (P : Judge.State → Judge.Label → Prop) (s : State) : Prop where
  parts : Linked cfg P s
  judge : ∀ l t, (workLoop cfg).step s l = some t →
    (∀ l' ∈ s.judgeLabel cfg l, (Judge.judge cfg.judge).step s.judge l' = some t.judge) ∧
    (s.judgeLabel cfg l = none → t.judge = s.judge)
  /-- `RunTask` is called with a user id left only, and `WaitAnyResult(handles)` never. -/
  runner : ∀ l t, (workLoop cfg).step s l = some t →
    (∀ l' ∈ s.runnerLabel cfg l, plainCalls s.runner l' ∧
      (Runner.runner cfg.runner).step s.runner l' = some t.runner) ∧
    (s.runnerLabel cfg l = none → t.runner = s.runner)

theorem loop_refines (par : 1 ≤ cfg.judge.kMaxParallel) (few : cfg.judge.kMaxParallel ≤ kUidPoolSize)
    (failures : ∀ a l, P a l → noSecondFailure a l) (h : (workLoop cfg).Reach (meets cfg P) s) :
    Refines cfg P s := by
  have linked := linked par few failures h
  exact ⟨linked, fun _ _ step => linked.judge_part step,
    fun _ _ step => linked.runner_part par few failures step⟩

/-- Two tasks run, in one of which `fork` fails. -/
def oneFails : List Label :=
  [.push { Judge.sampleSubmission 1 1 [Judge.sampleItem false [0]] with
      specjudgeType := .specjudgeOld } 0, .wake,
    .dispatch 3 (.noFork 3) .empty, .dispatch 4 (.child 4 101) .empty]

theorem loop_refines_one :
    ∃ s, (workLoop (sampleConfig 2)).exec (meets (sampleConfig 2) noSecondFailure)
      ⟨.init, .init, []⟩ oneFails = some s ∧ Refines (sampleConfig 2) noSecondFailure s := by
  obtain ⟨s, hs⟩ := Option.isSome_iff_exists.mp
    (show ((workLoop (sampleConfig 2)).exec (meets (sampleConfig 2) noSecondFailure)
      ⟨.init, .init, []⟩ oneFails).isSome = true by decide +kernel)
  exact ⟨s, hs, loop_refines (by decide) (by decide) (fun _ _ h => h) (reach_exec hs)⟩

end TiojJudge.WorkLoop
