import TiojJudge.WorkLoop.Linked

/-!
# Every task gets the result of its own child

* `own_results`: the result a task is finalized with is what the child process
  wrote that `RunTask` made for it, and no task has two;
* `tasks_pinned`: with a pinned CPU for each of the `kMaxParallel` tasks, every
  task has one for itself.
-/

namespace TiojJudge.WorkLoop
open Machine
open Judge (CjailResult TaskOutcome BoxFiles Task noSecondFailure Dispatched)
open Runner (plainCalls kUidPoolSize held)

variable {cfg : Config} {s t : State} {l : Label} {P : Judge.State → Judge.Label → Prop}

/-! ## What a step logs -/

section Log

open Judge

variable {cfg : Judge.Config} {j j' : Judge.State}

theorem reports_quiet {id : Int} {es : List Judge.Event} (h : Reports id es) {tid : Nat} {id' : Int}
    {task : Task} {outcome : Option TaskOutcome} : .finalizing tid id' task outcome ∉ es := by
  intro he
  obtain ⟨_, source, _⟩ := h _ he
  cases source

/-- A task ends with a result when the handle it has is returned with it. -/
structure Logs (j : Judge.State) (l : Judge.Label) (new : List Judge.Event) : Prop where
  ended : ∀ tid id task o, .finalizing tid id task (some o) ∈ new →
    ∃ handle, l = .result handle o ∧ j.handleMap.lookup handle = some tid
  dispatched : ∀ tid, Dispatched tid new → tid ∈ j.graph.queue

theorem step_logs {l : Judge.Label} (h : (judge cfg).step j l = some j') :
    ∃ new, j'.log = j.log ++ new ∧ Logs j l new := by
  cases step_cases h with
  | refused | wake | block | exit =>
    exact ⟨[], (List.append_nil _).symm, by simp, by simp⟩
  | push =>
    refine ⟨_, by rw [supersede_log, enqueue_log, List.append_assoc], ⟨by simp, by simp⟩⟩
  | launch enabled _ _ ready =>
    have reports := (setup_reports rfl ready).2
    refine ⟨_, by rw [launch_log, start_log, List.append_assoc, List.append_assoc],
      ⟨fun tid id task o here => ?_, fun tid here => ?_⟩⟩
    · simp [reports_quiet reports] at here
    · simp only [dispatched_append, dispatched_nil, dispatched_dispatching, dispatched_launched,
        reports.not_dispatched, or_false] at here
      exact here ▸ enabled.2.2.1.1
  | skip enabled _ _ ready done =>
    have reports := (setup_reports rfl ready).2
    have reports' := (finalize_reports rfl done).2
    refine ⟨_, by rw [settle_log, start_log, List.append_assoc, List.append_assoc, List.append_assoc],
      ⟨fun tid id task o here => ?_, fun tid here => ?_⟩⟩
    · simp [reports_quiet reports, reports_quiet reports'] at here
    · simp only [dispatched_append, dispatched_nil, dispatched_dispatching, dispatched_finalizing,
        reports.not_dispatched, reports'.not_dispatched, or_false] at here
      exact here ▸ enabled.2.2.1.1
  | result _ handled _ _ done =>
    have reports := (finalize_reports rfl done).2
    refine ⟨_, by rw [resume_log, settle_log, returned_log, List.append_assoc],
      ⟨fun tid id task o here => ?_, fun tid here => ?_⟩⟩
    · simp only [List.mem_append, List.mem_singleton, reports_quiet reports, or_false,
        Event.finalizing.injEq, Option.some.injEq] at here
      obtain ⟨rfl, _, _, rfl⟩ := here
      exact ⟨_, rfl, handled⟩
    · simp [reports.not_dispatched] at here

/-- The task of a handle was launched with it. -/
theorem launched_logged {Q : Judge.State → Judge.Label → Prop} (h : (judge cfg).Reach Q j)
    {handle : Int} {tid : Nat} (handled : j.handleMap.lookup handle = some tid) :
    ∃ id task, .launched tid id task handle ∈ j.log := by
  revert handle tid
  refine h.invariant (I := fun j => ∀ {handle tid}, j.handleMap.lookup handle = some tid →
    ∃ id task, .launched tid id task handle ∈ j.log) (by simp [judge, State.init])
    fun a l b _ ih _ step handle tid handled => ?_
  obtain ⟨new, log, _⟩ := step_logs step
  have old (before : a.handleMap.lookup handle = some tid) :
      ∃ id task, .launched tid id task handle ∈ b.log := by
    obtain ⟨id, task, here⟩ := ih before
    exact ⟨id, task, log ▸ List.mem_append_left _ here⟩
  cases l with
  | push | wake | block | exit =>
    rw [(quiet_effect step (by simp) (by simp)).2] at handled
    exact old handled
  | dispatch tid' handle' files =>
    rcases (dispatch_effect step).2.2 with ⟨_, map, _, launched⟩ | ⟨_, map, _⟩
    · rw [map, UMap.lookup_insert_eq] at handled
      split_ifs at handled with same
      · obtain rfl := Option.some.inj handled
        exact same ▸ launched
      · exact old handled
    · exact old (map ▸ handled)
  | result handle' o =>
    obtain ⟨_, _, map, _⟩ := result_effect step
    rw [map, UMap.lookup_erase_eq] at handled
    split_ifs at handled
    exact old handled

end Log

/-! ## Results -/

/-- A child that `RunTask` made for the task ended, and this is what it wrote. -/
def WroteFor (s : State) (tid : Nat) (res : CjailResult) : Prop :=
  ∃ k written, s.children[k]? = some tid ∧ .ended k written ∈ s.runner.log ∧ res = written.getD .zero

/-- `RunTask` returned `-1` for the task. -/
def FailedToStart (s : State) (tid : Nat) : Prop :=
  ∃ id task, .launched tid id task (-1) ∈ s.judge.log

structure Delivered (s : State) : Prop where
  /-- A task has one child at most. -/
  once : s.children.Nodup
  dispatched : ∀ tid ∈ s.children, Dispatched tid s.judge.log
  /-- A result is from a child of the task, or from none. -/
  own : ∀ tid id task o, .finalizing tid id task (some o) ∈ s.judge.log →
    WroteFor s tid o.res ∨ FailedToStart s tid ∧ o.res = .zero
  /-- What a child writes is used, or its handle is waited for. -/
  used : ∀ tid ∈ s.children, (∃ handle, s.judge.handleMap.lookup handle = some tid) ∨
    ∃ id task o, .finalizing tid id task (some o) ∈ s.judge.log

theorem WroteFor.mono {tid : Nat} {res : CjailResult} (h : WroteFor s tid res)
    (children : ∃ new, t.children = s.children ++ new) (log : ∃ new, t.runner.log = s.runner.log ++ new) :
    WroteFor t tid res := by
  obtain ⟨k, written, child, ended, same⟩ := h
  obtain ⟨new, children⟩ := children
  obtain ⟨new', log⟩ := log
  refine ⟨k, written, ?_, log ▸ List.mem_append_left _ ended, same⟩
  rw [children, List.getElem?_append_left (List.getElem?_eq_some_iff.mp child).1]
  exact child

theorem FailedToStart.mono {tid : Nat} (h : FailedToStart s tid)
    (log : ∃ new, t.judge.log = s.judge.log ++ new) : FailedToStart t tid := by
  obtain ⟨id, task, here⟩ := h
  obtain ⟨new, log⟩ := log
  exact ⟨id, task, log ▸ List.mem_append_left _ here⟩

/-- A task that is dispatched has no child yet. -/
theorem queued_not_child {Q : Judge.State → Judge.Label → Prop} {j : Judge.State}
    {cfg : Judge.Config} (h : (Judge.judge cfg).Reach Q j) {tid : Nat} (queued : tid ∈ j.graph.queue) :
    ¬ Dispatched tid j.log := by
  intro dispatched
  obtain ⟨held, w⟩ := Judge.wired h
  obtain ⟨n, hn, rfl⟩ := w.inv.known tid (.inl queued)
  have here := (w.dispatched n.id dispatched).2 (List.mem_map_of_mem hn)
  have counted := w.inv.ready n hn
  have one := List.count_pos_iff.mpr queued
  have two := List.count_pos_iff.mpr here
  split at counted <;> omega

/-- What was there stays, when nothing is launched and no task ends with a result. -/
theorem Delivered.kept (h : Delivered s) {new : List Judge.Event}
    (log : t.judge.log = s.judge.log ++ new) (map : t.judge.handleMap = s.judge.handleMap)
    (quiet : ∀ tid id task o, .finalizing tid id task (some o) ∉ new)
    (children : t.children = s.children) (runner : ∃ new, t.runner.log = s.runner.log ++ new) :
    Delivered t := by
  have more : ∃ new, t.judge.log = s.judge.log ++ new := ⟨new, log⟩
  have same : ∃ new, t.children = s.children ++ new := ⟨[], by rw [children, List.append_nil]⟩
  refine ⟨children ▸ h.once, fun tid here => ?_, fun tid id task o here => ?_, fun tid here => ?_⟩
  · rw [log, Judge.dispatched_append]
    exact .inl (h.dispatched tid (children ▸ here))
  · rw [log, List.mem_append] at here
    have old := here.resolve_right (quiet tid id task o)
    exact (h.own tid id task o old).imp (WroteFor.mono · same runner) (.imp_left (FailedToStart.mono · more))
  · rw [map, log]
    refine (h.used tid (children ▸ here)).imp_right ?_
    rintro ⟨id, task, o, ended⟩
    exact ⟨id, task, o, List.mem_append_left _ ended⟩

/-- A child is made for a task that has none. -/
theorem Delivered.launch (h : Delivered s) {tid : Nat} {handle : Int} {new : List Judge.Event}
    {children : List Nat} (log : t.judge.log = s.judge.log ++ new)
    (map : t.judge.handleMap = s.judge.handleMap.insert handle tid)
    (fresh : handle ∉ s.judge.handleMap) (idle : ¬ Dispatched tid s.judge.log)
    (dispatched : Dispatched tid t.judge.log)
    (quiet : ∀ tid id task o, .finalizing tid id task (some o) ∉ new)
    (one : children = [] ∨ children = [tid]) (more : t.children = s.children ++ children)
    (runner : ∃ new, t.runner.log = s.runner.log ++ new) : Delivered t := by
  have grown : ∃ new, t.judge.log = s.judge.log ++ new := ⟨new, log⟩
  have inside {k : Nat} (here : k ∈ t.children) : k ∈ s.children ∨ k = tid := by
    rw [more, List.mem_append] at here
    rcases one with rfl | rfl
    · exact .inl (here.resolve_right List.not_mem_nil)
    · exact here.imp_right List.mem_singleton.mp
  refine ⟨?_, fun k here => ?_, fun k id task o here => ?_, fun k here => ?_⟩
  · rw [more]
    rcases one with rfl | rfl
    · rw [List.append_nil]
      exact h.once
    · exact List.nodup_append.mpr ⟨h.once, List.nodup_singleton _, fun a ha b hb same =>
        idle (List.mem_singleton.mp hb ▸ same ▸ h.dispatched a ha)⟩
  · rcases inside here with old | rfl
    · rw [log, Judge.dispatched_append]
      exact .inl (h.dispatched k old)
    · exact dispatched
  · rw [log, List.mem_append] at here
    have old := here.resolve_right (quiet k id task o)
    exact (h.own k id task o old).imp (WroteFor.mono · ⟨_, more⟩ runner)
      (.imp_left (FailedToStart.mono · grown))
  · rcases inside here with old | rfl
    · rcases h.used k old with ⟨handle', handled⟩ | ⟨id, task, o, ended⟩
      · refine .inl ⟨handle', ?_⟩
        have other : handle' ≠ handle := by
          rintro rfl
          exact fresh (AList.lookup_isSome.mp (Option.isSome_of_eq_some handled))
        rw [map, UMap.lookup_insert_eq, if_neg other]
        exact handled
      · exact .inr ⟨id, task, o, log ▸ List.mem_append_left _ ended⟩
    · exact .inl ⟨handle, by rw [map, UMap.lookup_insert_eq, if_pos rfl]⟩

/-- The result that is returned is from the child whose handle it has. -/
theorem returned_own (linked : Linked cfg noSecondFailure s) {handle : Int} {tid : Nat}
    (waited : s.runner.waitAny handle = some t.runner) (children : t.children = s.children)
    (handled : s.judge.handleMap.lookup handle = some tid) :
    WroteFor t tid (returned t.runner) ∨ FailedToStart s tid ∧ returned t.runner = .zero := by
  have inv := Runner.inv linked.runner
  obtain ⟨log, _, ⟨rfl, zero, _⟩ | ⟨pending, _⟩⟩ := waitAny_effect inv waited
  · exact .inr ⟨launched_logged linked.judge handled, zero⟩
  · have timely := (inv.waitAny waited).handles.timely
    rw [log, Timely.snoc_iff] at timely
    obtain ⟨k, written, here, ended, same⟩ := timely.2
      (inv.handles.nonneg handle (inv.handles.opened handle pending))
    obtain ⟨tid', child, handled'⟩ := linked.own handle k here
    obtain rfl : tid' = tid := Option.some.inj (handled'.symm.trans handled)
    exact .inl ⟨k, written, children ▸ child, log ▸ List.mem_append_left _ ended, same⟩

theorem Delivered.result (h : Delivered s) {handle : Int} {tid : Nat} {o : TaskOutcome}
    {new : List Judge.Event} (log : t.judge.log = s.judge.log ++ new)
    (map : t.judge.handleMap = s.judge.handleMap.erase handle)
    (handled : s.judge.handleMap.lookup handle = some tid)
    (logs : Logs s.judge (.result handle o) new)
    (done : ∃ id task, .finalizing tid id task (some o) ∈ t.judge.log)
    (own : WroteFor t tid o.res ∨ FailedToStart s tid ∧ o.res = .zero)
    (children : t.children = s.children) (runner : ∃ new, t.runner.log = s.runner.log ++ new) :
    Delivered t := by
  have grown : ∃ new, t.judge.log = s.judge.log ++ new := ⟨new, log⟩
  have same : ∃ new, t.children = s.children ++ new := ⟨[], by rw [children, List.append_nil]⟩
  refine ⟨children ▸ h.once, fun k here => ?_, fun k id task o' here => ?_, fun k here => ?_⟩
  · rw [log, Judge.dispatched_append]
    exact .inl (h.dispatched k (children ▸ here))
  · rw [log, List.mem_append] at here
    rcases here with old | here
    · exact (h.own k id task o' old).imp (WroteFor.mono · same runner)
        (.imp_left (FailedToStart.mono · grown))
    · obtain ⟨handle', label, handled'⟩ := logs.ended k id task o' here
      obtain ⟨rfl, rfl⟩ := Judge.Label.result.inj label
      obtain rfl : k = tid := Option.some.inj (handled'.symm.trans handled)
      exact own.imp_right (.imp_left (FailedToStart.mono · grown))
  · rcases h.used k (children ▸ here) with ⟨handle', handled'⟩ | ⟨id, task, o', ended⟩
    · by_cases this : handle' = handle
      · obtain rfl : k = tid := Option.some.inj (handled'.symm.trans (this ▸ handled))
        obtain ⟨id, task, ended⟩ := done
        exact .inr ⟨id, task, o, ended⟩
      · refine .inl ⟨handle', ?_⟩
        rw [map, UMap.lookup_erase_eq, if_neg this]
        exact handled'
    · exact .inr ⟨id, task, o', log ▸ List.mem_append_left _ ended⟩

theorem Delivered.step (par : 1 ≤ cfg.judge.kMaxParallel)
    (linked : Linked cfg noSecondFailure s) (h : Delivered s) (cond : meets cfg noSecondFailure s l)
    (step : (workLoop cfg).step s l = some t) : Delivered t := by
  have judge := linked.judge_part step
  obtain ⟨enabled, done⟩ := step_iff.mp step
  have inv := Runner.inv linked.runner
  have running := (Judge.running_wired par linked.judge).1
  cases l with
  | push | wake | block | exit =>
    obtain ⟨_, runner, children⟩ := alone_iff.mp done
    have judge := judge.1 _ rfl
    obtain ⟨new, log, logs⟩ := step_logs judge
    refine h.kept log (quiet_effect judge (by simp) (by simp)).2 (fun tid id task o here => ?_)
      children ⟨[], by rw [runner, List.append_nil]⟩
    obtain ⟨_, no, _⟩ := logs.ended tid id task o here
    cases no
  | child fd written =>
    obtain ⟨r, ended, rfl⟩ := Option.map_eq_some_iff.mp done
    obtain ⟨⟨task, log⟩, _⟩ := exit_effect ended
    exact h.kept (List.append_nil _).symm rfl (fun _ _ _ _ => List.not_mem_nil) rfl ⟨_, log⟩
  | dispatch tid spawn files =>
    have judge := judge.1 _ rfl
    obtain ⟨new, log, logs⟩ := step_logs judge
    obtain ⟨queued, dispatched, effect⟩ := dispatch_effect judge
    have quiet (k : Nat) (id : Int) (task : Task) (o : TaskOutcome) :
        .finalizing k id task (some o) ∉ new := by
      intro here
      obtain ⟨_, no, _⟩ := logs.ended k id task o here
      cases no
    have fresh := running.fresh (Judge.judge_step.mp judge).1 (cond _ rfl)
    have done := dispatchTask_iff.mp done
    rcases effect with ⟨launch, map, _⟩ | ⟨skip, map, _⟩
    · simp only [launch, if_true] at done map fresh
      obtain ⟨ran, _, children⟩ := done
      have logged : ∃ new, t.runner.log = s.runner.log ++ new := by
        rcases runTask_effect ran with ⟨_, _, log, _⟩ | ⟨_, _, _, log, _⟩ <;> exact ⟨_, log⟩
      refine h.launch log map fresh (queued_not_child linked.judge queued) dispatched quiet ?_
        children logged
      cases spawn <;> simp [childOf]
    · simp only [skip, Bool.false_eq_true, if_false] at done
      exact h.kept log map quiet done.2.2 ⟨[], by rw [done.2.1, List.append_nil]⟩
  | result handle files =>
    obtain ⟨waited, _, children⟩ := waitTask_iff.mp done
    have judge := judge.1 _ rfl
    rw [waited, Option.map_some, Option.getD_some] at judge
    obtain ⟨new, log, logs⟩ := step_logs judge
    obtain ⟨n, handled, map, _, ended⟩ := result_effect judge
    exact h.result log map handled logs ⟨_, _, ended⟩ (returned_own linked waited children handled)
      children ⟨_, (waitAny_effect inv waited).1⟩

theorem own_results (par : 1 ≤ cfg.judge.kMaxParallel) (few : cfg.judge.kMaxParallel ≤ kUidPoolSize)
    (h : (workLoop cfg).Reach (meets cfg noSecondFailure) s) : Delivered s := by
  refine h.invariant ⟨.nil, by simp [workLoop], by simp [workLoop, Judge.State.init],
    by simp [workLoop]⟩ fun a l b reach ih cond step => ?_
  exact ih.step par (linked par few (fun _ _ h => h) reach) cond step

/-- A program and a checker are compiled; the second child ends first. -/
def twoCompiles : List Label :=
  [.push { Judge.sampleSubmission 1 1 [Judge.sampleItem false [0]] with
      specjudgeType := .specjudgeOld } 0, .wake,
    .dispatch 3 (.child 3 100) .empty, .dispatch 4 (.child 4 101) .empty,
    .child 4 (some (Judge.exited 0)), .block, .result 4 .empty]

theorem own_results_two :
    ∃ s, (workLoop (sampleConfig 2)).exec (meets (sampleConfig 2) noSecondFailure) (workLoop (sampleConfig 2)).init
      twoCompiles = some s ∧ Delivered s := by
  obtain ⟨s, hs⟩ := Option.isSome_iff_exists.mp
    (show ((workLoop (sampleConfig 2)).exec (meets (sampleConfig 2) noSecondFailure) (workLoop (sampleConfig 2)).init
      twoCompiles).isSome = true by decide +kernel)
  exact ⟨s, hs, own_results (by decide) (by decide) (reach_exec hs)⟩

/-! ## Pinned CPUs -/

/-- Every running task has a pinned CPU, which no other has. -/
structure Pinned (cfg : Config) (s : State) : Prop where
  own : ∀ e ∈ s.runner.running.entries,
    ∃ i : Nat, e.2.cpuid = i ∧ i < cfg.runner.nprocs ∧ cfg.runner.pinned i = true
  apart : (s.runner.running.entries.map (·.2.cpuid)).Nodup

section Cpus

open Runner

variable {cfg : Runner.Config} {r r' : Runner.State}

/-- With fewer running tasks than CPUs, a new one gets a CPU. -/
theorem exists_cpu (p : Pools cfg r) (on : r.poolInit = true)
    (free : r.running.entries.length < cfg.initialCpuids.length) : r.cpuidPool.getLastD (-1) ≠ -1 := by
  have length := (p.cpuids on).length_eq
  have short := (List.filter_sublist (p := fun c => decide (c ≠ -1))
    (l := r.running.entries.map (·.2.cpuid))).length_le
  rw [List.length_append] at length
  rw [List.length_map] at short
  have some_ : r.cpuidPool ≠ [] := by
    intro none
    rw [none, List.length_nil] at length
    omega
  rw [List.getLastD_eq_getLast?, List.getLast?_eq_some_getLast some_, Option.getD_some]
  exact initialCpuids_pinned ((p.cpuids on).mem_iff.mp
    (List.mem_append_right _ (List.getLast_mem some_)))

/-- A task that runs after the call ran before it, or was started by it. -/
theorem runTask_cpus {spawn : Spawn} (inv : Inv cfg r) (fresh : spawn.Fresh r)
    (free : r.running.entries.length < cfg.initialCpuids.length)
    (all : ∀ e ∈ r.running.entries, e.2.cpuid ≠ -1) (h : r.runTask cfg spawn = some r') :
    ∀ e ∈ r'.running.entries, e.2.cpuid ≠ -1 := by
  obtain ⟨running, _, pipes, _⟩ := prepared_frame cfg r
  obtain ⟨inv', on⟩ := inv.prepared
  cases runTask_iff.mp h with
  | noPipe | noFork =>
    intro e here
    refine all e ?_
    rw [← running]
    exact here
  | @child fd pid uid last =>
    intro e here
    have absent : fd ∉ (r.prepared cfg).running.keys := fun known =>
      fresh.2 (pipes ▸ inv'.handles.opened fd (.inl known))
    rcases List.mem_cons.mp ((OrdMap.insert_perm _ absent).mem_iff.mp here) with rfl | old
    · exact exists_cpu inv'.pools on (running ▸ free)
    · exact all e (running ▸ old)

theorem waitAny_running {handle : Int} (h : r.waitAny handle = some r') :
    ∀ e ∈ r'.running.entries, e ∈ r.running.entries := by
  intro e here
  rcases waitAny_cases h with ⟨_, _, _, rfl⟩ | ⟨res, _, rfl⟩
  · exact here
  · have here : e ∈ r.collected.running.entries := here
    unfold Runner.State.collected at here
    split at here
    · rw [wait_running] at here
      exact List.mem_of_mem_filter here
    · exact here

end Cpus

theorem tasks_pinned (par : 1 ≤ cfg.judge.kMaxParallel) (few : cfg.judge.kMaxParallel ≤ kUidPoolSize)
    (cpus : cfg.judge.kMaxParallel ≤ cfg.runner.initialCpuids.length)
    (h : (workLoop cfg).Reach (meets cfg noSecondFailure) s) : Pinned cfg s := by
  have all : ∀ e ∈ s.runner.running.entries, e.2.cpuid ≠ -1 := by
    refine h.invariant (I := fun s => ∀ e ∈ s.runner.running.entries, e.2.cpuid ≠ -1)
      (by simp [workLoop, Runner.State.init]) fun a l b reach all cond step => ?_
    have linked := linked par few (fun _ _ h => h) reach
    have inv := Runner.inv linked.runner
    obtain ⟨enabled, done⟩ := step_iff.mp step
    cases l with
    | push | wake | block | exit => exact (alone_iff.mp done).2.1 ▸ all
    | child fd written =>
      obtain ⟨r, ended, rfl⟩ := Option.map_eq_some_iff.mp done
      exact (Runner.exit_frame ended).2.1 ▸ all
    | dispatch tid spawn files =>
      have done := dispatchTask_iff.mp done
      split_ifs at done
      · obtain ⟨_, slots, _, fresh⟩ := enabled
        have most := running_le par (fun _ _ h => h) linked
        exact runTask_cpus inv fresh (by omega) all done.1
      · exact done.2.1 ▸ all
    | result handle files =>
      exact fun e here => all e (waitAny_running (waitTask_iff.mp done).1 e here)
  have pools := (Runner.inv (linked par few (fun _ _ h => h) h).runner).pools
  have same : (s.runner.running.entries.map (·.2.cpuid)).filter (· ≠ -1) =
      s.runner.running.entries.map (·.2.cpuid) := by
    refine List.filter_eq_self.mpr fun c hc => ?_
    obtain ⟨e, he, rfl⟩ := List.mem_map.mp hc
    exact decide_eq_true (all e he)
  cases on : s.runner.poolInit with
  | false =>
    have none := (pools.idle on).1
    exact ⟨by simp [none], by simp [none]⟩
  | true =>
    have perm := pools.cpuids on
    rw [same] at perm
    refine ⟨fun e he => ?_, (List.nodup_append.mp (perm.nodup_iff.mpr (Runner.initialCpuids_nodup _))).1⟩
    have inside := perm.mem_iff.mp (List.mem_append_left _ (List.mem_map_of_mem (f := (·.2.cpuid)) he))
    obtain ⟨i, hi, cpu⟩ := List.mem_map.mp inside
    rw [List.mem_filter, List.mem_range] at hi
    exact ⟨i, cpu.symm, hi⟩

theorem tasks_pinned_two :
    ∃ s, (workLoop (sampleConfig 2)).exec (meets (sampleConfig 2) noSecondFailure) (workLoop (sampleConfig 2)).init
      twoCompiles = some s ∧ Pinned (sampleConfig 2) s := by
  obtain ⟨s, hs⟩ := Option.isSome_iff_exists.mp
    (show ((workLoop (sampleConfig 2)).exec (meets (sampleConfig 2) noSecondFailure) (workLoop (sampleConfig 2)).init
      twoCompiles).isSome = true by decide +kernel)
  exact ⟨s, hs, tasks_pinned (by decide) (by decide) (by decide) (reach_exec hs)⟩

end TiojJudge.WorkLoop
