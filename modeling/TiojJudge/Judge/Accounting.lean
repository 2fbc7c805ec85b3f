import TiojJudge.Judge.GraphInvariant

/-!
# Every task is finalized once

* `Accounted`: the tasks that left the graph are those that were finalized,
  each once, and a task that was dispatched and is still in the graph is held;
* `Running`: `handle_map`, the running tasks and `task_running` agree, as long
  as no `RunTask` fails while an earlier failure is still in `handle_map`;
* `handles_sound`: then every dispatched task is finalized once and `WaitTask`
  finds every handle.
-/

namespace TiojJudge.Judge
open TaskGraph Machine

variable {cfg : Config} {s t : State} {held : List Nat}

/-- The tasks with an id that left the graph were finalized once, the others never. -/
def Accounted (s : State) : Prop :=
  ∀ tid, finalizations tid s.log = if tid < s.taskCount ∧ tid ∉ s.ids then 1 else 0

/-- A step finalizes no task, enqueues new ones, or finalizes one that is in the graph. -/
theorem step_accounts {l : Label} (h : Step cfg s l t) :
    (t.taskCount = s.taskCount ∧ t.ids = s.ids ∧
      ∀ tid, finalizations tid t.log = finalizations tid s.log) ∨
    (∃ id submissionId, ∃ sub : Submission,
      t = (s.enqueue id sub.clamp).supersede submissionId id) ∨
    ∃ n ∈ s.graph.nodes, t.taskCount = s.taskCount ∧ (∀ tid, tid ∈ t.ids ↔ tid ∈ s.ids ∧ tid ≠ n.id) ∧
      ∀ tid, finalizations tid t.log = finalizations tid s.log + if tid = n.id then 1 else 0 := by
  cases h with
  | refused | wake | block | exit => exact .inl ⟨rfl, rfl, fun _ => rfl⟩
  | push => exact .inr (.inl ⟨_, _, _, rfl⟩)
  | launch _ _ _ ready =>
    refine .inl ⟨rfl, rfl, fun tid => ?_⟩
    have reports := (setup_reports rfl ready).2.finalizations tid
    simp [reports]
  | @skip n _ _ _ _ _ _ found _ ready done =>
    refine .inr (.inr ⟨n, (Graph.find_mem found).1, settle_taskCount _ _ _ _,
      fun tid => ?_, fun tid => ?_⟩)
    · simp only [State.ids, settle_graph, start_graph]
      exact mem_remove_ids
    · have before := (setup_reports rfl ready).2.finalizations tid
      have after := (finalize_reports rfl done).2.finalizations tid
      simp [before, after]
  | @result n _ _ _ _ _ _ found _ done =>
    refine .inr (.inr ⟨n, (Graph.find_mem found).1, settle_taskCount _ _ _ _,
      fun tid => ?_, fun tid => ?_⟩)
    · simp only [State.ids, resume_graph, settle_graph, returned_graph]
      exact mem_remove_ids
    · have after := (finalize_reports rfl done).2.finalizations tid
      simp [after]

theorem Accounted.init : Accounted .init := fun tid => by
  simp [State.init, finalizations]

theorem Accounted.step {l : Label} (a : Accounted s) (w : Wired s held) (h : Step cfg s l t) :
    Accounted t := by
  intro tid
  have before := a tid
  have below := w.below tid
  rcases step_accounts h with ⟨count, ids, same⟩ | ⟨id, submissionId, sub, rfl⟩ | ⟨n, hn, count, ids, more⟩
  · rw [same, count, ids, before]
  · simp only [supersede_log, enqueue_log, finalizations_append, finalizations_enqueued,
      finalizations_superseded, finalizations_nil, supersede_taskCount, enqueue_taskCount,
      mem_enqueue_ids, before]
    by_cases here : tid ∈ s.ids
    · simp [here]
    · simp only [here, not_false_eq_true, and_true, false_or, Nat.add_zero]
      split <;> split <;> omega
  · have here : n.id < s.taskCount ∧ n.id ∈ s.ids :=
      ⟨w.below _ (List.mem_map_of_mem hn), List.mem_map_of_mem hn⟩
    simp only [more, before, count, ids]
    by_cases same : tid = n.id
    · subst same
      simp [here]
    · simp [same]

/-! ## Handles -/

/-- No `RunTask` fails while the handle of an earlier failure is in `handle_map`. -/
def noSecondFailure (s : State) : Label → Prop
  | .dispatch _ handle _ => handle = -1 → (-1 : Int) ∉ s.handleMap
  | _ => True

instance (s : State) : DecidablePred (noSecondFailure s)
  | .push .. | .wake | .dispatch .. | .block | .result .. | .exit => by
    unfold noSecondFailure
    infer_instance

/-- `handle_map` has the running tasks and at most one that failed to start. -/
structure Running (s : State) : Prop where
  keys : ∀ handle : Int, handle ≠ -1 → (handle ∈ s.handleMap ↔ handle ∈ s.running)
  real : -1 ∉ s.running
  nodup : s.running.Nodup
  count : s.taskRunning = (UMap.values s.handleMap).length
  idle : s.phase = .waiting ∨ s.phase = .returned → s.taskRunning = 0
  busy : s.phase = .blocked → s.taskRunning ≠ 0

theorem Running.init : Running .init where
  keys := fun _ _ => by simp [State.init]
  real := List.not_mem_nil
  nodup := .nil
  count := rfl
  idle := fun _ => rfl
  busy := fun h => by cases h

theorem Running.fresh {l : Label} (r : Running s) (enabled : Enabled cfg s l)
    (cond : noSecondFailure s l) : freshHandle s l := by
  cases l with
  | dispatch tid handle files =>
    rcases enabled.2.2.2 with failed | ⟨positive, unused⟩
    · exact failed ▸ cond failed
    · exact fun known => unused ((r.keys handle (by omega)).mp known)
  | _ => trivial

theorem Running.launch {n : Node TaskInfo} {c : Ctx} {handle : Int} (r : Running s)
    (working : s.phase = .working) (fresh : handle ∉ s.handleMap)
    (real : handle = -1 ∨ 0 ≤ handle ∧ handle ∉ s.running) :
    Running ((s.start n c).launch n.id n.data handle) where
  keys := by
    intro j hj
    have known := r.keys j hj
    simp only [State.launch, State.emit, State.start, State.putCtx, AList.mem_insert]
    split
    · rename_i failed
      simp [failed, hj, known]
    · simp [known]
  real := by
    have := r.real
    simp only [State.launch, State.emit, State.start, State.putCtx]
    split
    · exact this
    · rename_i started
      simp [this, Ne.symm started]
  nodup := by
    simp only [State.launch, State.emit, State.start, State.putCtx]
    split
    · exact r.nodup
    · rename_i started
      exact List.nodup_cons.mpr ⟨(real.resolve_left started).2, r.nodup⟩
  count := by
    have kept := UMap.values_erase_of_notMem fresh
    simp only [State.launch, State.emit, State.start, State.putCtx, UMap.values_insert, kept,
      List.length_cons, r.count]
    push_cast
    rfl
  idle := by
    have : ((s.start n c).launch n.id n.data handle).phase = .working := working
    simp [this]
  busy := by
    have : ((s.start n c).launch n.id n.data handle).phase = .working := working
    simp [this]

theorem Running.result {n : Node TaskInfo} {c : Ctx} {handle : Int} {o : TaskOutcome}
    (r : Running s) (found : s.handleMap.lookup handle = some n.id) :
    Running ((s.returned handle).settle n (some o) c).resume where
  keys := by
    intro j hj
    have known := r.keys j hj
    simp only [State.resume, settle_handleMap, settle_running, State.returned, AList.mem_erase,
      known]
    rw [r.nodup.mem_erase_iff]
  real := by
    simp only [State.resume, settle_running, State.returned]
    exact fun h => r.real (List.mem_of_mem_erase h)
  nodup := by
    simp only [State.resume, settle_running, State.returned]
    exact r.nodup.erase _
  count := by
    have shorter := (UMap.values_erase found).length_eq
    simp only [State.resume, settle_taskRunning, settle_handleMap, State.returned, r.count, shorter,
      List.length_cons]
    push_cast
    omega
  idle := by simp [State.resume]
  busy := by simp [State.resume]

theorem Running.step {l : Label} (par : 1 ≤ cfg.kMaxParallel) (r : Running s)
    (fresh : freshHandle s l) (h : Step cfg s l t) : Running t := by
  cases h with
  | refused => exact r
  | push => exact ⟨r.keys, r.real, r.nodup, r.count, r.idle, r.busy⟩
  | wake waiting =>
    have zero := r.idle (.inl waiting)
    exact ⟨r.keys, r.real, r.nodup, zero ▸ r.count, fun h => by simp at h, fun h => by simp at h⟩
  | launch enabled => exact r.launch enabled.1 fresh enabled.2.2.2
  | skip =>
    exact ⟨by simpa using r.keys, by simpa using r.real, by simpa using r.nodup,
      by simpa using r.count, by simpa using r.idle, by simpa using r.busy⟩
  | block enabled =>
    refine ⟨r.keys, r.real, r.nodup, r.count, fun h => by simp at h, fun _ zero => ?_⟩
    obtain ⟨_, busy, full⟩ := enabled
    have zero : s.taskRunning = 0 := zero
    have queued := busy.resolve_left (not_not.mpr zero)
    exact full ⟨by omega, queued⟩
  | result _ handled => exact r.result handled
  | exit enabled =>
    refine ⟨r.keys, r.real, r.nodup, r.count, fun _ => enabled.2.1, fun h => ?_⟩
    simp only at h
    split at h <;> cases h

/-- Every dispatched task is finalized once, if it is not in `handle_map` still;
`WaitTask` finds every handle that `WaitAnyResult` can return; nothing is left
when the loop has nothing to do. -/
structure HandlesSound (s : State) : Prop where
  once : ∀ tid, Dispatched tid s.log →
    finalizations tid s.log = if tid ∈ UMap.values s.handleMap then 0 else 1
  lookup : s.phase = .blocked → ∀ handle o, s.CanReturn handle o →
    (s.handleMap.lookup handle).isSome = true
  idle : s.phase = .waiting ∨ s.phase = .returned → UMap.values s.handleMap = []

theorem accounted {P : State → Label → Prop} (h : (judge cfg).Reach P s) :
    Accounted s := by
  refine h.invariant .init fun a l b reach acc _ hs => ?_
  obtain ⟨held, w⟩ := wired reach
  exact acc.step w (step_cases hs)

/-- With at most one failure at a time, `handle_map` has the tasks that are held. -/
theorem running_wired (par : 1 ≤ cfg.kMaxParallel) (h : (judge cfg).Reach noSecondFailure s) :
    Running s ∧ ∃ held, Wired s held ∧ (UMap.values s.handleMap).Perm held := by
  refine h.invariant (I := fun s => Running s ∧
    ∃ held, Wired s held ∧ (UMap.values s.handleMap).Perm held)
    ⟨.init, [], .init, .refl _⟩ fun a l b _ ⟨r, held, w, p⟩ cond hs => ?_
  have fresh := r.fresh (judge_step.mp hs).1 cond
  obtain ⟨held', w', p'⟩ := w.step (step_cases hs)
  exact ⟨r.step par fresh (step_cases hs), held', w', p' fresh p⟩

theorem handles_sound (par : 1 ≤ cfg.kMaxParallel) (h : (judge cfg).Reach noSecondFailure s) :
    HandlesSound s := by
  obtain ⟨r, held, w, p⟩ := running_wired par h
  refine ⟨fun tid dispatched => ?_, fun blocked handle o returns => ?_, fun idle => ?_⟩
  · obtain ⟨old, here⟩ := w.dispatched tid dispatched
    have same : tid ∈ UMap.values s.handleMap ↔ tid ∈ s.ids := by
      rw [p.mem_iff]
      refine ⟨fun hh => ?_, here⟩
      obtain ⟨n, hn, rfl⟩ := w.inv.known tid (.inr hh)
      exact List.mem_map_of_mem hn
    rw [accounted h tid]
    simp only [old, same, true_and, ite_not]
  · have some_ : UMap.values s.handleMap ≠ [] := by
      have busy := r.busy blocked
      have count := r.count
      intro none
      simp [none] at count
      exact busy count
    rw [AList.lookup_isSome]
    rcases returns with running | ⟨none, rfl, _⟩
    · exact (r.keys handle (fun h => r.real (h ▸ running))).mpr running
    · obtain ⟨entry, hentry⟩ := List.exists_mem_of_ne_nil s.handleMap.entries
        (fun h => some_ (by simp [UMap.values, h]))
      have key : entry.1 ∈ s.handleMap := List.mem_map_of_mem hentry
      by_contra absent
      have running := (r.keys entry.1 (fun h => absent (h ▸ key))).mp key
      simp [none] at running
  · have count := r.count
    rw [r.idle idle] at count
    exact List.length_eq_zero_iff.mp (by omega)

/-- What `WaitAnyResult` returns when nothing runs. -/
def nothingRan : TaskOutcome := ⟨.zero, .empty⟩

/-- One `RunTask` fails, and its task is finalized with an empty result. -/
theorem handles_sound_after_failure :
    ∃ s, (judge (sampleConfig 2)).exec noSecondFailure .init
        [.push (sampleSubmission 1 1 [sampleItem false [0]]) 0, .wake,
          .dispatch 3 (-1) .empty, .block, .result (-1) nothingRan] = some s ∧ HandlesSound s := by
  obtain ⟨s, hs⟩ := Option.isSome_iff_exists.mp
    (show ((judge (sampleConfig 2)).exec noSecondFailure .init
        [.push (sampleSubmission 1 1 [sampleItem false [0]]) 0, .wake,
          .dispatch 3 (-1) .empty, .block, .result (-1) nothingRan]).isSome = true by decide +kernel)
  exact ⟨s, hs, handles_sound (by decide) (reach_exec hs)⟩

/-- The compile tasks of the program and of the checker both fail to start. -/
def twoFailures : List Label :=
  [.push { sampleSubmission 1 1 [sampleItem false [0]] with specjudgeType := .specjudgeOld } 0, .wake,
    .dispatch 3 (-1) .empty, .dispatch 4 (-1) .empty, .block, .result (-1) nothingRan, .block]

/-- The second one takes the first one's place in `handle_map`: task 3 is never
finalized, and `WaitTask` dereferences `end()`. -/
theorem handles_unsound_after_two_failures :
    ∃ s, (judge (sampleConfig 2)).exec anyStep .init twoFailures = some s ∧ ¬ HandlesSound s ∧
      Dispatched 3 s.log ∧ finalizations 3 s.log = 0 ∧ s.CanReturn (-1) nothingRan ∧
      s.handleMap.lookup (-1) = none := by
  have run : ((judge (sampleConfig 2)).exec anyStep .init twoFailures).map (fun s =>
      (s.phase, s.running, s.handleMap.lookup (-1), finalizations 3 s.log,
        s.log.any fun e => match e with | .dispatching 3 .. => true | _ => false)) =
      some (.blocked, [], none, 0, true) := by decide +kernel
  obtain ⟨s, hs, seen⟩ := Option.map_eq_some_iff.mp run
  obtain ⟨blocked, idle, absent, never, dispatched⟩ := by simpa only [Prod.mk.injEq] using seen
  have returns : s.CanReturn (-1) nothingRan := .inr ⟨idle, rfl, rfl⟩
  refine ⟨s, hs, fun sound => ?_, ?_, never, returns, absent⟩
  · have found := sound.lookup blocked _ _ returns
    simp [absent] at found
  · obtain ⟨e, he, is⟩ := List.any_eq_true.mp dispatched
    split at is
    · exact ⟨_, _, he⟩
    · cases is

end TiojJudge.Judge
