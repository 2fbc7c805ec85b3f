import TiojJudge.WorkLoop.Linked

/-!
# Judging comes to an end

`finishes`: after the last push the loop and its children take a bounded number
of steps, and where none is left, every task is finalized and every result was
taken.
-/

namespace TiojJudge.WorkLoop
open Machine
open Judge (CjailResult BoxFiles orderly noSecondFailure SummariesWritable GoesOn goes_on)
open Runner (kUidPoolSize)

variable {cfg : Config} {s t : State} {l : Label}

/-- Children that have not ended. -/
def alive (s : Runner.State) : Nat := (UMap.values s.pipes).countP fun p => p.child.isNone

def Label.isPush : Label → Bool
  | .push .. => true
  | _ => false

def unpushed (cfg : Config) (s : State) (l : Label) : Prop :=
  meets cfg orderly s l ∧ l.isPush = false

instance (cfg : Config) : DecidableRel (unpushed cfg) := fun _ _ =>
  inferInstanceAs (Decidable (_ ∧ _))

/-- Only a push is possible, whatever files are there. -/
def Stuck (cfg : Config) (s : State) : Prop :=
  ∀ l t, (workLoop cfg).step s l = some t → l.isPush = true

/-! ## The children that are left -/

section Children

open Runner

variable {cfg : Runner.Config} {r r' : Runner.State}

theorem runTask_alive {spawn : Spawn} (fresh : spawn.Fresh r) (h : r.runTask cfg spawn = some r') :
    alive r' ≤ alive r + 1 := by
  obtain ⟨_, _, pipes, _⟩ := prepared_frame cfg r
  cases runTask_iff.mp h with
  | noPipe | noFork =>
    have same : alive _ = alive r := congrArg (fun m => (UMap.values m).countP _) pipes
    exact same.le.trans (Nat.le_succ _)
  | @child fd pid uid last =>
    have kept := UMap.values_erase_of_notMem fresh.2
    simp only [alive, Runner.State.launch, Runner.State.emit, pipes, UMap.values_insert, kept,
      List.countP_cons]
    simp

theorem exit_alive {fd : Int} {written : Option CjailResult} (h : r.exit fd written = some r') :
    alive r' + 1 = alive r := by
  unfold Runner.State.exit at h
  split at h
  · rename_i task here
    cases h
    have before := (UMap.values_erase here).countP_eq fun p => p.child.isNone
    simp only [alive, Runner.State.emit, UMap.values_insert, before, List.countP_cons]
    simp
  · cases h

theorem waitAny_alive {handle : Int} (h : r.waitAny handle = some r') : alive r' ≤ alive r := by
  rcases waitAny_cases h with ⟨_, _, _, rfl⟩ | ⟨res, _, rfl⟩
  · exact le_rfl
  · have same : r.collected.pipes = r.pipes := by
      unfold Runner.State.collected
      split
      · exact wait_pipes r
      · rfl
    have less := (UMap.values_erase_sublist r.pipes handle).countP_le (p := fun p => p.child.isNone)
    simp only [alive, Runner.State.close, Runner.State.give, Runner.State.emit, same]
    exact less

end Children

/-- The work that is left, with the children that are to end. -/
def State.work (s : State) : Nat := 2 * s.judge.work + alive s.runner

theorem orderly_failures (a : Judge.State) (l : Judge.Label) (h : orderly a l) :
    noSecondFailure a l := by
  cases l with
  | dispatch => exact fun failed => absurd failed h
  | _ => trivial

theorem work_lt (par : 1 ≤ cfg.judge.kMaxParallel) (linked : Linked cfg orderly s)
    (cond : unpushed cfg s l) (step : (workLoop cfg).step s l = some t) : t.work < s.work := by
  have judge := linked.judge_part step
  obtain ⟨enabled, done⟩ := step_iff.mp step
  obtain ⟨running, held, w, _⟩ := Judge.running_wired par (linked.judge.weaken orderly_failures)
  have less {l' : Judge.Label} (mine : s.judgeLabel cfg l = some l') (quiet : l'.isPush = false) :
      t.judge.work < s.judge.work := by
    have judge := judge.1 l' mine
    have fresh := running.fresh (Judge.judge_step.mp judge).1
      (orderly_failures _ _ (cond.1 l' mine))
    exact (Judge.step_cases judge).work_lt w fresh quiet
  unfold State.work
  cases l with
  | push => cases cond.2
  | wake | block | exit =>
    have less := less rfl rfl
    rw [(alone_iff.mp done).2.1]
    omega
  | child fd written =>
    obtain ⟨r, ended, rfl⟩ := Option.map_eq_some_iff.mp done
    have := exit_alive ended
    simp only
    omega
  | dispatch tid spawn files =>
    have less := less rfl rfl
    have done := dispatchTask_iff.mp done
    split_ifs at done
    · have := runTask_alive enabled.2.2.2 done.1
      omega
    · rw [done.2.1]
      omega
  | result handle files =>
    have less := less rfl rfl
    have := waitAny_alive (waitTask_iff.mp done).1
    omega

theorem run_bound (par : 1 ≤ cfg.judge.kMaxParallel) (few : cfg.judge.kMaxParallel ≤ kUidPoolSize)
    (h : (workLoop cfg).Reach (meets cfg orderly) s) {ls : List Label}
    (run : Run (workLoop cfg) (unpushed cfg) s ls t) : ls.length + t.work ≤ s.work := by
  induction run with
  | nil => simp
  | @snoc ls a l b run cond step ih =>
    have reach : (workLoop cfg).Reach (meets cfg orderly) a :=
      h.run (run.weaken fun _ _ cond => cond.1)
    have less := work_lt par (linked par few orderly_failures reach) cond step
    rw [List.length_append, List.length_singleton]
    omega

/-! ## Steps that are possible -/

/-- `pipe` has a descriptor to return. -/
theorem exists_fresh (r : Runner.State) : ∃ fd : Int, 0 ≤ fd ∧ fd ∉ r.pipes := by
  obtain ⟨fd, nonneg, unused⟩ := Judge.exists_handle r.pipes.keys
  exact ⟨fd, nonneg, fun here => unused (AList.mem_keys.mp here)⟩

/-- When every child has ended, `WaitAnyResult` returns. -/
theorem exists_returned (linked : Linked cfg orderly s) (ended : alive s.runner = 0) :
    ∃ handle r, s.runner.waitAny handle = some r := by
  by_cases pending : ∃ fd, s.runner.Pending fd
  · obtain ⟨fd, pending⟩ := pending
    have inv := Runner.inv linked.runner
    obtain ⟨⟨task, child⟩, found⟩ :=
      Option.isSome_iff_exists.mp (AList.lookup_isSome.mpr (inv.handles.opened fd pending))
    have value : ⟨task, child⟩ ∈ UMap.values s.runner.pipes :=
      (UMap.values_erase found).mem_iff.mpr List.mem_cons_self
    have gone : child.isSome = true := by
      have none := List.countP_eq_zero.mp ended _ value
      simpa [Option.isSome_iff_ne_none] using none
    have overdue : Runner.Overdue s.runner fd := ⟨pending, by simp only [Runner.State.readable, found, gone]⟩
    obtain ⟨handle, r, step⟩ := (Runner.tasks_accounted linked.runner).ready fd overdue
    exact ⟨handle, r, (Runner.step_iff.mp step).2⟩
  · have none : s.runner.running.entries = [] ∧ s.runner.finished.entries = [] := by
      simp only [not_exists, Runner.State.Pending, not_or] at pending
      refine ⟨List.eq_nil_iff_forall_not_mem.mpr fun e he => (pending e.1).1 (List.mem_map_of_mem he),
        List.eq_nil_iff_forall_not_mem.mpr fun e he => (pending e.1).2 (List.mem_map_of_mem he)⟩
    refine ⟨-1, s.runner.emit (.returned (-1) .zero), ?_⟩
    simp only [Runner.State.waitAny, none, and_self, if_true]

theorem dispatch_possible (par : 1 ≤ cfg.judge.kMaxParallel) (few : cfg.judge.kMaxParallel ≤ kUidPoolSize)
    (linked : Linked cfg orderly s) (writable : SummariesWritable s.judge)
    (working : s.judge.phase = .working) (slots : s.judge.taskRunning < cfg.judge.kMaxParallel)
    {tid : Nat} (top : s.judge.IsTop tid) :
    ∃ spawn t, (workLoop cfg).step s (.dispatch tid spawn .empty) = some t := by
  obtain ⟨fd, nonneg, unused⟩ := exists_fresh s.runner
  refine ⟨.child fd 0, ?_⟩
  have most := running_le par orderly_failures linked
  have free : Runner.plainCalls s.runner (.run (.child fd 0)) := by
    simp only [Runner.plainCalls]
    omega
  obtain ⟨r, ran⟩ := (Runner.tasks_accounted linked.runner).safe (.child fd 0) free ⟨nonneg, unused⟩
  have ran : s.runner.runTask cfg.runner (.child fd 0) = some r := (Runner.step_iff.mp ran).2
  obtain ⟨_, refined⟩ := Judge.refined (Judge.orderly_freshId linked.judge)
  have ok (handle : Int) : ∃ j, s.judge.dispatchTask cfg.judge tid handle .empty = .ok j :=
    (Judge.dispatch_ok refined (Judge.orderly_groups linked.judge) writable top.1).mpr
      (Judge.found_empty s.judge tid handle)
  simp only [step_iff, Enabled, perform, dispatchTask_iff]
  by_cases launch : launches cfg.judge s.judge tid .empty = true
  · obtain ⟨j, done⟩ := ok fd
    refine ⟨⟨j, r, s.children ++ [tid]⟩, ⟨working, slots, top, nonneg, unused⟩, ?_⟩
    rw [if_pos launch]
    exact ⟨ran, done, rfl⟩
  · obtain ⟨j, done⟩ := ok (unusedHandle s.judge.running)
    refine ⟨⟨j, s.runner, s.children⟩, ⟨working, slots, top, nonneg, unused⟩, ?_⟩
    rw [if_neg launch]
    exact ⟨done, rfl, rfl⟩

/-- A call of the loop that has come to an end returns. -/
theorem result_possible (par : 1 ≤ cfg.judge.kMaxParallel) (linked : Linked cfg orderly s)
    (writable : SummariesWritable s.judge) (blocked : s.judge.phase = .blocked)
    (ended : alive s.runner = 0) :
    ∃ handle t, (workLoop cfg).step s (.result handle .empty) = some t := by
  obtain ⟨handle, r, waited⟩ := exists_returned linked ended
  have returns : s.judge.CanReturn handle ⟨returned r, .empty⟩ := by
    obtain ⟨_, _, ⟨rfl, zero, none, _⟩ | ⟨here, _⟩⟩ := waitAny_effect (Runner.inv linked.runner) waited
    · exact .inr ⟨List.eq_nil_iff_forall_not_mem.mpr fun k hk => none k ((linked.handles k).mp hk),
        rfl, zero⟩
    · exact .inl ((linked.handles handle).mpr here)
  obtain ⟨j, step⟩ := (Judge.goes_on par linked.judge writable (.result handle ⟨returned r, .empty⟩)
    ⟨blocked, returns⟩ rfl).mpr trivial
  refine ⟨handle, ⟨j, r, s.children⟩, step_iff.mpr ⟨blocked, waitTask_iff.mpr ⟨waited, ?_, rfl⟩⟩⟩
  exact (Judge.judge_step.mp step).2

/-- Nothing is left: no task, and no result that was not taken. -/
structure Finished (s : State) : Prop where
  tasks : s.judge.graph.nodes = []
  handles : ∀ fd, ¬ s.runner.Pending fd

theorem stuck_alive (stuck : Stuck cfg s) : alive s.runner = 0 := by
  by_contra some_
  obtain ⟨p, hp, runs⟩ := List.countP_pos_iff.mp (Nat.pos_of_ne_zero some_)
  obtain ⟨e, he, rfl⟩ := List.mem_map.mp hp
  obtain ⟨fd, task, child⟩ := e
  obtain rfl : child = none := Option.isNone_iff_eq_none.mp runs
  have found : s.runner.pipes.lookup fd = some ⟨task, none⟩ := AList.mem_lookup_iff.mpr he
  obtain ⟨r, ended⟩ : ∃ r, s.runner.exit fd none = some r := by
    simp only [Runner.State.exit, found]
    exact ⟨_, rfl⟩
  have step : (workLoop cfg).step s (.child fd none) = some { s with runner := r } :=
    step_iff.mpr ⟨trivial, Option.map_eq_some_iff.mpr ⟨r, ended, rfl⟩⟩
  cases stuck _ _ step

theorem stuck_finished (par : 1 ≤ cfg.judge.kMaxParallel) (few : cfg.judge.kMaxParallel ≤ kUidPoolSize)
    (linked : Linked cfg orderly s) (writable : SummariesWritable s.judge) (stuck : Stuck cfg s) :
    Finished s := by
  have running := (Judge.running_wired par (linked.judge.weaken orderly_failures)).1
  have ended := stuck_alive stuck
  have alone {l : Label} {l' : Judge.Label} (quiet : l.isPush = false) (quiet' : l'.isPush = false)
      (enabled : Judge.Enabled cfg.judge s.judge l') (found : Judge.FilesFound s.judge l')
      (same : Enabled cfg s l) (mine : perform cfg s l = s.alone cfg l') : False := by
    obtain ⟨j, step⟩ := (Judge.goes_on par linked.judge writable l' enabled quiet').mpr found
    have done : s.alone cfg l' = some { s with judge := j } :=
      alone_iff.mpr ⟨(Judge.judge_step.mp step).2, rfl, rfl⟩
    have no := stuck l _ (step_iff.mpr ⟨same, mine.trans done⟩)
    rw [quiet] at no
    cases no
  have idle (zero : s.judge.taskRunning = 0) (nodes : s.judge.graph.nodes = []) : Finished s := by
    refine ⟨nodes, fun fd pending => ?_⟩
    have here := (linked.handles fd).mpr pending
    have known := (running.keys fd fun same => running.real (same ▸ here)).mpr here
    have count := running.count
    rw [zero] at count
    have none : UMap.values s.judge.handleMap = [] := List.length_eq_zero_iff.mp (by omega)
    obtain ⟨tid, found⟩ := Option.isSome_iff_exists.mp (AList.lookup_isSome.mpr known)
    have value := (UMap.values_erase found).mem_iff.mpr List.mem_cons_self
    rw [none] at value
    cases value
  cases phase : s.judge.phase with
  | waiting =>
    have zero := running.idle (.inl phase)
    refine idle zero (Judge.nodes_nil par linked.judge ?_ zero)
    by_contra queued
    have enabled : Judge.Enabled cfg.judge s.judge .wake := ⟨phase, queued⟩
    exact @alone .wake _ rfl rfl enabled trivial enabled rfl
  | returned => exact idle (running.idle (.inr phase)) (Judge.returned_nil par linked.judge phase)
  | blocked =>
    obtain ⟨handle, t, step⟩ := result_possible par linked writable phase ended
    cases stuck _ _ step
  | working =>
    obtain ⟨l', quiet, enabled, found⟩ : ∃ l' : Judge.Label, l'.isPush = false ∧
        Judge.Enabled cfg.judge s.judge l' ∧ Judge.FilesFound s.judge l' :=
      Judge.exists_enabled (.inl phase)
    cases l' with
    | push => cases quiet
    | wake => exact (@alone .wake _ rfl rfl enabled found enabled rfl).elim
    | block => exact (@alone .block _ rfl rfl enabled found enabled rfl).elim
    | exit => exact (@alone .exit _ rfl rfl enabled found enabled rfl).elim
    | dispatch tid handle files =>
      obtain ⟨_, slots, top, _⟩ := enabled
      obtain ⟨spawn, t, step⟩ := dispatch_possible par few linked writable phase slots top
      cases stuck _ _ step
    | result handle o =>
      rw [enabled.1] at phase
      cases phase

theorem stuck_of_returned (returned : s.judge.phase = .returned) (none : s.runner.pipes = ∅) :
    Stuck cfg s := by
  intro l t step
  obtain ⟨enabled, done⟩ := step_iff.mp step
  cases l with
  | push => rfl
  | child fd written =>
    obtain ⟨r, ended, _⟩ := Option.map_eq_some_iff.mp done
    have absent : s.runner.pipes.lookup fd = .none := by
      rw [none]
      rfl
    simp [Runner.State.exit, absent] at ended
  | result =>
    rw [show s.judge.phase = .blocked from enabled] at returned
    cases returned
  | wake | dispatch | block | exit =>
    rw [enabled.1] at returned
    cases returned

/-- A task runs in a child, which writes its result. -/
def runAlone (tid : Nat) : List Label :=
  [.dispatch tid (.child 3 (100 + tid)) .empty, .block, .child 3 (some (Judge.exited 0)),
    .result 3 Judge.goodOutcome.files]

/-- Everything that a small submission has to do, up to the end of the loop. -/
def judgedAlone : List Label :=
  [.push (Judge.sampleSubmission 1 1 [Judge.sampleItem false [0]]) 0, .wake] ++ runAlone 3 ++
    runAlone 1 ++ runAlone 2 ++ [.dispatch 0 (.child 3 100) .empty, .exit]

end TiojJudge.WorkLoop
