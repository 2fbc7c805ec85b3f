import Mathlib.Data.List.Perm.Basic
import TiojJudge.Runner.Model

/-!
# The pools of user ids and CPUs

* `collect_all`, `wait_running`: what `Wait` does to all tasks that have ended;
* `Pools`: the ids of the running tasks and the pool are the initial pool.
-/

namespace TiojJudge.Runner
open scoped List

variable {cfg : Config} {s t : State}

/-! ## `Wait` -/

theorem giveCpuid_eq (pool : List Int) (cpuid : Int) :
    giveCpuid pool cpuid = pool ++ [cpuid].filter (· ≠ -1) := by
  unfold giveCpuid
  split_ifs with pinned <;> simp [pinned]

theorem collect_all (es : List (Int × Worker)) (s : State) :
    es.foldl State.collect s = { s with
      uidPool := s.uidPool ++ es.map (·.2.uid)
      cpuidPool := s.cpuidPool ++ (es.map (·.2.cpuid)).filter (· ≠ -1)
      finished := (es.map Prod.fst).foldl (fun m fd => m.insert fd (s.read fd)) s.finished } := by
  induction es generalizing s with
  | nil => simp
  | cons e es ih =>
    have same : (s.collect e).read = s.read := rfl
    rw [List.foldl_cons, ih, same]
    simp [State.collect, giveCpuid_eq, List.filter_cons]
    split <;> simp

section Fields

variable (s : State)

@[simp] theorem wait_poolInit : s.wait.poolInit = s.poolInit := by
  simp [State.wait, collect_all]

@[simp] theorem wait_pipes : s.wait.pipes = s.pipes := by
  simp [State.wait, collect_all]

@[simp] theorem wait_tasks : s.wait.tasks = s.tasks := by
  simp [State.wait, collect_all]

@[simp] theorem wait_waiting : s.wait.waiting = s.waiting := by
  simp [State.wait, collect_all]

@[simp] theorem wait_log : s.wait.log = s.log := by
  simp [State.wait, collect_all]

theorem wait_uidPool : s.wait.uidPool = s.uidPool ++ s.ready.map (·.2.uid) := by
  simp [State.wait, collect_all]

theorem wait_cpuidPool :
    s.wait.cpuidPool = s.cpuidPool ++ (s.ready.map (·.2.cpuid)).filter (· ≠ -1) := by
  simp [State.wait, collect_all]

end Fields

/-- `select` reports the descriptor. -/
def State.Selected (s : State) (fd : Int) : Prop := fd ∈ s.runningFdset ∧ s.readable fd = true

instance (s : State) : DecidablePred s.Selected := fun _ => inferInstanceAs (Decidable (_ ∧ _))

theorem ready_eq (s : State) : s.ready = s.running.entries.filter fun e => s.Selected e.1 := rfl

theorem mem_ready_keys {fd : Int} :
    fd ∈ s.ready.map Prod.fst ↔ fd ∈ s.running.keys ∧ s.Selected fd := by
  rw [ready_eq, OrdMap.mem_keys]
  simp only [List.mem_map, List.mem_filter, decide_eq_true_eq, Prod.exists, exists_and_right,
    exists_eq_right]

theorem wait_running (s : State) :
    s.wait.running.entries = s.running.entries.filter fun e => ¬ s.Selected e.1 := by
  simp only [State.wait, collect_all, OrdMap.erase_all]
  refine List.filter_congr fun e he => ?_
  have here : e.1 ∈ s.running.keys := List.mem_map_of_mem he
  simp [mem_ready_keys, here]

theorem wait_keys {fd : Int} : fd ∈ s.wait.running.keys ↔ fd ∈ s.running.keys ∧ ¬ s.Selected fd := by
  rw [OrdMap.mem_keys, OrdMap.mem_keys, wait_running]
  simp

theorem wait_fdset {fd : Int} : fd ∈ s.wait.runningFdset ↔
    fd ∈ s.runningFdset ∧ fd ∉ s.ready.map Prod.fst := by
  simp only [State.wait, collect_all]
  generalize s.ready.map Prod.fst = fds
  generalize s.runningFdset = set
  induction fds generalizing set with
  | nil => simp
  | cons k fds ih =>
    rw [List.foldl_cons, ih, Finset.mem_erase, List.mem_cons]
    tauto

theorem wait_finished (fd : Int) : s.wait.finished.lookup fd =
    if fd ∈ s.running.keys ∧ s.Selected fd then some (s.read fd) else s.finished.lookup fd := by
  simp only [State.wait, collect_all, UMap.lookup_insert_all, mem_ready_keys]

theorem wait_finished_length (s : State) :
    s.wait.finished.entries.length ≤ s.finished.entries.length + s.ready.length := by
  simp only [State.wait, collect_all]
  simpa using UMap.length_insert_all s.read (s.ready.map Prod.fst) s.finished

/-! ## The ids -/

theorem initialUids_nodup : initialUids.Nodup :=
  List.nodup_range.map fun a b (h : (a : Int) + kUidBase = b + kUidBase) => by omega

theorem initialCpuids_nodup (cfg : Config) : cfg.initialCpuids.Nodup :=
  (List.nodup_range.filter _).map Nat.cast_injective

theorem initialCpuids_pinned {cpuid : Int} (h : cpuid ∈ cfg.initialCpuids) : cpuid ≠ -1 := by
  obtain ⟨i, _, rfl⟩ := List.mem_map.mp h
  omega

/-- The ids that running tasks have, and those in the pools. -/
structure Pools (cfg : Config) (s : State) : Prop where
  idle : s.poolInit = false → s.running.entries = [] ∧ s.uidPool = [] ∧ s.cpuidPool = []
  uids : s.poolInit = true →
    (s.running.entries.map (·.2.uid) ++ s.uidPool).Perm initialUids
  cpuids : s.poolInit = true →
    ((s.running.entries.map (·.2.cpuid)).filter (· ≠ -1) ++ s.cpuidPool).Perm cfg.initialCpuids

namespace Pools

theorem init : Pools cfg .init :=
  ⟨fun _ => ⟨rfl, rfl, rfl⟩, fun no => absurd no Bool.false_ne_true,
    fun no => absurd no Bool.false_ne_true⟩

theorem same (p : Pools cfg s) (flag : t.poolInit = s.poolInit)
    (running : t.running.entries = s.running.entries) (uids : t.uidPool = s.uidPool)
    (cpuids : t.cpuidPool = s.cpuidPool) : Pools cfg t := by
  refine ⟨fun no => ?_, fun on => ?_, fun on => ?_⟩
  · rw [running, uids, cpuids]
    exact p.idle (flag ▸ no)
  · rw [running, uids]
    exact p.uids (flag ▸ on)
  · rw [running, cpuids]
    exact p.cpuids (flag ▸ on)

/-- The pools at the first `RunTask`. -/
theorem initPools (p : Pools cfg s) (no : s.poolInit = false) : Pools cfg (s.initPools cfg) := by
  obtain ⟨running, uids, cpuids⟩ := p.idle no
  refine ⟨fun no => absurd no.symm Bool.false_ne_true, fun _ => ?_, fun _ => ?_⟩
  · simp [State.initPools, running, uids]
  · simp [State.initPools, running, cpuids]

theorem length (p : Pools cfg s) (on : s.poolInit = true) :
    s.running.entries.length + s.uidPool.length = kUidPoolSize := by
  have same := (p.uids on).length_eq
  simpa [initialUids] using same

/-- An id is there for a new task. -/
theorem getLast (p : Pools cfg s) (on : s.poolInit = true)
    (free : s.running.entries.length < kUidPoolSize) : ∃ uid, s.uidPool.getLast? = some uid := by
  have length := p.length on
  cases last : s.uidPool.getLast? with
  | some uid => exact ⟨uid, rfl⟩
  | none =>
    rw [List.getLast?_eq_none_iff.mp last, List.length_nil] at length
    omega

/-- A CPU, or none when there is no more: what is taken is what is missing. -/
theorem takeCpuid (p : Pools cfg s) (on : s.poolInit = true) :
    (s.cpuidPool.dropLast ++ [s.cpuidPool.getLastD (-1)].filter (· ≠ -1)) = s.cpuidPool := by
  cases last : s.cpuidPool.getLast? with
  | none =>
    rw [List.getLast?_eq_none_iff.mp last]
    rfl
  | some cpuid =>
    have pinned : cpuid ≠ -1 := by
      refine initialCpuids_pinned ((p.cpuids on).mem_iff.mp ?_)
      exact List.mem_append_right _ (List.mem_of_getLast? last)
    rw [List.getLastD_eq_getLast?, last, Option.getD_some, List.filter_cons_of_pos (by simpa using pinned)]
    exact List.dropLast_append_getLast? cpuid last

theorem launch {fd pid uid : Int} (p : Pools cfg s) (on : s.poolInit = true)
    (absent : fd ∉ s.running.keys) (last : s.uidPool.getLast? = some uid) :
    Pools cfg ({ s with
      uidPool := s.uidPool.dropLast
      cpuidPool := s.cpuidPool.dropLast }.launch fd ⟨pid, uid, s.cpuidPool.getLastD (-1)⟩) := by
  have entries := OrdMap.insert_perm ⟨pid, uid, s.cpuidPool.getLastD (-1)⟩ absent
  refine ⟨fun no => absurd (on.symm.trans no) (by simp), fun _ => ?_, fun _ => ?_⟩
  · calc
      _ ~ (uid :: s.running.entries.map (·.2.uid)) ++ s.uidPool.dropLast := (entries.map _).append_right _
      _ ~ s.running.entries.map (·.2.uid) ++ (s.uidPool.dropLast ++ [uid]) := by
        rw [← List.append_assoc]
        exact (List.perm_append_singleton uid _).symm
      _ ~ initialUids := by
        rw [List.dropLast_append_getLast? uid last]
        exact p.uids on
  · calc
      _ ~ ((s.cpuidPool.getLastD (-1) :: s.running.entries.map (·.2.cpuid)).filter (· ≠ -1)) ++
          s.cpuidPool.dropLast := ((entries.map _).filter _).append_right _
      _ ~ (s.running.entries.map (·.2.cpuid)).filter (· ≠ -1) ++
          (s.cpuidPool.dropLast ++ [s.cpuidPool.getLastD (-1)].filter (· ≠ -1)) := by
        rw [← List.singleton_append, List.filter_append, List.append_assoc]
        exact List.perm_append_comm.trans (.of_eq (List.append_assoc _ _ _))
      _ ~ cfg.initialCpuids := by
        rw [p.takeCpuid on]
        exact p.cpuids on

/-- What is taken for a child that is not there is given back. -/
theorem noFork {uid : Int} (p : Pools cfg s) (on : s.poolInit = true)
    (last : s.uidPool.getLast? = some uid) :
    Pools cfg ({ s with
      uidPool := s.uidPool.dropLast ++ [uid]
      cpuidPool := giveCpuid s.cpuidPool.dropLast (s.cpuidPool.getLastD (-1)) }.emit .failed) := by
  refine p.same ?_ ?_ ?_ ?_
  · rfl
  · rfl
  · exact List.dropLast_append_getLast? uid last
  · exact (giveCpuid_eq _ _).trans (p.takeCpuid on)

theorem wait (p : Pools cfg s) : Pools cfg s.wait := by
  have all {β : Type} (f : Int × Worker → β) : ((s.running.entries.filter fun e => ¬ s.Selected e.1).map f ++
      s.ready.map f).Perm (s.running.entries.map f) := by
    rw [ready_eq, ← List.map_append]
    refine (List.perm_append_comm.trans ?_).map f
    simpa using List.filter_append_perm (fun e : Int × Worker => decide (s.Selected e.1)) s.running.entries
  refine ⟨fun no => ?_, fun on => ?_, fun on => ?_⟩
  · obtain ⟨running, uids, cpuids⟩ := p.idle (by simpa using no)
    have none : s.ready = [] := by simp [ready_eq, running]
    rw [wait_running, wait_uidPool, wait_cpuidPool, none, running, uids, cpuids]
    simp
  · rw [wait_running, wait_uidPool]
    refine .trans ?_ (p.uids (by simpa using on))
    calc
      _ ~ _ ++ (s.ready.map (·.2.uid) ++ s.uidPool) := List.perm_append_comm.append_left _
      _ ~ _ := by
        rw [← List.append_assoc]
        exact (all _).append_right _
  · rw [wait_running, wait_cpuidPool]
    refine .trans ?_ (p.cpuids (by simpa using on))
    calc
      _ ~ _ ++ ((s.ready.map (·.2.cpuid)).filter (· ≠ -1) ++ s.cpuidPool) :=
        List.perm_append_comm.append_left _
      _ ~ _ := by
        rw [← List.append_assoc, ← List.filter_append]
        exact ((all _).filter _).append_right _

end Pools

end TiojJudge.Runner
