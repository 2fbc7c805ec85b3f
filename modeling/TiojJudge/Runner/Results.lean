import TiojJudge.Runner.Handles

/-!
# Every task returns once

* `Inv`: the pools and the handles, in every run;
* `returns_eq`: the calls that gave a handle out, and those that returned it;
* `overdue_run`: the result of a task that has ended is returned after at most
  `2 * kUidPoolSize` calls of `WaitAnyResult`;
* `tasks_accounted`: all this for runs of `RunTask` and `WaitAnyResult()`.
-/

namespace TiojJudge.Runner
open Machine
open Judge (CjailResult)

variable {cfg : Config} {s t : State} {fd : Int}

/-! ## The invariant -/

structure Inv (cfg : Config) (s : State) : Prop where
  pools : Pools cfg s
  handles : Handles s

/-- The pools that `RunTask` takes from. -/
theorem Inv.initPools (inv : Inv cfg s) (no : s.poolInit = false) : Inv cfg (s.initPools cfg) := by
  have none : s.running.keys = [] := by
    rw [OrdMap.keys, (inv.pools.idle no).1, List.map_nil]
  have h := inv.handles
  refine ⟨inv.pools.initPools no, h.held, fun k => ?_, h.apart, h.opened, h.result, h.ended, h.alive,
    h.distinct, h.below, h.known, h.nonneg, h.timely⟩
  simp [State.initPools, none]

/-- What `RunTask` does once the pools are there. -/
inductive Spawned (s : State) : Spawn → State → Prop where
  | noPipe : Spawned s .noPipe (s.emit .failed)
  | noFork {k uid} : s.uidPool.getLast? = some uid → Spawned s (.noFork k) ({ s with
      uidPool := s.uidPool.dropLast ++ [uid]
      cpuidPool := giveCpuid s.cpuidPool.dropLast (s.cpuidPool.getLastD (-1)) }.emit .failed)
  | child {k pid uid} : s.uidPool.getLast? = some uid → Spawned s (.child k pid) ({ s with
      uidPool := s.uidPool.dropLast
      cpuidPool := s.cpuidPool.dropLast }.launch k ⟨pid, uid, s.cpuidPool.getLastD (-1)⟩)

def State.prepared (cfg : Config) (s : State) : State := if s.poolInit then s else s.initPools cfg

theorem runTask_iff {spawn : Spawn} :
    s.runTask cfg spawn = some t ↔ Spawned (s.prepared cfg) spawn t := by
  unfold State.runTask
  rw [← State.prepared]
  cases spawn with
  | noPipe =>
    constructor
    · rintro ⟨⟩
      exact .noPipe
    · rintro ⟨⟩
      rfl
  | noFork | child =>
    simp only [Option.map_eq_some_iff]
    constructor
    · rintro ⟨uid, last, rfl⟩
      constructor
      exact last
    · rintro ⟨⟩
      exact ⟨_, by assumption, rfl⟩

theorem Inv.prepared (inv : Inv cfg s) : Inv cfg (s.prepared cfg) ∧ (s.prepared cfg).poolInit = true := by
  unfold State.prepared
  split
  · rename_i on
    exact ⟨inv, on⟩
  · rename_i no
    exact ⟨inv.initPools (by simpa using no), rfl⟩

theorem prepared_frame (cfg : Config) (s : State) : (s.prepared cfg).running = s.running ∧
    (s.prepared cfg).finished = s.finished ∧ (s.prepared cfg).pipes = s.pipes ∧
    (s.prepared cfg).waiting = s.waiting ∧ (s.prepared cfg).log = s.log := by
  unfold State.prepared
  split <;> exact ⟨rfl, rfl, rfl, rfl, rfl⟩

theorem Inv.run {spawn : Spawn} (inv : Inv cfg s) (fresh : spawn.Fresh s)
    (h : s.runTask cfg spawn = some t) : Inv cfg t := by
  obtain ⟨inv', on⟩ := inv.prepared
  obtain ⟨running, _, pipes, _⟩ := prepared_frame cfg s
  have spawned := runTask_iff.mp h
  cases spawned with
  | noPipe => exact ⟨inv'.pools.same rfl rfl rfl rfl, inv'.handles.failed⟩
  | noFork last =>
    refine ⟨inv'.pools.noFork on last, Handles.failed ?_⟩
    exact inv'.handles.same rfl rfl rfl rfl rfl rfl
  | child last =>
    obtain ⟨nonneg, fresh⟩ := fresh
    rw [← pipes] at fresh
    refine ⟨inv'.pools.launch on (fun here => ?_) last, Handles.launch ?_ _ fresh nonneg⟩
    · exact fresh (inv'.handles.opened _ (.inl here))
    · exact inv'.handles.same rfl rfl rfl rfl rfl rfl

theorem exit_frame {written : Option CjailResult} (h : s.exit fd written = some t) :
    t.poolInit = s.poolInit ∧ t.running = s.running ∧ t.uidPool = s.uidPool ∧
      t.cpuidPool = s.cpuidPool ∧ t.finished = s.finished ∧ t.waiting = s.waiting ∧
      ∃ task, t.log = s.log ++ [.ended task written] := by
  unfold State.exit at h
  split at h
  · cases h
    exact ⟨rfl, rfl, rfl, rfl, rfl, rfl, _, rfl⟩
  · cases h

theorem Inv.exit {written : Option CjailResult} (inv : Inv cfg s) (h : s.exit fd written = some t) :
    Inv cfg t := by
  obtain ⟨flag, running, uids, cpuids, _⟩ := exit_frame h
  exact ⟨inv.pools.same flag (congrArg _ running) uids cpuids, inv.handles.exit h⟩

theorem Inv.wait (inv : Inv cfg s) : Inv cfg s.wait := ⟨inv.pools.wait, inv.handles.wait⟩

theorem Inv.give {res : CjailResult} (inv : Inv cfg s) (found : s.finished.lookup fd = some res) :
    Inv cfg (s.give fd res) :=
  ⟨inv.pools.same rfl rfl rfl rfl, inv.handles.give found⟩

theorem Inv.giveClose {res : CjailResult} (inv : Inv cfg s) (found : s.finished.lookup fd = some res) :
    Inv cfg ((s.give fd res).close fd) := by
  refine ⟨inv.pools.same rfl rfl rfl rfl, (inv.handles.give found).close ?_⟩
  have here : fd ∈ s.finished := AList.lookup_isSome.mp (Option.isSome_of_eq_some found)
  rintro (running | no)
  · exact inv.handles.apart fd running here
  · exact (AList.mem_erase.mp no).1 rfl

/-- `finished` is not empty, or what was waited for is put there. -/
def State.collected (s : State) : State := if s.finished.entries = [] then s.wait else s

theorem Inv.collected (inv : Inv cfg s) : Inv cfg s.collected := by
  unfold State.collected
  split
  · exact inv.wait
  · exact inv

theorem waitAny_cases {handle : Int} (h : s.waitAny handle = some t) :
    (s.running.entries = [] ∧ s.finished.entries = [] ∧ handle = -1 ∧
      t = s.emit (.returned (-1) .zero)) ∨
    ∃ res, s.collected.finished.lookup handle = some res ∧
      t = (s.collected.give handle res).close handle := by
  unfold State.waitAny at h
  split at h
  · rename_i nothing
    split at h
    · rename_i same
      cases h
      exact .inl ⟨nothing.1, nothing.2, same, rfl⟩
    · cases h
  · obtain ⟨res, found, rfl⟩ := Option.map_eq_some_iff.mp h
    exact .inr ⟨res, found, rfl⟩

theorem firstFinished_lookup {handles : List Int} {res : CjailResult}
    (h : s.firstFinished handles = some (fd, res)) : s.finished.lookup fd = some res := by
  obtain ⟨k, _, found⟩ := List.exists_of_findSome?_eq_some h
  obtain ⟨_, here, same⟩ := Option.map_eq_some_iff.mp found
  cases same
  exact here

theorem Inv.waitAny {handle : Int} (inv : Inv cfg s) (h : s.waitAny handle = some t) : Inv cfg t := by
  rcases waitAny_cases h with ⟨_, _, _, rfl⟩ | ⟨res, found, rfl⟩
  · exact ⟨inv.pools.same rfl rfl rfl rfl, inv.handles.nothing⟩
  · exact inv.collected.giveClose found

theorem Inv.waitList (inv : Inv cfg s) (handles : List Int) : Inv cfg (s.waitList handles) := by
  unfold State.waitList
  split
  · rename_i first
    exact inv.give (firstFinished_lookup first)
  · split
    · exact ⟨inv.pools.same rfl rfl rfl rfl, inv.handles.same rfl rfl rfl rfl rfl rfl⟩
    · exact ⟨inv.pools.same rfl rfl rfl rfl, inv.handles.nothing⟩

theorem Inv.round {handles : List Int} (inv : Inv cfg s) (h : s.round handles = some t) : Inv cfg t := by
  unfold State.round at h
  split at h
  · cases h
  · dsimp only at h
    split at h
    · rename_i first
      cases h
      have given := inv.wait.giveClose (firstFinished_lookup first)
      exact ⟨given.pools.same rfl rfl rfl rfl, given.handles.same rfl rfl rfl rfl rfl rfl⟩
    · cases h
      exact inv.wait

theorem step_iff {l : Label} :
    (runner cfg).step s l = some t ↔ Enabled s l ∧ perform cfg s l = some t := by
  simp [runner]

theorem Inv.step {l : Label} (inv : Inv cfg s) (h : (runner cfg).step s l = some t) : Inv cfg t := by
  obtain ⟨enabled, h⟩ := step_iff.mp h
  cases l with
  | run spawn => exact inv.run enabled.2 h
  | exit fd written => exact inv.exit h
  | waitAny handle => exact inv.waitAny h
  | waitList handles =>
    cases h
    exact inv.waitList handles
  | round =>
    obtain ⟨handles, _, h⟩ := Option.bind_eq_some_iff.mp h
    exact inv.round h

theorem inv {P : State → Label → Prop} (h : (runner cfg).Reach P s) : Inv cfg s :=
  h.invariant ⟨.init, .init⟩ fun _ _ _ _ inv _ step => inv.step step

/-! ## Given out and returned -/

def Event.starts (fd : Int) : Event → Bool
  | .started _ handle => handle == fd
  | _ => false

def Event.returns (fd : Int) : Event → Bool
  | .returned handle _ => handle == fd
  | _ => false

/-- How often `RunTask` gave the handle out. -/
def starts (fd : Int) (log : List Event) : Nat := log.countP (Event.starts fd)

/-- How often `WaitAnyResult` returned it. -/
def returns (fd : Int) (log : List Event) : Nat := log.countP (Event.returns fd)

theorem returns_append (log new : List Event) :
    returns fd (log ++ new) = returns fd log + returns fd new :=
  List.countP_append

theorem starts_eq {log : List Event} (timely : Timely Proper log) (nonneg : 0 ≤ fd) :
    starts fd log = returns fd log + if fd ∈ held log then 1 else 0 := by
  induction log using List.reverseRecOn with
  | nil => simp [starts, returns, held]
  | append_singleton log e ih =>
    obtain ⟨timely, proper⟩ := Timely.snoc_iff.mp timely
    have ih := ih timely
    rw [starts, returns, List.countP_append, List.countP_append, ← starts, ← returns, held_snoc, ih]
    cases e with
    | failed | ended =>
      by_cases here : fd ∈ held log <;> simp [Event.starts, Event.returns, Event.hold, here]
    | started task handle =>
      obtain ⟨_, free, _⟩ := proper
      by_cases same : handle = fd
      · subst same
        simp [Event.starts, Event.returns, Event.hold, free]
      · simp [Event.starts, Event.returns, Event.hold, same, Ne.symm same]
    | returned handle res =>
      by_cases same : handle = fd
      · subst same
        obtain ⟨task, _, found, _⟩ := proper nonneg
        have here : handle ∈ held log := AList.lookup_isSome.mp (Option.isSome_of_eq_some found)
        simp [Event.starts, Event.returns, Event.hold, here]
      · simp [Event.starts, Event.returns, Event.hold, same, Ne.symm same]

theorem mem_held (h : Handles s) : fd ∈ held s.log ↔ s.Pending fd := by
  rw [← AList.lookup_isSome, Option.isSome_iff_exists]
  constructor
  · rintro ⟨task, found⟩
    exact ((h.held fd task).mp found).1
  · intro pending
    obtain ⟨⟨task, child⟩, found⟩ := Option.isSome_iff_exists.mp (AList.lookup_isSome.mpr (h.opened fd pending))
    exact ⟨task, (h.held fd task).mpr ⟨pending, child, found⟩⟩

/-- Each handle that was given out is pending, or was returned. -/
theorem returns_eq (h : Handles s) (nonneg : 0 ≤ fd) :
    starts fd s.log = returns fd s.log + if s.Pending fd then 1 else 0 := by
  rw [starts_eq h.timely nonneg]
  simp only [mem_held h]

/-! ## Runs of `RunTask` and `WaitAnyResult()` -/

/-- `RunTask` is called while fewer than `kUidPoolSize` tasks are running, and `WaitAnyResult`
without handles. -/
def plainCalls (s : State) : Label → Prop
  | .run _ => s.running.entries.length < kUidPoolSize
  | .exit .. | .waitAny _ => True
  | .waitList _ | .round => False

instance (s : State) : DecidablePred (plainCalls s)
  | .run _ | .exit .. | .waitAny _ | .waitList _ | .round => by
    unfold plainCalls
    infer_instance

def Label.isWait : Label → Bool
  | .waitAny _ => true
  | _ => false

/-- `WaitAnyResult` is not in its loop, and what it has collected is from one `Wait`. -/
structure Plain (s : State) : Prop where
  idle : s.waiting = none
  few : s.finished.entries.length ≤ kUidPoolSize

theorem Pools.running_le (p : Pools cfg s) : s.running.entries.length ≤ kUidPoolSize := by
  cases flag : s.poolInit with
  | false => simp [(p.idle flag).1]
  | true =>
    have length := p.length flag
    omega

theorem collected_length (p : Pools cfg s) (plain : Plain s) :
    s.collected.finished.entries.length ≤ kUidPoolSize := by
  unfold State.collected
  split
  · rename_i empty
    have collected := wait_finished_length s
    have some_ : s.ready.length ≤ s.running.entries.length := List.length_filter_le _ _
    have all := p.running_le
    rw [empty, List.length_nil] at collected
    omega
  · exact plain.few

theorem collected_log (s : State) : s.collected.log = s.log := by
  unfold State.collected
  split
  · exact wait_log s
  · rfl

theorem collected_waiting (s : State) : s.collected.waiting = s.waiting := by
  unfold State.collected
  split
  · exact wait_waiting s
  · rfl

theorem Plain.step {l : Label} (plain : Plain s) (inv : Inv cfg s) (call : plainCalls s l)
    (h : (runner cfg).step s l = some t) : Plain t := by
  obtain ⟨enabled, h⟩ := step_iff.mp h
  cases l with
  | run spawn =>
    obtain ⟨_, finished, _, waiting, _⟩ := prepared_frame cfg s
    have few : (s.prepared cfg).finished.entries.length ≤ kUidPoolSize := finished ▸ plain.few
    have idle : (s.prepared cfg).waiting = none := waiting.trans plain.idle
    cases runTask_iff.mp h with
    | noPipe | noFork | child => exact ⟨idle, few⟩
  | exit fd written =>
    obtain ⟨_, _, _, _, finished, waiting, _⟩ := exit_frame h
    exact ⟨waiting.trans plain.idle, finished ▸ plain.few⟩
  | waitAny handle =>
    rcases waitAny_cases h with ⟨_, _, _, rfl⟩ | ⟨res, found, rfl⟩
    · exact ⟨plain.idle, plain.few⟩
    · refine ⟨(collected_waiting s).trans plain.idle, ?_⟩
      have less := UMap.length_erase found
      have few := collected_length inv.pools plain
      change (s.collected.finished.erase handle).entries.length ≤ kUidPoolSize
      omega
  | waitList | round => exact call.elim

theorem plain (h : (runner cfg).Reach plainCalls s) : Plain s := by
  refine h.invariant ⟨rfl, Nat.zero_le _⟩ fun _ _ _ reach plain call step => ?_
  exact plain.step (inv reach) call step

/-- The result of a task that has ended was not returned. -/
structure Overdue (s : State) (fd : Int) : Prop where
  pending : s.Pending fd
  readable : s.readable fd = true

/-- How many calls of `WaitAnyResult` it takes at most. -/
def State.delay (s : State) (fd : Int) : Nat :=
  s.finished.entries.length + if fd ∈ s.running.keys then kUidPoolSize else 0

/-- A step that leaves the pipe of the task, and what is collected and running. -/
theorem Overdue.kept (o : Overdue s fd) (finished : t.finished = s.finished)
    (running : fd ∈ t.running.keys ↔ fd ∈ s.running.keys)
    (pipe : t.pipes.lookup fd = s.pipes.lookup fd) : Overdue t fd ∧ t.delay fd = s.delay fd := by
  refine ⟨⟨?_, ?_⟩, ?_⟩
  · rw [State.Pending, running, finished]
    exact o.pending
  · rw [State.readable, pipe]
    exact o.readable
  · simp only [State.delay, finished, running]

theorem Overdue.spawn {spawn : Spawn} (o : Overdue s fd) (inv : Inv cfg s) (fresh : spawn.Fresh s)
    (h : s.runTask cfg spawn = some t) : (Overdue t fd ∧ t.delay fd = s.delay fd) ∧
      returns fd t.log = returns fd s.log := by
  obtain ⟨running, finished, pipes, _, log⟩ := prepared_frame cfg s
  cases runTask_iff.mp h with
  | noPipe | noFork =>
    refine ⟨o.kept finished ?_ ?_, ?_⟩
    · change fd ∈ (s.prepared cfg).running.keys ↔ _
      rw [running]
    · change (s.prepared cfg).pipes.lookup fd = _
      rw [pipes]
    · change returns fd ((s.prepared cfg).log ++ [.failed]) = _
      rw [log, returns_append]
      rfl
  | @child k pid uid last =>
    obtain ⟨_, free⟩ := fresh
    have other : fd ≠ k := fun same => free (same ▸ inv.handles.opened fd o.pending)
    refine ⟨o.kept finished ?_ ?_, ?_⟩
    · change fd ∈ ((s.prepared cfg).running.insert k _).keys ↔ _
      rw [OrdMap.mem_keys_insert, running]
      simp [other]
    · change AList.lookup fd ((s.prepared cfg).pipes.insert k _) = _
      rw [UMap.lookup_insert_eq, if_neg other, pipes]
    · change returns fd ((s.prepared cfg).log ++ [.started _ k]) = _
      rw [log, returns_append]
      rfl

theorem Overdue.exit {k : Int} {written : Option CjailResult} (o : Overdue s fd)
    (h : s.exit k written = some t) : (Overdue t fd ∧ t.delay fd = s.delay fd) ∧
      returns fd t.log = returns fd s.log := by
  unfold State.exit at h
  split at h
  · rename_i task alive
    cases h
    have other : fd ≠ k := by
      rintro rfl
      simpa [State.readable, alive] using o.readable
    refine ⟨o.kept rfl Iff.rfl ?_, ?_⟩
    · change AList.lookup fd (s.pipes.insert k _) = _
      rw [UMap.lookup_insert_eq, if_neg other]
    · change returns fd (s.log ++ [.ended task written]) = _
      rw [returns_append]
      rfl
  · cases h

/-- What has ended is in `finished` after `Wait`, if that was empty. -/
theorem Overdue.collected (o : Overdue s fd) (inv : Inv cfg s) (plain : Plain s) :
    Overdue s.collected fd ∧ s.collected.delay fd ≤ s.delay fd ∧
      s.collected.finished.entries ≠ [] := by
  unfold State.collected
  split
  · rename_i empty
    have running : fd ∈ s.running.keys := by
      refine o.pending.resolve_right fun no => ?_
      simp [AList.mem_keys, AList.keys, empty] at no
    have selected : s.Selected fd := ⟨(inv.handles.fdset fd).mpr running, o.readable⟩
    have there : s.wait.finished.lookup fd = some (s.read fd) := by
      rw [wait_finished, if_pos ⟨running, selected⟩]
    have here : fd ∈ s.wait.finished := AList.lookup_isSome.mp (Option.isSome_of_eq_some there)
    have left : fd ∉ s.wait.running.keys := fun no => (wait_keys.mp no).2 selected
    have few : s.wait.finished.entries.length ≤ kUidPoolSize := by
      have few := collected_length inv.pools plain
      rwa [State.collected, if_pos empty] at few
    refine ⟨⟨.inr here, ?_⟩, ?_, ?_⟩
    · simp only [State.readable, wait_pipes]
      exact o.readable
    · simp only [State.delay, left, running, empty, if_true, if_false, List.length_nil]
      omega
    · intro none
      simp [AList.mem_keys, AList.keys, none] at here
  · rename_i some_
    exact ⟨o, le_rfl, some_⟩

theorem Overdue.waitAny {handle : Int} (o : Overdue s fd) (inv : Inv cfg s) (plain : Plain s)
    (h : s.waitAny handle = some t) : returns fd s.log < returns fd t.log ∨
      Overdue t fd ∧ returns fd s.log ≤ returns fd t.log ∧ t.delay fd + 1 ≤ s.delay fd := by
  rcases waitAny_cases h with ⟨running, finished, _⟩ | ⟨res, found, rfl⟩
  · rcases o.pending with no | no
    · simp [OrdMap.keys, running] at no
    · simp [AList.mem_keys, AList.keys, finished] at no
  · obtain ⟨collected, delay, _⟩ := o.collected inv plain
    have same : returns fd ((s.collected.give handle res).close handle).log =
        returns fd s.log + if handle = fd then 1 else 0 := by
      change returns fd (s.collected.log ++ [.returned handle res]) = _
      rw [collected_log, returns_append]
      by_cases same : handle = fd <;> simp [returns, Event.returns, same]
    by_cases mine : handle = fd
    · left
      rw [same, if_pos mine]
      omega
    · right
      refine ⟨⟨?_, ?_⟩, by omega, ?_⟩
      · refine collected.pending.imp id fun here => ?_
        exact AList.mem_erase.mpr ⟨Ne.symm mine, here⟩
      · have kept : AList.lookup fd (s.collected.pipes.erase handle) = s.collected.pipes.lookup fd := by
          rw [UMap.lookup_erase_eq, if_neg (Ne.symm mine)]
        have readable := collected.readable
        rw [State.readable, ← kept] at readable
        exact readable
      · have less := UMap.length_erase found
        have taken : ((s.collected.give handle res).close handle).delay fd + 1 = s.collected.delay fd := by
          change (s.collected.finished.erase handle).entries.length +
            (if fd ∈ s.collected.running.keys then kUidPoolSize else 0) + 1 = _
          rw [State.delay, less]
          omega
        omega

/-- A call of `WaitAnyResult` returns it, or brings it nearer; other steps do not delay it. -/
theorem Overdue.step {l : Label} (o : Overdue s fd) (inv : Inv cfg s) (plain : Plain s)
    (call : plainCalls s l) (h : (runner cfg).step s l = some t) :
    returns fd s.log < returns fd t.log ∨ Overdue t fd ∧ returns fd s.log ≤ returns fd t.log ∧
      t.delay fd + (if l.isWait then 1 else 0) ≤ s.delay fd := by
  obtain ⟨enabled, h⟩ := step_iff.mp h
  cases l with
  | run spawn =>
    obtain ⟨⟨o', delay⟩, same⟩ := o.spawn inv enabled.2 h
    exact .inr ⟨o', same.ge, delay.le⟩
  | exit k written =>
    obtain ⟨⟨o', delay⟩, same⟩ := o.exit h
    exact .inr ⟨o', same.ge, delay.le⟩
  | waitAny handle => exact o.waitAny inv plain h
  | waitList | round => exact call.elim

theorem returns_step {l : Label} (call : plainCalls s l) (h : (runner cfg).step s l = some t) :
    returns fd s.log ≤ returns fd t.log := by
  obtain ⟨enabled, h⟩ := step_iff.mp h
  have grown {log new : List Event} : returns fd log ≤ returns fd (log ++ new) := by
    rw [returns_append]
    omega
  cases l with
  | run spawn =>
    obtain ⟨_, _, _, _, log⟩ := prepared_frame cfg s
    rw [← log]
    have spawned := runTask_iff.mp h
    cases spawned with
    | noPipe | noFork | child => exact grown
  | exit k written =>
    obtain ⟨_, _, _, _, _, _, _, log⟩ := exit_frame h
    exact log ▸ grown
  | waitAny handle =>
    rcases waitAny_cases h with ⟨_, _, _, rfl⟩ | ⟨res, found, rfl⟩
    · exact grown
    · rw [← collected_log s]
      exact grown
  | waitList | round => exact call.elim

theorem overdue_run {ls : List Label} (reach : (runner cfg).Reach plainCalls s) (o : Overdue s fd)
    (run : Run (runner cfg) plainCalls s ls t) (enough : 2 * kUidPoolSize ≤ ls.countP Label.isWait) :
    returns fd s.log < returns fd t.log := by
  have progress : returns fd s.log < returns fd t.log ∨ Overdue t fd ∧
      returns fd s.log ≤ returns fd t.log ∧ t.delay fd + ls.countP Label.isWait ≤ s.delay fd := by
    clear enough
    induction run with
    | nil => exact .inr ⟨o, le_rfl, by simp⟩
    | @snoc ls t l u before call step ih =>
      have more : returns fd t.log ≤ returns fd u.log := returns_step call step
      rcases ih with returned | ⟨o', kept, delay⟩
      · exact .inl (returned.trans_le more)
      · have reach' := reach.run before
        rcases o'.step (inv reach') (plain reach') call step with returned | ⟨o'', kept', delay'⟩
        · exact .inl (kept.trans_lt returned)
        · refine .inr ⟨o'', kept.trans kept', ?_⟩
          rw [List.countP_append, List.countP_singleton]
          omega
  rcases progress with returned | ⟨o', _, delay⟩
  · exact returned
  · have few := (plain reach).few
    have first : s.delay fd ≤ 2 * kUidPoolSize := by
      unfold State.delay
      split <;> omega
    have none : t.delay fd = 0 := by omega
    -- with nothing collected and the task not running, it is not pending
    exfalso
    unfold State.delay at none
    rcases o'.pending with running | finished
    · rw [if_pos running] at none
      simp [kUidPoolSize] at none
    · have empty : t.finished.entries = [] := List.length_eq_zero_iff.mp (by omega)
      simp [AList.mem_keys, AList.keys, empty] at finished

/-- User ids, CPUs, handles and results are accounted for. -/
structure Accounted (cfg : Config) (s : State) : Prop where
  uidsDistinct : (s.running.entries.map (·.2.uid)).Nodup
  uids : if s.poolInit = true then (s.running.entries.map (·.2.uid) ++ s.uidPool).Perm initialUids
    else s.running.entries = [] ∧ s.uidPool = []
  cpuidsDistinct : ((s.running.entries.map (·.2.cpuid)).filter (· ≠ -1)).Nodup
  cpuids : if s.poolInit = true then
      ((s.running.entries.map (·.2.cpuid)).filter (· ≠ -1) ++ s.cpuidPool).Perm cfg.initialCpuids
    else s.running.entries = [] ∧ s.cpuidPool = []
  /-- `RunTask` finds an id in the pool. -/
  safe : ∀ spawn, plainCalls s (.run spawn) → spawn.Fresh s →
    ∃ t, (runner cfg).step s (.run spawn) = some t
  proper : Timely Proper s.log
  once : ∀ fd, 0 ≤ fd → starts fd s.log = returns fd s.log + if s.Pending fd then 1 else 0
  /-- When a task has ended, `WaitAnyResult` returns a result. -/
  ready : ∀ fd, Overdue s fd → ∃ handle t, (runner cfg).step s (.waitAny handle) = some t
  returned : ∀ fd, Overdue s fd → ∀ ls t, Run (runner cfg) plainCalls s ls t →
    2 * kUidPoolSize ≤ ls.countP Label.isWait → returns fd s.log < returns fd t.log

theorem tasks_accounted (h : (runner cfg).Reach plainCalls s) : Accounted cfg s := by
  have inv := inv h
  have plain := plain h
  obtain ⟨prepared, on⟩ := inv.prepared
  obtain ⟨running, _⟩ := prepared_frame cfg s
  refine ⟨?_, ?_, ?_, ?_, fun spawn free fresh => ?_, inv.handles.timely,
    fun fd nonneg => returns_eq inv.handles nonneg, fun fd o => ?_, fun fd o ls t run enough =>
    overdue_run h o run enough⟩
  · have nodup := (prepared.pools.uids on).nodup_iff.mpr initialUids_nodup
    rw [running] at nodup
    exact (List.nodup_append.mp nodup).1
  · split
    · rename_i on
      exact inv.pools.uids on
    · rename_i no
      obtain ⟨none, uids, _⟩ := inv.pools.idle (by simpa using no)
      exact ⟨none, uids⟩
  · have nodup := (prepared.pools.cpuids on).nodup_iff.mpr (initialCpuids_nodup cfg)
    rw [running] at nodup
    exact (List.nodup_append.mp nodup).1
  · split
    · rename_i on
      exact inv.pools.cpuids on
    · rename_i no
      obtain ⟨none, _, cpuids⟩ := inv.pools.idle (by simpa using no)
      exact ⟨none, cpuids⟩
  · rw [plainCalls, ← running] at free
    obtain ⟨uid, last⟩ := prepared.pools.getLast on free
    have call {t : State} (spawned : Spawned (s.prepared cfg) spawn t) :
        ∃ t, (runner cfg).step s (.run spawn) = some t :=
      ⟨t, step_iff.mpr ⟨⟨plain.idle, fresh⟩, runTask_iff.mpr spawned⟩⟩
    cases spawn with
    | noPipe => exact call .noPipe
    | noFork => exact call (.noFork last)
    | child => exact call (.child last)
  · obtain ⟨collected, _, some_⟩ := o.collected inv plain
    obtain ⟨⟨handle, res⟩, here⟩ := List.exists_mem_of_ne_nil _ some_
    have found : s.collected.finished.lookup handle = some res := AList.mem_lookup_iff.mpr here
    have busy : ¬ (s.running.entries = [] ∧ s.finished.entries = []) := by
      rintro ⟨none, empty⟩
      rcases o.pending with no | no
      · simp [OrdMap.keys, none] at no
      · simp [AList.mem_keys, AList.keys, empty] at no
    have returned : s.waitAny handle = some ((s.collected.give handle res).close handle) := by
      rw [State.waitAny, if_neg busy]
      exact Option.map_eq_some_iff.mpr ⟨res, found, rfl⟩
    exact ⟨handle, _, step_iff.mpr ⟨plain.idle, returned⟩⟩

/-- Two tasks and a failed `fork`; the second task ends first, and a third one gets its handle. -/
def twoTasks : List Label :=
  [.run (.child 3 100), .run (.noFork 4), .run (.child 4 101), .exit 4 (some .zero), .waitAny 4,
    .run (.child 4 102), .exit 3 none]

theorem tasks_accounted_two :
    ∃ s, (runner ⟨1, fun _ => true⟩).exec plainCalls .init twoTasks = some s ∧
      starts 4 s.log = 2 ∧ returns 4 s.log = 1 ∧ Overdue s 3 ∧ Accounted ⟨1, fun _ => true⟩ s := by
  have run : ((runner ⟨1, fun _ => true⟩).exec plainCalls .init twoTasks).map (fun s => decide
      (starts 4 s.log = 2 ∧ returns 4 s.log = 1 ∧ s.Pending 3 ∧ s.readable 3 = true)) = some true := by
    decide +kernel
  obtain ⟨s, hs, seen⟩ := Option.map_eq_some_iff.mp run
  obtain ⟨given, back, pending, readable⟩ := of_decide_eq_true seen
  exact ⟨s, hs, given, back, ⟨pending, readable⟩, tasks_accounted (reach_exec hs)⟩

end TiojJudge.Runner
