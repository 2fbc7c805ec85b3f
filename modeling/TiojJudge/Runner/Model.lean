import TiojJudge.Containers
import TiojJudge.Machine
import TiojJudge.Judge.Types

/-!
# Running tasks

`RunTask`, `Wait` and the two overloads of `WaitAnyResult`, with the pools of
user ids and CPUs. A label is a call, with what `pipe` and `fork` return and the
entry that `finished.begin()` points to, or the end of a child process.

Beside the variables of `tasks.cpp` the state has the open read ends with the
pipes behind them, and `log`, what was called and returned so far.
-/

namespace TiojJudge.Runner
open Judge (CjailResult)

def kUidBase : Int := 50000
def kUidPoolSize : Nat := 100

/-- `get_nprocs()`, and `CPU_ISSET(i, &kPinnedCpus)`. -/
structure Config where
  nprocs : Nat
  pinned : Nat → Bool

/-- An entry of `running`. -/
structure Worker where
  pid : Int
  uid : Int
  cpuid : Int
  deriving DecidableEq

/-- The pipe that the `task`-th call of `RunTask` made. `child` is `none` while the child
runs, and then what it wrote: nothing when it was killed. -/
structure Pipe where
  task : Nat
  child : Option (Option CjailResult)
  deriving DecidableEq

inductive Event where
  /-- `RunTask` returned a handle. -/
  | started (task : Nat) (handle : Int)
  /-- `RunTask` returned an error. -/
  | failed
  | ended (task : Nat) (written : Option CjailResult)
  | returned (handle : Int) (res : CjailResult)
  deriving DecidableEq

structure State where
  poolInit : Bool
  uidPool : List Int
  cpuidPool : List Int
  runningFdset : Finset Int
  running : OrdMap Int Worker
  finished : UMap Int CjailResult
  pipes : UMap Int Pipe
  tasks : Nat
  /-- The handles of the call of `WaitAnyResult` that is in its loop. -/
  waiting : Option (List Int)
  log : List Event

def State.init : State := ⟨false, [], [], ∅, ∅, ∅, ∅, 0, none, []⟩

def State.emit (s : State) (e : Event) : State := { s with log := s.log ++ [e] }

/-! ## Starting a task -/

def initialUids : List Int := (List.range kUidPoolSize).map fun i : Nat => (i : Int) + kUidBase

def Config.initialCpuids (cfg : Config) : List Int :=
  ((List.range cfg.nprocs).filter cfg.pinned).map Nat.cast

def State.initPools (cfg : Config) (s : State) : State :=
  { s with
    uidPool := s.uidPool ++ initialUids
    cpuidPool := s.cpuidPool ++ cfg.initialCpuids
    runningFdset := ∅
    poolInit := true }

/-- What `pipe` and `fork` return; `fd` is the read end. -/
inductive Spawn where
  | noPipe
  | noFork (fd : Int)
  | child (fd pid : Int)

def giveCpuid (pool : List Int) (cpuid : Int) : List Int :=
  if cpuid ≠ -1 then pool ++ [cpuid] else pool

def State.launch (s : State) (fd : Int) (worker : Worker) : State :=
  { s with
    running := s.running.insert fd worker
    runningFdset := insert fd s.runningFdset
    pipes := s.pipes.insert fd ⟨s.tasks, none⟩
    tasks := s.tasks + 1 }.emit (.started s.tasks fd)

/-- `none` for `back()` of an empty vector. -/
def State.runTask (cfg : Config) (s : State) (spawn : Spawn) : Option State :=
  let s := if s.poolInit then s else s.initPools cfg
  match spawn with
  | .noPipe => some (s.emit .failed)
  | .noFork _ =>
    s.uidPool.getLast?.map fun uid =>
      let cpuid := s.cpuidPool.getLastD (-1)
      { s with
        uidPool := s.uidPool.dropLast ++ [uid]
        cpuidPool := giveCpuid s.cpuidPool.dropLast cpuid }.emit .failed
  | .child fd pid =>
    s.uidPool.getLast?.map fun uid =>
      let cpuid := s.cpuidPool.getLastD (-1)
      { s with
        uidPool := s.uidPool.dropLast
        cpuidPool := s.cpuidPool.dropLast }.launch fd ⟨pid, uid, cpuid⟩

/-- The child wrote its result and exits, or is killed before that. -/
def State.exit (s : State) (fd : Int) (written : Option CjailResult) : Option State :=
  match s.pipes.lookup fd with
  | some ⟨task, none⟩ =>
    some ({ s with pipes := s.pipes.insert fd ⟨task, some written⟩ }.emit (.ended task written))
  | _ => none

/-! ## Waiting -/

/-- The child at the other end has ended. -/
def State.readable (s : State) (fd : Int) : Bool :=
  match s.pipes.lookup fd with
  | some ⟨_, child⟩ => child.isSome
  | none => false

/-- What `read` leaves in `res`, which is zero before. -/
def State.read (s : State) (fd : Int) : CjailResult :=
  match s.pipes.lookup fd with
  | some ⟨_, some (some res)⟩ => res
  | _ => .zero

/-- The entries of `running` for which `select` sets `FD_ISSET`. -/
def State.ready (s : State) : List (Int × Worker) :=
  s.running.entries.filter fun e => e.1 ∈ s.runningFdset ∧ s.readable e.1 = true

/-- The loop over `running`, for one entry. -/
def State.collect (s : State) (e : Int × Worker) : State :=
  { s with
    uidPool := s.uidPool ++ [e.2.uid]
    cpuidPool := giveCpuid s.cpuidPool e.2.cpuid
    finished := s.finished.insert e.1 (s.read e.1) }

/-- `Wait`, when `select` has returned. -/
def State.wait (s : State) : State :=
  let toRemove := s.ready.map Prod.fst
  let s := s.ready.foldl State.collect s
  { s with
    running := toRemove.foldl OrdMap.erase s.running
    runningFdset := toRemove.foldl Finset.erase s.runningFdset }

def State.give (s : State) (handle : Int) (res : CjailResult) : State :=
  { s with finished := s.finished.erase handle }.emit (.returned handle res)

def State.close (s : State) (fd : Int) : State := { s with pipes := s.pipes.erase fd }

/-- `WaitAnyResult()`; `handle` is the first key of `finished`. `select` blocks, and there
is no step, until a child has ended. -/
def State.waitAny (s : State) (handle : Int) : Option State :=
  if s.running.entries = [] ∧ s.finished.entries = [] then
    if handle = -1 then some (s.emit (.returned (-1) .zero)) else none
  else
    let s := if s.finished.entries = [] then s.wait else s
    (s.finished.lookup handle).map fun res => (s.give handle res).close handle

/-- The first of the handles that is in `finished`. -/
def State.firstFinished (s : State) (handles : List Int) : Option (Int × CjailResult) :=
  handles.findSome? fun i => (s.finished.lookup i).map fun res => (i, res)

/-- `WaitAnyResult(handles)`, up to its loop. -/
def State.waitList (s : State) (handles : List Int) : State :=
  match s.firstFinished handles with
  | some (handle, res) => s.give handle res
  | none =>
    if handles.any (· ∈ s.running.keys) then { s with waiting := some handles }
    else s.emit (.returned (-1) .zero)

/-- The loop of `WaitAnyResult(handles)`, once. -/
def State.round (s : State) (handles : List Int) : Option State :=
  if s.ready = [] then none
  else
    let s := s.wait
    match s.firstFinished handles with
    | some (handle, res) => some { (s.give handle res).close handle with waiting := none }
    | none => some s

/-! ## The machine -/

inductive Label where
  | run (spawn : Spawn)
  | exit (fd : Int) (written : Option CjailResult)
  | waitAny (handle : Int)
  | waitList (handles : List Int)
  | round

/-- `pipe` returns a descriptor that is not open. -/
def Spawn.Fresh (s : State) : Spawn → Prop
  | .noPipe => True
  | .noFork fd | .child fd _ => 0 ≤ fd ∧ fd ∉ s.pipes

instance (s : State) : DecidablePred (Spawn.Fresh s)
  | .noPipe | .noFork _ | .child _ _ => by
    unfold Spawn.Fresh
    infer_instance

def Enabled (s : State) : Label → Prop
  | .run spawn => s.waiting = none ∧ spawn.Fresh s
  | .exit .. => True
  | .waitAny _ | .waitList _ => s.waiting = none
  | .round => s.waiting ≠ none

instance (s : State) : DecidablePred (Enabled s)
  | .run _ | .exit .. | .waitAny _ | .waitList _ | .round => by
    unfold Enabled
    infer_instance

def perform (cfg : Config) (s : State) : Label → Option State
  | .run spawn => s.runTask cfg spawn
  | .exit fd written => s.exit fd written
  | .waitAny handle => s.waitAny handle
  | .waitList handles => some (s.waitList handles)
  | .round => s.waiting.bind s.round

def runner (cfg : Config) : Machine State Label where
  init := .init
  step s l := if Enabled s l then perform cfg s l else none

end TiojJudge.Runner
