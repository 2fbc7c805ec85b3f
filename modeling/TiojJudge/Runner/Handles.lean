import TiojJudge.History
import TiojJudge.Runner.Pools

/-!
# Handles and results

A handle is the read end of a result pipe. It is closed when its result is
returned, and until then no other pipe can have it.

* `held`: the handles that the caller of `RunTask` still waits for;
* `Proper`: a handle that is given out is not one of them, and a result that is
  returned is what the task of its handle wrote;
* `Handles`: `held` is what `running` and `finished` have.
-/

namespace TiojJudge.Runner
open Judge (CjailResult)

/-- The caller's table of handles and their tasks, after the event. -/
def Event.hold (table : UMap Int Nat) : Event → UMap Int Nat
  | .started task handle => table.insert handle task
  | .returned handle _ => table.erase handle
  | .failed | .ended .. => table

def held (log : List Event) : UMap Int Nat := log.foldl Event.hold ∅

theorem held_snoc (log : List Event) (e : Event) : held (log ++ [e]) = e.hold (held log) := by
  simp [held]

/-- An event with the past it needs. -/
def Proper (past : List Event) : Event → Prop
  | .started task handle => 0 ≤ handle ∧ handle ∉ held past ∧ ∀ handle', .started task handle' ∉ past
  | .failed => True
  | .ended task _ => ∀ written, .ended task written ∉ past
  | .returned handle res => 0 ≤ handle → ∃ task written, (held past).lookup handle = some task ∧
      .ended task written ∈ past ∧ res = written.getD .zero

def Event.task : Event → Option Nat
  | .started task _ | .ended task _ => some task
  | .failed | .returned .. => none

/-- Its result was not returned yet. -/
def State.Pending (s : State) (fd : Int) : Prop := fd ∈ s.running.keys ∨ fd ∈ s.finished

instance (s : State) : DecidablePred s.Pending := fun _ => inferInstanceAs (Decidable (_ ∨ _))

/-- What `Wait` puts into `finished`. -/
theorem mem_wait_finished {s : State} {fd : Int} :
    fd ∈ s.wait.finished ↔ fd ∈ s.finished ∨ fd ∈ s.running.keys ∧ s.Selected fd := by
  rw [← AList.lookup_isSome, wait_finished, ← AList.lookup_isSome]
  split_ifs with selected <;> simp [selected]

/-- A result that was read is as much pending as one that is written. -/
theorem wait_pending {s : State} {fd : Int} : s.wait.Pending fd ↔ s.Pending fd := by
  simp only [State.Pending, wait_keys, mem_wait_finished]
  tauto

structure Handles (s : State) : Prop where
  held : ∀ fd task, (held s.log).lookup fd = some task ↔
    s.Pending fd ∧ ∃ child, s.pipes.lookup fd = some ⟨task, child⟩
  fdset : ∀ fd, fd ∈ s.runningFdset ↔ fd ∈ s.running.keys
  apart : ∀ fd ∈ s.running.keys, fd ∉ s.finished
  opened : ∀ fd, s.Pending fd → fd ∈ s.pipes
  result : ∀ fd res, s.finished.lookup fd = some res → ∃ task written,
    s.pipes.lookup fd = some ⟨task, some written⟩ ∧ res = written.getD .zero
  ended : ∀ fd task written, s.pipes.lookup fd = some ⟨task, some written⟩ →
    .ended task written ∈ s.log
  alive : ∀ fd task, s.pipes.lookup fd = some ⟨task, none⟩ → ∀ written, .ended task written ∉ s.log
  distinct : ∀ fd fd' p p', s.pipes.lookup fd = some p → s.pipes.lookup fd' = some p' →
    p.task = p'.task → fd = fd'
  below : ∀ fd p, s.pipes.lookup fd = some p → p.task < s.tasks
  known : ∀ e ∈ s.log, ∀ task, e.task = some task → task < s.tasks
  nonneg : ∀ fd ∈ s.pipes, 0 ≤ fd
  timely : Timely Proper s.log

namespace Handles

variable {s t : State} {fd : Int} {res : CjailResult}

theorem init : Handles .init where
  held := by simp [State.init, Runner.held, State.Pending, OrdMap.keys]
  fdset := by simp [State.init, OrdMap.keys]
  apart := by simp [State.init, OrdMap.keys]
  opened := by simp [State.init, State.Pending, OrdMap.keys]
  result := by simp [State.init]
  ended := by simp [State.init]
  alive := by simp [State.init]
  distinct := by simp [State.init]
  below := by simp [State.init]
  known := by simp [State.init]
  nonneg := by simp [State.init]
  timely := .nil

theorem same (h : Handles s) (fdset : t.runningFdset = s.runningFdset) (running : t.running = s.running)
    (finished : t.finished = s.finished) (pipes : t.pipes = s.pipes) (tasks : t.tasks = s.tasks)
    (log : t.log = s.log) : Handles t := by
  cases s
  cases t
  subst fdset running finished pipes tasks log
  exact ⟨h.held, h.fdset, h.apart, h.opened, h.result, h.ended, h.alive, h.distinct, h.below, h.known,
    h.nonneg, h.timely⟩

/-- An event that is about no task that was started. -/
theorem emit {e : Event} (h : Handles s) (quiet : e.task = none)
    (kept : e.hold (Runner.held s.log) = Runner.held s.log) (proper : Proper s.log e) :
    Handles (s.emit e) where
  held := fun fd task => by
    simp only [State.emit, held_snoc, kept]
    exact h.held fd task
  fdset := h.fdset
  apart := h.apart
  opened := h.opened
  result := h.result
  ended := fun fd task written found => List.mem_append_left _ (h.ended fd task written found)
  alive := fun fd task found written here => by
    rcases List.mem_append.mp here with old | new
    · exact h.alive fd task found written old
    · rw [← List.mem_singleton.mp new] at quiet
      cases quiet
  distinct := h.distinct
  below := h.below
  known := fun e' he' task same => by
    rcases List.mem_append.mp he' with old | new
    · exact h.known e' old task same
    · rw [List.mem_singleton.mp new, quiet] at same
      cases same
  nonneg := h.nonneg
  timely := h.timely.snoc proper

theorem failed (h : Handles s) : Handles (s.emit .failed) := h.emit rfl rfl trivial

/-- `{-1, {}}` is no result. -/
theorem nothing (h : Handles s) : Handles (s.emit (.returned (-1) .zero)) := by
  refine h.emit rfl ?_ (fun no => absurd no (by decide))
  have absent : (-1 : Int) ∉ Runner.held s.log := by
    intro here
    obtain ⟨task, found⟩ := Option.isSome_iff_exists.mp (AList.lookup_isSome.mpr here)
    have pending := ((h.held _ _).mp found).1
    exact absurd (h.nonneg _ (h.opened _ pending)) (by decide)
  apply AList.ext
  exact List.kerase_of_notMem_keys absent

/-- The pipe of a new task has a descriptor that nothing is pending for. -/
theorem launch (h : Handles s) (worker : Worker) (fresh : fd ∉ s.pipes) (nonneg : 0 ≤ fd) :
    Handles (s.launch fd worker) := by
  have absent : ¬ s.Pending fd := fun pending => fresh (h.opened fd pending)
  have log : (s.launch fd worker).log = s.log ++ [.started s.tasks fd] := rfl
  have tasks : (s.launch fd worker).tasks = s.tasks + 1 := rfl
  have finished : (s.launch fd worker).finished = s.finished := rfl
  have keys (k : Int) : k ∈ (s.launch fd worker).running.keys ↔ k = fd ∨ k ∈ s.running.keys :=
    OrdMap.mem_keys_insert
  have pipe (k : Int) (p : Pipe) : (s.launch fd worker).pipes.lookup k = some p ↔
      k = fd ∧ p = ⟨s.tasks, none⟩ ∨ k ≠ fd ∧ s.pipes.lookup k = some p := by
    simp only [State.launch, State.emit, UMap.lookup_insert_eq]
    split_ifs with same <;> simp [same, eq_comm]
  have old {k : Int} {p : Pipe} (found : s.pipes.lookup k = some p) : k ≠ fd := by
    rintro rfl
    exact fresh (AList.lookup_isSome.mp (Option.isSome_of_eq_some found))
  have ended (task : Nat) (written : Option CjailResult) :
      .ended task written ∈ (s.launch fd worker).log ↔ .ended task written ∈ s.log := by
    simp [log]
  constructor
  · intro k task
    rw [log, held_snoc, Event.hold, UMap.lookup_insert_eq]
    simp only [State.Pending, keys, finished, pipe]
    by_cases new : k = fd
    · subst new
      simp [eq_comm]
    · simp only [new, if_false, false_or, false_and, ne_eq, not_false_eq_true, true_and]
      exact h.held k task
  · intro k
    rw [keys, ← h.fdset]
    simp [State.launch, State.emit]
  · intro k here
    rw [finished]
    rcases (keys k).mp here with rfl | here
    · exact fun no => absent (.inr no)
    · exact h.apart k here
  · intro k pending
    simp only [State.Pending, keys, finished, or_assoc] at pending
    simp only [State.launch, State.emit, AList.mem_insert]
    exact pending.imp_right (h.opened k)
  · intro k res found
    obtain ⟨task, written, here, same⟩ := h.result k res found
    exact ⟨task, written, (pipe _ _).mpr (.inr ⟨old here, here⟩), same⟩
  · intro k task written found
    rw [ended]
    rcases (pipe _ _).mp found with ⟨_, no⟩ | ⟨_, here⟩
    · cases no
    · exact h.ended k task written here
  · intro k task found written here
    rw [ended] at here
    rcases (pipe _ _).mp found with ⟨_, same⟩ | ⟨_, there⟩
    · obtain ⟨rfl, _⟩ := Pipe.mk.inj same
      exact absurd (h.known _ here _ rfl) (lt_irrefl _)
    · exact h.alive k task there written here
  · intro k k' p p' found found' same
    rcases (pipe _ _).mp found with ⟨rfl, rfl⟩ | ⟨_, here⟩ <;>
      rcases (pipe _ _).mp found' with ⟨rfl, rfl⟩ | ⟨_, here'⟩
    · rfl
    · exact absurd (h.below _ _ here') (by simp [← same])
    · exact absurd (h.below _ _ here) (by simp [same])
    · exact h.distinct k k' p p' here here' same
  · intro k p found
    rw [tasks]
    rcases (pipe _ _).mp found with ⟨_, rfl⟩ | ⟨_, here⟩
    · exact Nat.lt_succ_self _
    · exact Nat.lt_succ_of_lt (h.below k p here)
  · intro e he task same
    rw [log, List.mem_append, List.mem_singleton] at he
    rw [tasks]
    rcases he with here | rfl
    · exact Nat.lt_succ_of_lt (h.known e here task same)
    · cases same
      exact Nat.lt_succ_self _
  · intro k here
    rcases (AList.mem_insert _).mp here with rfl | here
    · exact nonneg
    · exact h.nonneg k here
  · rw [log]
    refine h.timely.snoc ⟨nonneg, fun here => ?_, fun handle' here => ?_⟩
    · obtain ⟨task, found⟩ := Option.isSome_iff_exists.mp (AList.lookup_isSome.mpr here)
      exact absent ((h.held fd task).mp found).1
    · exact absurd (h.known _ here _ rfl) (lt_irrefl _)

theorem exit (h : Handles s) {written : Option CjailResult} (done : s.exit fd written = some t) :
    Handles t := by
  unfold State.exit at done
  split at done
  · rename_i task here
    cases done
    have pipe (k : Int) (p : Pipe) : AList.lookup k (s.pipes.insert fd ⟨task, some written⟩) = some p ↔
        k = fd ∧ p = ⟨task, some written⟩ ∨ k ≠ fd ∧ s.pipes.lookup k = some p := by
      rw [UMap.lookup_insert_eq]
      split_ifs with same <;> simp [same, eq_comm]
    have fresh := h.alive fd task here
    constructor
    · intro k task'
      simp only [State.emit, held_snoc, Event.hold, pipe, h.held]
      refine and_congr_right fun _ => ?_
      by_cases same : k = fd
      · subst same
        simp [here, eq_comm]
      · simp [same]
    · exact h.fdset
    · exact h.apart
    · intro k pending
      exact (AList.mem_insert _).mpr (.inr (h.opened k pending))
    · intro k res found
      obtain ⟨task', written', there, same⟩ := h.result k res found
      refine ⟨task', written', (pipe _ _).mpr (.inr ⟨?_, there⟩), same⟩
      rintro rfl
      rw [here] at there
      cases there
    · intro k task' written' found
      simp only [State.emit, List.mem_append, List.mem_singleton]
      rcases (pipe _ _).mp found with ⟨_, same⟩ | ⟨_, there⟩
      · cases same
        exact .inr rfl
      · exact .inl (h.ended k task' written' there)
    · intro k task' found written' ended
      simp only [State.emit, List.mem_append, List.mem_singleton] at ended
      rcases (pipe _ _).mp found with ⟨_, no⟩ | ⟨other, there⟩
      · cases no
      · rcases ended with old | new
        · exact h.alive k task' there written' old
        · cases new
          exact other (h.distinct k fd _ _ there here rfl)
    · intro k k' p p' found found' same
      rcases (pipe _ _).mp found with ⟨rfl, rfl⟩ | ⟨_, there⟩ <;>
        rcases (pipe _ _).mp found' with ⟨rfl, rfl⟩ | ⟨_, there'⟩
      · rfl
      · exact h.distinct _ k' _ p' here there' same
      · exact h.distinct k _ p _ there here same
      · exact h.distinct k k' p p' there there' same
    · intro k p found
      rcases (pipe _ _).mp found with ⟨_, rfl⟩ | ⟨_, there⟩
      · exact (h.below fd _ here :)
      · exact h.below k p there
    · intro e he task' same
      simp only [State.emit, List.mem_append, List.mem_singleton] at he
      rcases he with old | rfl
      · exact h.known e old task' same
      · cases same
        exact h.below fd _ here
    · intro k there
      rcases (AList.mem_insert _).mp there with rfl | there
      · exact h.nonneg _ (AList.lookup_isSome.mp (Option.isSome_of_eq_some here))
      · exact h.nonneg k there
    · exact h.timely.snoc fresh
  · cases done

/-- What `Wait` moves to `finished` is still pending, with what was written to its pipe. -/
theorem wait (h : Handles s) : Handles s.wait := by
  constructor
  · simpa only [wait_log, wait_pipes, wait_pending] using h.held
  · intro k
    rw [wait_fdset, wait_keys, mem_ready_keys, h.fdset]
    tauto
  · intro k here
    obtain ⟨running, idle⟩ := wait_keys.mp here
    rw [mem_wait_finished]
    rintro (old | ⟨_, selected⟩)
    · exact h.apart k running old
    · exact idle selected
  · simpa only [wait_pipes, wait_pending] using h.opened
  · intro k res found
    rw [wait_finished] at found
    simp only [wait_pipes]
    split_ifs at found with selected
    · obtain ⟨_, _, readable⟩ := selected
      unfold State.readable at readable
      split at readable
      · rename_i task child here
        obtain ⟨written, rfl⟩ := Option.isSome_iff_exists.mp readable
        refine ⟨task, written, here, ?_⟩
        rw [← Option.some.inj found, State.read, here]
        cases written <;> rfl
      · cases readable
    · exact h.result k res found
  · simpa only [wait_log, wait_pipes] using h.ended
  · simpa only [wait_log, wait_pipes] using h.alive
  · simpa only [wait_pipes] using h.distinct
  · simpa only [wait_pipes, wait_tasks] using h.below
  · simpa only [wait_log, wait_tasks] using h.known
  · simpa only [wait_pipes] using h.nonneg
  · simpa only [wait_log] using h.timely

/-- A result goes to the caller. -/
theorem give (h : Handles s) (found : s.finished.lookup fd = some res) : Handles (s.give fd res) := by
  have here : fd ∈ s.finished := AList.lookup_isSome.mp (Option.isSome_of_eq_some found)
  have log : (s.give fd res).log = s.log ++ [.returned fd res] := rfl
  have pending (k : Int) : (s.give fd res).Pending k ↔ s.Pending k ∧ k ≠ fd := by
    have apart : k = fd → k ∉ s.running.keys := by
      rintro rfl running
      exact h.apart k running here
    simp only [State.Pending, State.give, State.emit, AList.mem_erase]
    tauto
  have ended (task : Nat) (written : Option CjailResult) :
      .ended task written ∈ (s.give fd res).log ↔ .ended task written ∈ s.log := by
    simp [log]
  obtain ⟨task, written, pipe, value⟩ := h.result fd res found
  constructor
  · intro k task'
    rw [log, held_snoc, Event.hold, UMap.lookup_erase_eq, pending]
    by_cases same : k = fd
    · simp [same]
    · simp only [same, if_false, h.held, ne_eq, not_false_eq_true, and_true]
      rfl
  · exact h.fdset
  · intro k running
    refine fun no => h.apart k running ?_
    exact (AList.mem_erase.mp no).2
  · intro k other
    exact h.opened k ((pending k).mp other).1
  · intro k res' there
    refine h.result k res' ?_
    simp only [State.give, State.emit, UMap.lookup_erase_eq] at there
    split_ifs at there
    exact there
  · intro k task' written' there
    exact (ended _ _).mpr (h.ended k task' written' there)
  · intro k task' there written' no
    exact h.alive k task' there written' ((ended _ _).mp no)
  · exact h.distinct
  · exact h.below
  · intro e he task' same
    rw [log, List.mem_append, List.mem_singleton] at he
    rcases he with old | rfl
    · exact h.known e old task' same
    · cases same
  · exact h.nonneg
  · rw [log]
    refine h.timely.snoc fun _ => ⟨task, written, ?_, h.ended fd task written pipe, value⟩
    exact (h.held fd task).mpr ⟨.inr here, _, pipe⟩

theorem close (h : Handles s) (done : ¬ s.Pending fd) : Handles (s.close fd) := by
  have pipe (k : Int) (p : Pipe) : (s.close fd).pipes.lookup k = some p ↔
      k ≠ fd ∧ s.pipes.lookup k = some p := by
    simp only [State.close, UMap.lookup_erase_eq]
    split_ifs with same <;> simp [same]
  have other {k : Int} (pending : s.Pending k) : k ≠ fd := fun same => done (same ▸ pending)
  constructor
  · intro k task
    have same : (Runner.held (s.close fd).log) = Runner.held s.log := rfl
    rw [same, h.held]
    simp only [pipe]
    constructor
    · rintro ⟨pending, child, found⟩
      exact ⟨pending, child, other pending, found⟩
    · rintro ⟨pending, child, _, found⟩
      exact ⟨pending, child, found⟩
  · exact h.fdset
  · exact h.apart
  · intro k pending
    exact AList.mem_erase.mpr ⟨other pending, h.opened k pending⟩
  · intro k res found
    have pending : s.Pending k := .inr (AList.lookup_isSome.mp (Option.isSome_of_eq_some found))
    obtain ⟨task, written, here, same⟩ := h.result k res found
    exact ⟨task, written, (pipe _ _).mpr ⟨other pending, here⟩, same⟩
  · intro k task written found
    exact h.ended k task written ((pipe _ _).mp found).2
  · intro k task found
    exact h.alive k task ((pipe _ _).mp found).2
  · intro k k' p p' found found'
    exact h.distinct k k' p p' ((pipe _ _).mp found).2 ((pipe _ _).mp found').2
  · intro k p found
    exact h.below k p ((pipe _ _).mp found).2
  · exact h.known
  · intro k here
    exact h.nonneg k (AList.mem_erase.mp here).2
  · exact h.timely

end Handles

end TiojJudge.Runner
