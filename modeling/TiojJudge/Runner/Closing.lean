import TiojJudge.Runner.Results

/-!
# Result pipes are closed

The read end of a result pipe is closed when its result is returned, by each of the
two overloads of `WaitAnyResult`. The second one has two ways to return a result, and
only the loop closes the handle.

* `closing`: the machine with a note of the read ends that were closed;
* `Closing`: open are the handles of `running` and `finished`, closed those returned;
* `closing_step`: a step keeps this if and only if it is `loops`;
* `closed_when_returned`: so it is with runs.
-/

namespace TiojJudge.Runner
open Machine
open Judge (CjailResult)

/-- The read ends that the step closes. -/
def closedBy (s t : State) : List Int := s.pipes.keys.filter fun fd => fd ∉ t.pipes

/-- The machine with all that were closed, in order. -/
def closing (cfg : Config) : Machine (State × List Int) Label :=
  (runner cfg).noted [] fun closed s _ t => closed ++ closedBy s t

/-- The handle that was returned; `-1` is none. -/
def Event.result? : Event → Option Int
  | .returned handle _ => if handle = -1 then none else some handle
  | _ => none

/-- The handles that were returned, in order. -/
def returnedHandles (log : List Event) : List Int := log.filterMap Event.result?

structure Closing (s : State) (closed : List Int) : Prop where
  opened : ∀ fd, fd ∈ s.pipes ↔ fd ∈ s.running.keys ∨ fd ∈ s.finished
  closed : closed = returnedHandles s.log

/-- A call for some handles has to wait: none of them is in `finished`. -/
def loops (s : State) : Label → Prop
  | .waitList handles => s.firstFinished handles = none
  | .run _ | .exit .. | .waitAny _ | .round => True

instance (s : State) : DecidablePred (loops s)
  | .run _ | .exit .. | .waitAny _ | .waitList _ | .round => by
    unfold loops
    infer_instance

variable {cfg : Config} {s t : State} {fd : Int} {closed : List Int}

/-! ## What is closed -/

theorem closedBy_none (kept : ∀ fd ∈ s.pipes, fd ∈ t.pipes) : closedBy s t = [] := by
  rw [closedBy, List.filter_eq_nil_iff]
  intro fd here
  simp [kept fd (AList.mem_keys.mpr here)]

theorem closedBy_erase (here : fd ∈ s.pipes) (pipes : t.pipes = s.pipes.erase fd) :
    closedBy s t = [fd] := by
  have only : closedBy s t = s.pipes.keys.filter (· == fd) := by
    refine List.filter_congr fun k mem => ?_
    have there : k ∈ s.pipes := AList.mem_keys.mpr mem
    rw [pipes, beq_eq_decide]
    simp [AList.mem_erase, there]
  rw [only, List.filter_beq, List.count_eq_one_of_mem s.pipes.keys_nodup (AList.mem_keys.mp here)]
  rfl

theorem closedBy_congr {u : State} (pipes : u.pipes = s.pipes) : closedBy u t = closedBy s t := by
  rw [closedBy, closedBy, pipes]

namespace Closing

theorem init : Closing .init [] := ⟨by simp [State.init, OrdMap.keys], rfl⟩

/-- Nothing is opened, closed or returned. -/
theorem same (c : Closing s closed) (running : t.running.keys = s.running.keys)
    (finished : t.finished = s.finished) (pipes : ∀ fd, fd ∈ t.pipes ↔ fd ∈ s.pipes)
    (log : returnedHandles t.log = returnedHandles s.log) :
    Closing t (closed ++ closedBy s t) := by
  refine ⟨fun fd => ?_, ?_⟩
  · rw [pipes, running, finished]
    exact c.opened fd
  · rw [closedBy_none fun fd => (pipes fd).mpr, List.append_nil, log]
    exact c.closed

theorem launch (c : Closing s closed) (worker : Worker) :
    Closing (s.launch fd worker) (closed ++ closedBy s (s.launch fd worker)) := by
  refine ⟨fun k => ?_, ?_⟩
  · simp only [State.launch, State.emit, AList.mem_insert, OrdMap.mem_keys_insert, c.opened, or_assoc]
  · rw [closedBy_none fun k here => (AList.mem_insert _).mpr (.inr here), List.append_nil, c.closed]
    simp [State.launch, State.emit, returnedHandles, Event.result?]

theorem wait (c : Closing s closed) : Closing s.wait closed := by
  refine ⟨fun k => ?_, ?_⟩
  · rw [wait_pipes, c.opened]
    exact wait_pending.symm
  · rw [wait_log]
    exact c.closed

/-- A result goes to the caller, and its handle is closed with it. -/
theorem giveClose {res : CjailResult} (c : Closing s closed) (handles : Handles s)
    (found : s.finished.lookup fd = some res) :
    Closing ((s.give fd res).close fd) (closed ++ closedBy s ((s.give fd res).close fd)) := by
  have here : fd ∈ s.finished := AList.lookup_isSome.mp (Option.isSome_of_eq_some found)
  have stopped : fd ∉ s.running.keys := fun running => handles.apart fd running here
  have nonneg : fd ≠ -1 := by
    have := handles.nonneg fd (handles.opened fd (.inr here))
    omega
  refine ⟨fun k => ?_, ?_⟩
  · simp only [State.close, State.give, State.emit, AList.mem_erase, c.opened]
    constructor
    · rintro ⟨other, running | finished⟩
      · exact .inl running
      · exact .inr ⟨other, finished⟩
    · rintro (running | ⟨other, finished⟩)
      · exact ⟨fun same => stopped (same ▸ running), .inl running⟩
      · exact ⟨other, .inr finished⟩
  · rw [closedBy_erase (handles.opened fd (.inr here)) rfl, c.closed]
    simp [State.close, State.give, State.emit, returnedHandles, Event.result?, nonneg]

/-- A result goes to the caller, and its handle stays open. -/
theorem not_give {res : CjailResult} (c : Closing s closed) (handles : Handles s)
    (found : s.finished.lookup fd = some res) (closed' : List Int) :
    ¬ Closing (s.give fd res) closed' := by
  have here : fd ∈ s.finished := AList.lookup_isSome.mp (Option.isSome_of_eq_some found)
  intro broken
  rcases (broken.opened fd).mp ((c.opened fd).mpr (.inr here)) with running | again
  · exact handles.apart fd running here
  · exact (AList.mem_erase.mp again).1 rfl

end Closing

/-! ## Steps and runs -/

theorem Closing.collected (c : Closing s closed) : Closing s.collected closed := by
  unfold State.collected
  split
  · exact c.wait
  · exact c

theorem collected_pipes (s : State) : s.collected.pipes = s.pipes := by
  unfold State.collected
  split
  · exact wait_pipes s
  · rfl

theorem Closing.exit {written : Option CjailResult} (c : Closing s closed)
    (h : s.exit fd written = some t) : Closing t (closed ++ closedBy s t) := by
  unfold State.exit at h
  split at h
  · rename_i task here
    cases h
    have open_ : fd ∈ s.pipes := AList.lookup_isSome.mp (Option.isSome_of_eq_some here)
    refine c.same rfl rfl (fun k => ?_) ?_
    · simp only [State.emit, AList.mem_insert]
      exact or_iff_right_of_imp fun same => same ▸ open_
    · simp [State.emit, returnedHandles, Event.result?]
  · cases h

/-- A step keeps the read ends right unless it is a call that finds its result in `finished`. -/
theorem closing_step {l : Label} (c : Closing s closed) (inv : Inv cfg s)
    (h : (runner cfg).step s l = some t) : Closing t (closed ++ closedBy s t) ↔ loops s l := by
  obtain ⟨enabled, h⟩ := step_iff.mp h
  have nothing : Closing (s.emit (.returned (-1) .zero))
      (closed ++ closedBy s (s.emit (.returned (-1) .zero))) := by
    refine c.same rfl rfl (fun _ => Iff.rfl) ?_
    simp [State.emit, returnedHandles, Event.result?]
  cases l with
  | run spawn =>
    refine iff_of_true ?_ trivial
    obtain ⟨running, finished, pipes, _, log⟩ := prepared_frame cfg s
    have ready : Closing (s.prepared cfg) closed :=
      ⟨by rw [pipes, running, finished]; exact c.opened, by rw [log]; exact c.closed⟩
    rw [← closedBy_congr pipes]
    cases runTask_iff.mp h with
    | noPipe | noFork =>
      refine ready.same rfl rfl (fun _ => Iff.rfl) ?_
      simp [State.emit, returnedHandles, Event.result?]
    | child =>
      have taken : Closing { s.prepared cfg with
          uidPool := (s.prepared cfg).uidPool.dropLast
          cpuidPool := (s.prepared cfg).cpuidPool.dropLast } closed := ⟨ready.opened, ready.closed⟩
      exact taken.launch _
  | exit fd written => exact iff_of_true (c.exit h) trivial
  | waitAny handle =>
    refine iff_of_true ?_ trivial
    rcases waitAny_cases h with ⟨_, _, _, rfl⟩ | ⟨res, found, rfl⟩
    · exact nothing
    · rw [← closedBy_congr (collected_pipes s)]
      exact c.collected.giveClose inv.collected.handles found
  | waitList handles =>
    cases h
    rw [loops]
    unfold State.waitList
    cases first : s.firstFinished handles with
    | some found =>
      refine iff_of_false ?_ (Option.some_ne_none _)
      exact c.not_give inv.handles (firstFinished_lookup first) _
    | none =>
      refine iff_of_true ?_ rfl
      dsimp only
      split
      · exact c.same rfl rfl (fun _ => Iff.rfl) rfl
      · exact nothing
  | round =>
    refine iff_of_true ?_ trivial
    obtain ⟨handles, _, h⟩ := Option.bind_eq_some_iff.mp h
    unfold State.round at h
    split at h
    · cases h
    · dsimp only at h
      rw [← closedBy_congr (wait_pipes s)]
      split at h
      · rename_i first
        cases h
        have given := c.wait.giveClose inv.wait.handles (firstFinished_lookup first)
        exact ⟨given.opened, given.closed⟩
      · cases h
        exact c.wait.same rfl rfl (fun _ => Iff.rfl) rfl

theorem noted_inv {P : State × List Int → Label → Prop} (h : (closing cfg).Reach P (s, closed)) :
    Inv cfg s :=
  h.noted_invariant (I := fun s _ => Inv cfg s) ⟨.init, .init⟩ fun _ _ _ _ inv _ step => inv.step step

/-- As long as each call for some handles has to wait. -/
theorem closing_of_loops {n : State × List Int}
    (h : (closing cfg).Reach (fun p l => loops p.1 l) n) : Closing n.1 n.2 := by
  have both : Inv cfg n.1 ∧ Closing n.1 n.2 :=
    h.noted_invariant (I := fun s closed => Inv cfg s ∧ Closing s closed)
      ⟨⟨.init, .init⟩, .init⟩ fun _ _ _ _ ih calm step =>
        ⟨ih.1.step step, (closing_step ih.2 ih.1 step).mpr calm⟩
  exact both.2

/-- In every state of a run the open read ends are those of `running` and `finished`, and the
closed ones those that were returned, if and only if each call for some handles had to wait. -/
theorem closed_when_returned {ls : List Label} {n : State × List Int}
    (run : (closing cfg).Run anyStep (closing cfg).init ls n) :
    (∀ before after mid, ls = before ++ after →
      (closing cfg).Run anyStep (closing cfg).init before mid → Closing mid.1 mid.2) ↔
    (closing cfg).Run (fun p l => loops p.1 l) (closing cfg).init ls n := by
  constructor
  · intro all
    induction run with
    | nil => exact .nil
    | @snoc ls a l b run any made ih =>
      have calm := ih fun before after mid split => all before (after ++ [l]) mid (by simp [split])
      have early := all ls [l] a rfl run
      have late := all (ls ++ [l]) [] b (by simp) (.snoc run any made)
      obtain ⟨step, closed⟩ := noted_step.mp made
      rw [closed] at late
      exact .snoc calm ((closing_step early (noted_inv ⟨ls, run⟩) step).mp late) made
  · rintro calm before after mid rfl prior
    obtain ⟨mid', first, _⟩ := calm.split
    obtain rfl := prior.unique first
    exact closing_of_loops ⟨before, first⟩

/-- One task, and both ways to wait for it. -/
def oneTask : List Label :=
  [.run (.child 3 100), .exit 3 none, .waitList [3], .round]

theorem closed_when_returned_one :
    ∃ n, (closing ⟨1, fun _ => true⟩).exec (fun p l => loops p.1 l)
      (closing ⟨1, fun _ => true⟩).init oneTask = some n ∧ n.2 = [3] ∧ Closing n.1 n.2 := by
  have run : ((closing ⟨1, fun _ => true⟩).exec (fun p l => loops p.1 l)
      (closing ⟨1, fun _ => true⟩).init oneTask).map Prod.snd = some [3] := by decide +kernel
  obtain ⟨n, hn, closed⟩ := Option.map_eq_some_iff.mp run
  have calm := run_exec hn
  have all := (closed_when_returned (calm.weaken fun _ _ _ => trivial)).mpr calm
  exact ⟨n, hn, closed, all _ [] n (List.append_nil _).symm (calm.weaken fun _ _ _ => trivial)⟩

/-- The result of the second task is there when it is asked for, and its handle stays open. -/
def collectedTogether : List Label :=
  [.run (.child 3 100), .run (.child 4 101), .exit 3 none, .exit 4 none, .waitList [3], .round,
    .waitList [4]]

theorem left_open :
    ∃ n, (closing ⟨1, fun _ => true⟩).exec anyStep (closing ⟨1, fun _ => true⟩).init
        collectedTogether = some n ∧ returnedHandles n.1.log = [3, 4] ∧ n.2 = [3] ∧
      4 ∈ n.1.pipes ∧ ¬ Closing n.1 n.2 := by
  have run : ((closing ⟨1, fun _ => true⟩).exec anyStep (closing ⟨1, fun _ => true⟩).init
      collectedTogether).map (fun n => (returnedHandles n.1.log, n.2, decide (4 ∈ n.1.pipes))) =
        some ([3, 4], [3], true) := by decide +kernel
  obtain ⟨n, hn, seen⟩ := Option.map_eq_some_iff.mp run
  simp only [Prod.mk.injEq, decide_eq_true_eq] at seen
  obtain ⟨returned, closed, here⟩ := seen
  refine ⟨n, hn, returned, closed, here, fun right => ?_⟩
  have same := right.closed
  rw [returned, closed] at same
  cases same

end TiojJudge.Runner
