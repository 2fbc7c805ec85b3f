import TiojJudge.Judge.Steps

/-!
# The task graph of all submissions

`Wired s held`: `task_list` and `task_queue` keep the invariant of a dependency
graph, where `held` are the tasks that were dispatched and not finalized. Their
ids are the values of `handle_map` as long as no handle is given out twice.

* `Wired.step`, `wired`: every step keeps it, from the empty graph on;
* `graph_consistent`: with fresh handles the graph, the queue and `handle_map`
  agree in every reachable state.
-/

namespace TiojJudge.Judge
open TaskGraph Machine

def State.ids (s : State) : List Nat := s.graph.nodes.map Node.id

structure Wired (s : State) (held : List Nat) : Prop where
  inv : s.graph.Inv held
  below : ∀ tid ∈ s.ids, tid < s.taskCount
  handles : (UMap.values s.handleMap).Subperm held
  dispatched : ∀ tid, Dispatched tid s.log → tid < s.taskCount ∧ (tid ∈ s.ids → tid ∈ held)

/-- `RunTask` returns a handle that is no key of `handle_map`. -/
def freshHandle (s : State) : Label → Prop
  | .dispatch _ handle _ => handle ∉ s.handleMap
  | _ => True

instance (s : State) : DecidablePred (freshHandle s)
  | .push .. | .wake | .dispatch .. | .block | .result .. | .exit => by
    unfold freshHandle
    infer_instance

variable {cfg : Config} {s t : State} {held : List Nat}

theorem Wired.init : Wired .init [] where
  inv := .empty
  below := fun _ h => by cases h
  handles := .refl _
  dispatched := fun tid h => absurd h (dispatched_nil tid)

theorem wellFormed_clamp {sub : Submission} (exist : sub.clamp.probStageExists = true) :
    sub.clamp.WellFormed :=
  ⟨sub.clamp_stages, exist⟩

theorem mem_enqueue_ids {sub : Submission} {id submissionId : Int} {tid : Nat} :
    tid ∈ ((s.enqueue id sub).supersede submissionId id).ids ↔ tid ∈ s.ids ∨
      s.taskCount ≤ tid ∧ tid < s.taskCount + sub.planTasks.length := by
  simp only [State.ids, supersede_graph, State.enqueue, Graph.insertAll_eq, List.map_append, List.mem_append,
    Submission.mem_planNodes_ids]

theorem mem_remove_ids {g : Graph TaskInfo} {n : Node TaskInfo} {tid : Nat} :
    tid ∈ (g.remove n).nodes.map Node.id ↔ tid ∈ g.nodes.map Node.id ∧ tid ≠ n.id := by
  simp only [Graph.remove_nodes, List.map_map, List.mem_map, List.mem_filter, bne_iff_ne,
    Function.comp_apply, Graph.lower]
  constructor
  · rintro ⟨m, ⟨hm, other⟩, rfl⟩
    exact ⟨⟨m, hm, rfl⟩, other⟩
  · rintro ⟨⟨m, hm, rfl⟩, other⟩
    exact ⟨m, ⟨hm, other⟩, rfl⟩

/-- A new submission gets ids from `task_count` on. -/
theorem Wired.enqueue {sub : Submission} {id submissionId : Int} (w : Wired s held)
    (exist : sub.clamp.probStageExists = true) :
    Wired ((s.enqueue id sub.clamp).supersede submissionId id) held where
  inv := by
    refine w.inv.insertAll (Submission.planNodes_distinct id _) ?_
      (Submission.planNodes_closed (wellFormed_clamp exist) id _)
      (Submission.planNodes_indeg (wellFormed_clamp exist) id _)
    intro n hn m hm same
    have old := w.below _ (List.mem_map_of_mem hm)
    have new := (Submission.planNodes_bounds hn).1
    omega
  below := by
    intro tid h
    rcases mem_enqueue_ids.mp h with old | new
    · exact Nat.lt_add_right _ (w.below tid old)
    · exact new.2
  handles := w.handles
  dispatched := by
    intro tid h
    have earlier := w.dispatched tid (by simpa using h)
    refine ⟨Nat.lt_add_right _ earlier.1, fun here => ?_⟩
    rcases mem_enqueue_ids.mp here with old | new
    · exact earlier.2 old
    · omega

/-- The top is taken off the queue. -/
theorem Wired.start {n : Node TaskInfo} {c : Ctx} {id : Int} (w : Wired s held)
    (queued : n.id ∈ s.graph.queue) (hn : n ∈ s.graph.nodes) (reports : Reports id c.log) :
    Wired (s.start n c) (n.id :: held) where
  inv := w.inv.pop queued
  below := w.below
  handles := w.handles.trans (List.sublist_cons_self _ _).subperm
  dispatched := by
    intro tid h
    simp only [start_log, dispatched_append, dispatched_dispatching, dispatched_nil, or_false,
      reports.not_dispatched tid] at h
    rcases h with h | rfl
    · exact ⟨(w.dispatched tid h).1, fun here => .tail _ ((w.dispatched tid h).2 here)⟩
    · exact ⟨w.below _ (List.mem_map_of_mem hn), fun _ => .head _⟩

/-- A held task is finalized. -/
theorem Wired.settle {n : Node TaskInfo} {c : Ctx} {id : Int} {outcome : Option TaskOutcome}
    (w : Wired s (n.id :: held)) (hn : n ∈ s.graph.nodes) (reports : Reports id c.log)
    (handles : (UMap.values s.handleMap).Subperm held) : Wired (s.settle n outcome c) held where
  inv := by simpa using w.inv.finish hn
  below := by
    intro tid h
    simp only [State.ids, settle_graph] at h
    simpa using w.below tid (mem_remove_ids.mp h).1
  handles := by simpa using handles
  dispatched := by
    intro tid h
    have earlier := w.dispatched tid (by simpa [reports.not_dispatched tid] using h)
    refine ⟨by simpa using earlier.1, fun here => ?_⟩
    simp only [State.ids, settle_graph] at here
    obtain ⟨old, other⟩ := mem_remove_ids.mp here
    exact (List.mem_cons.mp (earlier.2 old)).resolve_left other

theorem Wired.launch {n : Node TaskInfo} {c : Ctx} {handle id : Int} (w : Wired s held)
    (queued : n.id ∈ s.graph.queue) (hn : n ∈ s.graph.nodes) (reports : Reports id c.log) :
    Wired ((s.start n c).launch n.id n.data handle) (n.id :: held) where
  inv := (w.start queued hn reports).inv
  below := w.below
  handles := (List.subperm_cons n.id).mpr
    ((UMap.values_erase_sublist s.handleMap handle).subperm.trans w.handles)
  dispatched := fun tid h => (w.start queued hn reports).dispatched tid (by simpa using h)

theorem Wired.returned {n : Node TaskInfo} {handle : Int} (w : Wired s held)
    (found : s.handleMap.lookup handle = some n.id) :
    Wired (s.returned handle) (n.id :: held.erase n.id) ∧
      (UMap.values (s.returned handle).handleMap).Subperm (held.erase n.id) := by
  have one := UMap.values_erase found
  have here : n.id ∈ held := w.handles.subset (one.mem_iff.mpr List.mem_cons_self)
  have split := List.perm_cons_erase here
  refine ⟨⟨w.inv.perm split, w.below, ?_, fun tid h => ?_⟩, ?_⟩
  · exact ((UMap.values_erase_sublist s.handleMap handle).subperm.trans w.handles).trans
      split.subperm
  · exact ⟨(w.dispatched tid h).1, fun here => split.mem_iff.mp ((w.dispatched tid h).2 here)⟩
  · simpa using (one.symm.subperm.trans w.handles).erase n.id

/-- A step keeps the graph in order, and with a fresh handle `handle_map` has
exactly the held tasks. -/
theorem Wired.step {l : Label} (w : Wired s held) (h : Step cfg s l t) :
    ∃ held', Wired t held' ∧
      (freshHandle s l → (UMap.values s.handleMap).Perm held →
        (UMap.values t.handleMap).Perm held') := by
  cases h with
  | refused => exact ⟨held, w, fun _ p => p⟩
  | push _ exist _ => exact ⟨held, w.enqueue exist, fun _ p => p⟩
  | wake | block | exit => exact ⟨held, ⟨w.inv, w.below, w.handles, w.dispatched⟩, fun _ p => p⟩
  | launch enabled found _ ready =>
    refine ⟨_, w.launch enabled.2.2.1.1 (Graph.find_mem found).1 (setup_reports rfl ready).2,
      fun fresh p => ?_⟩
    have kept := UMap.values_erase_of_notMem (m := s.handleMap) fresh
    exact (kept ▸ p).cons _
  | skip enabled found _ ready done =>
    have hn := (Graph.find_mem found).1
    have started := w.start enabled.2.2.1.1 hn (setup_reports rfl ready).2
    exact ⟨held, started.settle hn (finalize_reports rfl done).2 w.handles,
      fun _ p => by simpa using p⟩
  | @result n handle o _ c enabled handled found _ done =>
    obtain ⟨returned, rest⟩ := w.returned handled
    have settled : Wired ((s.returned handle).settle n (some o) c) (held.erase n.id) :=
      returned.settle (Graph.find_mem found).1 (finalize_reports rfl done).2 rest
    refine ⟨_, ⟨settled.inv, settled.below, settled.handles, settled.dispatched⟩, fun _ p => ?_⟩
    simpa using ((UMap.values_erase handled).symm.trans p).erase n.id

theorem wired {P : State → Label → Prop} (h : (judge cfg).Reach P s) : ∃ held, Wired s held :=
  h.invariant (I := fun s => ∃ held, Wired s held) ⟨[], .init⟩ fun _ _ _ _ ⟨_, w⟩ _ hs =>
    let ⟨held', w', _⟩ := w.step (step_cases hs)
    ⟨held', w'⟩

/-- `task_list`, `task_queue` and `handle_map` agree. -/
structure GraphConsistent (s : State) : Prop where
  distinct : (s.graph.nodes.map Node.id).Nodup
  edges : ∀ n ∈ s.graph.nodes, ∀ e ∈ n.edges, ∃ m ∈ s.graph.nodes, m.id = e
  indeg : ∀ n ∈ s.graph.nodes, n.indeg = inCount s.graph.nodes n.id
  ready : ∀ n ∈ s.graph.nodes, n.indeg = 0 ↔
    (s.graph.queue.count n.id = 1 ∧ (UMap.values s.handleMap).count n.id = 0) ∨
    (s.graph.queue.count n.id = 0 ∧ (UMap.values s.handleMap).count n.id = 1)
  known : ∀ i, i ∈ s.graph.queue ∨ i ∈ UMap.values s.handleMap → ∃ n ∈ s.graph.nodes, n.id = i

theorem graph_consistent (h : (judge cfg).Reach freshHandle s) : GraphConsistent s := by
  have both : ∃ held, Wired s held ∧ (UMap.values s.handleMap).Perm held := by
    refine h.invariant (I := fun s => ∃ held, Wired s held ∧ (UMap.values s.handleMap).Perm held)
      ⟨[], .init, .refl _⟩ fun _ _ _ _ ⟨_, w, p⟩ fresh hs => ?_
    obtain ⟨held', w', p'⟩ := w.step (step_cases hs)
    exact ⟨held', w', p' fresh p⟩
  obtain ⟨held, w, p⟩ := both
  have inv := w.inv.perm p.symm
  refine ⟨inv.distinct, inv.closed, inv.indeg, fun n hn => ?_, inv.known⟩
  have counted := inv.ready n hn
  split at counted <;> omega

/-- The compile task ran, and the only testdata is being executed. -/
theorem graph_consistent_while_executing :
    ∃ s, (judge (sampleConfig 2)).exec freshHandle .init
        ([.push (sampleSubmission 1 1 [sampleItem false [0]]) 0, .wake] ++ runAlone 3 goodOutcome ++
          [.dispatch 1 6 .empty]) = some s ∧
      s.graph.nodes.map Node.id = [1, 2, 0] ∧ GraphConsistent s := by
  have run : ((judge (sampleConfig 2)).exec freshHandle .init
      ([.push (sampleSubmission 1 1 [sampleItem false [0]]) 0, .wake] ++ runAlone 3 goodOutcome ++
        [.dispatch 1 6 .empty])).map (fun s => s.graph.nodes.map Node.id) = some [1, 2, 0] := by
    decide +kernel
  obtain ⟨s, hs, ids⟩ := Option.map_eq_some_iff.mp run
  exact ⟨s, hs, ids, graph_consistent (reach_exec hs)⟩

end TiojJudge.Judge
