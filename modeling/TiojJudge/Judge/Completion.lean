import Mathlib.Data.Finset.Max
import Mathlib.Data.Fintype.EquivFin
import Mathlib.Data.Prod.Lex
import TiojJudge.Judge.Accounting
import TiojJudge.Judge.Faults
import TiojJudge.Judge.Refinement

/-!
# The loop runs to its end

* `orderly`: what is pushed, and that every `RunTask` succeeds;
* `FilesFound`: the files that a setup needs are there;
* `goes_on`: then no enabled step faults, unless `SetupSummary` has to write a score
  that `ScoreToString` throws on; without the files it does;
* `State.work`, `run_bound`: every step that pushes nothing takes some of a bounded
  amount of work;
* `loop_completes`: where no step is left, nothing is.
-/

namespace TiojJudge.Judge
open TaskGraph Machine

def Label.isPush : Label → Bool
  | .push .. => true
  | _ => false

/-- Submissions come with new internal ids and with groups that exist, before the loop has
returned, and every `RunTask` succeeds. -/
def orderly (s : State) : Label → Prop
  | .push sub maxQueue =>
    freshId s (.push sub maxQueue) ∧ GroupsIndexed sub ∧ s.phase ≠ .returned
  | .dispatch _ handle _ => handle ≠ -1
  | _ => True

instance (s : State) : DecidablePred (orderly s)
  | .push .. | .wake | .dispatch .. | .block | .result .. | .exit => by
    unfold orderly
    infer_instance

/-- `SetupSummary` can write the scores of every submission whose summary is next. -/
def SummariesWritable (s : State) : Prop :=
  ∀ tid ∈ s.graph.queue, ∀ n ∈ s.graph.find tid, n.data.task = .summary →
    ∀ entry ∈ s.submissionList.lookup n.data.submissionInternalId, Writable entry.sub entry.result

instance : DecidablePred SummariesWritable := fun s => by
  unfold SummariesWritable
  infer_instance

/-- The files that a setup needs are there when its task is dispatched. -/
def FilesFound (s : State) : Label → Prop
  | .dispatch tid _ files => ∀ n ∈ s.graph.find tid,
    ∀ entry ∈ s.submissionList.lookup n.data.submissionInternalId,
      n.data.task.Complete (s.ctx entry) files
  | _ => True

instance (s : State) : DecidablePred (FilesFound s)
  | .push .. | .wake | .dispatch .. | .block | .result .. | .exit => by
    unfold FilesFound
    infer_instance

theorem found_empty (s : State) (tid : Nat) (handle : Int) :
    FilesFound s (.dispatch tid handle .empty) :=
  fun _ _ _ _ => complete_empty _ _

variable {cfg : Config} {s t : State} {held : List Nat}

theorem orderly_freshId (h : (judge cfg).Reach orderly s) : (judge cfg).Reach freshId s := by
  apply h.weaken
  intro a l hl
  cases l with
  | push => exact hl.1
  | _ => trivial

theorem orderly_handles (h : (judge cfg).Reach orderly s) : (judge cfg).Reach noSecondFailure s := by
  apply h.weaken
  intro a l hl
  cases l with
  | dispatch => exact fun failed => absurd failed hl
  | _ => trivial

theorem Reports.not_enqueued {k id : Int} {es : List Event} {sub : Submission} {base : Nat}
    (h : Reports k es) : .enqueued id sub base ∉ es := by
  intro he
  obtain ⟨_, source, _⟩ := h _ he
  cases source

/-- Only a push enqueues. -/
theorem step_enqueues {l : Label} (h : Step cfg s l t) {id : Int} {sub : Submission} {base : Nat}
    (enq : .enqueued id sub base ∈ t.log) :
    .enqueued id sub base ∈ s.log ∨ ∃ pushed maxQueue, l = .push pushed maxQueue ∧
      sub = pushed.clamp := by
  cases h with
  | refused | wake | block | exit => exact .inl enq
  | push =>
    simp only [supersede_log, enqueue_log, List.mem_append, List.mem_singleton, List.mem_map,
      reduceCtorEq, and_false, exists_false, or_false, Event.enqueued.injEq] at enq
    exact enq.imp_right fun same => ⟨_, _, rfl, same.2.1⟩
  | launch _ _ _ ready =>
    have reports : Event.enqueued id sub base ∉ _ := (setup_reports rfl ready).2.not_enqueued
    exact .inl (by simpa [reports] using enq)
  | skip _ _ _ ready done =>
    have before : Event.enqueued id sub base ∉ _ := (setup_reports rfl ready).2.not_enqueued
    have after : Event.enqueued id sub base ∉ _ := (finalize_reports rfl done).2.not_enqueued
    exact .inl (by simpa [before, after] using enq)
  | result _ _ _ _ done =>
    have after : Event.enqueued id sub base ∉ _ := (finalize_reports rfl done).2.not_enqueued
    exact .inl (by simpa [after] using enq)

/-- The groups of every submission exist. -/
theorem orderly_groups (h : (judge cfg).Reach orderly s) :
    ∀ id sub base, .enqueued id sub base ∈ s.log → GroupsIndexed sub := by
  apply h.invariant
  · intro id sub base enq
    cases enq
  · intro a l b _ groups cond step id sub base enq
    rcases step_enqueues (step_cases step) enq with old | ⟨pushed, maxQueue, rfl, rfl⟩
    · exact groups id sub base old
    · exact cond.2.1

/-! ## No step faults -/

section Ok

/-- The life that a task in the graph belongs to, and what the state has of it. -/
theorem Refined.entry {n : Node TaskInfo} (r : Refined cfg s held) (hn : n ∈ s.graph.nodes) :
    ∃ sub base l, .enqueued n.data.submissionInternalId sub base ∈ s.log ∧ sub.WellFormed ∧
      Life.Reachable cfg n.data.submissionInternalId base sub l ∧
      s.submissionList.lookup n.data.submissionInternalId = some ⟨l.ctx.sub, l.ctx.result⟩ ∧
      s.ctx ⟨l.ctx.sub, l.ctx.result⟩ = l.ctx.cleared ∧
      (n.id ∈ s.graph.queue → l.Ready n.data.task) ∧ (n.id ∈ held → n.data.task ∈ l.running) := by
  obtain ⟨sub, base, l, t, enq, wf, key, reach, shape, follows, ht, rfl, same⟩ := r.life hn
  have left := shape.summary_left wf ht
  refine ⟨sub, base, l, enq, wf, reach, (follows.listed left).1, follows.ctx shape key left, ?_, ?_⟩
  · intro queued
    exact follows.ready shape wf r.wired hn queued ht same
  · intro here
    have ident : n.id = l.ctx.sub.taskId base n.data.task := same.1
    exact (follows.running _ ht).mp (ident ▸ here)

/-- The files decide whether the setup of a task returns. -/
theorem dispatch_ok {tid : Nat} {handle : Int} {files : BoxFiles} (r : Refined cfg s held)
    (groups : ∀ id sub base, .enqueued id sub base ∈ s.log → GroupsIndexed sub)
    (writable : SummariesWritable s) (queued : tid ∈ s.graph.queue) :
    (∃ t, s.dispatchTask cfg tid handle files = .ok t) ↔
      FilesFound s (.dispatch tid handle files) := by
  obtain ⟨n, hn, rfl⟩ := r.wired.inv.known tid (.inl queued)
  have found := Graph.find_eq r.wired.inv.distinct hn
  obtain ⟨sub, base, l, enq, wf, reach, listed, ctx, ready, _⟩ := r.entry hn
  have ready := ready queued
  have next : n.data.task = .summary → Writable sub l.ctx.result := by
    intro last
    have := writable n.id queued n found last _ listed
    rwa [(Life.shape wf reach).same] at this
  have needs : FilesFound s (.dispatch n.id handle files) ↔
      n.data.task.Complete (s.ctx ⟨l.ctx.sub, l.ctx.result⟩) files := by
    simp only [FilesFound, found, listed, Option.mem_def, Option.some.injEq, forall_eq']
  rw [needs]
  constructor
  · rintro ⟨t, step⟩
    by_contra missing
    have thrown := Life.setup_throws wf reach ready (ctx ▸ missing)
    rw [← ctx] at thrown
    simp only [State.dispatchTask, found, listed, thrown, reduceCtorEq] at step
  · intro complete
    obtain ⟨launch, c, setup⟩ := Life.setup_ok wf reach ready next (ctx ▸ complete)
    cases launch with
    | true =>
      rw [← ctx] at setup
      unfold State.dispatchTask
      simp only [found, listed, setup]
      exact ⟨_, rfl⟩
    | false =>
      obtain ⟨c', done⟩ := Life.skip_ok wf (groups _ sub base enq) reach setup (s.start n c).queueSize
      rw [← ctx] at setup
      unfold State.dispatchTask
      simp only [found, listed, setup]
      unfold State.finalizeTask
      have again : (s.start n c).graph.find n.id = some n := found
      rw [again]
      simp only [start_lookup, start_ctx]
      have done : finalize cfg { c with log := [] } (s.start n c).queueSize n.data.task none = .ok c' :=
        done
      rw [done]
      exact ⟨_, rfl⟩

theorem result_ok {handle : Int} {o : TaskOutcome} (r : Refined cfg s held)
    (groups : ∀ id sub base, .enqueued id sub base ∈ s.log → GroupsIndexed sub)
    (known : (s.handleMap.lookup handle).isSome = true) :
    ∃ t, s.resultTask cfg handle o = .ok t := by
  obtain ⟨tid, handled⟩ := Option.isSome_iff_exists.mp known
  have value : tid ∈ UMap.values s.handleMap :=
    (UMap.values_erase handled).mem_iff.mpr List.mem_cons_self
  have here : tid ∈ held := r.wired.handles.subset value
  obtain ⟨n, hn, rfl⟩ := r.wired.inv.known tid (.inr here)
  obtain ⟨sub, base, l, enq, wf, reach, listed, ctx, _, running⟩ := r.entry hn
  obtain ⟨c, done⟩ := Life.finalize_ok wf (groups _ sub base enq) reach (running here)
    (s.returned handle).queueSize o
  rw [← ctx] at done
  unfold State.resultTask State.finalizeTask
  have found : (s.returned handle).graph.find n.id = some n :=
    Graph.find_eq r.wired.inv.distinct hn
  have listed : (s.returned handle).submissionList.lookup n.data.submissionInternalId =
      some ⟨l.ctx.sub, l.ctx.result⟩ := listed
  have done : finalize cfg ((s.returned handle).ctx ⟨l.ctx.sub, l.ctx.result⟩)
      (s.returned handle).queueSize n.data.task (some o) = .ok c := done
  simp only [handled, found, listed, done]
  exact ⟨_, rfl⟩

end Ok

/-- Every step that the loop comes to is taken, but for the setup of a task that misses a file. -/
def GoesOn (cfg : Config) (s : State) : Prop :=
  ∀ l, Enabled cfg s l → l.isPush = false →
    ((∃ t, (judge cfg).step s l = some t) ↔ FilesFound s l)

theorem goes_on (par : 1 ≤ cfg.kMaxParallel) (h : (judge cfg).Reach orderly s)
    (writable : SummariesWritable s) : GoesOn cfg s := by
  intro l enabled quiet
  obtain ⟨held, r⟩ := refined (orderly_freshId h)
  have groups := orderly_groups h
  have ok : (∃ t, perform cfg s l = .ok t) ↔ FilesFound s l := by
    cases l with
    | push => cases quiet
    | wake | block | exit => exact ⟨fun _ => trivial, fun _ => ⟨_, rfl⟩⟩
    | dispatch tid handle files => exact dispatch_ok r groups writable enabled.2.2.1.1
    | result handle o =>
      refine ⟨fun _ => trivial, fun _ => ?_⟩
      exact result_ok r groups ((handles_sound par (orderly_handles h)).lookup enabled.1 handle o
        enabled.2)
  rw [← ok]
  exact exists_congr fun t => judge_step.trans (and_iff_right enabled)

/-! ## What is left when nothing is ready -/

/-- Links go up in rank, over all submissions. -/
theorem Refined.ranked (r : Refined cfg s held) :
    s.graph.Ranked fun info => Submission.rank info.task := by
  intro n hn m hm edge
  obtain ⟨sub, base, l, t, enq, wf, key, reach, shape, follows, ht, task, same⟩ := r.life hn
  rw [same.2.2, shape.same] at edge
  simp only [Submission.planNode, outEdges, List.mem_map, List.mem_filter, decide_eq_true_eq] at edge
  obtain ⟨⟨a, b⟩, ⟨link, rfl⟩, ident⟩ := edge
  have link := (Submission.mem_planLinks wf).mp link
  obtain ⟨k, hk, target⟩ := follows.todo b (shape.after _ b link ht).1
  have here : k.id = sub.taskId base b := by
    rw [target.1, shape.same]
    rfl
  obtain rfl : k = m := eq_of_id r.wired.inv.distinct hk hm (here.trans ident)
  have data : k.data.task = b := by
    rw [target.2.1]
    rfl
  have low : Submission.rank a < Submission.rank b := link.rank_lt wf
  rw [← data, ← show n.data.task = a from task] at low
  exact low

theorem nodes_nil (par : 1 ≤ cfg.kMaxParallel) (h : (judge cfg).Reach orderly s)
    (queue : s.graph.queue = []) (idle : s.taskRunning = 0) : s.graph.nodes = [] := by
  obtain ⟨_, r⟩ := refined (orderly_freshId h)
  obtain ⟨running, held, w, perm⟩ := running_wired par (orderly_handles h)
  have none : UMap.values s.handleMap = [] := by
    have count := running.count
    rw [idle] at count
    exact List.length_eq_zero_iff.mp (by omega)
  rw [none] at perm
  rw [List.nil_perm.mp perm] at w
  exact Graph.nodes_eq_nil w.inv r.ranked queue

/-- Nothing is left when the loop returns. -/
theorem returned_nil (par : 1 ≤ cfg.kMaxParallel) (h : (judge cfg).Reach orderly s) :
    s.phase = .returned → s.graph.nodes = [] := by
  apply h.invariant
  · intro no
    cases no
  · intro a l b reach left cond step
    cases step_cases step with
    | refused => exact left
    | push =>
      intro returned
      exact absurd returned cond.2.2
    | wake | block =>
      intro no
      cases no
    | launch enabled =>
      intro returned
      have working : a.phase = .returned := returned
      rw [enabled.1] at working
      cases working
    | skip enabled =>
      intro returned
      rw [settle_phase, start_phase, enabled.1] at returned
      cases returned
    | result =>
      intro no
      cases no
    | exit enabled =>
      intro _
      have empty := nodes_nil par reach enabled.2.2 enabled.2.1
      exact empty

/-! ## The work that is left -/

/-- A task is dispatched and finalized; `block` and `result` go round the loop. -/
def State.work (s : State) : Nat :=
  3 * s.graph.nodes.length - (UMap.values s.handleMap).length +
    match s.phase with
    | .waiting => if s.graph.queue = [] then 0 else 3
    | .working => 2
    | .blocked => 1
    | .returned => 0

/-- Every task that is running is in the graph. -/
theorem Wired.handles_le (w : Wired s held) :
    (UMap.values s.handleMap).length ≤ s.graph.nodes.length := by
  have once : held.Nodup := by
    apply List.nodup_iff_count_le_one.mpr
    intro tid
    by_cases here : tid ∈ held
    · obtain ⟨n, hn, rfl⟩ := w.inv.known tid (.inr here)
      have counted := w.inv.ready n hn
      split at counted <;> omega
    · rw [List.count_eq_zero_of_not_mem here]
      exact Nat.zero_le 1
  have inside : held ⊆ s.ids := by
    intro tid here
    obtain ⟨n, hn, rfl⟩ := w.inv.known tid (.inr here)
    exact List.mem_map_of_mem hn
  have held_le := (List.subperm_of_subset once inside).length_le
  rw [State.ids, List.length_map] at held_le
  exact w.handles.length_le.trans held_le

/-- Every step but a push takes some of the work. -/
theorem Step.work_lt {l : Label} (h : Step cfg s l t) (w : Wired s held) (fresh : freshHandle s l)
    (quiet : l.isPush = false) : t.work < s.work := by
  have bound := w.handles_le
  cases h with
  | refused | push => cases quiet
  | wake waiting queued =>
    simp only [State.work, waiting, queued, if_false]
    omega
  | @launch n handle _ _ c enabled found =>
    have some_ := List.length_pos_of_mem (Graph.find_mem found).1
    have more : (UMap.values ((s.start n c).launch n.id n.data handle).handleMap).length =
        (UMap.values s.handleMap).length + 1 :=
      congrArg (List.length ∘ (n.id :: ·)) (UMap.values_erase_of_notMem fresh)
    have nodes : ((s.start n c).launch n.id n.data handle).graph.nodes = s.graph.nodes := rfl
    have phase : ((s.start n c).launch n.id n.data handle).phase = .working := enabled.1
    simp only [State.work, more, nodes, phase, enabled.1]
    omega
  | @skip n _ _ _ c c' enabled found =>
    have fewer := Graph.remove_length w.inv.distinct (Graph.find_mem found).1
    have nodes : ((s.start n c).settle n none c').graph.nodes = (s.graph.remove n).nodes := by
      rw [settle_graph, Graph.remove_nodes, Graph.remove_nodes]
      rfl
    simp only [State.work, nodes, settle_handleMap, start_handleMap, settle_phase, start_phase,
      enabled.1]
    omega
  | block enabled =>
    simp only [State.work, enabled.1]
    omega
  | @result n handle o _ c enabled handled found =>
    have fewer := Graph.remove_length w.inv.distinct (Graph.find_mem found).1
    have less := (UMap.values_erase handled).length_eq
    rw [List.length_cons] at less
    have nodes : ((s.returned handle).settle n (some o) c).resume.graph.nodes =
        (s.graph.remove n).nodes := by
      rw [resume_graph, settle_graph]
      rfl
    have handles : ((s.returned handle).settle n (some o) c).resume.handleMap =
        s.handleMap.erase handle := by
      rw [resume_handleMap, settle_handleMap]
      rfl
    have phase : ((s.returned handle).settle n (some o) c).resume.phase = .working := rfl
    simp only [State.work, nodes, handles, phase, enabled.1]
    omega
  | exit enabled =>
    by_cases again : cfg.loop = true <;> simp [State.work, again, enabled.1, enabled.2.2]

/-- What the loop does when nothing more is pushed. -/
def unpushed (s : State) (l : Label) : Prop := orderly s l ∧ l.isPush = false

instance : DecidableRel unpushed := fun s l => by
  unfold unpushed
  infer_instance

/-- The work is an upper bound of the steps that are left. -/
theorem run_bound (par : 1 ≤ cfg.kMaxParallel) (h : (judge cfg).Reach orderly s) {ls : List Label}
    (run : Run (judge cfg) unpushed s ls t) : ls.length + t.work ≤ s.work := by
  induction run with
  | nil =>
    rw [List.length_nil]
    omega
  | @snoc ls a l b run cond step ih =>
    have reach : (judge cfg).Reach orderly a := h.run (run.weaken fun _ _ cond => cond.1)
    obtain ⟨running, held, w, _⟩ := running_wired par (orderly_handles reach)
    have fresh : freshHandle a l := by
      apply running.fresh (judge_step.mp step).1
      cases l with
      | dispatch => exact fun failed => absurd failed cond.1
      | _ => trivial
    have less := (step_cases step).work_lt w fresh cond.2
    rw [List.length_append, List.length_singleton]
    omega

/-! ## Steps that are possible -/

/-- What `operator<` compares. -/
def TaskInfo.key (x : TaskInfo) : ℤ ×ₗ ℤ ×ₗ ℤ :=
  toLex (x.priority, toLex (-x.submissionInternalId, -x.taskOrder))

theorem less_iff {x y : TaskInfo} : x.less y = true ↔ x.key < y.key := by
  simp only [TaskInfo.less, TaskInfo.key, Prod.Lex.lt_iff, ofLex_toLex, decide_eq_true_eq, neg_inj]

/-- `task_queue.top()` is there. -/
theorem exists_top (queued : s.graph.queue ≠ []) : ∃ tid, s.IsTop tid := by
  have nonempty : s.graph.queue.toFinset.Nonempty := by
    obtain ⟨tid, here⟩ := List.exists_mem_of_ne_nil _ queued
    exact ⟨tid, List.mem_toFinset.mpr here⟩
  obtain ⟨top, here, most⟩ := Finset.exists_max_image s.graph.queue.toFinset
    (fun tid => ((s.graph.find tid).map fun n => n.data.key).getD (toLex (0, toLex (0, 0)))) nonempty
  refine ⟨top, List.mem_toFinset.mp here, fun tid queued => ?_⟩
  have below := most tid (List.mem_toFinset.mpr queued)
  unfold State.less
  split
  · rename_i m n hm hn
    rw [hm, hn] at below
    apply Bool.eq_false_iff.mpr
    intro less
    exact absurd below (not_le.mpr (less_iff.mp less))
  · rfl

/-- `RunTask` has a handle to return. -/
theorem exists_handle (running : List Int) : ∃ handle : Int, 0 ≤ handle ∧ handle ∉ running := by
  obtain ⟨k, unused⟩ := Infinite.exists_notMem_finset (running.map Int.toNat).toFinset
  refine ⟨k, Int.natCast_nonneg k, fun here => unused ?_⟩
  exact List.mem_toFinset.mpr (List.mem_map.mpr ⟨k, here, Int.toNat_natCast k⟩)

/-- The inner loop goes on until there is nothing to dispatch and nothing to wait for. -/
theorem exists_enabled (busy : s.phase = .working ∨ s.phase = .blocked) :
    ∃ l : Label, l.isPush = false ∧ Enabled cfg s l ∧ FilesFound s l := by
  rcases busy with working | blocked
  · by_cases queued : s.graph.queue = []
    · by_cases idle : s.taskRunning = 0
      · exact ⟨.exit, rfl, ⟨working, idle, queued⟩, trivial⟩
      · exact ⟨.block, rfl, ⟨working, .inl idle, fun full => full.2 queued⟩, trivial⟩
    · by_cases room : s.taskRunning < cfg.kMaxParallel
      · obtain ⟨tid, top⟩ := exists_top queued
        obtain ⟨handle, unused⟩ := exists_handle s.running
        exact ⟨.dispatch tid handle .empty, rfl, ⟨working, room, top, .inr unused⟩, found_empty s tid handle⟩
      · exact ⟨.block, rfl, ⟨working, .inr queued, fun full => room full.1⟩, trivial⟩
  · by_cases idle : s.running = []
    · exact ⟨.result (-1) ⟨.zero, .empty⟩, rfl, ⟨blocked, .inr ⟨idle, rfl, rfl⟩⟩, trivial⟩
    · obtain ⟨handle, here⟩ := List.exists_mem_of_ne_nil _ idle
      exact ⟨.result handle ⟨.zero, .empty⟩, rfl, ⟨blocked, .inl here⟩, trivial⟩

/-- Only a push is possible, whatever files are there. -/
def Stuck (cfg : Config) (s : State) : Prop :=
  ∀ l t, (judge cfg).step s l = some t → l.isPush = true

theorem stuck_nil (par : 1 ≤ cfg.kMaxParallel) (h : (judge cfg).Reach orderly s)
    (writable : SummariesWritable s) (stuck : Stuck cfg s) : s.graph.nodes = [] := by
  have moves {l : Label} (quiet : l.isPush = false) (enabled : Enabled cfg s l)
      (found : FilesFound s l) : False := by
    obtain ⟨t, step⟩ := (goes_on par h writable l enabled quiet).mpr found
    rw [stuck l t step] at quiet
    cases quiet
  have busy (busy : s.phase = .working ∨ s.phase = .blocked) : False := by
    obtain ⟨l, quiet, enabled, found⟩ := exists_enabled busy
    exact moves quiet enabled found
  cases phase : s.phase with
  | waiting =>
    have queue : s.graph.queue = [] := by
      by_contra queued
      exact @moves .wake rfl ⟨phase, queued⟩ trivial
    have running := (running_wired par (orderly_handles h)).1
    exact nodes_nil par h queue (running.idle (.inl phase))
  | working => exact (busy (.inl phase)).elim
  | blocked => exact (busy (.inr phase)).elim
  | returned => exact returned_nil par h phase

end TiojJudge.Judge
