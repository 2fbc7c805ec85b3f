import TiojJudge.Judge.Completion

/-!
# Whose turn it is

The order in which submissions are judged, as `task_queue` decides it.

* `no_overtaking`: a task is dispatched in front of those of a submission that
  comes first only while all that is ready of that one is running;
* `in_turn`: with one priority, submissions begin in the order of their ids, at
  most `kMaxParallel` of them are judged at a time, and one that ends leaves
  fewer than `kMaxParallel` behind that came before it.
-/

namespace TiojJudge.Judge
open TaskGraph Machine

/-- New internal ids, and `handle_map` has one failed task at most. -/
def careful (s : State) (l : Label) : Prop := freshId s l ∧ noSecondFailure s l

instance (s : State) : DecidablePred (careful s) := fun _ => inferInstanceAs (Decidable (_ ∧ _))

variable {cfg : Config} {s t : State} {held : List Nat} {x y : Int} {n : Node TaskInfo}
  {entry : SubmissionAndResult}

/-- Edges are between tasks of one submission. -/
theorem Refined.edge (r : Refined cfg s held) {m : Node TaskInfo} (hn : n ∈ s.graph.nodes)
    (hm : m ∈ s.graph.nodes) (edge : m.id ∈ n.edges) :
    m.data.submissionInternalId = n.data.submissionInternalId := by
  obtain ⟨sub, base, l, t, _, wf, _, _, shape, follows, ht, _, same⟩ := r.life hn
  rw [same.2.2, shape.same] at edge
  simp only [Submission.planNode, outEdges, List.mem_map, List.mem_filter, decide_eq_true_eq] at edge
  obtain ⟨⟨a, b⟩, ⟨link, rfl⟩, ident⟩ := edge
  have link := (Submission.mem_planLinks wf).mp link
  obtain ⟨k, hk, target⟩ := follows.todo b (shape.after _ b link ht).1
  have here : k.id = sub.taskId base b := by
    rw [target.1, shape.same]
    rfl
  obtain rfl : k = m := eq_of_id r.wired.inv.distinct hk hm (here.trans ident)
  rw [target.2.1]
  rfl

/-- The tasks of a submission have its priority. -/
theorem Refined.priority (r : Refined cfg s held) (hn : n ∈ s.graph.nodes)
    (listed : s.submissionList.lookup n.data.submissionInternalId = some entry) :
    n.data.priority = entry.sub.priority := by
  obtain ⟨sub, base, l, t, _, wf, key, _, shape, follows, _, _, same⟩ := r.life hn
  obtain ⟨_, rfl⟩ : ∃ left, entry = ⟨l.ctx.sub, left⟩ := by
    have left : .summary ∈ l.todo := by
      by_contra gone
      rw [(follows.gone gone).1] at listed
      cases listed
    rw [(follows.listed left).1] at listed
    exact ⟨l.ctx.result, (Option.some.inj listed).symm⟩
  rw [same.2.1]
  rfl

/-- A submission in the list has tasks that are not finalized. -/
theorem Refined.listed_node (r : Refined cfg s held) (listed : x ∈ s.submissionList) :
    ∃ n ∈ s.graph.nodes, n.data.submissionInternalId = x := by
  obtain ⟨sub, base, enq⟩ := enqueued_iff.mp (r.known.list x (AList.lookup_isSome.mpr listed))
  obtain ⟨l, _, follows⟩ := r.lives x sub base enq
  have left : .summary ∈ l.todo := by
    by_contra gone
    rw [← AList.lookup_isSome, (follows.gone gone).1] at listed
    cases listed
  obtain ⟨n, hn, same⟩ := follows.todo _ left
  refine ⟨n, hn, ?_⟩
  rw [same.2.1]
  rfl

theorem Refined.node_listed (r : Refined cfg s held) (hn : n ∈ s.graph.nodes) :
    n.data.submissionInternalId ∈ s.submissionList := by
  obtain ⟨_, _, _, _, _, _, listed, _⟩ := r.entry hn
  exact AList.lookup_isSome.mp (Option.isSome_of_eq_some listed)

theorem careful_freshId (h : (judge cfg).Reach careful s) : (judge cfg).Reach freshId s :=
  h.weaken fun _ _ hl => hl.1

theorem careful_handles (h : (judge cfg).Reach careful s) : (judge cfg).Reach noSecondFailure s :=
  h.weaken fun _ _ hl => hl.2

/-- A submission in the list has a task that is ready, or one that was launched and has not
returned. -/
theorem ready_or_launched (par : 1 ≤ cfg.kMaxParallel) (h : (judge cfg).Reach careful s)
    (listed : x ∈ s.submissionList) : ∃ m ∈ s.graph.nodes, m.data.submissionInternalId = x ∧
      (m.id ∈ s.graph.queue ∨ ∃ handle, s.handleMap.lookup handle = some m.id) := by
  obtain ⟨_, r⟩ := refined (careful_freshId h)
  obtain ⟨_, held, w, perm⟩ := running_wired par (careful_handles h)
  obtain ⟨n, hn, here⟩ := r.listed_node listed
  obtain ⟨m, hm, of, ready⟩ := Graph.exists_ready_among
    (fun info => info.submissionInternalId = x) w.inv r.ranked
    (fun n hn m hm edge of => (r.edge hn hm edge).symm.trans of) hn here
  refine ⟨m, hm, of, ready.imp_right fun here => ?_⟩
  obtain ⟨e, he, same⟩ := List.mem_map.mp (perm.mem_iff.mpr here)
  exact ⟨e.1, AList.mem_lookup_iff.mpr (same ▸ he)⟩

/-- `first` is on top of everything that is behind it. -/
theorem not_queued_ahead (r : Refined cfg s held) {tid : Nat} (top : s.IsTop tid)
    (found : s.graph.find tid = some n) (listed : s.submissionList.lookup x = some entry)
    (first : n.data.priority < entry.sub.priority ∨
      n.data.priority = entry.sub.priority ∧ x < n.data.submissionInternalId)
    {m : Node TaskInfo} (hm : m ∈ s.graph.nodes) (of : m.data.submissionInternalId = x) :
    m.id ∉ s.graph.queue := by
  intro queued
  subst of
  have behind := top.2 m.id queued
  rw [State.less, found, Graph.find_eq r.wired.inv.distinct hm] at behind
  simp only [TaskInfo.less, decide_eq_false_iff_not, r.priority hm listed] at behind
  refine behind (first.imp_right fun tie => ⟨tie.1, .inl ?_⟩)
  have := tie.2
  omega

/-- A task of `x` was launched and has not returned. -/
def State.Launched (s : State) (x : Int) : Prop :=
  ∃ handle, ∃ m ∈ s.graph.nodes,
    s.handleMap.lookup handle = some m.id ∧ m.data.submissionInternalId = x

theorem launched_ahead (par : 1 ≤ cfg.kMaxParallel) (h : (judge cfg).Reach careful s) {tid : Nat}
    (top : s.IsTop tid) (found : s.graph.find tid = some n)
    (listed : s.submissionList.lookup x = some entry)
    (first : n.data.priority < entry.sub.priority ∨
      n.data.priority = entry.sub.priority ∧ x < n.data.submissionInternalId) : s.Launched x := by
  obtain ⟨_, r⟩ := refined (careful_freshId h)
  obtain ⟨m, hm, of, ready | ⟨handle, launched⟩⟩ := ready_or_launched par h
    (AList.lookup_isSome.mp (Option.isSome_of_eq_some listed))
  · exact absurd ready (not_queued_ahead r top found listed first hm of)
  · exact ⟨handle, m, hm, launched, of⟩

theorem no_overtaking (par : 1 ≤ cfg.kMaxParallel) (h : (judge cfg).Reach careful s) {tid : Nat}
    {handle : Int} {files : BoxFiles} (step : (judge cfg).step s (.dispatch tid handle files) = some t)
    (found : s.graph.find tid = some n) (listed : s.submissionList.lookup x = some entry)
    (first : n.data.priority < entry.sub.priority ∨
      n.data.priority = entry.sub.priority ∧ x < n.data.submissionInternalId) :
    (∀ m ∈ s.graph.nodes, m.data.submissionInternalId = x → m.id ∉ s.graph.queue) ∧
    s.Launched x := by
  obtain ⟨_, r⟩ := refined (careful_freshId h)
  have top : s.IsTop tid := (judge_step.mp step).1.2.2.1
  exact ⟨fun m => not_queued_ahead r top found listed first,
    launched_ahead par h top found listed first⟩

/-- Two submissions; the compile task of the first runs. -/
def secondWaits : List Label :=
  [.push (sampleSubmission 1 10 [sampleItem false [0]]) 0,
    .push (sampleSubmission 2 20 [sampleItem false [0]]) 0, .wake, .dispatch 3 5 .empty]

theorem no_overtaking_second : ∃ s t : State,
    (judge (sampleConfig 2)).exec careful .init secondWaits = some s ∧
    (judge (sampleConfig 2)).step s (.dispatch 7 6 .empty) = some t ∧
    (∀ m ∈ s.graph.nodes, m.data.submissionInternalId = 1 → m.id ∉ s.graph.queue) ∧
    s.Launched 1 := by
  have run : ((judge (sampleConfig 2)).exec careful .init secondWaits).map (fun s =>
      (((judge (sampleConfig 2)).step s (.dispatch 7 6 .empty)).isSome,
        (s.graph.find 7).map fun n => (n.data.priority, n.data.submissionInternalId),
        (s.submissionList.lookup 1).map fun e => e.sub.priority)) =
      some (true, some (0, 2), some 0) := by decide +kernel
  obtain ⟨s, hs, seen⟩ := Option.map_eq_some_iff.mp run
  obtain ⟨step, found, listed⟩ := by simpa only [Prod.mk.injEq] using seen
  obtain ⟨t, step⟩ := Option.isSome_iff_exists.mp step
  obtain ⟨n, found, same⟩ := Option.map_eq_some_iff.mp found
  obtain ⟨entry, listed, zero⟩ := Option.map_eq_some_iff.mp listed
  obtain ⟨priority, second⟩ := Prod.mk.inj same
  exact ⟨s, t, hs, step, no_overtaking (by decide) (reach_exec hs) step found listed
    (.inr ⟨priority.trans zero.symm, by omega⟩)⟩

/-! ## One priority -/

def Event.dispatches (id : Int) : Event → Bool
  | .dispatching _ k _ => k == id
  | _ => false

/-- A task of the submission was dispatched. -/
def Begun (id : Int) (log : List Event) : Prop := log.any (Event.dispatches id) = true

instance (id : Int) (log : List Event) : Decidable (Begun id log) :=
  inferInstanceAs (Decidable (_ = true))

/-- The submissions that have begun and have not ended. -/
def State.inProgress (s : State) : List Int := s.submissionList.keys.filter fun id => Begun id s.log

def Event.enqueuedId : Event → Option Int
  | .enqueued id _ _ => some id
  | _ => none

def enqueuedIds (log : List Event) : List Int := log.filterMap Event.enqueuedId

/-- All submissions have the priority `p`, and internal ids that increase. -/
def inTurn (p : Int) (s : State) : Label → Prop
  | .push sub _ => sub.priority = p ∧
      Numerals.toInt32 sub.submissionInternalId = sub.submissionInternalId ∧
      ∀ id ∈ enqueuedIds s.log, id < sub.submissionInternalId
  | l => noSecondFailure s l

instance (p : Int) (s : State) : DecidablePred (inTurn p s)
  | .push .. | .wake | .dispatch .. | .block | .result .. | .exit => by
    unfold inTurn
    infer_instance

variable {p : Int}

theorem mem_enqueuedIds {log : List Event} : x ∈ enqueuedIds log ↔ Enqueued x log := by
  rw [enqueued_iff, enqueuedIds, List.mem_filterMap]
  constructor
  · rintro ⟨e, he, same⟩
    cases e <;> cases same
    exact ⟨_, _, he⟩
  · rintro ⟨sub, base, he⟩
    exact ⟨_, he, rfl⟩

theorem inTurn_careful (h : (judge cfg).Reach (inTurn p) s) : (judge cfg).Reach careful s := by
  apply h.weaken
  intro a l hl
  cases l with
  | push sub maxQueue =>
    obtain ⟨_, narrow, above⟩ := hl
    exact ⟨⟨narrow, fun here => lt_irrefl _ (above _ (mem_enqueuedIds.mpr here))⟩, trivial⟩
  | wake | block | result | exit => exact ⟨trivial, trivial⟩
  | dispatch => exact ⟨trivial, hl⟩

theorem begun_iff {log : List Event} : Begun x log ↔ ∃ tid task, .dispatching tid x task ∈ log := by
  simp only [Begun, List.any_eq_true]
  constructor
  · rintro ⟨e, he, is⟩
    cases e with
    | dispatching tid k task =>
      obtain rfl : k = x := by simpa [Event.dispatches] using is
      exact ⟨tid, task, he⟩
    | _ => cases is
  · rintro ⟨tid, task, he⟩
    exact ⟨_, he, by simp [Event.dispatches]⟩

@[simp] theorem begun_nil : ¬ Begun x [] := by simp [Begun]

@[simp] theorem begun_cons {e : Event} {log : List Event} :
    Begun x (e :: log) ↔ e.dispatches x = true ∨ Begun x log := by
  simp [Begun]

@[simp] theorem begun_append {log new : List Event} :
    Begun x (log ++ new) ↔ Begun x log ∨ Begun x new := by
  simp [Begun, List.any_append]

theorem enqueued_nil : ¬ Enqueued x [] := by simp [Enqueued]

theorem enqueued_cons {e : Event} {log : List Event} :
    Enqueued x (e :: log) ↔ e.enqueues x = true ∨ Enqueued x log := by
  simp [Enqueued]

theorem enqueued_append {log new : List Event} :
    Enqueued x (log ++ new) ↔ Enqueued x log ∨ Enqueued x new := by
  simp [Enqueued, List.any_append]

/-- Reports are not about beginnings. -/
theorem Reports.quiet {id : Int} {es : List Event} (h : Reports id es) :
    ¬ Begun x es ∧ ¬ Enqueued x es := by
  constructor
  · rw [begun_iff]
    rintro ⟨tid, task, he⟩
    exact h.not_dispatched tid ⟨x, task, he⟩
  · rw [enqueued_iff]
    rintro ⟨sub, base, he⟩
    exact h.not_enqueued he

theorem superseded_quiet (older : Option Int) :
    ¬ Begun x (older.toList.map .superseded) ∧ ¬ Enqueued x (older.toList.map .superseded) := by
  cases older <;> simp [Begun, Enqueued, Event.dispatches, Event.enqueues]

theorem Refined.begun_enqueued (r : Refined cfg s held) (begun : Begun x s.log) : Enqueued x s.log := by
  obtain ⟨tid, task, here⟩ := begun_iff.mp begun
  exact r.known.events _ here x (by simp [Event.about])

/-- What a step does to the list and to who has begun: nothing, a push, or work on one submission,
which was begun before if a task of it returned. -/
inductive Turn (s t : State) : Label → Prop where
  | same {l} : (∀ x, x ∈ t.submissionList ↔ x ∈ s.submissionList) →
      (∀ x, Begun x t.log ↔ Begun x s.log) → (∀ x, Enqueued x t.log ↔ Enqueued x s.log) → Turn s t l
  | push {sub maxQueue} : (∀ x, x ∈ t.submissionList ↔
        x = Numerals.toInt32 sub.submissionInternalId ∨ x ∈ s.submissionList) →
      (∀ x, Begun x t.log ↔ Begun x s.log) →
      (∀ x, Enqueued x t.log ↔ x = Numerals.toInt32 sub.submissionInternalId ∨ Enqueued x s.log) →
      Turn s t (.push sub maxQueue)
  | dispatch {n handle files} : s.graph.find n.id = some n →
      (∀ x, x ∈ t.submissionList → x ∈ s.submissionList) →
      (∀ x ∈ s.submissionList, x ∉ t.submissionList → x = n.data.submissionInternalId) →
      (∀ x, Begun x t.log ↔ x = n.data.submissionInternalId ∨ Begun x s.log) →
      (∀ x, Enqueued x t.log ↔ Enqueued x s.log) → Turn s t (.dispatch n.id handle files)
  | result {n handle o} : s.graph.find n.id = some n → s.handleMap.lookup handle = some n.id →
      (∀ x, x ∈ t.submissionList → x ∈ s.submissionList) →
      (∀ x ∈ s.submissionList, x ∉ t.submissionList → x = n.data.submissionInternalId) →
      (∀ x, Begun x t.log ↔ Begun x s.log) →
      (∀ x, Enqueued x t.log ↔ Enqueued x s.log) → Turn s t (.result handle o)

theorem start_mem {c : Ctx} (listed : n.data.submissionInternalId ∈ s.submissionList) :
    x ∈ (s.start n c).submissionList ↔ x ∈ s.submissionList := by
  simp only [State.start, State.putCtx, State.emit, AList.mem_insert]
  refine ⟨fun h => h.elim (fun same => same ▸ listed) id, .inr⟩

theorem settle_mem (x : Int) (outcome : Option TaskOutcome) {c : Ctx}
    (listed : n.data.submissionInternalId ∈ s.submissionList)
    (key : c.sub.submissionInternalId = n.data.submissionInternalId) :
    x ∈ (s.settle n outcome c).submissionList ↔
      x ∈ s.submissionList ∧ ¬ (n.data.task = .summary ∧ x = n.data.submissionInternalId) := by
  have written : x ∈ s.submissionList.insert n.data.submissionInternalId ⟨c.sub, c.result⟩ ↔
      x ∈ s.submissionList := by
    rw [AList.mem_insert]
    exact ⟨fun h => h.elim (fun same => same ▸ listed) id, .inr⟩
  by_cases last : n.data.task = .summary
  · simp only [State.settle, last, if_true, State.removeSubmission, State.putCtx, State.emit, key,
      AList.mem_erase, written, true_and]
    tauto
  · simp only [State.settle, last, if_false, false_and, not_false_eq_true, and_true]
    exact written

theorem turn {l : Label} (r : Refined cfg s held) (h : Step cfg s l t) : Turn s t l := by
  cases h with
  | refused | wake | block | exit => exact .same (fun _ => Iff.rfl) (fun _ => Iff.rfl) fun _ => Iff.rfl
  | @push sub maxQueue id _ _ narrow =>
    refine .push (fun x => ?_) (fun x => ?_) fun x => ?_
    · rw [← narrow]
      simp only [State.supersede, State.enqueue]
      split
      · rename_i here
        exact ⟨.inr, fun h => h.elim (fun same => same ▸ here) fun old => old⟩
      · exact AList.mem_insert _
    · simp [superseded_quiet, Event.dispatches]
    · simp only [← narrow, supersede_log, enqueue_log, enqueued_append, enqueued_cons, enqueued_nil,
        superseded_quiet, Event.enqueues, beq_iff_eq, or_false]
      rw [or_comm, eq_comm]
  | @launch n handle files entry c _ found listed ready =>
    have here := AList.lookup_isSome.mp (Option.isSome_of_eq_some listed)
    have reports := (setup_reports rfl ready).2
    have list (x : Int) : x ∈ ((s.start n c).launch n.id n.data handle).submissionList ↔
        x ∈ s.submissionList := start_mem here
    refine .dispatch found (fun x => (list x).mp) (fun x hx no => absurd ((list x).mpr hx) no)
      (fun x => ?_) fun x => ?_
    · simp only [launch_log, start_log, begun_append, begun_cons, begun_nil, reports.quiet,
        Event.dispatches, beq_iff_eq, or_false, reduceCtorEq]
      rw [or_comm, eq_comm]
    · simp only [launch_log, start_log, enqueued_append, enqueued_cons, enqueued_nil, reports.quiet,
        Event.enqueues, or_false, reduceCtorEq]
  | @skip n handle files entry c c' _ found listed ready done =>
    have here := AList.lookup_isSome.mp (Option.isSome_of_eq_some listed)
    obtain ⟨same, reports⟩ := setup_reports rfl ready
    obtain ⟨same', reports'⟩ := finalize_reports rfl done
    obtain ⟨_, _, _, _, key, _⟩ := r.listed listed
    have list (x : Int) := settle_mem x none
      ((start_mem (c := c) here).mpr here) (by rw [same', same]; exact key)
    refine .dispatch found (fun x hx => (start_mem here).mp ((list x).mp hx).1) (fun x hx no => ?_)
      (fun x => ?_) fun x => ?_
    · by_contra other
      exact no ((list x).mpr ⟨(start_mem here).mpr hx, fun last => other last.2⟩)
    · simp only [settle_log, start_log, begun_append, begun_cons, begun_nil, reports.quiet,
        reports'.quiet, Event.dispatches, beq_iff_eq, or_false, reduceCtorEq]
      rw [or_comm, eq_comm]
    · simp only [settle_log, start_log, enqueued_append, enqueued_cons, enqueued_nil, reports.quiet,
        reports'.quiet, Event.enqueues, or_false, reduceCtorEq]
  | @result n handle o entry c _ handled found listed done =>
    have here := AList.lookup_isSome.mp (Option.isSome_of_eq_some listed)
    obtain ⟨same, reports⟩ := finalize_reports rfl done
    obtain ⟨_, _, _, _, key, _⟩ := r.listed listed
    have list (x : Int) := settle_mem (s := s.returned handle) (c := c) x (some o)
      here (by rw [same]; exact key)
    refine .result found handled (fun x hx => ((list x).mp hx).1) (fun x hx no => ?_)
      (fun x => ?_) fun x => ?_
    · by_contra other
      exact no ((list x).mpr ⟨hx, fun last => other last.2⟩)
    · simp only [resume_log, settle_log, returned_log, begun_append, begun_cons, begun_nil,
        reports.quiet, Event.dispatches, or_false, reduceCtorEq]
    · simp only [resume_log, settle_log, returned_log, enqueued_append, enqueued_cons, enqueued_nil,
        reports.quiet, Event.enqueues, or_false, reduceCtorEq]

/-- A running task was dispatched. -/
theorem Life.running_dispatched {id : Int} {base : Nat} {sub : Submission} {l : Life} {a : Task}
    (h : Life.Reachable cfg id base sub l) (running : a ∈ l.running) :
    ∃ tid, .dispatching tid id a ∈ l.ctx.log := by
  induction h with
  | start => simp [Life.start] at running
  | @next l l' reach step ih =>
    have old (before : a ∈ l.running) : ∃ tid, .dispatching tid id a ∈ l'.ctx.log := by
      obtain ⟨tid, here⟩ := ih before
      obtain ⟨new, log⟩ := step.log
      exact ⟨tid, log ▸ List.mem_append_left _ here⟩
    cases step with
    | launch =>
      rcases Finset.mem_insert.mp running with rfl | before
      · exact ⟨_, List.mem_append_left _ (List.mem_append_left _
          (List.mem_append_right _ (List.mem_singleton_self _)))⟩
      · exact old before
    | skip =>
      obtain ⟨other, running⟩ := Finset.mem_erase.mp running
      exact old (Finset.mem_of_mem_insert_of_ne running other)
    | finish => exact old (Finset.mem_of_mem_erase running)
    | cancel => exact old running

/-- The task of a node that is in `handle_map` was dispatched. -/
theorem launched_begun (h : (judge cfg).Reach freshId s) {handle : Int} (hn : n ∈ s.graph.nodes)
    (launched : s.handleMap.lookup handle = some n.id) :
    Begun n.data.submissionInternalId s.log := by
  obtain ⟨held, r⟩ := refined h
  obtain ⟨sub, base, l, t, enq, wf, _, reach, shape, follows, ht, task, same⟩ := r.life hn
  have running := follows.runs hn (r.wired.mem_held launched)
  obtain ⟨tid, here⟩ := Life.running_dispatched reach running
  rw [← follows.log, List.mem_filter] at here
  exact begun_iff.mpr ⟨tid, _, here.1⟩

/-! ## In the order of the ids -/

theorem inTurn_priority (h : (judge cfg).Reach (inTurn p) s) {sub : Submission} {base : Nat}
    (enq : .enqueued x sub base ∈ s.log) : sub.priority = p := by
  revert x sub base
  refine h.invariant (I := fun s => ∀ {x sub base}, .enqueued x sub base ∈ s.log → sub.priority = p)
    (by simp [judge, State.init]) fun a l b _ ih cond step x sub base enq => ?_
  rcases step_enqueues (step_cases step) enq with old | ⟨pushed, maxQueue, rfl, rfl⟩
  · exact ih old
  · exact cond.1

/-- What is in front of a task of the only priority runs. -/
theorem launched_before (par : 1 ≤ cfg.kMaxParallel) (h : (judge cfg).Reach (inTurn p) s)
    {tid : Nat} (top : s.IsTop tid) (found : s.graph.find tid = some n) (hx : x ∈ s.submissionList)
    (before : x < n.data.submissionInternalId) : s.Launched x := by
  obtain ⟨_, r⟩ := refined (careful_freshId (inTurn_careful h))
  obtain ⟨entry, listed⟩ := Option.isSome_iff_exists.mp (AList.lookup_isSome.mpr hx)
  have hn := (Graph.find_mem found).1
  obtain ⟨own, here⟩ := Option.isSome_iff_exists.mp (AList.lookup_isSome.mpr (r.node_listed hn))
  obtain ⟨_, _, enq, _⟩ := r.listed listed
  obtain ⟨_, _, enq', _⟩ := r.listed here
  refine launched_ahead par (inTurn_careful h) top found listed (.inr ⟨?_, before⟩)
  rw [r.priority hn here, inTurn_priority h enq, inTurn_priority h enq']

theorem State.Launched.begun (h : (judge cfg).Reach freshId s) (launched : s.Launched x) :
    Begun x s.log := by
  obtain ⟨handle, m, hm, handled, rfl⟩ := launched
  exact launched_begun h hm handled

/-- Different submissions have different tasks in `handle_map`. -/
theorem length_le_running (par : 1 ≤ cfg.kMaxParallel) (h : (judge cfg).Reach careful s)
    {ids : List Int} (nodup : ids.Nodup) (launched : ∀ id ∈ ids, s.Launched id) :
    (ids.length : Int) ≤ s.taskRunning := by
  obtain ⟨_, r⟩ := refined (careful_freshId h)
  choose! handle known using launched
  have differ : (ids.map handle).Nodup := by
    refine (List.nodup_map_iff_inj_on nodup).mpr fun a ha b hb same => ?_
    obtain ⟨m, hm, found, rfl⟩ := known a ha
    obtain ⟨k, hk, found', rfl⟩ := known b hb
    rw [same, found', Option.some.injEq] at found
    rw [eq_of_id r.wired.inv.distinct hk hm found]
  have inside : ids.map handle ⊆ s.handleMap.keys := by
    intro k hk
    obtain ⟨a, ha, rfl⟩ := List.mem_map.mp hk
    obtain ⟨_, _, found, _⟩ := known a ha
    exact AList.mem_keys.mpr (AList.lookup_isSome.mp (Option.isSome_of_eq_some found))
  have short := (List.subperm_of_subset differ inside).length_le
  have count := (running_wired par (careful_handles h)).1.count
  simp only [List.length_map, UMap.values, AList.keys, List.keys] at short count
  omega

/-- The submissions in the list that come before `x`. -/
def State.older (s : State) (x : Int) : List Int := s.submissionList.keys.filter (· < x)

@[simp] theorem mem_inProgress : x ∈ s.inProgress ↔ x ∈ s.submissionList ∧ Begun x s.log := by
  simp [State.inProgress, AList.mem_keys]

@[simp] theorem mem_older : y ∈ s.older x ↔ y ∈ s.submissionList ∧ y < x := by
  simp [State.older, AList.mem_keys]

theorem nodup_inProgress (s : State) : s.inProgress.Nodup := s.submissionList.keys_nodup.filter _

theorem nodup_older (s : State) (x : Int) : (s.older x).Nodup := s.submissionList.keys_nodup.filter _

/-- Submissions begin and end in the order of their ids, as far as `kMaxParallel` tasks at a
time allow. -/
structure InTurn (cfg : Config) (s : State) : Prop where
  /-- Only a submission that has begun ends. -/
  ended : ∀ x, Enqueued x s.log → x ∉ s.submissionList → Begun x s.log
  begun : ∀ x y, Enqueued x s.log → x < y → Begun y s.log → Begun x s.log
  few : (s.inProgress.length : Int) ≤ cfg.kMaxParallel
  /-- When a submission has ended, fewer than `kMaxParallel` that came before it are left. -/
  overtaken : ∀ x, Enqueued x s.log → x ∉ s.submissionList →
    ((s.older x).length : Int) < cfg.kMaxParallel

theorem InTurn.init (par : 1 ≤ cfg.kMaxParallel) : InTurn cfg .init where
  ended := fun x enq => absurd enq enqueued_nil
  begun := fun x y enq => absurd enq enqueued_nil
  few := by
    have : State.init.inProgress = [] := rfl
    rw [this, List.length_nil]
    omega
  overtaken := fun x enq => absurd enq enqueued_nil

theorem length_inProgress_le (i : InTurn cfg s) (sub : ∀ x ∈ t.inProgress, x ∈ s.inProgress) :
    (t.inProgress.length : Int) ≤ cfg.kMaxParallel := by
  have short := (List.subperm_of_subset (nodup_inProgress t) sub).length_le
  have := i.few
  omega

theorem length_older_lt (i : InTurn cfg s) (enq : Enqueued x s.log) (gone : x ∉ s.submissionList)
    (sub : ∀ y ∈ t.older x, y ∈ s.older x) : ((t.older x).length : Int) < cfg.kMaxParallel := by
  have short := (List.subperm_of_subset (nodup_older t x) sub).length_le
  have := i.overtaken x enq gone
  omega

theorem InTurn.push {sub : Submission} {maxQueue : Nat} (r : Refined cfg s held) (i : InTurn cfg s)
    (cond : inTurn p s (.push sub maxQueue))
    (list : ∀ x, x ∈ t.submissionList ↔
      x = Numerals.toInt32 sub.submissionInternalId ∨ x ∈ s.submissionList)
    (log : ∀ x, Begun x t.log ↔ Begun x s.log)
    (enq : ∀ x, Enqueued x t.log ↔
      x = Numerals.toInt32 sub.submissionInternalId ∨ Enqueued x s.log) : InTurn cfg t := by
  obtain ⟨_, narrow, above⟩ := cond
  rw [narrow] at list enq
  have above {x : Int} (old : Enqueued x s.log) : x < sub.submissionInternalId :=
    above x (mem_enqueuedIds.mpr old)
  refine ⟨fun x hx gone => ?_, fun x y hx lt hy => ?_, ?_, fun x hx gone => ?_⟩
  · rw [list, not_or] at gone
    exact (log x).mpr (i.ended x (((enq x).mp hx).resolve_left gone.1) gone.2)
  · have hy := (log y).mp hy
    have older := above (r.begun_enqueued hy)
    exact (log x).mpr (i.begun x y (((enq x).mp hx).resolve_left (by omega)) lt hy)
  · refine length_inProgress_le i fun x hx => ?_
    rw [mem_inProgress, list, log] at hx
    have older := above (r.begun_enqueued hx.2)
    exact mem_inProgress.mpr ⟨hx.1.resolve_left (by omega), hx.2⟩
  · rw [list, not_or] at gone
    have old := ((enq x).mp hx).resolve_left gone.1
    refine length_older_lt i old gone.2 fun y hy => ?_
    rw [mem_older, list] at hy
    have older := above old
    exact mem_older.mpr ⟨hy.1.resolve_left (by omega), hy.2⟩

theorem InTurn.dispatch {k : Int} (par : 1 ≤ cfg.kMaxParallel) (h : (judge cfg).Reach careful s)
    (i : InTurn cfg s) (slots : s.taskRunning < cfg.kMaxParallel) (known : Enqueued k s.log)
    (ahead : ∀ x ∈ s.submissionList, x < k → s.Launched x)
    (list : ∀ x, x ∈ t.submissionList → x ∈ s.submissionList)
    (kept : ∀ x ∈ s.submissionList, x ∉ t.submissionList → x = k)
    (log : ∀ x, Begun x t.log ↔ x = k ∨ Begun x s.log)
    (enq : ∀ x, Enqueued x t.log ↔ Enqueued x s.log) : InTurn cfg t := by
  have fits {ids : List Int} (nodup : ids.Nodup) (launched : ∀ x ∈ ids, s.Launched x) :
      (ids.length : Int) < cfg.kMaxParallel := by
    have := length_le_running par h nodup launched
    omega
  refine ⟨fun x hx gone => ?_, fun x y hx lt hy => ?_, ?_, fun x hx gone => ?_⟩
  · by_cases here : x ∈ s.submissionList
    · exact (log x).mpr (.inl (kept x here gone))
    · exact (log x).mpr (.inr (i.ended x ((enq x).mp hx) here))
  · refine (log x).mpr (.inr ?_)
    rcases (log y).mp hy with rfl | hy
    · by_cases here : x ∈ s.submissionList
      · exact (ahead x here lt).begun (careful_freshId h)
      · exact i.ended x ((enq x).mp hx) here
    · exact i.begun x y ((enq x).mp hx) lt hy
  · by_cases begun : Begun k s.log
    · refine length_inProgress_le i fun x hx => ?_
      rw [mem_inProgress, log] at hx
      exact mem_inProgress.mpr ⟨list x hx.1, hx.2.elim (fun same => same ▸ begun) fun old => old⟩
    · -- all that is in progress is before `k`
      have short := fits (nodup_inProgress s) fun x hx => by
        rw [mem_inProgress] at hx
        refine ahead x hx.1 (lt_of_not_ge fun ge => begun ?_)
        rcases ge.lt_or_eq with lt | same
        · exact i.begun k x known lt hx.2
        · exact same ▸ hx.2
      have inside : t.inProgress ⊆ k :: s.inProgress := fun x hx => by
        rw [mem_inProgress, log] at hx
        exact List.mem_cons.mpr (hx.2.imp_right fun old => mem_inProgress.mpr ⟨list x hx.1, old⟩)
      have longer := (List.subperm_of_subset (nodup_inProgress t) inside).length_le
      rw [List.length_cons] at longer
      omega
  · by_cases here : x ∈ s.submissionList
    · obtain rfl := kept x here gone
      refine fits (nodup_older t x) fun y hy => ?_
      rw [mem_older] at hy
      exact ahead y (list y hy.1) hy.2
    · refine length_older_lt i ((enq x).mp hx) here fun y hy => ?_
      rw [mem_older] at hy ⊢
      exact ⟨list y hy.1, hy.2⟩

theorem InTurn.result {k : Int} (i : InTurn cfg s) (r : Refined cfg s held)
    (hk : k ∈ s.submissionList) (begun : Begun k s.log)
    (list : ∀ x, x ∈ t.submissionList → x ∈ s.submissionList)
    (kept : ∀ x ∈ s.submissionList, x ∉ t.submissionList → x = k)
    (log : ∀ x, Begun x t.log ↔ Begun x s.log)
    (enq : ∀ x, Enqueued x t.log ↔ Enqueued x s.log) : InTurn cfg t := by
  refine ⟨fun x hx gone => (log x).mpr ?_, fun x y hx lt hy => (log x).mpr ?_, ?_,
    fun x hx gone => ?_⟩
  · by_cases here : x ∈ s.submissionList
    · exact kept x here gone ▸ begun
    · exact i.ended x ((enq x).mp hx) here
  · exact i.begun x y ((enq x).mp hx) lt ((log y).mp hy)
  · refine length_inProgress_le i fun x hx => ?_
    rw [mem_inProgress, log] at hx
    exact mem_inProgress.mpr ⟨list x hx.1, hx.2⟩
  · by_cases here : x ∈ s.submissionList
    · obtain rfl := kept x here gone
      -- the older ones have begun, as `x` has
      have inside : x :: t.older x ⊆ s.inProgress := by
        refine List.cons_subset.mpr ⟨mem_inProgress.mpr ⟨hk, begun⟩, fun y hy => ?_⟩
        rw [mem_older] at hy
        have old := r.known.list y (AList.lookup_isSome.mpr (list y hy.1))
        exact mem_inProgress.mpr ⟨list y hy.1, i.begun y x old hy.2 begun⟩
      have nodup : (x :: t.older x).Nodup :=
        List.nodup_cons.mpr ⟨fun h => lt_irrefl _ (mem_older.mp h).2, nodup_older t x⟩
      have longer := (List.subperm_of_subset nodup inside).length_le
      rw [List.length_cons] at longer
      have := i.few
      omega
    · refine length_older_lt i ((enq x).mp hx) here fun y hy => ?_
      rw [mem_older] at hy ⊢
      exact ⟨list y hy.1, hy.2⟩

theorem in_turn (par : 1 ≤ cfg.kMaxParallel) (h : (judge cfg).Reach (inTurn p) s) : InTurn cfg s := by
  refine h.invariant (.init par) fun a l b reach i cond step => ?_
  have careful := inTurn_careful reach
  obtain ⟨_, r⟩ := refined (careful_freshId careful)
  cases turn r (step_cases step) with
  | same list log enq =>
    refine ⟨fun x hx gone => (log x).mpr (i.ended x ((enq x).mp hx) fun h => gone ((list x).mpr h)),
      fun x y hx lt hy => (log x).mpr (i.begun x y ((enq x).mp hx) lt ((log y).mp hy)),
      length_inProgress_le i fun x hx => ?_,
      fun x hx gone => length_older_lt i ((enq x).mp hx) (fun h => gone ((list x).mpr h))
        fun y hy => ?_⟩
    · rwa [mem_inProgress, list, log, ← mem_inProgress] at hx
    · rwa [mem_older, list, ← mem_older] at hy
  | push list log enq => exact i.push r cond list log enq
  | @dispatch n handle files found list kept log enq =>
    obtain ⟨_, slots, top, _⟩ := (judge_step.mp step).1
    have known := r.known.nodes n (Graph.find_mem found).1
    exact i.dispatch par careful slots known
      (fun x hx before => launched_before par reach top found hx before) list kept log enq
  | @result n handle o found handled list kept log enq =>
    have hn := (Graph.find_mem found).1
    exact i.result r (r.node_listed hn) (launched_begun (careful_freshId careful) hn handled) list
      kept log enq

theorem in_turn_second : ∃ s, (judge (sampleConfig 2)).exec (inTurn 0) .init
    (secondWaits ++ [.dispatch 7 6 .empty]) = some s ∧ InTurn (sampleConfig 2) s := by
  obtain ⟨s, hs⟩ := Option.isSome_iff_exists.mp (show ((judge (sampleConfig 2)).exec (inTurn 0) .init
    (secondWaits ++ [.dispatch 7 6 .empty])).isSome = true by decide +kernel)
  exact ⟨s, hs, in_turn (by decide) (reach_exec hs)⟩

end TiojJudge.Judge
