import TiojJudge.Judge.GraphInvariant
import TiojJudge.Judge.Life

/-!
# Each submission lives on its own

As long as `submission_internal_id` is an `int` and unique in the run, a step of
the scheduler is a step in the life of one submission, a cancellation of
another one, or nothing to it.

* `Follows s held id base l`: the containers have of submission `id` what its
  life has;
* `refined`: in every reachable state each enqueued submission has a reachable
  life that the state follows;
* `lived`, `timely_of_lives`: what this gives for the log.
-/

namespace TiojJudge.Judge
open TaskGraph Machine

/-! ## The part of the log that is about one submission -/

def Event.about (id : Int) : Event → Bool
  | .enqueued k _ _ | .superseded k | .dispatching _ k _ | .launched _ k _ _
  | .finalizing _ k _ _ => k == id
  | .startCompiling sub _ | .ceMessage sub _ | .jceMessage sub _ | .executeFinished sub ..
  | .scoringResult sub .. | .overallResult sub _ | .submissionFinished sub
  | .reportFinalized sub .. => sub.submissionInternalId == id

def Event.enqueues (id : Int) : Event → Bool
  | .enqueued k _ _ => k == id
  | _ => false

def Enqueued (id : Int) (log : List Event) : Prop := log.any (Event.enqueues id) = true

instance (id : Int) (log : List Event) : Decidable (Enqueued id log) :=
  inferInstanceAs (Decidable (_ = true))

theorem enqueued_iff {id : Int} {log : List Event} :
    Enqueued id log ↔ ∃ sub base, .enqueued id sub base ∈ log := by
  simp only [Enqueued, List.any_eq_true]
  constructor
  · rintro ⟨e, he, is⟩
    cases e with
    | enqueued k sub base =>
      obtain rfl : k = id := by simpa [Event.enqueues] using is
      exact ⟨sub, base, he⟩
    | _ => cases is
  · rintro ⟨sub, base, he⟩
    exact ⟨_, he, by simp [Event.enqueues]⟩

theorem Enqueued.append {id : Int} {log new : List Event} (h : Enqueued id log) :
    Enqueued id (log ++ new) := by
  simp only [Enqueued, List.any_append] at h ⊢
  simp [h]

/-- `submission_internal_id` survives `int id = sub.submission_internal_id`, and no
submission of the run had it before. -/
def freshId (s : State) : Label → Prop
  | .push sub _ =>
    Numerals.toInt32 sub.submissionInternalId = sub.submissionInternalId ∧
      ¬ Enqueued sub.submissionInternalId s.log
  | _ => True

instance (s : State) : DecidablePred (freshId s)
  | .push .. | .wake | .dispatch .. | .block | .result .. | .exit => by
    unfold freshId
    infer_instance

theorem Reports.filter_self {id : Int} {es : List Event} (h : Reports id es) :
    es.filter (Event.about id) = es := by
  refine List.filter_eq_self.mpr fun e he => ?_
  obtain ⟨sub, source, same⟩ := h e he
  cases e <;> simp_all [Event.source, Event.about]

theorem Reports.filter_other {id other : Int} {es : List Event} (h : Reports id es)
    (ne : other ≠ id) : es.filter (Event.about other) = [] := by
  refine List.filter_eq_nil_iff.mpr fun e he => ?_
  obtain ⟨sub, source, same⟩ := h e he
  have := Ne.symm ne
  cases e <;> simp_all [Event.source, Event.about]

/-! ## A state and a life -/

/-- Nodes differ at most in their counts. -/
def SameNode (n m : Node TaskInfo) : Prop := n.id = m.id ∧ n.data = m.data ∧ n.edges = m.edges

structure Follows (s : State) (held : List Nat) (id : Int) (base : Nat) (l : Life) : Prop where
  log : s.log.filter (Event.about id) = l.ctx.log
  listed : .summary ∈ l.todo →
    s.submissionList.lookup id = some ⟨l.ctx.sub, l.ctx.result⟩ ∧
    (id ∈ s.cancelledList ↔ l.ctx.cancelled = true) ∧
    s.cancelledGroup.lookup id = l.ctx.cancelledGroup
  gone : .summary ∉ l.todo →
    s.submissionList.lookup id = none ∧ s.cancelledGroup.lookup id = none
  nodes : ∀ n ∈ s.graph.nodes, n.data.submissionInternalId = id →
    ∃ t ∈ l.todo, SameNode n (l.ctx.sub.planNode id base t)
  todo : ∀ t ∈ l.todo, ∃ n ∈ s.graph.nodes, SameNode n (l.ctx.sub.planNode id base t)
  running : ∀ t ∈ l.todo, l.ctx.sub.taskId base t ∈ held ↔ t ∈ l.running

/-- A step that does not concern submission `id`. -/
structure Untouched (s : State) (held : List Nat) (t : State) (held' : List Nat) (id : Int) :
    Prop where
  log : t.log.filter (Event.about id) = s.log.filter (Event.about id)
  list : t.submissionList.lookup id = s.submissionList.lookup id
  cancelled : id ∈ t.cancelledList ↔ id ∈ s.cancelledList
  groups : t.cancelledGroup.lookup id = s.cancelledGroup.lookup id
  nodes : ∀ n ∈ t.graph.nodes, n.data.submissionInternalId = id →
    ∃ m ∈ s.graph.nodes, SameNode m n
  todo : ∀ m ∈ s.graph.nodes, m.data.submissionInternalId = id →
    ∃ n ∈ t.graph.nodes, SameNode n m
  held : ∀ m ∈ s.graph.nodes, m.data.submissionInternalId = id → (m.id ∈ held' ↔ m.id ∈ held)

variable {cfg : Config} {s t : State} {held held' : List Nat} {id : Int} {base : Nat} {l : Life}

theorem SameNode.trans {n m k : Node TaskInfo} (h : SameNode n m) (h' : SameNode m k) :
    SameNode n k :=
  ⟨h.1.trans h'.1, h.2.1.trans h'.2.1, h.2.2.trans h'.2.2⟩

theorem SameNode.symm {n m : Node TaskInfo} (h : SameNode n m) : SameNode m n :=
  ⟨h.1.symm, h.2.1.symm, h.2.2.symm⟩

theorem Follows.untouched (f : Follows s held id base l) (u : Untouched s held t held' id) :
    Follows t held' id base l where
  log := u.log.trans f.log
  listed := fun h => by
    rw [u.list, u.cancelled, u.groups]
    exact f.listed h
  gone := fun h => by
    rw [u.list, u.groups]
    exact f.gone h
  nodes := by
    intro n hn same
    obtain ⟨m, hm, sm⟩ := u.nodes n hn same
    obtain ⟨t, ht, st⟩ := f.nodes m hm (by rw [sm.2.1, same])
    exact ⟨t, ht, sm.symm.trans st⟩
  todo := by
    intro t ht
    obtain ⟨m, hm, sm⟩ := f.todo t ht
    obtain ⟨n, hn, sn⟩ := u.todo m hm (by rw [sm.2.1]; rfl)
    exact ⟨n, hn, sn.trans sm⟩
  running := by
    intro t ht
    obtain ⟨m, hm, sm⟩ := f.todo t ht
    rw [← f.running t ht, show l.ctx.sub.taskId base t = m.id from sm.1.symm]
    exact u.held m hm (by rw [sm.2.1]; rfl)

/-- Steps that do not concern any submission. -/
theorem Untouched.of_same (log : t.log = s.log) (list : t.submissionList = s.submissionList)
    (cancelled : t.cancelledList = s.cancelledList) (groups : t.cancelledGroup = s.cancelledGroup)
    (graph : t.graph = s.graph) : Untouched s held t held id where
  log := by rw [log]
  list := by rw [list]
  cancelled := by rw [cancelled]
  groups := by rw [groups]
  nodes := fun n hn _ => ⟨n, graph ▸ hn, rfl, rfl, rfl⟩
  todo := fun n hn _ => ⟨n, graph ▸ hn, rfl, rfl, rfl⟩
  held := fun _ _ _ => Iff.rfl

theorem Untouched.trans {u : State} {held'' : List Nat} (h : Untouched s held t held' id)
    (h' : Untouched t held' u held'' id) : Untouched s held u held'' id where
  log := h'.log.trans h.log
  list := h'.list.trans h.list
  cancelled := h'.cancelled.trans h.cancelled
  groups := h'.groups.trans h.groups
  nodes := by
    intro n hn same
    obtain ⟨m, hm, sm⟩ := h'.nodes n hn same
    obtain ⟨k, hk, sk⟩ := h.nodes m hm (by rw [sm.2.1, same])
    exact ⟨k, hk, sk.trans sm⟩
  todo := by
    intro n hn same
    obtain ⟨m, hm, sm⟩ := h.todo n hn same
    obtain ⟨k, hk, sk⟩ := h'.todo m hm (by rw [sm.2.1, same])
    exact ⟨k, hk, sk.trans sm⟩
  held := by
    intro n hn same
    obtain ⟨m, hm, sm⟩ := h.todo n hn same
    rw [← h.held n hn same, ← sm.1]
    exact h'.held m hm (by rw [sm.2.1, same])

/-! ## The parts of a step, for the other submissions -/

section Others

variable {n : Node TaskInfo} {c : Ctx}

theorem other_node {m : Node TaskInfo} (w : Wired s held) (hn : n ∈ s.graph.nodes)
    (hm : m ∈ s.graph.nodes)
    (ne : m.data.submissionInternalId ≠ n.data.submissionInternalId) : m.id ≠ n.id := by
  intro same
  exact ne (by rw [eq_of_id w.inv.distinct hm hn same])

/-- Writing back a context touches only its submission. -/
theorem putCtx_other {s : State} (key : c.sub.submissionInternalId = n.data.submissionInternalId)
    (other : id ≠ n.data.submissionInternalId) :
    (s.putCtx n.data.submissionInternalId c).submissionList.lookup id = s.submissionList.lookup id ∧
    (id ∈ (s.putCtx n.data.submissionInternalId c).cancelledList ↔ id ∈ s.cancelledList) ∧
    (s.putCtx n.data.submissionInternalId c).cancelledGroup.lookup id =
      s.cancelledGroup.lookup id := by
  simp only [State.putCtx, key, UMap.lookup_insert_eq, other, if_false, true_and]
  constructor
  · split <;> simp [other]
  · split <;> simp [other]

theorem start_untouched (w : Wired s held) (hn : n ∈ s.graph.nodes)
    (key : c.sub.submissionInternalId = n.data.submissionInternalId)
    (reports : Reports n.data.submissionInternalId c.log)
    (other : id ≠ n.data.submissionInternalId) :
    Untouched s held (s.start n c) (n.id :: held) id := by
  obtain ⟨list, cancelled, groups⟩ := putCtx_other (s := { s with graph := s.graph.pop n.id }.emit
    (.dispatching n.id n.data.submissionInternalId n.data.task)) key other
  refine ⟨?_, list, cancelled, groups, fun m hm _ => ⟨m, hm, rfl, rfl, rfl⟩,
    fun m hm _ => ⟨m, hm, rfl, rfl, rfl⟩, fun m hm same => ?_⟩
  · simp [Event.about, Ne.symm other, reports.filter_other other]
  · have ne := other_node w hn hm (by rw [same]; exact other)
    simp [ne]

theorem settle_untouched {outcome : Option TaskOutcome} (w : Wired s (n.id :: held))
    (hn : n ∈ s.graph.nodes)
    (key : c.sub.submissionInternalId = n.data.submissionInternalId)
    (reports : Reports n.data.submissionInternalId c.log)
    (other : id ≠ n.data.submissionInternalId) :
    Untouched s (n.id :: held) (s.settle n outcome c) held id := by
  obtain ⟨list, cancelled, groups⟩ := putCtx_other (s := s.emit
    (.finalizing n.id n.data.submissionInternalId n.data.task outcome)) key other
  refine ⟨?_, ?_, ?_, ?_, ?_, ?_, fun m hm same => ?_⟩
  · simp [Event.about, Ne.symm other, reports.filter_other other]
  · unfold State.settle
    split
    · refine Eq.trans ?_ list
      simp [State.removeSubmission, key, other]
    · exact list
  · unfold State.settle
    split <;> exact cancelled
  · unfold State.settle
    split <;> exact groups
  · intro m hm _
    simp only [settle_graph, Graph.remove_nodes, List.mem_map, List.mem_filter] at hm
    obtain ⟨k, ⟨hk, _⟩, rfl⟩ := hm
    exact ⟨k, hk, rfl, rfl, rfl⟩
  · intro m hm same
    have ne := other_node w hn hm (by rw [same]; exact other)
    refine ⟨Graph.lower n.edges m, ?_, rfl, rfl, rfl⟩
    simp only [settle_graph, Graph.remove_nodes, List.mem_map, List.mem_filter, bne_iff_ne]
    exact ⟨m, ⟨hm, ne⟩, rfl⟩
  · have ne := other_node w hn hm (by rw [same]; exact other)
    simp [ne]

end Others

/-! ## The parts of a step, for the submission itself -/

section Self

variable {n : Node TaskInfo} {c : Ctx} {task : Task}

theorem putCtx_self {s : State} (key : c.sub.submissionInternalId = id) :
    (s.putCtx id c).submissionList.lookup id = some ⟨c.sub, c.result⟩ ∧
    (id ∈ (s.putCtx id c).cancelledList ↔ c.cancelled = true) ∧
    (s.putCtx id c).cancelledGroup.lookup id = c.cancelledGroup := by
  simp only [State.putCtx, key, UMap.lookup_insert_eq, if_true, true_and]
  constructor
  · split <;> simp [*]
  · split <;> simp [*]

theorem start_follows {sub : Submission} (f : Follows s held id base l) (shape : l.Shape sub)
    (wf : sub.WellFormed) (ht : task ∈ l.todo) (node : SameNode n (l.ctx.sub.planNode id base task))
    (same : c.sub = l.ctx.sub) (key : sub.submissionInternalId = id) (reports : Reports id c.log) :
    Follows (s.start n c) (n.id :: held) id base (l.started id base task c) := by
  obtain ⟨nid, ndata, _⟩ := node
  have sid : n.data.submissionInternalId = id := by rw [ndata]; rfl
  have ntask : n.data.task = task := by rw [ndata]; rfl
  have self := putCtx_self (s := { s with graph := s.graph.pop n.id }.emit
    (.dispatching n.id n.data.submissionInternalId n.data.task))
    (show c.sub.submissionInternalId = id by rw [same, shape.same, key])
  refine ⟨?_, fun _ => ?_, fun gone => absurd (shape.summary_left wf ht) gone, ?_, ?_, ?_⟩
  · simp [Event.about, sid, ntask, f.log, reports.filter_self, Life.started, Ctx.withLog, nid,
      Submission.planNode]
  · rw [← sid] at self ⊢
    exact self
  · simpa [Life.started, Ctx.withLog, same] using f.nodes
  · simpa [Life.started, Ctx.withLog, same] using f.todo
  · intro t ht'
    have inj : sub.taskId base t = sub.taskId base task ↔ t = task :=
      Submission.taskId_inj (shape.planned t ht')
    rw [← shape.same] at inj
    simp only [Life.started, Ctx.withLog, same, List.mem_cons, Finset.mem_insert, nid,
      Submission.planNode, inj, f.running t ht']

theorem settle_follows {sub : Submission} {outcome : Option TaskOutcome}
    (f : Follows s (n.id :: held) id base l) (shape : l.Shape sub) (wf : sub.WellFormed)
    (ht : task ∈ l.todo) (node : SameNode n (l.ctx.sub.planNode id base task))
    (same : c.sub = l.ctx.sub) (key : sub.submissionInternalId = id) (reports : Reports id c.log)
    (ends : task = .summary → c.cancelledGroup = none) :
    Follows (s.settle n outcome c) held id base (l.settled id base task outcome c) := by
  obtain ⟨nid, ndata, _⟩ := node
  have sid : n.data.submissionInternalId = id := by rw [ndata]; rfl
  have ntask : n.data.task = task := by rw [ndata]; rfl
  have ckey : c.sub.submissionInternalId = id := by rw [same, shape.same, key]
  obtain ⟨list, cancelled, groups⟩ := putCtx_self (s := s.emit
    (.finalizing n.id n.data.submissionInternalId n.data.task outcome)) (c := c) ckey
  have inj {t : Task} (ht' : t ∈ l.todo) : l.ctx.sub.taskId base t = n.id ↔ t = task := by
    have : sub.taskId base t = sub.taskId base task ↔ t = task :=
      Submission.taskId_inj (shape.planned t ht')
    rw [← shape.same] at this
    rw [nid]
    exact this
  refine ⟨?_, fun left => ?_, fun gone => ?_, ?_, ?_, ?_⟩
  · simp [Event.about, sid, ntask, f.log, reports.filter_self, Life.settled, Ctx.withLog, nid,
      Submission.planNode]
  · have notSummary : task ≠ .summary := (Finset.mem_erase.mp left).1.symm
    simp only [State.settle, ntask, notSummary, if_false, sid]
    rw [sid, ntask] at list cancelled groups
    exact ⟨list, cancelled, groups⟩
  · have isSummary : task = .summary := by
      by_contra other
      exact gone (Finset.mem_erase.mpr ⟨Ne.symm other, shape.summary_left wf ht⟩)
    simp only [State.settle, ntask, isSummary, if_true, sid, State.removeSubmission, ckey]
    rw [sid, ntask, isSummary] at groups
    exact ⟨by simp, groups.trans (ends isSummary)⟩
  · intro m hm msid
    simp only [settle_graph, Graph.remove_nodes, List.mem_map, List.mem_filter, bne_iff_ne] at hm
    obtain ⟨k, ⟨hk, ne⟩, rfl⟩ := hm
    obtain ⟨t, ht', node'⟩ := f.nodes k hk msid
    refine ⟨t, Finset.mem_erase.mpr ⟨?_, ht'⟩, ?_⟩
    · exact fun h => ne (node'.1.trans ((inj ht').mpr h))
    · simp only [Life.settled, Ctx.withLog, same]
      exact node'
  · intro t ht'
    obtain ⟨ne, ht'⟩ := Finset.mem_erase.mp ht'
    obtain ⟨m, hm, node'⟩ := f.todo t ht'
    have other : m.id ≠ n.id := fun h => ne ((inj ht').mp (node'.1.symm.trans h))
    refine ⟨Graph.lower n.edges m, ?_, ?_⟩
    · simp only [settle_graph, Graph.remove_nodes, List.mem_map, List.mem_filter, bne_iff_ne]
      exact ⟨m, ⟨hm, other⟩, rfl⟩
    · simp only [Life.settled, Ctx.withLog, same]
      exact node'
  · intro t ht'
    obtain ⟨ne, ht'⟩ := Finset.mem_erase.mp ht'
    have before := f.running t ht'
    rw [List.mem_cons, inj ht'] at before
    simp only [Life.settled, Ctx.withLog, same, Finset.mem_erase, ne, ne_eq, not_false_eq_true,
      true_and]
    simpa [ne] using before

end Self

/-! ## The refinement -/

/-- Every submission that occurs somewhere was enqueued. -/
structure Known (s : State) : Prop where
  events : ∀ e ∈ s.log, ∀ id, e.about id = true → Enqueued id s.log
  nodes : ∀ n ∈ s.graph.nodes, Enqueued n.data.submissionInternalId s.log
  list : ∀ id, (s.submissionList.lookup id).isSome = true → Enqueued id s.log
  cancelled : ∀ id ∈ s.cancelledList, Enqueued id s.log
  groups : ∀ id, (s.cancelledGroup.lookup id).isSome = true → Enqueued id s.log
  ids : ∀ submissionId id, s.submissionIdMap.lookup submissionId = some id → Enqueued id s.log

structure Refined (cfg : Config) (s : State) (held : List Nat) : Prop where
  wired : Wired s held
  known : Known s
  once : ∀ id sub base sub' base', .enqueued id sub base ∈ s.log → .enqueued id sub' base' ∈ s.log →
    sub = sub' ∧ base = base'
  sound : ∀ id sub base, .enqueued id sub base ∈ s.log →
    sub.WellFormed ∧ sub.submissionInternalId = id
  lives : ∀ id sub base, .enqueued id sub base ∈ s.log →
    ∃ l, Life.Reachable cfg id base sub l ∧ Follows s held id base l

/-- Events that a step for submission `id` adds. -/
def AddsAbout (id : Int) (s t : State) : Prop :=
  ∃ new, t.log = s.log ++ new ∧
    ∀ e ∈ new, (∀ x, e.about x = true → x = id) ∧ ∀ x sub base, e ≠ .enqueued x sub base

theorem Reports.adds {es : List Event} (h : Reports id es) :
    ∀ e ∈ es, (∀ x, e.about x = true → x = id) ∧ ∀ x sub base, e ≠ .enqueued x sub base := by
  intro e he
  obtain ⟨sub, source, same⟩ := h e he
  refine ⟨fun x hx => ?_, ?_⟩
  · cases e <;> simp_all [Event.source, Event.about]
  · rintro x sub' base rfl
    cases source

theorem AddsAbout.old {y : Int} {sub : Submission} (adds : AddsAbout id s t)
    (h : .enqueued y sub base ∈ t.log) : .enqueued y sub base ∈ s.log := by
  obtain ⟨new, log, about⟩ := adds
  rw [log, List.mem_append] at h
  exact h.resolve_right fun h => (about _ h).2 y sub base rfl

theorem Known.touched (k : Known s) (here : Enqueued id s.log) (adds : AddsAbout id s t)
    (ids : ∀ e x, t.submissionIdMap.lookup e = some x → s.submissionIdMap.lookup e = some x)
    (others : ∀ y, y ≠ id → Untouched s held t held' y) : Known t := by
  obtain ⟨new, log, about⟩ := adds
  have keep {y : Int} (h : y ≠ id → Enqueued y s.log) : Enqueued y t.log := by
    rw [log]
    by_cases same : y = id
    · exact same ▸ here.append
    · exact (h same).append
  refine ⟨fun e he y hy => ?_, fun n hn => ?_, fun y hy => ?_, fun y hy => ?_, fun y hy => ?_,
    fun e y hy => ?_⟩
  · rw [log, List.mem_append] at he
    refine keep fun other => ?_
    rcases he with he | he
    · exact k.events e he y hy
    · exact absurd ((about e he).1 y hy) other
  · refine keep fun other => ?_
    obtain ⟨m, hm, same⟩ := (others _ other).nodes n hn rfl
    exact same.2.1 ▸ k.nodes m hm
  · exact keep fun other => k.list y ((others y other).list ▸ hy)
  · exact keep fun other => k.cancelled y ((others y other).cancelled.mp hy)
  · exact keep fun other => k.groups y ((others y other).groups ▸ hy)
  · exact keep fun _ => k.ids e y (ids e y hy)

theorem Refined.touched {sub : Submission} {l' : Life} (r : Refined cfg s held) (w : Wired t held')
    (enq : .enqueued id sub base ∈ s.log) (reach : Life.Reachable cfg id base sub l')
    (follows : Follows t held' id base l') (adds : AddsAbout id s t)
    (ids : ∀ e x, t.submissionIdMap.lookup e = some x → s.submissionIdMap.lookup e = some x)
    (others : ∀ y, y ≠ id → Untouched s held t held' y) : Refined cfg t held' := by
  refine ⟨w, r.known.touched (enqueued_iff.mpr ⟨sub, base, enq⟩) adds ids others,
    fun y _ _ _ _ h h' => r.once y _ _ _ _ (adds.old h) (adds.old h'),
    fun y _ _ h => r.sound y _ _ (adds.old h), fun y sub' base' h => ?_⟩
  by_cases same : y = id
  · subst same
    obtain ⟨rfl, rfl⟩ := r.once y _ _ _ _ enq (adds.old h)
    exact ⟨l', reach, follows⟩
  · obtain ⟨l, reach, follows⟩ := r.lives y sub' base' (adds.old h)
    exact ⟨l, reach, follows.untouched (others y same)⟩

theorem Refined.same (r : Refined cfg s held) (log : t.log = s.log)
    (list : t.submissionList = s.submissionList) (cancelled : t.cancelledList = s.cancelledList)
    (groups : t.cancelledGroup = s.cancelledGroup) (graph : t.graph = s.graph)
    (ids : t.submissionIdMap = s.submissionIdMap) (w : Wired t held) : Refined cfg t held := by
  have untouched (y : Int) : Untouched s held t held y := .of_same log list cancelled groups graph
  refine ⟨w, ?_, ?_, ?_, ?_⟩
  · exact ⟨log ▸ r.known.events, log ▸ graph ▸ r.known.nodes, log ▸ list ▸ r.known.list,
      log ▸ cancelled ▸ r.known.cancelled, log ▸ groups ▸ r.known.groups, log ▸ ids ▸ r.known.ids⟩
  · exact log ▸ r.once
  · exact log ▸ r.sound
  · intro y sub base h
    obtain ⟨l, reach, follows⟩ := r.lives y sub base (log ▸ h)
    exact ⟨l, reach, follows.untouched (untouched y)⟩

/-- The life of the submission that a task in the graph belongs to. -/
theorem Refined.life {n : Node TaskInfo} (r : Refined cfg s held) (hn : n ∈ s.graph.nodes) :
    ∃ sub base l t, .enqueued n.data.submissionInternalId sub base ∈ s.log ∧ sub.WellFormed ∧
      sub.submissionInternalId = n.data.submissionInternalId ∧
      Life.Reachable cfg n.data.submissionInternalId base sub l ∧ l.Shape sub ∧
      Follows s held n.data.submissionInternalId base l ∧ t ∈ l.todo ∧ n.data.task = t ∧
      SameNode n (l.ctx.sub.planNode n.data.submissionInternalId base t) := by
  obtain ⟨sub, base, enq⟩ := enqueued_iff.mp (r.known.nodes n hn)
  obtain ⟨wf, key⟩ := r.sound _ _ _ enq
  obtain ⟨l, reach, follows⟩ := r.lives _ _ _ enq
  obtain ⟨t, ht, same⟩ := follows.nodes n hn rfl
  exact ⟨sub, base, l, t, enq, wf, key, reach, Life.shape wf reach, follows, ht,
    by rw [same.2.1]; rfl, same⟩

/-- The life of a submission of the list. -/
theorem Refined.listed {entry : SubmissionAndResult} (r : Refined cfg s held)
    (h : s.submissionList.lookup id = some entry) :
    ∃ base l, .enqueued id entry.sub base ∈ s.log ∧ entry.sub.WellFormed ∧
      entry.sub.submissionInternalId = id ∧ Life.Reachable cfg id base entry.sub l ∧
      entry = ⟨l.ctx.sub, l.ctx.result⟩ := by
  obtain ⟨sub, base, enq⟩ := enqueued_iff.mp (r.known.list id (Option.isSome_of_eq_some h))
  obtain ⟨wf, key⟩ := r.sound _ _ _ enq
  obtain ⟨l, reach, follows⟩ := r.lives _ _ _ enq
  have left : .summary ∈ l.todo := by
    by_contra gone
    cases h.symm.trans (follows.gone gone).1
  have same := (Life.shape wf reach).same
  obtain rfl := Option.some.inj (h.symm.trans (follows.listed left).1)
  subst same
  exact ⟨base, l, enq, wf, key, reach, rfl⟩

/-- The context of a call is the one of the life. -/
theorem Follows.ctx {sub : Submission} (f : Follows s held id base l) (shape : l.Shape sub)
    (key : sub.submissionInternalId = id) (left : .summary ∈ l.todo) :
    s.ctx ⟨l.ctx.sub, l.ctx.result⟩ = l.ctx.cleared := by
  obtain ⟨_, cancelled, groups⟩ := f.listed left
  obtain rfl : l.ctx.sub.submissionInternalId = id := by rw [shape.same, key]
  simp only [State.ctx, Ctx.cleared, groups, cancelled, Bool.decide_eq_true]

/-- A task on the queue is ready in its submission's life. -/
theorem Follows.ready {sub : Submission} {n : Node TaskInfo} {task : Task}
    (f : Follows s held id base l) (shape : l.Shape sub) (wf : sub.WellFormed) (w : Wired s held)
    (hn : n ∈ s.graph.nodes) (queued : n.id ∈ s.graph.queue) (ht : task ∈ l.todo)
    (node : SameNode n (l.ctx.sub.planNode id base task)) : l.Ready task := by
  obtain ⟨nid, _, _⟩ := node
  have counted := w.inv.ready n hn
  have positive := List.count_pos_iff.mpr queued
  have free : n.indeg = 0 ∧ n.id ∉ held := by
    split at counted
    · rename_i zero
      exact ⟨zero, List.count_eq_zero.mp (by omega)⟩
    · omega
  refine ⟨ht, fun running => ?_, fun a link ha => ?_⟩
  · have := (f.running task ht).mpr running
    exact free.2 (nid ▸ this)
  · obtain ⟨m, hm, same⟩ := f.todo a ha
    have edge : n.id ∈ m.edges := by
      rw [same.2.2, nid, shape.same]
      exact (Submission.mem_edges wf).mpr (shape.same ▸ link)
    have pointed := inCount_pos.mpr ⟨m, hm, edge⟩
    have := w.inv.indeg n hn
    omega

/-! ## Steps for a task -/

section Tasks

variable {n : Node TaskInfo} {c c' : Ctx} {entry : SubmissionAndResult} {files : BoxFiles}

theorem finalizeSummary_groups {listSize : Nat} {task : Task} {outcome : Option TaskOutcome}
    (h : finalize cfg c listSize task outcome = .ok c') (summary : task = .summary) :
    c'.cancelledGroup = none := by
  subst summary
  cases outcome with
  | none => exact (finalizeSummary_spec h).2.2.2.2.2.1
  | some o => exact (finalizeSummary_spec h).2.2.2.2.2.1

theorem lookup_erase_ids {m : UMap Int Int} {k e x : Int} (h : (m.erase k).lookup e = some x) :
    m.lookup e = some x := by
  rw [UMap.lookup_erase_eq] at h
  split at h
  · cases h
  · exact h

theorem settle_ids {outcome : Option TaskOutcome} {e x : Int}
    (h : (s.settle n outcome c).submissionIdMap.lookup e = some x) :
    s.submissionIdMap.lookup e = some x := by
  unfold State.settle at h
  split at h
  · exact lookup_erase_ids h
  · exact h

theorem adds_trans {u : State} (h : AddsAbout id s t) (h' : AddsAbout id t u) :
    AddsAbout id s u := by
  obtain ⟨new, log, about⟩ := h
  obtain ⟨new', log', about'⟩ := h'
  refine ⟨new ++ new', by rw [log', log, List.append_assoc], fun e he => ?_⟩
  exact (List.mem_append.mp he).elim (about e) (about' e)

theorem start_adds (reports : Reports n.data.submissionInternalId c.log) :
    AddsAbout n.data.submissionInternalId s (s.start n c) := by
  refine ⟨_, by rw [start_log, List.append_assoc], fun e he => ?_⟩
  rcases List.mem_cons.mp he with rfl | he
  · simp [Event.about]
  · exact reports.adds e he

theorem settle_adds {outcome : Option TaskOutcome}
    (reports : Reports n.data.submissionInternalId c.log) :
    AddsAbout n.data.submissionInternalId s (s.settle n outcome c) := by
  refine ⟨_, by rw [settle_log, List.append_assoc], fun e he => ?_⟩
  rcases List.mem_cons.mp he with rfl | he
  · simp [Event.about]
  · exact reports.adds e he

theorem launch_adds {handle : Int} (reports : Reports n.data.submissionInternalId c.log) :
    AddsAbout n.data.submissionInternalId s ((s.start n c).launch n.id n.data handle) := by
  refine adds_trans (start_adds reports) ⟨_, launch_log _ _ _ _, fun e he => ?_⟩
  obtain rfl := List.mem_singleton.mp he
  simp [Event.about]

/-- A task of the graph is left in the life of its submission, whose context the calls for the
task are made on. -/
structure Called (s : State) (base : Nat) (sub : Submission) (n : Node TaskInfo)
    (entry : SubmissionAndResult) (l : Life) : Prop where
  left : n.data.task ∈ l.todo
  node : SameNode n (l.ctx.sub.planNode n.data.submissionInternalId base n.data.task)
  ctx : s.ctx entry = l.ctx.cleared
  entry : entry.sub = sub

section Lives

variable {sub : Submission} {handle : Int} {listSize : Nat} {o : TaskOutcome}

theorem Follows.called (f : Follows s held n.data.submissionInternalId base l) (shape : l.Shape sub)
    (wf : sub.WellFormed) (key : sub.submissionInternalId = n.data.submissionInternalId)
    (hn : n ∈ s.graph.nodes)
    (listed : s.submissionList.lookup n.data.submissionInternalId = some entry) :
    Called s base sub n entry l := by
  obtain ⟨t, ht, same⟩ := f.nodes n hn rfl
  obtain rfl : n.data.task = t := by rw [same.2.1]; rfl
  have left := shape.summary_left wf ht
  obtain rfl := Option.some.inj (listed.symm.trans (f.listed left).1)
  exact ⟨ht, same, f.ctx shape key left, shape.same⟩

theorem Called.setup {launch : Bool} (call : Called s base sub n entry l) (shape : l.Shape sub)
    (key : sub.submissionInternalId = n.data.submissionInternalId)
    (ready : setup cfg (s.ctx entry) files n.data.task = .ok (launch, c)) :
    c.sub = l.ctx.sub ∧ c.sub.submissionInternalId = n.data.submissionInternalId ∧
      Reports n.data.submissionInternalId c.log := by
  rw [call.ctx] at ready
  obtain ⟨same, reports⟩ := setup_reports rfl ready
  have same : c.sub = l.ctx.sub := same
  refine ⟨same, by rw [same, shape.same, key], ?_⟩
  simpa [Ctx.cleared, shape.same, key] using reports

theorem Called.finalize (call : Called s base sub n entry l) (shape : l.Shape sub)
    (key : sub.submissionInternalId = n.data.submissionInternalId)
    (done : finalize cfg (s.ctx entry) listSize n.data.task (some o) = .ok c) :
    c.sub = l.ctx.sub ∧ c.sub.submissionInternalId = n.data.submissionInternalId ∧
      Reports n.data.submissionInternalId c.log := by
  rw [call.ctx] at done
  obtain ⟨same, reports⟩ := finalize_reports rfl done
  have same : c.sub = l.ctx.sub := same
  refine ⟨same, by rw [same, shape.same, key], ?_⟩
  simpa [Ctx.cleared, shape.same, key] using reports

theorem skipped_reports (ckey : c.sub.submissionInternalId = n.data.submissionInternalId)
    (done : finalize cfg c.cleared listSize n.data.task none = .ok c') :
    c'.sub = c.sub ∧ Reports n.data.submissionInternalId c'.log := by
  obtain ⟨same, reports⟩ := finalize_reports rfl done
  exact ⟨same, by simpa [Ctx.cleared, ckey] using reports⟩

theorem launch_follows (f : Follows s held n.data.submissionInternalId base l)
    (call : Called s base sub n entry l) (shape : l.Shape sub) (wf : sub.WellFormed)
    (key : sub.submissionInternalId = n.data.submissionInternalId) (same : c.sub = l.ctx.sub)
    (reports : Reports n.data.submissionInternalId c.log) :
    Follows ((s.start n c).launch n.id n.data handle) (n.id :: held)
      n.data.submissionInternalId base
      ((l.started n.data.submissionInternalId base n.data.task c).launched
        n.data.submissionInternalId base n.data.task handle) := by
  have started := start_follows f shape wf call.left call.node same key reports
  refine ⟨?_, started.listed, started.gone, started.nodes, started.todo, started.running⟩
  rw [launch_log, List.filter_append, started.log]
  simp [Event.about, Life.launched, Life.started, Ctx.withLog, same, call.node.1,
    Submission.planNode]

theorem launch_untouched (w : Wired s held) (hn : n ∈ s.graph.nodes)
    (ckey : c.sub.submissionInternalId = n.data.submissionInternalId)
    (reports : Reports n.data.submissionInternalId c.log)
    (other : id ≠ n.data.submissionInternalId) :
    Untouched s held ((s.start n c).launch n.id n.data handle) (n.id :: held) id := by
  refine (start_untouched w hn ckey reports other).trans
    ⟨?_, rfl, Iff.rfl, rfl, fun m hm _ => ⟨m, hm, rfl, rfl, rfl⟩,
      fun m hm _ => ⟨m, hm, rfl, rfl, rfl⟩, fun _ _ _ => Iff.rfl⟩
  simp [Event.about, Ne.symm other]

theorem skip_follows (f : Follows s held n.data.submissionInternalId base l)
    (call : Called s base sub n entry l) (shape : l.Shape sub) (wf : sub.WellFormed)
    (key : sub.submissionInternalId = n.data.submissionInternalId) (ready : l.Ready n.data.task)
    (same : c.sub = l.ctx.sub) (reports : Reports n.data.submissionInternalId c.log)
    (done : finalize cfg c.cleared listSize n.data.task none = .ok c') (same' : c'.sub = c.sub)
    (reports' : Reports n.data.submissionInternalId c'.log) :
    Follows ((s.start n c).settle n none c') held n.data.submissionInternalId base
      ((l.started n.data.submissionInternalId base n.data.task c).settled
        n.data.submissionInternalId base n.data.task none c') := by
  have started := start_follows f shape wf call.left call.node same key reports
  have node : SameNode n ((l.started n.data.submissionInternalId base n.data.task
      c).ctx.sub.planNode n.data.submissionInternalId base n.data.task) := by
    simpa [Life.started, Ctx.withLog, same] using call.node
  exact settle_follows started (shape.started ready same) wf call.left node same' key reports'
    (finalizeSummary_groups done)

theorem skip_untouched (w : Wired s held) (queued : n.id ∈ s.graph.queue) (hn : n ∈ s.graph.nodes)
    (ckey : c.sub.submissionInternalId = n.data.submissionInternalId)
    (reports : Reports n.data.submissionInternalId c.log) (same' : c'.sub = c.sub)
    (reports' : Reports n.data.submissionInternalId c'.log)
    (other : id ≠ n.data.submissionInternalId) :
    Untouched s held ((s.start n c).settle n none c') held id :=
  (start_untouched w hn ckey reports other).trans
    (settle_untouched (w.start queued hn reports) hn (by rw [same', ckey]) reports' other)

theorem Wired.mem_held (w : Wired s held) (handled : s.handleMap.lookup handle = some n.id) :
    n.id ∈ held :=
  w.handles.subset ((UMap.values_erase handled).mem_iff.mpr List.mem_cons_self)

/-- Nothing is known of a task that has returned but that it is not finalized. -/
theorem returned_untouched (here : n.id ∈ held) :
    Untouched s held (s.returned handle) (n.id :: held.erase n.id) id :=
  ⟨rfl, rfl, Iff.rfl, rfl, fun m hm _ => ⟨m, hm, rfl, rfl, rfl⟩,
    fun m hm _ => ⟨m, hm, rfl, rfl, rfl⟩, fun _ _ _ => (List.perm_cons_erase here).mem_iff.symm⟩

theorem Follows.runs (f : Follows s held n.data.submissionInternalId base l)
    (hn : n ∈ s.graph.nodes) (here : n.id ∈ held) : n.data.task ∈ l.running := by
  obtain ⟨t, ht, node⟩ := f.nodes n hn rfl
  obtain rfl : n.data.task = t := by rw [node.2.1]; rfl
  rw [← f.running _ ht, show l.ctx.sub.taskId base n.data.task = n.id from node.1.symm]
  exact here

theorem result_follows (f : Follows s held n.data.submissionInternalId base l)
    (call : Called s base sub n entry l) (shape : l.Shape sub) (wf : sub.WellFormed)
    (key : sub.submissionInternalId = n.data.submissionInternalId) (here : n.id ∈ held)
    (done : Judge.finalize cfg (s.ctx entry) listSize n.data.task (some o) = .ok c)
    (same : c.sub = l.ctx.sub) (reports : Reports n.data.submissionInternalId c.log) :
    Follows ((s.returned handle).settle n (some o) c).resume (held.erase n.id)
      n.data.submissionInternalId base
      (l.settled n.data.submissionInternalId base n.data.task (some o) c) :=
  (settle_follows (f.untouched (returned_untouched here)) shape wf call.left call.node same key
    reports (finalizeSummary_groups done)).untouched (.of_same rfl rfl rfl rfl rfl)

theorem result_untouched (w : Wired s held) (handled : s.handleMap.lookup handle = some n.id)
    (hn : n ∈ s.graph.nodes) (ckey : c.sub.submissionInternalId = n.data.submissionInternalId)
    (reports : Reports n.data.submissionInternalId c.log)
    (other : id ≠ n.data.submissionInternalId) :
    Untouched s held ((s.returned handle).settle n (some o) c).resume (held.erase n.id) id :=
  ((returned_untouched (w.mem_held handled)).trans
    (settle_untouched (w.returned handled).1 hn ckey reports other)).trans
      (.of_same rfl rfl rfl rfl rfl)

end Lives

theorem Refined.launch {handle : Int} (r : Refined cfg s held)
    (queued : n.id ∈ s.graph.queue) (hn : n ∈ s.graph.nodes)
    (listed : s.submissionList.lookup n.data.submissionInternalId = some entry)
    (ready : setup cfg (s.ctx entry) files n.data.task = .ok (true, c)) :
    Refined cfg ((s.start n c).launch n.id n.data handle) (n.id :: held) := by
  obtain ⟨sub, base, l, _, enq, wf, key, reach, shape, follows, -, -, -⟩ := r.life hn
  have call := follows.called shape wf key hn listed
  obtain ⟨same, ckey, reports⟩ := call.setup shape key ready
  have lready := follows.ready shape wf r.wired hn queued call.left call.node
  exact r.touched (r.wired.launch queued hn reports) enq
    (.next reach (.launch lready (call.ctx ▸ ready)))
    (launch_follows follows call shape wf key same reports) (launch_adds reports) (fun _ _ h => h)
    fun y other => launch_untouched r.wired hn ckey reports other

theorem Refined.skip {listSize : Nat} (r : Refined cfg s held)
    (queued : n.id ∈ s.graph.queue) (hn : n ∈ s.graph.nodes)
    (listed : s.submissionList.lookup n.data.submissionInternalId = some entry)
    (ready : setup cfg (s.ctx entry) files n.data.task = .ok (false, c))
    (done : finalize cfg c.cleared listSize n.data.task none = .ok c') :
    Refined cfg ((s.start n c).settle n none c') held := by
  obtain ⟨sub, base, l, _, enq, wf, key, reach, shape, follows, -, -, -⟩ := r.life hn
  have call := follows.called shape wf key hn listed
  obtain ⟨same, ckey, reports⟩ := call.setup shape key ready
  obtain ⟨same', reports'⟩ := skipped_reports ckey done
  have lready := follows.ready shape wf r.wired hn queued call.left call.node
  exact r.touched ((r.wired.start queued hn reports).settle hn reports' r.wired.handles) enq
    (.next reach (.skip lready (call.ctx ▸ ready) done))
    (skip_follows follows call shape wf key lready same reports done same' reports')
    (adds_trans (start_adds reports) (settle_adds reports'))
    (fun _ _ h => settle_ids (s := s.start n c) h)
    fun y other => skip_untouched r.wired queued hn ckey reports same' reports' other

theorem Refined.result {handle : Int} {o : TaskOutcome} {listSize : Nat} (r : Refined cfg s held)
    (handled : s.handleMap.lookup handle = some n.id) (hn : n ∈ s.graph.nodes)
    (listed : s.submissionList.lookup n.data.submissionInternalId = some entry)
    (done : finalize cfg (s.ctx entry) listSize n.data.task (some o) = .ok c) :
    Refined cfg ((s.returned handle).settle n (some o) c).resume (held.erase n.id) := by
  obtain ⟨sub, base, l, _, enq, wf, key, reach, shape, follows, -, -, -⟩ := r.life hn
  have call := follows.called shape wf key hn listed
  obtain ⟨same, ckey, reports⟩ := call.finalize shape key done
  have here := r.wired.mem_held handled
  obtain ⟨wreturned, rest⟩ := r.wired.returned handled
  have wired : Wired ((s.returned handle).settle n (some o) c) (held.erase n.id) :=
    wreturned.settle hn reports rest
  exact r.touched ⟨wired.inv, wired.below, wired.handles, wired.dispatched⟩ enq
    (.next reach (.finish (follows.runs hn here) (call.ctx ▸ done)))
    (result_follows follows call shape wf key here done same reports) (settle_adds reports)
    (fun _ _ h => settle_ids (s := s.returned handle) h)
    fun y other => result_untouched r.wired handled hn ckey reports other

end Tasks

/-! ## Pushing a submission -/

section Push

variable {sub : Submission} {submissionId : Int}

theorem enqueue_untouched {y : Int} (other : y ≠ id) : Untouched s held (s.enqueue id sub) held y where
  log := by simp [Event.about, Ne.symm other]
  list := by
    simp only [State.enqueue]
    split
    · rfl
    · rw [UMap.lookup_insert_eq, if_neg other]
  cancelled := Iff.rfl
  groups := rfl
  nodes := by
    intro n hn same
    simp only [State.enqueue, Graph.insertAll_eq, List.mem_append] at hn
    rcases hn with hn | hn
    · exact ⟨n, hn, rfl, rfl, rfl⟩
    · obtain ⟨t, _, rfl⟩ := Submission.mem_planNodes.mp hn
      exact absurd same.symm other
  todo := by
    intro n hn _
    refine ⟨n, ?_, rfl, rfl, rfl⟩
    simp only [State.enqueue, Graph.insertAll_eq, List.mem_append]
    exact .inl hn
  held := fun _ _ _ => Iff.rfl

/-- Superseding cancels the submission, or does not concern it. -/
theorem supersede_follows {y : Int} (f : Follows s held y base l) :
    ∃ l', (l' = l ∨ l' = l.cancel y) ∧ Follows (s.supersede submissionId id) held y base l' := by
  cases current : s.submissionIdMap.lookup submissionId with
  | none =>
    refine ⟨l, .inl rfl, f.untouched (.of_same ?_ rfl ?_ rfl rfl)⟩
    · simp [current]
    · simp [State.supersede, current]
  | some old =>
    have list : (s.supersede submissionId id).cancelledList = insert old s.cancelledList := by
      simp [State.supersede, current]
    by_cases this : old = y
    · subst this
      refine ⟨l.cancel old, .inr rfl, ?_, fun left => ?_, f.gone, f.nodes, f.todo,
        f.running⟩
      · simp [current, Event.about, f.log, Life.cancel]
      · obtain ⟨listed, _, groups⟩ := f.listed left
        exact ⟨listed, by simp [list, Life.cancel], groups⟩
    · refine ⟨l, .inl rfl, f.untouched ⟨?_, rfl, ?_, rfl, fun n hn _ => ⟨n, hn, rfl, rfl, rfl⟩,
        fun n hn _ => ⟨n, hn, rfl, rfl, rfl⟩, fun _ _ _ => Iff.rfl⟩⟩
      · simp [current, Event.about, this]
      · simp [list, Ne.symm this]

theorem mem_supersede_cancelled {y : Int}
    (h : y ∈ (s.supersede submissionId id).cancelledList) :
    y ∈ s.cancelledList ∨ s.submissionIdMap.lookup submissionId = some y := by
  simp only [State.supersede] at h
  split at h
  · exact .inl h
  · rename_i current
    rcases Finset.mem_insert.mp h with rfl | h
    · exact .inr current
    · exact .inl h

theorem enqueue_follows (r : Refined cfg s held) (fresh : ¬ Enqueued id s.log) :
    Follows ((s.enqueue id sub).supersede submissionId id) held id s.taskCount
      (Life.start id s.taskCount sub) where
  log := by
    have before : s.log.filter (Event.about id) = [] :=
      List.filter_eq_nil_iff.mpr fun e he about => fresh (r.known.events e he id about)
    have other : ∀ old, s.submissionIdMap.lookup submissionId = some old → old ≠ id := by
      rintro old current rfl
      exact fresh (r.known.ids _ _ current)
    simpa [before, Event.about, Life.start, State.enqueue] using other
  listed := fun _ => by
    have notListed : id ∉ s.submissionList := fun h =>
      fresh (r.known.list id (AList.lookup_isSome.mpr h))
    have notCancelled : id ∉ ((s.enqueue id sub).supersede submissionId id).cancelledList := by
      intro h
      rcases mem_supersede_cancelled h with h | h
      · exact fresh (r.known.cancelled id h)
      · exact fresh (r.known.ids _ id h)
    have noGroups : s.cancelledGroup.lookup id = none := by
      by_contra h
      exact fresh (r.known.groups id (Option.isSome_iff_ne_none.mpr h))
    refine ⟨?_, by simpa [Life.start] using notCancelled, noGroups⟩
    simp [State.supersede, State.enqueue, notListed, Life.start]
  gone := fun h => by
    simp [Life.start, Submission.planTasks] at h
  nodes := by
    intro n hn same
    simp only [supersede_graph, State.enqueue, Graph.insertAll_eq, List.mem_append] at hn
    rcases hn with hn | hn
    · exact absurd (same ▸ r.known.nodes n hn) fresh
    · obtain ⟨t, ht, rfl⟩ := Submission.mem_planNodes.mp hn
      exact ⟨t, List.mem_toFinset.mpr (Submission.mem_planTasks.mpr ht), rfl, rfl, rfl⟩
  todo := by
    intro t ht
    refine ⟨sub.planNode id s.taskCount t, ?_, rfl, rfl, rfl⟩
    simp only [supersede_graph, State.enqueue, Graph.insertAll_eq, List.mem_append]
    exact .inr (Submission.mem_planNodes.mpr
      ⟨t, Submission.mem_planTasks.mp (List.mem_toFinset.mp ht), rfl⟩)
  running := by
    intro t _
    simp only [Life.start, Finset.notMem_empty, iff_false]
    intro h
    obtain ⟨n, hn, same⟩ := r.wired.inv.known _ (.inr h)
    have below := r.wired.below _ (List.mem_map_of_mem hn)
    rw [same] at below
    exact absurd below (Nat.not_lt.mpr (Nat.le_add_right _ _))

theorem Known.enqueue (k : Known s) : Known ((s.enqueue id sub).supersede submissionId id) := by
  obtain ⟨added, log, about⟩ : ∃ added, ((s.enqueue id sub).supersede submissionId id).log =
      s.log ++ .enqueued id sub s.taskCount :: added ∧
      ∀ e ∈ added, ∀ y, e.about y = true → Enqueued y s.log := by
    refine ⟨_, by rw [supersede_log, enqueue_log, List.append_assoc]; rfl, fun e he y hy => ?_⟩
    obtain ⟨old, current, rfl⟩ := List.mem_map.mp he
    obtain rfl : old = y := by simpa [Event.about] using hy
    exact k.ids _ _ (Option.mem_toList.mp current)
  have new : Enqueued id (s.log ++ .enqueued id sub s.taskCount :: added) := by
    simp [Enqueued, Event.enqueues]
  refine ⟨fun e he y hy => ?_, fun n hn => ?_, fun y hy => ?_, fun y hy => ?_, fun y hy => ?_,
    fun e y hy => ?_⟩ <;> rw [log]
  · rw [log, List.mem_append, List.mem_cons] at he
    rcases he with he | rfl | he
    · exact (k.events e he y hy).append
    · obtain rfl : id = y := by simpa [Event.about] using hy
      exact new
    · exact (about e he y hy).append
  · simp only [supersede_graph, State.enqueue, Graph.insertAll_eq, List.mem_append] at hn
    rcases hn with hn | hn
    · exact (k.nodes n hn).append
    · obtain ⟨t, _, rfl⟩ := Submission.mem_planNodes.mp hn
      exact new
  · by_cases same : y = id
    · exact same ▸ new
    · have old : (s.submissionList.lookup y).isSome = true := by
        have kept : Untouched s [] (s.enqueue id sub) [] y := enqueue_untouched same
        rw [← kept.list]
        exact hy
      exact (k.list y old).append
  · rcases mem_supersede_cancelled hy with h | h
    · exact (k.cancelled y h).append
    · exact (k.ids _ y h).append
  · exact (k.groups y hy).append
  · simp only [State.supersede, UMap.lookup_insert_eq] at hy
    split at hy
    · cases hy
      exact new
    · exact (k.ids e y hy).append

theorem Refined.push (r : Refined cfg s held) (exist : sub.clamp.probStageExists = true)
    (key : sub.submissionInternalId = id) (fresh : ¬ Enqueued id s.log) :
    Refined cfg ((s.enqueue id sub.clamp).supersede submissionId id) held := by
  have wf := wellFormed_clamp exist
  have split {y : Int} {sub' : Submission} {base' : Nat}
      (h : .enqueued y sub' base' ∈ ((s.enqueue id sub.clamp).supersede submissionId id).log) :
      .enqueued y sub' base' ∈ s.log ∨ (y = id ∧ sub' = sub.clamp ∧ base' = s.taskCount) := by
    simpa using h
  have unused {y : Int} {sub' : Submission} {base' : Nat} (h : .enqueued y sub' base' ∈ s.log) :
      y ≠ id := by
    rintro rfl
    exact fresh (enqueued_iff.mpr ⟨_, _, h⟩)
  refine ⟨r.wired.enqueue exist, r.known.enqueue, ?_, ?_, ?_⟩
  · intro y sub₁ base₁ sub₂ base₂ h₁ h₂
    rcases split h₁ with h₁ | ⟨new, rfl, rfl⟩ <;> rcases split h₂ with h₂ | ⟨new', rfl, rfl⟩
    · exact r.once y _ _ _ _ h₁ h₂
    · exact absurd new' (unused h₁)
    · exact absurd new (unused h₂)
    · exact ⟨rfl, rfl⟩
  · intro y sub' base' h
    rcases split h with h | ⟨rfl, rfl, rfl⟩
    · exact r.sound y _ _ h
    · exact ⟨wf, key⟩
  · intro y sub' base' h
    rcases split h with h | ⟨rfl, rfl, rfl⟩
    · obtain ⟨l, reach, follows⟩ := r.lives y _ _ h
      obtain ⟨l', same | same, follows⟩ :=
        supersede_follows (follows.untouched (enqueue_untouched (unused h)))
      · exact ⟨l', same ▸ reach, follows⟩
      · exact ⟨l', same ▸ .next reach .cancel, follows⟩
    · exact ⟨_, .start, enqueue_follows r fresh⟩

end Push

/-! ## Every reachable state -/

theorem Refined.init : Refined cfg .init [] := by
  have empty {e : Event} : e ∉ State.init.log := List.not_mem_nil
  refine ⟨.init, ⟨fun e he => absurd he empty, fun n hn => ?_, fun y hy => ?_, fun y hy => ?_,
    fun y hy => ?_, fun e y hy => ?_⟩, fun _ _ _ _ _ h => absurd h empty,
    fun _ _ _ h => absurd h empty, fun _ _ _ h => absurd h empty⟩
  · simp [State.init, Graph.empty] at hn
  · simp [State.init] at hy
  · simp [State.init] at hy
  · simp [State.init] at hy
  · simp [State.init] at hy

theorem Refined.step {l : Label} (r : Refined cfg s held) (fresh : freshId s l)
    (h : Step cfg s l t) : ∃ held', Refined cfg t held' := by
  cases h with
  | refused => exact ⟨held, r⟩
  | push _ exist narrow =>
    rw [narrow, fresh.1]
    exact ⟨held, r.push exist rfl fresh.2⟩
  | wake | block | exit =>
    exact ⟨held, r.same rfl rfl rfl rfl rfl rfl
      ⟨r.wired.inv, r.wired.below, r.wired.handles, r.wired.dispatched⟩⟩
  | launch enabled found listed ready =>
    exact ⟨_, r.launch enabled.2.2.1.1 (Graph.find_mem found).1 listed ready⟩
  | skip enabled found listed ready done =>
    exact ⟨_, r.skip enabled.2.2.1.1 (Graph.find_mem found).1 listed ready done⟩
  | result _ handled found listed done =>
    exact ⟨_, r.result handled (Graph.find_mem found).1 listed done⟩

/-- Each enqueued submission has a life of its own that the state follows. -/
theorem refined (h : (judge cfg).Reach freshId s) : ∃ held, Refined cfg s held :=
  h.invariant (I := fun s => ∃ held, Refined cfg s held) ⟨[], .init⟩
    fun _ _ _ _ ⟨_, r⟩ fresh hs => r.step fresh (step_cases hs)

/-- The events about a submission are those of a life. -/
theorem lived {sub : Submission} (h : (judge cfg).Reach freshId s)
    (enq : .enqueued id sub base ∈ s.log) :
    ∃ l, sub.WellFormed ∧ sub.submissionInternalId = id ∧ Life.Reachable cfg id base sub l ∧
      s.log.filter (Event.about id) = l.ctx.log := by
  obtain ⟨held, r⟩ := refined h
  obtain ⟨wf, key⟩ := r.sound id sub base enq
  obtain ⟨l, reach, follows⟩ := r.lives id sub base enq
  exact ⟨l, wf, key, reach, follows.log⟩

/-- Events are about submissions that were enqueued. -/
theorem enqueued_of_event {e : Event} (h : (judge cfg).Reach freshId s) (he : e ∈ s.log)
    (about : e.about id = true) : ∃ sub base, .enqueued id sub base ∈ s.log := by
  obtain ⟨held, r⟩ := refined h
  exact enqueued_iff.mp (r.known.events e he id about)

/-- What every life has timely, the log has. -/
theorem timely_of_lives {P : List Event → Event → Prop} {sub : Submission}
    (h : (judge cfg).Reach freshId s) (enq : .enqueued id sub base ∈ s.log)
    (lives : ∀ l, sub.WellFormed → sub.submissionInternalId = id →
      Life.Reachable cfg id base sub l → Timely P l.ctx.log)
    (more : ∀ past e, P (past.filter (Event.about id)) e → P past e)
    (other : ∀ past e, e.about id = false → P past e) : Timely P s.log := by
  obtain ⟨l, wf, key, reach, log⟩ := lived h enq
  exact (log ▸ lives l wf key reach : Timely P (s.log.filter _)).of_filter more other

@[simp] theorem ended_filter {log : List Event} {t : Task} {outcome : Option TaskOutcome} :
    Life.Ended id t outcome (log.filter (Event.about id)) ↔ Life.Ended id t outcome log := by
  simp [Life.Ended, Event.about]

end TiojJudge.Judge
