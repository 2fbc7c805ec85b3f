import TiojJudge.Judge.Refinement

/-!
# Submissions replaced by newer ones

Under a `submission_id`, `submission_id_map` has the submission that is being
judged; a newer one cancels it. The map is keyed by `submission_id`, and
`FinalizeSummary` erases the key of the internal id.

* `keepsEntries`: no submission takes the entry of another one with it;
* `Current`: as long as it is not cancelled, a submission is the one in the map, and
  no newer one was enqueued;
* `replaced_silent`: what follows for the list and for the reports.
-/

namespace TiojJudge.Judge
open Machine TaskGraph

/-- After this submission a newer one was enqueued, with its `submission_id`. -/
def Replaced (sub : Submission) (log : List Event) : Prop :=
  ∃ first id newer next, newer.submissionId = sub.submissionId ∧
    [.enqueued sub.submissionInternalId sub first, .enqueued id newer next].Sublist log

/-- Results are reported of submissions that were not replaced. -/
def Silent (past : List Event) (e : Event) : Prop :=
  ∀ sub, e.isResult = true → e.source = some sub → ¬ Replaced sub past

/-- At most one submission of a `submission_id` is not cancelled. -/
def OneCurrent (s : State) : Prop :=
  ∀ x y a b, s.submissionList.lookup x = some a → s.submissionList.lookup y = some b →
    a.sub.submissionId = b.sub.submissionId → x ∉ s.cancelledList → y ∉ s.cancelledList → x = y

/-- The submission whose summary the step finalizes. -/
def State.finishing (cfg : Config) (s : State) : Label → Option Int
  | .dispatch tid _ files =>
    (s.graph.find tid).bind fun n =>
      (s.submissionList.lookup n.data.submissionInternalId).bind fun entry =>
        match setup cfg (s.ctx entry) files n.data.task with
        | .ok (false, _) =>
          if n.data.task = .summary then some n.data.submissionInternalId else none
        | _ => none
  | .result handle _ =>
    (s.handleMap.lookup handle).bind fun tid =>
      (s.graph.find tid).bind fun n =>
        if n.data.task = .summary then some n.data.submissionInternalId else none
  | _ => none

/-- A submission that finishes has no internal id under which the map has another one
that is being judged. -/
def keepsEntries (cfg : Config) (s : State) (l : Label) : Prop :=
  freshId s l ∧ ∀ x ∈ s.finishing cfg l, ∀ y ∈ s.submissionIdMap.lookup x,
    y ∈ s.submissionList → y = x

instance (cfg : Config) : DecidableRel (keepsEntries cfg) := fun s l => by
  unfold keepsEntries
  infer_instance

/-! ## Replacement in the log -/

section Log

variable {sub : Submission} {log new : List Event}

/-- Other events replace nothing. -/
theorem replaced_append (quiet : ∀ e ∈ new, ∀ id sub first, e ≠ .enqueued id sub first) :
    Replaced sub (log ++ new) ↔ Replaced sub log := by
  constructor
  · rintro ⟨first, id, newer, next, same, sublist⟩
    obtain ⟨l, k, split, left, right⟩ := List.sublist_append_iff.mp sublist
    refine ⟨first, id, newer, next, same, ?_⟩
    cases k using List.reverseRecOn with
    | nil => simpa [split] using left
    | append_singleton k e =>
      have last : Event.enqueued id newer next = e := by
        have := congrArg List.getLast? split
        simpa [← List.append_assoc] using this
      exact absurd last.symm (quiet e (right.subset (by simp)) id newer next)
  · rintro ⟨first, id, newer, next, same, sublist⟩
    exact ⟨first, id, newer, next, same, sublist.trans (List.sublist_append_left log new)⟩

theorem Replaced.enqueued (h : Replaced sub log) : Enqueued sub.submissionInternalId log := by
  obtain ⟨first, _, _, _, _, sublist⟩ := h
  exact enqueued_iff.mpr ⟨sub, first, sublist.subset List.mem_cons_self⟩

theorem replaced_enqueued {id : Int} {newer : Submission} {next : Nat}
    (h : Replaced sub (log ++ [.enqueued id newer next])) :
    Replaced sub log ∨
      Enqueued sub.submissionInternalId log ∧ newer.submissionId = sub.submissionId := by
  obtain ⟨first, k, other, after, same, sublist⟩ := h
  obtain ⟨l, r, split, left, right⟩ := List.sublist_append_iff.mp sublist
  rcases List.sublist_singleton.mp right with rfl | rfl
  · apply Or.inl
    rw [List.append_nil] at split
    exact ⟨first, k, other, after, same, split ▸ left⟩
  · apply Or.inr
    cases l with
    | nil => simp at split
    | cons a l =>
      simp only [List.cons_append, List.cons.injEq] at split
      obtain ⟨rfl, rest⟩ := split
      have last := congrArg List.getLast? rest
      simp only [List.getLast?_singleton, List.getLast?_concat, Option.some.injEq,
        Event.enqueued.injEq] at last
      obtain ⟨_, rfl, _⟩ := last
      exact ⟨enqueued_iff.mpr ⟨sub, first, left.subset List.mem_cons_self⟩, same⟩

end Log

/-- The submissions that are not cancelled are those of the map, and nothing was
reported of the others. -/
structure Current (s : State) : Prop where
  keyed : ∀ x entry, s.submissionList.lookup x = some entry → entry.sub.submissionInternalId = x
  latest : ∀ x entry, s.submissionList.lookup x = some entry → x ∉ s.cancelledList →
    s.submissionIdMap.lookup entry.sub.submissionId = some x
  newest : ∀ x entry, s.submissionList.lookup x = some entry → x ∉ s.cancelledList →
    ¬ Replaced entry.sub s.log
  silent : Timely Silent s.log

variable {cfg : Config} {s t : State}

theorem Current.init : Current .init where
  keyed := by
    intro x entry h
    simp [State.init] at h
  latest := by
    intro x entry h
    simp [State.init] at h
  newest := by
    intro x entry h
    simp [State.init] at h
  silent := .nil

theorem Current.oneCurrent (cur : Current s) : OneCurrent s := by
  intro x y a b hx hy same freeX freeY
  have here := cur.latest x a hx freeX
  rw [same, cur.latest y b hy freeY] at here
  exact (Option.some.inj here).symm

/-- A step that enqueues nothing, cancels nobody any less and reports of submissions that
are not replaced. -/
theorem Current.write (cur : Current s) (new : List Event)
    (list : ∀ x entry, t.submissionList.lookup x = some entry →
      ∃ old, s.submissionList.lookup x = some old ∧ entry.sub = old.sub)
    (free : ∀ x entry, t.submissionList.lookup x = some entry → x ∉ t.cancelledList →
      x ∉ s.cancelledList)
    (ids : ∀ x entry, t.submissionList.lookup x = some entry →
      s.submissionIdMap.lookup entry.sub.submissionId = some x →
        t.submissionIdMap.lookup entry.sub.submissionId = some x)
    (log : t.log = s.log ++ new)
    (quiet : ∀ e ∈ new, ∀ id sub first, e ≠ .enqueued id sub first)
    (silent : ∀ e ∈ new, ∀ sub, e.isResult = true → e.source = some sub → ¬ Replaced sub s.log) :
    Current t where
  keyed := by
    intro x entry h
    obtain ⟨old, listed, same⟩ := list x entry h
    rw [same]
    exact cur.keyed x old listed
  latest := by
    intro x entry h notCancelled
    obtain ⟨old, listed, same⟩ := list x entry h
    apply ids x entry h
    rw [same]
    exact cur.latest x old listed (free x entry h notCancelled)
  newest := by
    intro x entry h notCancelled
    obtain ⟨old, listed, same⟩ := list x entry h
    rw [same, log, replaced_append quiet]
    exact cur.newest x old listed (free x entry h notCancelled)
  silent := by
    rw [log]
    apply cur.silent.append
    intro past e future split sub result source
    have before : ∀ e ∈ past, ∀ id sub first, e ≠ .enqueued id sub first := by
      intro e he
      exact quiet e (by simp [split, he])
    rw [replaced_append before]
    exact silent e (by simp [split]) sub result source

/-! ## The parts of a step -/

section Parts

variable {n : Node TaskInfo} {entry : SubmissionAndResult} {c : Ctx}

/-- Reports of a call enqueue nothing. -/
theorem quiet_reports {e : Event} {log : List Event} {sub : Submission}
    (plain : ∀ id sub first, e ≠ .enqueued id sub first)
    (source : ∀ e ∈ log, e.source = some sub) :
    ∀ e' ∈ [e] ++ log, ∀ id sub first, e' ≠ .enqueued id sub first := by
  intro e' he id sub' first
  rcases List.mem_append.mp he with he | he
  · rw [List.mem_singleton.mp he]
    exact plain id sub' first
  · rintro rfl
    cases source _ he

/-- What a call on a listed submission writes. -/
theorem Current.putCtx {e : Event} (cur : Current s)
    (listed : s.submissionList.lookup n.data.submissionInternalId = some entry)
    (frame : (s.ctx entry).Frame c) (cancelled : c.cancelled = (s.ctx entry).cancelled)
    (plain : ∀ id sub first, e ≠ .enqueued id sub first) (unreported : e.isResult = false)
    (results : ∀ e ∈ c.log, e.isResult = true → (s.ctx entry).cancelled = false) :
    Current ((s.emit e).putCtx n.data.submissionInternalId c) := by
  have key : c.sub.submissionInternalId = n.data.submissionInternalId := by
    rw [frame.sub]
    exact cur.keyed _ entry listed
  have same : entry.sub.submissionInternalId = n.data.submissionInternalId := cur.keyed _ entry listed
  have source := frame.source rfl
  apply cur.write ([e] ++ c.log)
  · intro x entry' h
    simp only [State.putCtx, State.emit, UMap.lookup_insert_eq] at h
    by_cases here : x = n.data.submissionInternalId
    · rw [if_pos here, Option.some.injEq] at h
      subst here h
      exact ⟨entry, listed, frame.sub⟩
    · rw [if_neg here] at h
      exact ⟨entry', h, rfl⟩
  · intro x entry' _ free cancelledBefore
    apply free
    simp only [State.putCtx, State.emit, key]
    cases on : c.cancelled with
    | true => exact Finset.mem_insert_of_mem cancelledBefore
    | false =>
      refine Finset.mem_erase.mpr ⟨?_, cancelledBefore⟩
      rintro rfl
      rw [on, State.ctx, same] at cancelled
      simp [cancelledBefore] at cancelled
  · intro x entry' _ current
    exact current
  · simp [State.putCtx, State.emit]
  · exact quiet_reports plain source
  · intro e' he sub result from_
    rcases List.mem_append.mp he with he | he
    · rw [List.mem_singleton.mp he, unreported] at result
      cases result
    · obtain rfl := Option.some.inj (from_.symm.trans (source e' he))
      apply cur.newest _ entry listed
      have off := results e' he result
      simpa [State.ctx, same] using off

theorem Current.start {files : BoxFiles} {launch : Bool} (cur : Current s)
    (listed : s.submissionList.lookup n.data.submissionInternalId = some entry)
    (ready : setup cfg (s.ctx entry) files n.data.task = .ok (launch, c)) :
    Current (s.start n c) := by
  have popped : Current { s with graph := s.graph.pop n.id } :=
    ⟨cur.keyed, cur.latest, cur.newest, cur.silent⟩
  apply popped.putCtx listed (setup_frame ready) (setup_cancelled ready)
  · intro id sub first
    exact Event.noConfusion
  · rfl
  · intro e he result
    exact (setup_results rfl ready he result).1

theorem Current.launch {info : TaskInfo} {tid : Nat} {handle : Int} (cur : Current s) :
    Current (s.launch tid info handle) := by
  apply cur.write [.launched tid info.submissionInternalId info.task handle]
  · intro x entry listed
    exact ⟨entry, listed, rfl⟩
  · intro x entry _ free
    exact free
  · intro x entry _ current
    exact current
  · rfl
  · intro e he id sub first
    rw [List.mem_singleton.mp he]
    exact Event.noConfusion
  · intro e he sub result
    rw [List.mem_singleton.mp he] at result
    cases result

/-- A finalizer, and at the end the removal of the submission. -/
theorem Current.settle {outcome : Option TaskOutcome} {listSize : Nat} (cur : Current s)
    (listed : s.submissionList.lookup n.data.submissionInternalId = some entry)
    (done : finalize cfg (s.ctx entry) listSize n.data.task outcome = .ok c)
    (keeps : n.data.task = .summary → ∀ y ∈ s.submissionIdMap.lookup n.data.submissionInternalId,
      y ∈ s.submissionList → y = n.data.submissionInternalId) :
    Current (s.settle n outcome c) := by
  have same : entry.sub.submissionInternalId = n.data.submissionInternalId := cur.keyed _ entry listed
  have frame := finalize_frame done
  have key : c.sub.submissionInternalId = n.data.submissionInternalId := by
    rw [frame.sub]
    exact same
  have plain (id : Int) (sub : Submission) (first : Nat) :
      Event.finalizing n.id n.data.submissionInternalId n.data.task outcome ≠
        .enqueued id sub first := Event.noConfusion
  have results : ∀ e ∈ c.log, e.isResult = true → (s.ctx entry).cancelled = false :=
    fun e he result => (finalize_results rfl done he result).1
  by_cases last : n.data.task = .summary
  · apply cur.write ([.finalizing n.id n.data.submissionInternalId n.data.task outcome] ++ c.log)
    · intro x entry' h
      simp only [State.settle, last, if_true, State.removeSubmission, State.putCtx, State.emit, key,
        UMap.lookup_erase_eq, UMap.lookup_insert_eq] at h
      by_cases here : x = n.data.submissionInternalId
      · rw [if_pos here] at h
        cases h
      · rw [if_neg here, if_neg here] at h
        exact ⟨entry', h, rfl⟩
    · intro x entry' h free cancelledBefore
      apply free
      have other : x ≠ n.data.submissionInternalId := by
        rintro rfl
        simp [State.settle, last, State.removeSubmission, key] at h
      simp only [State.settle, last, if_true, State.removeSubmission, State.putCtx, State.emit, key]
      split
      · exact Finset.mem_insert_of_mem cancelledBefore
      · exact Finset.mem_erase.mpr ⟨other, cancelledBefore⟩
    · intro x entry' h current
      simp only [State.settle, last, if_true, State.removeSubmission, State.putCtx, State.emit, key,
        UMap.lookup_erase_eq, UMap.lookup_insert_eq] at h ⊢
      by_cases here : x = n.data.submissionInternalId
      · rw [if_pos here] at h
        cases h
      · rw [if_neg here, if_neg here] at h
        rw [if_neg, current]
        intro erased
        rw [erased] at current
        exact here (keeps last x current (AList.lookup_isSome.mp (by simp [h])))
    · simp
    · exact quiet_reports plain (frame.source rfl)
    · intro e he sub result from_
      rcases List.mem_append.mp he with he | he
      · rw [List.mem_singleton.mp he] at result
        cases result
      · obtain rfl := Option.some.inj (from_.symm.trans (frame.source rfl e he))
        apply cur.newest _ entry listed
        simpa [State.ctx, same] using results e he result
  · have cancelled : c.cancelled = (s.ctx entry).cancelled :=
      Bool.eq_iff_iff.mpr ⟨finalize_cancelled done, (finalize_grows last done).cancelled⟩
    have written := cur.putCtx listed frame cancelled plain rfl results
    simp only [State.settle, last, if_false]
    exact ⟨written.keyed, written.latest, written.newest, written.silent⟩

end Parts

/-! ## Every step -/

/-- A newer submission takes the entry of the older one, which is cancelled. -/
theorem Current.push {id : Int} {sub : Submission} (cur : Current s) (known : Known s)
    (fresh : ¬ Enqueued id s.log) (key : sub.submissionInternalId = id) :
    Current ((s.enqueue id sub).supersede sub.submissionId id) := by
  have notListed : id ∉ s.submissionList := by
    intro h
    exact fresh (known.list id (AList.lookup_isSome.mpr h))
  have list (x : Int) : ((s.enqueue id sub).supersede sub.submissionId id).submissionList.lookup x =
      if x = id then some ⟨sub, .new⟩ else s.submissionList.lookup x := by
    simp only [State.supersede, State.enqueue, notListed, if_false, UMap.lookup_insert_eq]
  have kept {x : Int} (h : x ∈ s.cancelledList) :
      x ∈ ((s.enqueue id sub).supersede sub.submissionId id).cancelledList := by
    simp only [State.supersede]
    split
    · exact h
    · exact Finset.mem_insert_of_mem h
  -- the submission that the map had is cancelled
  have older {x : Int} {entry : SubmissionAndResult} (listed : s.submissionList.lookup x = some entry)
      (free : x ∉ ((s.enqueue id sub).supersede sub.submissionId id).cancelledList) :
      entry.sub.submissionId ≠ sub.submissionId := by
    intro same
    have current := cur.latest x entry listed fun h => free (kept h)
    rw [same] at current
    apply free
    simp [State.supersede, State.enqueue, current]
  constructor
  · intro x entry h
    rw [list] at h
    by_cases here : x = id
    · rw [if_pos here, Option.some.injEq] at h
      rw [← h, here]
      exact key
    · rw [if_neg here] at h
      exact cur.keyed x entry h
  · intro x entry h free
    rw [list] at h
    simp only [State.supersede, State.enqueue, UMap.lookup_insert_eq]
    by_cases here : x = id
    · rw [if_pos here, Option.some.injEq] at h
      rw [← h, if_pos rfl, here]
    · rw [if_neg here] at h
      rw [if_neg (older h free)]
      exact cur.latest x entry h fun h => free (kept h)
  · intro x entry h free
    rw [list] at h
    rw [supersede_log, enqueue_log, replaced_append (by simp)]
    intro replaced
    by_cases here : x = id
    · rw [if_pos here, Option.some.injEq] at h
      subst h
      rcases replaced_enqueued replaced with before | ⟨enqueued, _⟩
      · exact fresh (key ▸ before.enqueued)
      · exact fresh (key ▸ enqueued)
    · rw [if_neg here] at h
      rcases replaced_enqueued replaced with before | ⟨_, same⟩
      · exact cur.newest x entry h (fun h => free (kept h)) before
      · exact older h free same.symm
  · rw [supersede_log, enqueue_log]
    apply Timely.append_free
    · apply cur.silent.append_free
      intro e he past sub result
      rw [List.mem_singleton.mp he] at result
      cases result
    · intro e he past sub result
      obtain ⟨old, _, rfl⟩ := List.mem_map.mp he
      cases result

theorem Current.step {l : Label} (cur : Current s) (known : Known s) (keeps : keepsEntries cfg s l)
    (h : Step cfg s l t) : Current t := by
  cases h with
  | refused => exact cur
  | push _ _ same =>
    obtain ⟨⟨range, fresh⟩, _⟩ := keeps
    rw [range] at same
    subst same
    exact cur.push known fresh rfl
  | wake | block | exit => exact ⟨cur.keyed, cur.latest, cur.newest, cur.silent⟩
  | launch _ _ listed ready => exact (cur.start listed ready).launch
  | @skip n _ files entry c _ _ found listed skipped done =>
    rw [← start_ctx s n c] at done
    apply (cur.start listed skipped).settle (start_lookup s n c) done
    intro last y current inside
    apply keeps.2 n.data.submissionInternalId _ y current
    · by_cases here : y = n.data.submissionInternalId
      · rw [here]
        exact AList.lookup_isSome.mp (Option.isSome_of_eq_some listed)
      · simpa [State.start, State.putCtx, State.emit, here] using inside
    · rw [last] at skipped
      simp [State.finishing, found, listed, last, skipped]
  | @result n handle o entry _ _ held found listed done =>
    have back : Current (s.returned handle) := ⟨cur.keyed, cur.latest, cur.newest, cur.silent⟩
    have keep : n.data.task = .summary → ∀ y ∈ s.submissionIdMap.lookup n.data.submissionInternalId,
        y ∈ s.submissionList → y = n.data.submissionInternalId := by
      intro last
      apply keeps.2 n.data.submissionInternalId
      simp [State.finishing, held, found, last]
    have settled := back.settle listed done keep
    exact ⟨settled.keyed, settled.latest, settled.newest, settled.silent⟩

theorem current (h : (judge cfg).Reach (keepsEntries cfg) s) : Current s := by
  apply h.invariant .init
  intro a l b reach cur keeps step
  obtain ⟨_, refined⟩ := refined (reach.weaken fun _ _ keeps => keeps.1)
  exact cur.step refined.known keeps (step_cases step)

/-- A submission that was replaced is cancelled, and no result of it is reported. -/
theorem replaced_silent (h : (judge cfg).Reach (keepsEntries cfg) s) :
    OneCurrent s ∧ Timely Silent s.log :=
  ⟨(current h).oneCurrent, (current h).silent⟩

/-- Of two submissions with one `submission_id` the older one finishes, without a report. -/
def supersedeRun : List Label :=
  [.push (sampleSubmission 5 100 []) 0, .push (sampleSubmission 6 100 []) 0, .wake,
    .dispatch 1 5 .empty, .dispatch 0 5 .empty]

theorem replaced_silent_to_end :
    ∃ s, (judge (sampleConfig 1)).exec (keepsEntries (sampleConfig 1)) .init supersedeRun = some s ∧
      OneCurrent s ∧ Timely Silent s.log := by
  obtain ⟨s, hs⟩ := Option.isSome_iff_exists.mp
    (show ((judge (sampleConfig 1)).exec (keepsEntries (sampleConfig 1)) .init
      supersedeRun).isSome = true by decide +kernel)
  exact ⟨s, hs, replaced_silent (reach_exec hs)⟩

/-- A submission whose `submission_id` is the internal id of another one. -/
def victim : Submission := sampleSubmission 6 5 [sampleItem false [0]]

/-- The other one finishes, and a newer submission comes with the same `submission_id`. -/
def lostEntryRun : List Label :=
  [.push (sampleSubmission 5 100 []) 0, .push victim 0, .wake] ++ runAlone 1 goodOutcome ++
    [.dispatch 0 5 .empty, .dispatch 5 5 .empty, .block, .push (sampleSubmission 7 5 []) 0,
      .result 5 goodOutcome] ++ runAlone 3 goodOutcome ++ runAlone 4 goodOutcome

/-- The older submission is not cancelled, and its testdata is reported. -/
theorem replaced_reported :
    ∃ s, (judge (sampleConfig 1)).exec freshId .init lostEntryRun = some s ∧
      ¬ OneCurrent s ∧ ¬ Timely Silent s.log := by
  have run : ((judge (sampleConfig 1)).exec freshId .init lostEntryRun).map (fun s =>
      ((s.submissionList.lookup 6).map fun entry => entry.sub.submissionId,
        (s.submissionList.lookup 7).map fun entry => entry.sub.submissionId,
        decide (6 ∉ s.cancelledList ∧ 7 ∉ s.cancelledList),
        s.log.getLast?.map fun e => e.isResult && decide (e.source = some victim),
        decide ([.enqueued 6 victim 2, .enqueued 7 (sampleSubmission 7 5 []) 6].Sublist
          s.log.dropLast))) =
      some (some 5, some 5, true, some true, true) := by decide +kernel
  obtain ⟨s, hs, seen⟩ := Option.map_eq_some_iff.mp run
  simp only [Prod.mk.injEq, Option.map_eq_some_iff, decide_eq_true_eq, Bool.and_eq_true] at seen
  obtain ⟨⟨a, older, ida⟩, ⟨b, newer, idb⟩, ⟨freeOlder, freeNewer⟩, ⟨e, last, result, source⟩, sublist⟩ := seen
  refine ⟨s, hs, fun one => ?_, fun silent => ?_⟩
  · have same := one 6 7 a b older newer (ida.trans idb.symm) freeOlder freeNewer
    cases same
  · have split := List.dropLast_append_getLast? e last
    exact silent s.log.dropLast e [] split.symm victim result source
      ⟨2, 7, sampleSubmission 7 5 [], 6, rfl, sublist⟩

end TiojJudge.Judge
