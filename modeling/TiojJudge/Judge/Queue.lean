import TiojJudge.Judge.Ending

/-!
# The submission list

What the rest of the judge sees of the list: `GetQueuedSubmissionID`, its size,
and the size that `ReportFinalized` is told.

* `step_queued`: only a push adds to the submissions that are not cancelled;
* `step_size`: only the end of a summary makes the list shorter, by one, and
  `ReportFinalized` is told the size before that.
-/

namespace TiojJudge.Judge
open TaskGraph

/-- `GetQueuedSubmissionID`. -/
def State.queuedSubmissionId (s : State) : List Int :=
  (s.submissionList.entries.filter fun e => e.1 ∉ s.cancelledList).map fun e => e.2.sub.submissionId

variable {cfg : Config} {s t : State} {held : List Nat} {n : Node TaskInfo}
  {entry : SubmissionAndResult} {c c' : Ctx}

theorem mem_queuedSubmissionId {x : Int} : x ∈ s.queuedSubmissionId ↔
    ∃ key entry, s.submissionList.lookup key = some entry ∧ key ∉ s.cancelledList ∧
      entry.sub.submissionId = x := by
  simp only [State.queuedSubmissionId, List.mem_map, List.mem_filter, decide_eq_true_eq]
  constructor
  · rintro ⟨e, ⟨listed, free⟩, same⟩
    exact ⟨e.1, e.2, AList.mem_lookup_iff.mpr listed, free, same⟩
  · rintro ⟨key, entry, listed, free, same⟩
    exact ⟨⟨key, entry⟩, ⟨AList.mem_lookup_iff.mp listed, free⟩, same⟩

/-! ## Who is in the list -/

theorem queued_congr (list : t.submissionList = s.submissionList)
    (cancelled : t.cancelledList = s.cancelledList) :
    t.queuedSubmissionId = s.queuedSubmissionId := by
  rw [State.queuedSubmissionId, list, cancelled, State.queuedSubmissionId]

/-- Every submission of the list was there, and was not cancelled more than it is. -/
theorem queued_subset (kept : ∀ key entry, t.submissionList.lookup key = some entry →
      key ∉ t.cancelledList → ∃ old, s.submissionList.lookup key = some old ∧
        key ∉ s.cancelledList ∧ entry.sub = old.sub) :
    t.queuedSubmissionId ⊆ s.queuedSubmissionId := by
  intro x hx
  obtain ⟨key, entry, listed, free, rfl⟩ := mem_queuedSubmissionId.mp hx
  obtain ⟨old, before, freeBefore, same⟩ := kept key entry listed free
  exact mem_queuedSubmissionId.mpr ⟨key, old, before, freeBefore, by rw [same]⟩

/-- Writing back a context that is cancelled as before cancels nobody and frees nobody. -/
theorem putCtx_cancelledList {key : Int} (same : c.sub = entry.sub)
    (cancelled : c.cancelled = (s.ctx entry).cancelled) :
    (s.putCtx key c).cancelledList = s.cancelledList := by
  simp only [State.putCtx, cancelled, State.ctx, same, decide_eq_true_eq]
  split
  · rename_i here
    exact Finset.insert_eq_self.mpr here
  · rename_i absent
    exact Finset.erase_eq_of_notMem absent

theorem putCtx_queued (listed : s.submissionList.lookup n.data.submissionInternalId = some entry)
    (same : c.sub = entry.sub) (cancelled : c.cancelled = (s.ctx entry).cancelled) :
    (s.putCtx n.data.submissionInternalId c).queuedSubmissionId ⊆ s.queuedSubmissionId := by
  apply queued_subset
  intro key entry' h free
  rw [putCtx_cancelledList same cancelled] at free
  simp only [State.putCtx, UMap.lookup_insert_eq] at h
  split at h
  · rename_i here
    cases h
    exact ⟨entry, here ▸ listed, free, same⟩
  · exact ⟨entry', h, free, rfl⟩

theorem start_queued {files : BoxFiles} {launch : Bool}
    (listed : s.submissionList.lookup n.data.submissionInternalId = some entry)
    (ready : setup cfg (s.ctx entry) files n.data.task = .ok (launch, c)) :
    (s.start n c).queuedSubmissionId ⊆ s.queuedSubmissionId := by
  rw [queued_congr (t := s.start n c) (s := s.putCtx n.data.submissionInternalId c) rfl rfl]
  exact putCtx_queued listed (setup_frame ready).sub (setup_cancelled ready)

/-- The summary's submission is no longer cancelled, and no longer there. -/
theorem settle_queued {outcome : Option TaskOutcome} {listSize : Nat}
    (listed : s.submissionList.lookup n.data.submissionInternalId = some entry)
    (done : finalize cfg (s.ctx entry) listSize n.data.task outcome = .ok c) :
    (s.settle n outcome c).queuedSubmissionId ⊆ s.queuedSubmissionId := by
  have same : c.sub = entry.sub := (finalize_frame done).sub
  by_cases last : n.data.task = .summary
  · rw [last] at done
    obtain ⟨_, _, summary⟩ := finalize_summary done
    have free : c.cancelled = false := (finalizeSummary_spec summary).2.2.2.2.1
    apply queued_subset
    intro key entry' h notCancelled
    simp only [State.settle, last, if_true, State.removeSubmission, State.putCtx, State.emit, free,
      UMap.lookup_erase_eq, UMap.lookup_insert_eq, Bool.false_eq_true, if_false] at h notCancelled
    split at h
    · cases h
    · rename_i other
      have before : key ∉ s.cancelledList := fun here =>
        notCancelled (Finset.mem_erase.mpr ⟨other, here⟩)
      split at h
      · rename_i here
        cases h
        exact ⟨entry, here ▸ listed, before, same⟩
      · exact ⟨entry', h, before, rfl⟩
  · have cancelled : c.cancelled = (s.ctx entry).cancelled :=
      Bool.eq_iff_iff.mpr ⟨finalize_cancelled done, (finalize_grows last done).cancelled⟩
    rw [queued_congr (t := s.settle n outcome c) (s := s.putCtx n.data.submissionInternalId c)
      (by rw [State.settle, if_neg last]; rfl) (by rw [State.settle, if_neg last]; rfl)]
    exact putCtx_queued listed same cancelled

theorem step_queued {l : Label} (h : Step cfg s l t) (quiet : l.isPush = false) :
    t.queuedSubmissionId ⊆ s.queuedSubmissionId := by
  cases h with
  | refused | wake | block | exit => exact List.Subset.refl _
  | push => cases quiet
  | launch _ _ listed ready => exact start_queued listed ready
  | @skip n _ _ _ c _ _ _ listed ready done =>
    rw [← start_ctx s n c] at done
    exact List.Subset.trans (settle_queued (start_lookup s n c) done) (start_queued listed ready)
  | @result _ handle _ _ _ _ _ _ listed done =>
    exact settle_queued (s := s.returned handle) listed done

/-- A push adds its own submission only. -/
theorem push_queued (id : Int) (sub : Submission) :
    ((s.enqueue id sub).supersede sub.submissionId id).queuedSubmissionId ⊆
      sub.submissionId :: s.queuedSubmissionId := by
  intro x hx
  obtain ⟨key, entry, listed, free, rfl⟩ := mem_queuedSubmissionId.mp hx
  have before : key ∉ s.cancelledList := by
    intro here
    apply free
    simp only [State.supersede]
    split
    · exact here
    · exact Finset.mem_insert_of_mem here
  have old (h : s.submissionList.lookup key = some entry) :
      entry.sub.submissionId ∈ sub.submissionId :: s.queuedSubmissionId :=
    List.mem_cons_of_mem _ (mem_queuedSubmissionId.mpr ⟨key, entry, h, before, rfl⟩)
  simp only [State.supersede, State.enqueue] at listed
  split at listed
  · exact old listed
  · rw [UMap.lookup_insert_eq] at listed
    split at listed
    · cases listed
      exact List.mem_cons_self
    · exact old listed

theorem step_push_queued {sub : Submission} {maxQueue : Nat} (h : Step cfg s (.push sub maxQueue) t) :
    t.queuedSubmissionId ⊆ sub.submissionId :: s.queuedSubmissionId := by
  cases h with
  | refused => exact List.subset_cons_self _ _
  | @push _ _ id => exact push_queued id sub.clamp

/-! ## How long it is -/

theorem start_size (listed : s.submissionList.lookup n.data.submissionInternalId = some entry) :
    (s.start n c).queueSize = s.queueSize :=
  UMap.length_insert listed _

theorem settle_size (outcome : Option TaskOutcome)
    (listed : s.submissionList.lookup n.data.submissionInternalId = some entry)
    (key : c.sub.submissionInternalId = n.data.submissionInternalId) :
    s.queueSize = (s.settle n outcome c).queueSize + if n.data.task = .summary then 1 else 0 := by
  have written : (s.submissionList.insert n.data.submissionInternalId
      ⟨c.sub, c.result⟩).entries.length = s.queueSize := UMap.length_insert listed _
  by_cases last : n.data.task = .summary
  · have removed : (s.settle n outcome c).queueSize + 1 = s.queueSize := by
      rw [State.settle, if_pos last, State.queueSize, State.removeSubmission, key, ← written]
      apply (UMap.length_erase (b := ⟨c.sub, c.result⟩) _).symm
      simp [State.putCtx]
    rw [if_pos last, removed]
  · rw [if_neg last, State.settle, if_neg last]
    exact written.symm

/-- What a step that is not a push tells `ReportFinalized` of, and does to, the size. -/
inductive Sizes (s t : State) : Prop where
  | kept {new} : t.log = s.log ++ new → finalSizes new = [] → t.queueSize = s.queueSize → Sizes s t
  | popped {new id sub base} : t.log = s.log ++ new → .enqueued id sub base ∈ s.log →
      finalSizes new = (if sub.reporter.reportFinalized then [s.queueSize] else []) →
      s.queueSize = t.queueSize + 1 → Sizes s t

/-- A finalizer, after events that are not final reports. -/
theorem settle_sizes {u : State} {before : List Event} {outcome : Option TaskOutcome} {id : Int}
    {base : Nat} (log : u.log = s.log ++ before) (quiet : finalSizes before = [])
    (size : u.queueSize = s.queueSize) (enq : .enqueued id entry.sub base ∈ s.log)
    (key : entry.sub.submissionInternalId = n.data.submissionInternalId)
    (listed : u.submissionList.lookup n.data.submissionInternalId = some entry)
    (done : finalize cfg (u.ctx entry) u.queueSize n.data.task outcome = .ok c) :
    Sizes s (u.settle n outcome c) := by
  have same : c.sub = entry.sub := (finalize_frame done).sub
  have written := settle_size outcome listed (by rw [same, key])
  have told : finalSizes c.log =
      if n.data.task = .summary ∧ entry.sub.reporter.reportFinalized = true then
        [u.queueSize] else [] := finalize_finalSizes rfl done
  have after : (u.settle n outcome c).log = s.log ++ (before ++
      [.finalizing n.id n.data.submissionInternalId n.data.task outcome] ++ c.log) := by
    rw [settle_log, log]
    simp only [List.append_assoc]
  have new : finalSizes (before ++
      [.finalizing n.id n.data.submissionInternalId n.data.task outcome] ++ c.log) =
        finalSizes c.log := by
    simp only [List.filterMap_append, quiet, selects_finalizing, List.filterMap_nil, List.nil_append]
  rw [size] at written told
  by_cases last : n.data.task = .summary
  · rw [if_pos last] at written
    refine .popped after enq ?_ written
    rw [new, told]
    simp only [last, true_and]
  · rw [if_neg last] at written
    refine .kept after ?_ written.symm
    rw [new, told, if_neg fun h => last h.1]

theorem step_size {l : Label} (r : Refined cfg s held) (h : Step cfg s l t)
    (quiet : l.isPush = false) : Sizes s t := by
  cases h with
  | refused | wake | block | exit => exact .kept (List.append_nil _).symm rfl rfl
  | push => cases quiet
  | @launch _ _ _ _ c _ _ listed ready =>
    refine .kept (by rw [launch_log, start_log, List.append_assoc, List.append_assoc]) ?_
      (start_size listed)
    have silent : finalSizes c.log = [] := setup_selects not_final rfl ready
    simp only [List.filterMap_append, silent, selects_dispatching, selects_launched,
      List.filterMap_nil, List.append_nil]
  | @skip n _ _ entry c _ _ _ listed ready done =>
    obtain ⟨base, _, enq, _, key, _⟩ := r.listed listed
    have same : c.sub = entry.sub := (setup_frame ready).sub
    rw [← start_ctx s n c] at done
    apply settle_sizes (by rw [start_log, List.append_assoc]) _ (start_size listed) (same ▸ enq)
      (same ▸ key) (start_lookup s n c) done
    have silent : finalSizes c.log = [] := setup_selects not_final rfl ready
    simp only [List.filterMap_append, silent, selects_dispatching, List.filterMap_nil, List.append_nil]
  | @result n handle _ _ _ _ _ _ listed done =>
    obtain ⟨base, _, enq, _, key, _⟩ := r.listed listed
    have settled := settle_sizes (s := s) (u := s.returned handle) (List.append_nil _).symm rfl rfl
      enq key listed done
    cases settled with
    | kept log told size => exact .kept log told size
    | popped log enq told size => exact .popped log enq told size

/-- The list never grows in a finalizer, whatever key is erased after the summary. -/
theorem settle_size_le (outcome : Option TaskOutcome)
    (listed : s.submissionList.lookup n.data.submissionInternalId = some entry) :
    (s.settle n outcome c).queueSize ≤ s.queueSize := by
  have written : (s.submissionList.insert n.data.submissionInternalId
      ⟨c.sub, c.result⟩).entries.length = s.queueSize := UMap.length_insert listed _
  rw [State.settle]
  split
  · exact (UMap.length_erase_le _ _).trans written.le
  · exact written.le

/-- Only a push makes the list longer. -/
theorem step_size_le {l : Label} (h : Step cfg s l t) (quiet : l.isPush = false) :
    t.queueSize ≤ s.queueSize := by
  cases h with
  | refused | wake | block | exit => exact le_rfl
  | push => cases quiet
  | launch _ _ listed => exact (start_size listed).le
  | skip _ _ listed =>
    exact (settle_size_le _ (start_lookup _ _ _)).trans (start_size listed).le
  | result _ _ _ listed => exact settle_size_le (s := s.returned _) _ listed

theorem push_size_le {sub : Submission} {maxQueue : Nat} (h : Step cfg s (.push sub maxQueue) t) :
    t.queueSize ≤ s.queueSize + 1 := by
  cases h with
  | refused => exact Nat.le_succ _
  | push =>
    simp only [State.queueSize, State.supersede, State.enqueue]
    split
    · exact Nat.le_succ _
    · exact UMap.length_insert_le _ _ _

/-- `PushSubmission` without a limit, under an internal id that is not in the list. -/
theorem push_size {sub : Submission}
    (absent : Numerals.toInt32 sub.submissionInternalId ∉ s.submissionList)
    (h : (judge cfg).step s (.push sub 0) = some t) : t.queueSize = s.queueSize + 1 := by
  obtain ⟨_, h⟩ := judge_step.mp h
  simp only [perform, State.pushSubmission, Nat.lt_irrefl, false_and, if_false] at h
  split at h
  · cases h
    simp only [State.queueSize, State.supersede, State.enqueue, if_neg absent]
    rw [AList.entries_insert_of_notMem absent, List.length_cons]
  · cases h

end TiojJudge.Judge
