import TiojJudge.Judge.Completion
import TiojJudge.Judge.Selected

/-!
# The end of a submission

* `AfterOthers`: the summary is finalized after all other tasks of the submission;
* `finals_once`: its finalizer, and nothing else, calls `ReportFinalized`;
* `Emptied`, `Completes`: what the loop leaves behind, and how it gets there;
* `loop_completes`: it does, from every state in which `SetupSummary` can write the
  scores of the summaries that are next.
-/

namespace TiojJudge.Judge
open TaskGraph Machine

/-- The past of the end of a summary. -/
def AfterOthers (sub : Submission) (id : Int) (past : List Event) (e : Event) : Prop :=
  ∀ tid outcome, e = .finalizing tid id .summary outcome →
    ∀ t, sub.Planned t → t ≠ .summary → Life.Over id t past

def Event.isFinal : Event → Bool
  | .reportFinalized .. => true
  | _ => false

/-- How often `ReportFinalized` was called. -/
def finals (log : List Event) : Nat := log.countP Event.isFinal

def Event.finalSize : Event → Option Nat
  | .reportFinalized _ _ queueSizeBeforePop => some queueSizeBeforePop
  | _ => none

/-- What the calls of `ReportFinalized` were told. -/
abbrev finalSizes (log : List Event) : List Nat := log.filterMap Event.finalSize

variable {cfg : Config} {c c' : Ctx} {listSize : Nat}

instance : OfReports Event.finalSize where
  notes e none := by cases e <;> first | rfl | cases none

theorem finals_eq (log : List Event) : finals log = (finalSizes log).length := by
  rw [finals, List.length_filterMap_eq_countP]
  exact List.countP_congr fun e _ => by cases e <;> rfl

/-- Messages and results of testdata are no final reports. -/
theorem not_final {t : Task} (e : Event) (h : c.Tells t e) : e.finalSize = none := by
  rcases h with message | ⟨_, _, _, _, _, rfl⟩
  · cases e <;> first | rfl | cases message
  · rfl

/-- The finalizer of the summary calls `ReportFinalized` when it is set. -/
theorem finalize_finalSizes {t : Task} {outcome : Option TaskOutcome} (empty : c.log = [])
    (h : finalize cfg c listSize t outcome = .ok c') : finalSizes c'.log =
      if t = .summary ∧ c.sub.reporter.reportFinalized = true then [listSize] else [] := by
  by_cases last : t = .summary
  · subst last
    obtain ⟨_, _, h⟩ := finalize_summary h
    obtain ⟨_, _, _, _, _, _, log⟩ := finalizeSummary_spec h
    rw [log, empty]
    cases !c.cancelled && c.sub.reporter.reportOverallResult <;>
      cases c.sub.reporter.reportFinalized <;> rfl
  · simp only [last, false_and, if_false]
    exact finalize_selects not_final last empty h

namespace Life

variable {id : Int} {base : Nat} {sub : Submission} {l l' : Life}

theorem others_before (wf : sub.WellFormed) (reach : Reachable cfg id base sub l)
    (next : .summary ∈ l.running ∨ l.Ready .summary) {t : Task} (planned : sub.Planned t)
    (other : t ≠ .summary) : Over id t l.ctx.log := by
  have shape := shape wf reach
  have leads := Submission.leads_summary wf planned
  apply (finalized_in_log wf reach planned).mp
  rcases next with running | ready
  · exact shape.before_running leads running other
  · exact shape.before_ready leads ready other

theorem summary_last (wf : sub.WellFormed) (h : Reachable cfg id base sub l) :
    Timely (AfterOthers sub id) l.ctx.log := by
  have report {k : Int} {es : List Event} (reports : Reports k es) :
      ∀ e ∈ es, ∀ past, AfterOthers sub id past e := by
    rintro e he past tid outcome rfl
    obtain ⟨_, source, _⟩ := reports _ he
    cases source
  induction h with
  | start => exact Timely.nil.snoc fun _ _ h => by cases h
  | @next l l' reach step ih =>
    have before {t : Task} {past : List Event} (next : .summary ∈ l.running ∨ l.Ready .summary)
        (planned : sub.Planned t) (other : t ≠ .summary) : Over id t (l.ctx.log ++ past) := by
      obtain ⟨outcome, ended⟩ := others_before wf reach next planned other
      exact ⟨outcome, ended.append⟩
    cases step with
    | launch ready setup =>
      simp only [launched, started, Ctx.withLog]
      refine Timely.snoc ?_ fun _ _ h => by cases h
      exact (ih.snoc fun _ _ h => by cases h).append_free (report (setup_reports rfl setup).2)
    | @skip t _ _ _ _ ready setup done =>
      simp only [settled, started, Ctx.withLog]
      refine ((Timely.append_free ?_ (report (setup_reports rfl setup).2)).snoc ?_).append_free
        (report (finalize_reports rfl done).2)
      · exact ih.snoc fun _ _ h => by cases h
      · intro tid outcome same t' planned other
        obtain rfl : t = .summary := by
          cases same
          rfl
        rw [List.append_assoc]
        exact before (.inr ready) planned other
    | @finish t _ _ _ running done =>
      simp only [settled, Ctx.withLog]
      refine (ih.snoc ?_).append_free (report (finalize_reports rfl done).2)
      intro tid outcome same t' planned other
      obtain rfl : t = .summary := by
        cases same
        rfl
      rw [← List.append_nil l.ctx.log]
      exact before (.inl running) planned other
    | cancel => exact ih.snoc fun _ _ h => by cases h

/-- `ReportFinalized` is called once, when the summary is finalized. -/
theorem finals_once (wf : sub.WellFormed) (h : Reachable cfg id base sub l) :
    finals l.ctx.log = if .summary ∉ l.todo ∧ sub.reporter.reportFinalized = true then 1 else 0 := by
  induction h with
  | start =>
    have here : .summary ∈ (Life.start id base sub).todo :=
      List.mem_toFinset.mpr (Submission.mem_planTasks.mpr trivial)
    rw [if_neg fun gone => gone.1 here]
    rfl
  | @next l l' reach step ih =>
    have shape := shape wf reach
    have same : l.ctx.cleared.sub = sub := shape.same
    -- the task that is finalized is the summary, or the summary is left
    have settles {t : Task} {size : Nat} (here : t ∈ l.todo) :
        (if .summary ∉ l.todo ∧ sub.reporter.reportFinalized = true then 1 else 0) +
          (if t = .summary ∧ sub.reporter.reportFinalized = true then [size] else []).length =
        if .summary ∉ l.todo.erase t ∧ sub.reporter.reportFinalized = true then 1 else 0 := by
      have left := shape.summary_left wf here
      rw [if_neg fun gone => gone.1 left, Nat.zero_add]
      by_cases last : t = .summary
      · simp [last, apply_ite List.length]
      · have kept : .summary ∈ l.todo.erase t := Finset.mem_erase.mpr ⟨Ne.symm last, left⟩
        simp only [last, kept, not_true_eq_false, false_and, if_false, List.length_nil]
    rw [finals_eq] at ih ⊢
    cases step with
    | @launch t handle files c ready setup =>
      have none : finalSizes c.log = [] := setup_selects not_final rfl setup
      simp only [launched, started, Ctx.withLog, List.filterMap_append, none, selects_dispatching,
        selects_launched, List.filterMap_nil, List.append_nil]
      exact ih
    | @skip t _ _ c c' ready setup done =>
      have before : finalSizes c.log = [] := setup_selects not_final rfl setup
      have after := finalize_finalSizes rfl done
      rw [show c.cleared.sub = sub from (setup_frame setup).sub.trans same] at after
      simp only [settled, started, Ctx.withLog, List.filterMap_append, before, after,
        selects_dispatching, selects_finalizing, List.filterMap_nil, List.append_nil,
        List.length_append, ih]
      exact settles ready.1
    | @finish t _ _ c running done =>
      have after := finalize_finalSizes rfl done
      rw [same] at after
      simp only [settled, Ctx.withLog, List.filterMap_append, after, selects_finalizing,
        List.filterMap_nil, List.append_nil, List.length_append, ih]
      exact settles (shape.running running)
    | cancel =>
      simp only [Life.cancel, List.filterMap_append, selects_superseded, List.filterMap_nil,
        List.append_nil]
      exact ih

end Life

/-! ## The end of the run -/

variable {s t : State} {held : List Nat} {id : Int} {base : Nat} {sub : Submission}

theorem step_count_le {l : Label} (h : Step cfg s l t) : s.taskCount ≤ t.taskCount := by
  rcases step_accounts h with ⟨count, _, _⟩ | ⟨x, submissionId, new, rfl⟩ | ⟨_, _, count, _, _⟩
  · exact count.ge
  · exact Nat.le_add_right _ _
  · exact count.ge

/-- The ids of an enqueued submission were given out. -/
theorem enqueued_below {P : State → Label → Prop} (h : (judge cfg).Reach P s) :
    ∀ id sub base, .enqueued id sub base ∈ s.log → base + sub.planTasks.length ≤ s.taskCount := by
  apply h.invariant
  · intro id sub base enq
    cases enq
  · intro a l b _ below _ step id sub base enq
    have kept (old : .enqueued id sub base ∈ a.log) : base + sub.planTasks.length ≤ b.taskCount :=
      (below id sub base old).trans (step_count_le (step_cases step))
    rcases step_enqueues (step_cases step) enq with old | ⟨pushed, maxQueue, rfl, rfl⟩
    · exact kept old
    · cases step_cases step with
      | refused => exact kept enq
      | push =>
        simp only [supersede_log, enqueue_log, List.mem_append, List.mem_singleton, List.mem_map,
          reduceCtorEq, and_false, exists_false, or_false, Event.enqueued.injEq] at enq
        rcases enq with old | ⟨_, _, rfl⟩
        · exact kept old
        · exact le_rfl

structure Emptied (s : State) : Prop where
  taskList : s.graph.nodes = []
  taskQueue : s.graph.queue = []
  handleMap : s.handleMap = ∅
  submissionList : s.submissionList = ∅
  cancelledGroup : s.cancelledGroup = ∅

/-- Without tasks, a submission has ended. -/
theorem Refined.none_left (r : Refined cfg s held) (empty : s.graph.nodes = [])
    (enq : .enqueued id sub base ∈ s.log) :
    ∃ l, sub.WellFormed ∧ Life.Reachable cfg id base sub l ∧ Follows s held id base l ∧
      .summary ∉ l.todo := by
  obtain ⟨l, reach, follows⟩ := r.lives id sub base enq
  refine ⟨l, (r.sound id sub base enq).1, reach, follows, ?_⟩
  intro left
  obtain ⟨n, hn, _⟩ := follows.todo _ left
  rw [empty] at hn
  cases hn

theorem Refined.emptied (r : Refined cfg s held) (empty : s.graph.nodes = []) : Emptied s := by
  have nothing {tid : Nat} (known : tid ∈ s.graph.queue ∨ tid ∈ held) : False := by
    obtain ⟨n, hn, _⟩ := r.wired.inv.known tid known
    rw [empty] at hn
    cases hn
  have gone {id : Int} (enq : Enqueued id s.log) :
      s.submissionList.lookup id = none ∧ s.cancelledGroup.lookup id = none := by
    obtain ⟨sub, base, enq⟩ := enqueued_iff.mp enq
    obtain ⟨l, _, _, follows, done⟩ := r.none_left empty enq
    exact follows.gone done
  refine ⟨empty, ?_, ?_, UMap.eq_empty fun id => ?_, UMap.eq_empty fun id => ?_⟩
  · apply List.eq_nil_iff_forall_not_mem.mpr
    exact fun tid queued => nothing (.inl queued)
  · apply UMap.eq_empty
    intro handle
    by_contra some_
    obtain ⟨tid, handled⟩ := Option.ne_none_iff_exists'.mp some_
    have value : tid ∈ UMap.values s.handleMap :=
      (UMap.values_erase handled).mem_iff.mpr List.mem_cons_self
    exact nothing (.inr (r.wired.handles.subset value))
  · by_contra listed
    exact listed (gone (r.known.list id (Option.isSome_iff_ne_none.mpr listed))).1
  · by_contra listed
    exact listed (gone (r.known.groups id (Option.isSome_iff_ne_none.mpr listed))).2

/-- The submission is through: its tasks were finalized once, and its end was reported once. -/
structure Judged (s : State) (id : Int) (sub : Submission) (base : Nat) : Prop where
  once : ∀ t, sub.Planned t → finalizations (sub.taskId base t) s.log = 1
  reported : finals (s.log.filter (Event.about id)) =
    if sub.reporter.reportFinalized = true then 1 else 0

structure Completes (cfg : Config) (s : State) : Prop where
  /-- Without a push, the loop takes finitely many steps. -/
  finite : ∃ bound, ∀ ls t, Run (judge cfg) unpushed s ls t → ls.length ≤ bound
  /-- No step fails, but for a setup that misses a file. -/
  safe : GoesOn cfg s
  atMostOnce : ∀ tid, finalizations tid s.log ≤ 1
  last : ∀ id sub base, .enqueued id sub base ∈ s.log → Timely (AfterOthers sub id) s.log
  ended : Stuck cfg s →
    Emptied s ∧ ∀ id sub base, .enqueued id sub base ∈ s.log → Judged s id sub base

theorem summaries_last (h : (judge cfg).Reach freshId s) (enq : .enqueued id sub base ∈ s.log) :
    Timely (AfterOthers sub id) s.log := by
  apply timely_of_lives h enq fun l wf _ reach => Life.summary_last wf reach
  · intro past e before tid outcome same t planned other
    obtain ⟨o, ended⟩ := before tid outcome same t planned other
    exact ⟨o, ended_filter.mp ended⟩
  · rintro past e other tid outcome rfl
    simp [Event.about] at other

theorem judged (h : (judge cfg).Reach orderly s) (empty : s.graph.nodes = [])
    (enq : .enqueued id sub base ∈ s.log) : Judged s id sub base := by
  obtain ⟨held, r⟩ := refined (orderly_freshId h)
  obtain ⟨l, wf, reach, follows, done⟩ := r.none_left empty enq
  constructor
  · intro t planned
    have given : sub.taskId base t < s.taskCount := by
      have below := enqueued_below h id sub base enq
      have inside := List.idxOf_lt_length_of_mem (Submission.mem_planTasks.mpr planned)
      unfold Submission.taskId
      omega
    rw [accounted h, if_pos ⟨given, by simp [State.ids, empty]⟩]
  · rw [follows.log, Life.finals_once wf reach]
    simp [done]

/-- Everything that a small submission has to do, up to the end of the loop. -/
def judgedAlone : List Label :=
  [.push (sampleSubmission 1 1 [sampleItem false [0]]) 0, .wake] ++ runAlone 3 goodOutcome ++
    runAlone 1 goodOutcome ++ runAlone 2 goodOutcome ++ [.dispatch 0 5 .empty, .exit]

/-- What a checker writes that gives a negative score. -/
def negativeText : List Char := "\x7b\"score\":-0.15\x7d".toList

def negativeConfig : Config :=
  { sampleConfig 1 with
    parseJson := fun text => if text = negativeText then some [("score", .num (-15 / 100))] else none }

def negativeOutcome : TaskOutcome :=
  ⟨exited 0, { BoxFiles.empty with compileOutput := true, output := some negativeText }⟩

/-- The checker gives a negative score, and the summary program is to read it. -/
def summaryStopped : List Label :=
  [.push { sampleSubmission 1 1 [sampleItem false [0]] with
      summaryType := .custom, specjudgeType := .specjudgeNew } 0, .wake] ++
    runAlone 3 goodOutcome ++ runAlone 4 goodOutcome ++ runAlone 5 goodOutcome ++
    runAlone 1 goodOutcome ++ runAlone 2 negativeOutcome

def throwsLength {α : Type} : Except Fault α → Bool
  | .error .lengthError => true
  | _ => false

/-- Where `SetupSummary` throws, the dispatch of its task does, for all handles and files. -/
theorem dispatch_throws {tid : Nat}
    (node : (s.graph.find tid).map (fun n => (n.data.task, n.data.submissionInternalId)) =
      some (.summary, id))
    (entry : (s.submissionList.lookup id).map (fun entry => throwsLength (setupSummary (s.ctx entry))) =
      some true) (handle : Int) (files : BoxFiles) :
    s.dispatchTask cfg tid handle files = .error .lengthError := by
  obtain ⟨n, found, node⟩ := Option.map_eq_some_iff.mp node
  obtain ⟨last, rfl⟩ := Prod.mk.inj node
  obtain ⟨entry, listed, throws⟩ := Option.map_eq_some_iff.mp entry
  have throws : setupSummary (s.ctx entry) = .error .lengthError := by
    unfold throwsLength at throws
    split at throws
    · assumption
    · cases throws
  unfold State.dispatchTask
  simp only [found, listed, last, setup, throws]

/-- Where every task on top of the queue throws, the loop does not go on. -/
theorem stuck_of_throws (working : s.phase = .working) (room : s.taskRunning < cfg.kMaxParallel)
    (queued : s.graph.queue ≠ [])
    (throws : ∀ tid handle files, s.IsTop tid →
      s.dispatchTask cfg tid handle files = .error .lengthError) : Stuck cfg s := by
  intro l t step
  obtain ⟨enabled, performed⟩ := judge_step.mp step
  cases l with
  | push => rfl
  | wake =>
    have waiting := enabled.1
    rw [working] at waiting
    cases waiting
  | dispatch tid handle files =>
    rw [perform, throws tid handle files enabled.2.2.1] at performed
    cases performed
  | block => exact absurd ⟨room, queued⟩ enabled.2.2
  | result =>
    have blocked := enabled.1
    rw [working] at blocked
    cases blocked
  | exit => exact absurd enabled.2.2 queued

end TiojJudge.Judge
