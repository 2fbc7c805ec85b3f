import TiojJudge.Judge.Announced
import TiojJudge.Judge.Supersede

/-!
# A submission is answered once, and what was told stays

What a submission's reports are like without any condition on the run.

* `Answers`: what a step of a life does to the overall reports;
* `Life.answered_once`: a submission that ended was reported once, or was superseded before;
* `Life.told_once`: a testdata is reported at most once, and does not change after that;
* `answered`, `told_kept`: the same in a run of the judge.
-/

namespace TiojJudge.Judge
open Machine

section Calls

variable {cfg : Config} {c c' : Ctx} {t : Task} {listSize : Nat}

/-- The finalizer of the summary reports the result, unless the submission is cancelled. -/
theorem finalize_answers {outcome : Option TaskOutcome} (empty : c.log = [])
    (h : finalize cfg c listSize t outcome = .ok c') : (overalls c'.log).length =
      if t = .summary ∧ c.cancelled = false ∧ c.sub.reporter.reportOverallResult = true then 1
      else 0 := by
  by_cases last : t = .summary
  · subst last
    obtain ⟨_, _, h⟩ := finalize_summary h
    obtain ⟨_, _, _, _, _, _, log⟩ := finalizeSummary_spec h
    rw [log, empty]
    cases c.cancelled <;> cases c.sub.reporter.reportOverallResult <;>
      cases c.sub.reporter.reportFinalized <;> rfl
  · have none : overalls c'.log = [] := finalize_selects not_overall last empty h
    simp [none, last]

theorem Reports.not_superseded {id k : Int} {es : List Event} (h : Reports k es) : .superseded id ∉ es := by
  intro here
  obtain ⟨_, source, _⟩ := h _ here
  cases source

end Calls

namespace Life

variable {cfg : Config} {id : Int} {base : Nat} {sub : Submission} {l l' : Life}

/-- What a step does to the overall reports. -/
inductive Answers (sub : Submission) (id : Int) (l l' : Life) : Prop where
  | quiet {new} : l'.ctx.log = l.ctx.log ++ new → overalls new = [] → .superseded id ∉ new →
      (.summary ∈ l'.todo ↔ .summary ∈ l.todo) →
      (.summary ∈ l.todo → l'.ctx.cancelled = l.ctx.cancelled) → Answers sub id l l'
  | ends {new} : l'.ctx.log = l.ctx.log ++ new → .superseded id ∉ new → .summary ∈ l.todo →
      .summary ∉ l'.todo → (overalls new).length =
        (if l.ctx.cancelled = false ∧ sub.reporter.reportOverallResult = true then 1 else 0) →
      Answers sub id l l'
  | cancel : l' = l.cancel id → Answers sub id l l'

theorem Step.answers (shape : Shape sub l) (h : Step cfg id base l l') :
    Answers sub id l l' := by
  have same : l.ctx.cleared.sub = sub := shape.same
  -- the summary stays, or is the task that is finalized
  have stays {t : Task} (other : t ≠ .summary) : .summary ∈ l.todo.erase t ↔ .summary ∈ l.todo := by
    rw [Finset.mem_erase]
    exact and_iff_right (Ne.symm other)
  have kept {c c' : Ctx} {t : Task} {listSize : Nat} {outcome : Option TaskOutcome} (other : t ≠ .summary)
      (done : finalize cfg c listSize t outcome = .ok c') : c'.cancelled = c.cancelled :=
    Bool.eq_iff_iff.mpr ⟨finalize_cancelled done, (finalize_grows other done).cancelled⟩
  cases h with
  | @launch t handle files c ready setup =>
    have silent : overalls c.log = [] := setup_selects not_overall rfl setup
    have quiet : .superseded id ∉ c.log := (setup_reports rfl setup).2.not_superseded
    have before : c.cancelled = l.ctx.cleared.cancelled := setup_cancelled setup
    have log : ((l.started id base t c).launched id base t handle).ctx.log = l.ctx.log ++
        ([.dispatching (l.ctx.sub.taskId base t) id t] ++ c.log ++
          [.launched (c.sub.taskId base t) id t handle]) := by
      simp [launched, started, Ctx.withLog]
    exact .quiet log (by simp [silent]) (by simp [quiet]) Iff.rfl fun _ => before
  | @skip t _ _ c c' ready setup done =>
    have before : c.cancelled = l.ctx.cleared.cancelled := setup_cancelled setup
    have silent : overalls c.log = [] := setup_selects not_overall rfl setup
    have quiet : .superseded id ∉ c.log := (setup_reports rfl setup).2.not_superseded
    have quiet' : .superseded id ∉ c'.log := (finalize_reports rfl done).2.not_superseded
    have answers : (overalls c'.log).length = _ := finalize_answers rfl done
    have log : ((l.started id base t c).settled id base t none c').ctx.log = l.ctx.log ++
        ([.dispatching (l.ctx.sub.taskId base t) id t] ++ c.log ++
          [.finalizing (c.sub.taskId base t) id t none] ++ c'.log) := by
      simp [settled, started, Ctx.withLog]
    by_cases last : t = .summary
    · refine .ends log (by simp [quiet, quiet']) (last ▸ ready.1) (by simp [settled, last]) ?_
      rw [show c.cleared.cancelled = l.ctx.cancelled from before,
        show c.cleared.sub = sub from (setup_frame setup).sub.trans same] at answers
      simpa [silent, last] using answers
    · have none : overalls c'.log = [] := finalize_selects not_overall last rfl done
      exact .quiet log (by simp [silent, none]) (by simp [quiet, quiet']) (stays last)
        fun _ => (kept last done).trans before
  | @finish t o _ c running done =>
    have quiet : .superseded id ∉ c.log := (finalize_reports rfl done).2.not_superseded
    have answers : (overalls c.log).length = _ := finalize_answers rfl done
    have log : (l.settled id base t (some o) c).ctx.log = l.ctx.log ++
        ([.finalizing (l.ctx.sub.taskId base t) id t (some o)] ++ c.log) := by
      simp [settled, Ctx.withLog]
    by_cases last : t = .summary
    · refine .ends log (by simp [quiet]) (last ▸ shape.running running) (by simp [settled, last]) ?_
      rw [show l.ctx.cleared.cancelled = l.ctx.cancelled from rfl, same] at answers
      simpa [last] using answers
    · have none : overalls c.log = [] := finalize_selects not_overall last rfl done
      have cancelled : c.cancelled = l.ctx.cleared.cancelled := kept last done
      exact .quiet log (by simp [none]) (by simp [quiet]) (stays last) fun _ => cancelled
  | cancel => exact .cancel rfl

/-- No overall result is reported of a submission that was superseded before. -/
def Mute (id : Int) (past : List Event) (e : Event) : Prop := e.overall ≠ none → .superseded id ∉ past

structure Answered (id : Int) (l : Life) : Prop where
  before : .summary ∈ l.todo →
    overalls l.ctx.log = [] ∧ (.superseded id ∈ l.ctx.log → l.ctx.cancelled = true)
  after : .summary ∉ l.todo →
    (overalls l.ctx.log).length = 1 ∨ overalls l.ctx.log = [] ∧ .superseded id ∈ l.ctx.log
  mute : Timely (Mute id) l.ctx.log

theorem Answered.step (a : Answered id l) (wf : sub.WellFormed) (reach : Reachable cfg id base sub l)
    (told : sub.reporter.reportOverallResult = true) (h : Step cfg id base l l') : Answered id l' := by
  have quietly {new : List Event} (none : overalls new = []) :
      ∀ e ∈ new, ∀ past, Mute id past e := by
    intro e he past some_
    exact absurd (List.filterMap_eq_nil_iff.mp none e he) some_
  cases h.answers (shape wf reach) with
  | @quiet new log none fresh left same =>
    constructor
    · intro here
      obtain ⟨none', cancelled⟩ := a.before (left.mp here)
      rw [log, same (left.mp here)]
      exact ⟨by simp only [List.filterMap_append, none, none', List.append_nil],
        fun old => cancelled ((List.mem_append.mp old).resolve_right fresh)⟩
    · intro gone
      have silent : overalls (l.ctx.log ++ new) = overalls l.ctx.log := by
        simp only [List.filterMap_append, none, List.append_nil]
      rw [log, silent]
      exact (a.after (mt left.mpr gone)).imp_right fun out => ⟨out.1, List.mem_append_left _ out.2⟩
    · rw [log]
      exact a.mute.append_free (quietly none)
  | @ends new log fresh here gone count =>
    obtain ⟨none, cancelled⟩ := a.before here
    simp only [told, and_true] at count
    constructor
    · exact fun left => absurd left gone
    · intro _
      have first : overalls (l.ctx.log ++ new) = overalls new := by
        simp only [List.filterMap_append, none, List.nil_append]
      rw [log, first]
      by_cases off : l.ctx.cancelled = true
      · rw [off, if_neg (by simp)] at count
        refine .inr ⟨List.length_eq_zero_iff.mp count, List.mem_append_left _ ?_⟩
        exact superseded_of_cancelled reach off
      · rw [if_pos (Bool.eq_false_iff.mpr off)] at count
        exact .inl count
    · rw [log]
      by_cases off : l.ctx.cancelled = true
      · rw [off, if_neg (by simp)] at count
        exact a.mute.append_free (quietly (List.length_eq_zero_iff.mp count))
      · apply a.mute.append
        rintro past e future rfl some_ old
        rcases List.mem_append.mp old with old | new
        · exact off (cancelled old)
        · exact fresh (List.mem_append_left _ new)
  | cancel same =>
    subst same
    constructor
    · intro here
      have silent : overalls (l.cancel id).ctx.log = overalls l.ctx.log := by simp [Life.cancel]
      exact ⟨silent.trans (a.before here).1, fun _ => rfl⟩
    · intro gone
      have silent : overalls (l.cancel id).ctx.log = overalls l.ctx.log := by simp [Life.cancel]
      rw [silent]
      exact (a.after gone).imp_right fun out => ⟨out.1, List.mem_append_left _ out.2⟩
    · exact a.mute.snoc fun some_ => absurd rfl some_

theorem answered_once (wf : sub.WellFormed) (told : sub.reporter.reportOverallResult = true)
    (reach : Reachable cfg id base sub l) : Answered id l := by
  induction reach with
  | start =>
    constructor
    · intro _
      exact ⟨rfl, fun no => by simp [Life.start] at no⟩
    · have here : .summary ∈ (Life.start id base sub).todo :=
        List.mem_toFinset.mpr (Submission.mem_planTasks.mpr trivial)
      exact fun gone => absurd here gone
    · exact Timely.nil.snoc fun some_ => absurd rfl some_
  | next reach step ih => exact ih.step wf reach told step

/-! ## Testdata -/

variable {i : Nat}

/-- A testdata is reported at most once, when nothing will change it. -/
structure Told (sub : Submission) (i : Nat) (l : Life) : Prop where
  once : (announced i l.ctx.log).length ≤ 1
  kept : ∀ res ∈ announced i l.ctx.log, Final sub l i ∧
    res.tdResults[i]? = l.ctx.result.tdResults[i]? ∧ i < l.ctx.result.tdResults.length ∧
      (l.ctx.td i).verdict ≠ .nul
  timely : Timely (Keeps i) l.ctx.log

theorem Told.step (a : Told sub i l) (wf : sub.WellFormed) (hi : i < sub.numTds)
    (reach : Reachable cfg id base sub l) (inter : sub.reportIntermediateStage = false)
    (h : Step cfg id base l l') : Told sub i l' := by
  have shape := shape wf reach
  have tested := tested wf hi reach
  have grown : l.ctx.result.tdResults.length ≤ l'.ctx.result.tdResults.length := by
    rcases h.length with same | ⟨_, _, same⟩ <;> omega
  rcases h.announces i with ⟨quiet, _, _⟩ | ⟨active, ready, td, inside, todo, log⟩
  · have kept : ∀ res ∈ announced i l'.ctx.log, Final sub l' i ∧
        res.tdResults[i]? = l'.ctx.result.tdResults[i]? ∧ i < l'.ctx.result.tdResults.length ∧
          (l'.ctx.td i).verdict ≠ .nul := by
      intro res mem
      obtain ⟨final, same, inside, set⟩ := a.kept res (quiet ▸ mem)
      have inside' := lt_of_lt_of_le inside grown
      have td := final.kept wf shape tested h
      refine ⟨final.step wf shape tested h, same.trans ?_, inside', td ▸ set⟩
      simpa [Ctx.td, inside, inside'] using td.symm
    exact ⟨quiet ▸ a.once, kept, timely_step a.timely h fun res mem => (kept res mem).2⟩
  · -- before its last scoring nothing was reported of the testdata
    rename_i j o skipped
    have go : (l.ctx.td i).skipStage = false := by
      by_cases running : .scoring i j ∈ l.running
      · exact tested.active _ running rfl
      · exact ready running
    have last : sub.lastScoring i ∈ l.todo := shape.last_left wf (shape.active_todo active) rfl
    have none : announced i l.ctx.log = [] := by
      apply List.eq_nil_iff_forall_not_mem.mpr
      intro res mem
      rcases (a.kept res mem).1 with skip | gone
      · rw [go] at skip
        cases skip
      · exact gone last
    rw [shape.same] at td
    have now : ∀ res ∈ announced i l'.ctx.log, res = l'.ctx.result ∧
        ((l'.ctx.td i).skipStage = true ∨ sub.lastStage j = true) := by
      intro res mem
      rw [log, none, List.nil_append, List.mem_ite_nil_right, List.mem_singleton] at mem
      obtain ⟨reports, rfl⟩ := mem
      simp only [reportsScoring, shape.same, inter, Bool.false_or, Bool.and_eq_true,
        Bool.or_eq_true] at reports
      exact ⟨rfl, reports.2.symm⟩
    have kept : ∀ res ∈ announced i l'.ctx.log, Final sub l' i ∧
        res.tdResults[i]? = l'.ctx.result.tdResults[i]? ∧ i < l'.ctx.result.tdResults.length ∧
          (l'.ctx.td i).verdict ≠ .nul := by
      intro res mem
      obtain ⟨rfl, ended⟩ := now res mem
      have same : sub.lastStage j = true → sub.lastScoring i = .scoring i j := by
        intro stage
        rw [Submission.lastScoring, (lastStage_iff wf).mp stage]
      refine ⟨ended.imp_right fun stage => ?_, rfl, lt_of_lt_of_le inside grown, ?_⟩
      · rw [todo, same stage]
        exact Finset.notMem_erase _ _
      · rcases ended with skip | stage
        · rw [td] at skip ⊢
          exact scoringOutcome_skip go skip
        · exact td ▸ scoringOutcome_last stage
    refine ⟨?_, kept, timely_step a.timely h fun res mem => (kept res mem).2⟩
    rw [log, none, List.nil_append]
    split
    · exact Nat.le_refl 1
    · exact Nat.zero_le 1

theorem told_once (wf : sub.WellFormed) (hi : i < sub.numTds)
    (inter : sub.reportIntermediateStage = false) (reach : Reachable cfg id base sub l) :
    Told sub i l := by
  induction reach with
  | start =>
    refine ⟨Nat.zero_le 1, fun res mem => ?_, ?_⟩
    · cases mem
    · refine Timely.nil.snoc ⟨fun res no => ?_, fun res mem => ?_⟩
      · cases no
      · cases mem
  | next reach step ih => exact ih.step wf hi reach inter step

end Life

/-! ## Every run -/

variable {cfg : Config} {s t : State} {id : Int} {base : Nat} {sub : Submission}

/-- A submission whose summary is finalized was answered once, or superseded before; before
that it is not answered, and it is not once it is superseded. -/
theorem answered (h : (judge cfg).Reach freshId s) (enq : .enqueued id sub base ∈ s.log)
    (told : sub.reporter.reportOverallResult = true) :
    (¬ Life.Over id .summary s.log → overalls (s.log.filter (Event.about id)) = []) ∧
    (Life.Over id .summary s.log → (overalls (s.log.filter (Event.about id))).length = 1 ∨
      overalls (s.log.filter (Event.about id)) = [] ∧ .superseded id ∈ s.log) ∧
    Timely (Life.Mute id) (s.log.filter (Event.about id)) := by
  obtain ⟨l, wf, _, reach, log⟩ := lived h enq
  have once := Life.answered_once wf told reach
  have done : .summary ∉ l.todo ↔ Life.Over id .summary s.log := by
    rw [Life.finalized_in_log wf reach (t := .summary) trivial]
    simp only [Life.Over, ← log, ended_filter]
  rw [log, ← done, not_not]
  refine ⟨fun left => (once.before left).1, fun gone => ?_, once.mute⟩
  refine (once.after gone).imp_right fun out => ⟨out.1, ?_⟩
  rw [← log] at out
  exact (List.mem_filter.mp out.2).1

/-- Without intermediate reports, a testdata is reported at most once, with a verdict; no later
record of the submission has another result for it. -/
theorem told_kept {i : Nat} (h : (judge cfg).Reach freshId s) (enq : .enqueued id sub base ∈ s.log)
    (inter : sub.reportIntermediateStage = false) (hi : i < sub.numTds) :
    (scoringReports s id i).length ≤ 1 ∧ Timely (Life.Keeps i) (s.log.filter (Event.about id)) := by
  obtain ⟨l, wf, _, reach, log⟩ := lived h enq
  have told := Life.told_once wf hi inter reach
  rw [scoringReports, log]
  exact ⟨told.once, told.timely⟩

/-- What the map and the log say of replaced submissions. -/
structure Replacements (s : State) : Prop where
  ids : ∀ submissionId x, s.submissionIdMap.lookup submissionId = some x →
    ∃ sub base, .enqueued x sub base ∈ s.log ∧ sub.submissionId = submissionId
  replaced : ∀ x, .superseded x ∈ s.log → ∃ sub base, .enqueued x sub base ∈ s.log ∧ Replaced sub s.log

theorem Replacements.kept (r : Replacements s) {new : List Event} (log : t.log = s.log ++ new)
    (quiet : ∀ x, .superseded x ∉ new)
    (ids : ∀ e x, t.submissionIdMap.lookup e = some x → s.submissionIdMap.lookup e = some x) :
    Replacements t := by
  constructor
  · intro e x h
    obtain ⟨sub, base, enq, same⟩ := r.ids e x (ids e x h)
    exact ⟨sub, base, log ▸ List.mem_append_left _ enq, same⟩
  · intro x h
    rw [log] at h
    obtain ⟨sub, base, enq, first, y, newer, next, same, sublist⟩ :=
      r.replaced x ((List.mem_append.mp h).resolve_right (quiet x))
    refine ⟨sub, base, log ▸ List.mem_append_left _ enq, first, y, newer, next, same, ?_⟩
    exact log ▸ sublist.trans (List.sublist_append_left _ _)

theorem Replacements.push (r : Replacements s)
    (sound : ∀ id sub base, .enqueued id sub base ∈ s.log → sub.submissionInternalId = id) :
    Replacements ((s.enqueue id sub).supersede sub.submissionId id) := by
  have log : ((s.enqueue id sub).supersede sub.submissionId id).log = s.log ++
      ([.enqueued id sub s.taskCount] ++
        (s.submissionIdMap.lookup sub.submissionId).toList.map .superseded) := by
    rw [supersede_log, enqueue_log, List.append_assoc]
    rfl
  constructor
  · intro e x h
    simp only [State.supersede, UMap.lookup_insert_eq] at h
    split at h
    · rename_i same
      cases h
      exact ⟨sub, s.taskCount, by simp, same.symm⟩
    · obtain ⟨old, base, enq, same⟩ := r.ids e x h
      exact ⟨old, base, log ▸ List.mem_append_left _ enq, same⟩
  · intro x h
    rw [log, List.mem_append, List.mem_append] at h
    rcases h with h | h | h
    · obtain ⟨old, base, enq, first, y, newer, next, same, sublist⟩ := r.replaced x h
      refine ⟨old, base, log ▸ List.mem_append_left _ enq, first, y, newer, next, same, ?_⟩
      exact log ▸ sublist.trans (List.sublist_append_left _ _)
    · simp at h
    · obtain ⟨y, hy, same⟩ := List.mem_map.mp h
      cases same
      obtain ⟨old, base, enq, same⟩ := r.ids _ _ (Option.mem_toList.mp hy)
      refine ⟨old, base, log ▸ List.mem_append_left _ enq, base, id, sub, s.taskCount, same.symm, ?_⟩
      rw [sound _ _ _ enq, log, ← List.append_assoc]
      exact ((List.singleton_sublist.mpr enq).append (.refl [_])).trans (List.sublist_append_left _ _)

theorem Replacements.step {l : Label} {held : List Nat} (r : Replacements s) (refined : Refined cfg s held)
    (h : Step cfg s l t) : Replacements t := by
  cases h with
  | refused => exact r
  | push => exact r.push fun id sub base enq => (refined.sound id sub base enq).2
  | wake | block | exit => exact r.kept (List.append_nil _).symm (fun _ => List.not_mem_nil) fun _ _ => id
  | launch _ _ _ ready =>
    refine r.kept (by rw [launch_log, start_log, List.append_assoc, List.append_assoc]) (fun x => ?_)
      fun _ _ => id
    simp [(setup_reports rfl ready).2.not_superseded]
  | @skip n _ _ _ c _ _ _ _ ready done =>
    refine r.kept (by simp only [settle_log, start_log, List.append_assoc]; rfl) (fun x => ?_)
      fun e x h => (settle_ids h : (s.start n c).submissionIdMap.lookup e = some x)
    simp [(setup_reports rfl ready).2.not_superseded, (finalize_reports rfl done).2.not_superseded]
  | @result n handle o _ c _ _ _ _ done =>
    refine r.kept (by rw [resume_log, settle_log, returned_log, List.append_assoc]) (fun x => ?_)
      fun e x h => ?_
    · simp [(finalize_reports rfl done).2.not_superseded]
    · have settled : ((s.returned handle).settle n (some o) c).submissionIdMap.lookup e = some x := h
      exact (settle_ids settled : (s.returned handle).submissionIdMap.lookup e = some x)

theorem replacements (h : (judge cfg).Reach freshId s) : Replacements s := by
  refine h.invariant ⟨nofun, fun _ => nofun⟩ fun a l b reach r _ step => ?_
  obtain ⟨_, refined⟩ := refined reach
  exact r.step refined (step_cases step)

end TiojJudge.Judge
