import TiojJudge.Judge.Refinement

/-!
# What is done before a task is launched

* `Justified`: the program of an execution and the checker of a scoring were
  compiled, and the stages before are finalized;
* `Life.launches_justified`: every launch in a life is justified, since compile
  tasks come first in the plan and a failure or a cancellation is not undone;
* `launched_in_order`: so is every launch in a run of the scheduler.
-/

namespace TiojJudge.Judge
open Machine Life

/-- The stages of testdata `i` before stage `j` are over. -/
def StagesOver (sub : Submission) (id : Int) (i j : Nat) (past : List Event) : Prop :=
  ∀ k < j, Over id (.execute i k) past ∧
    (sub.judgeBetweenStages = true → Over id (.scoring i k) past)

def Justified (sub : Submission) (id : Int) (past : List Event) : Task → Prop
  | .execute i j => Succeeded id (sub.program j) past ∧ StagesOver sub id i j past
  | .scoring i j =>
    (sub.specjudgeType ≠ .normal → Succeeded id .specjudge past) ∧
      Over id (.execute i j) past ∧ StagesOver sub id i j past
  | _ => True

/-- The past of a launch of submission `id`. -/
def LaunchJustified (sub : Submission) (id : Int) (past : List Event) (e : Event) : Prop :=
  ∀ tid t handle, e = .launched tid id t handle → Justified sub id past t

variable {cfg : Config} {s : State} {id : Int} {base : Nat} {sub : Submission} {l l' : Life}

/-- Nothing more is asked of a longer past. -/
theorem Justified.mono {past past' : List Event} {t : Task} (h : Justified sub id past t)
    (sublog : ∀ e ∈ past, e ∈ past') : Justified sub id past' t := by
  have ended {t : Task} {outcome : Option TaskOutcome} (h : Ended id t outcome past) :
      Ended id t outcome past' := by
    obtain ⟨tid, h⟩ := h
    exact ⟨tid, sublog _ h⟩
  have succeeded {subtask : CompileSubtask} (h : Succeeded id subtask past) :
      Succeeded id subtask past' := by
    obtain ⟨o, h, ok⟩ := h
    exact ⟨o, ended h, ok⟩
  have done {t : Task} (h : Over id t past) : Over id t past' := by
    obtain ⟨outcome, h⟩ := h
    exact ⟨outcome, ended h⟩
  have stages {i j : Nat} (h : StagesOver sub id i j past) : StagesOver sub id i j past' :=
    fun k hk => ⟨done (h k hk).1, fun between => done ((h k hk).2 between)⟩
  cases t with
  | execute i j => exact ⟨succeeded h.1, stages h.2⟩
  | scoring i j => exact ⟨fun type => succeeded (h.1 type), done h.2.1, stages h.2.2⟩
  | compile | summary => trivial

namespace Life

/-- A compile task that a ready task waits for succeeded, when no verdict is set
and the submission is not cancelled. -/
theorem succeeded_before {subtask : CompileSubtask} {t : Task} (wf : sub.WellFormed)
    (reach : Reachable cfg id base sub l) (shape : Shape sub l) (ready : l.Ready t)
    (planned : sub.Planned (.compile subtask)) (leads : sub.Leads (.compile subtask) t)
    (other : .compile subtask ≠ t) (nul : l.ctx.result.verdict = .nul)
    (going : l.ctx.cancelled = false) : Succeeded id subtask l.ctx.log := by
  have done := shape.before_ready leads ready other
  obtain ⟨outcome, ended⟩ := (finalized_in_log wf reach planned).mp done
  rcases compiled reach nul subtask outcome ended with ⟨o, rfl, ok⟩ | cancelled
  · exact ⟨o, ended, ok⟩
  · rw [going] at cancelled
    cases cancelled

theorem over_before {a t : Task} (wf : sub.WellFormed) (reach : Reachable cfg id base sub l)
    (shape : Shape sub l) (ready : l.Ready t) (planned : sub.Planned a) (leads : sub.Leads a t)
    (other : a ≠ t) : Over id a l.ctx.log :=
  (finalized_in_log wf reach planned).mp (shape.before_ready leads ready other)

theorem scoredStage_of_between {j : Nat} (between : sub.judgeBetweenStages = true)
    (hj : j < sub.numStages) : sub.scoredStage j := by
  simpa [Submission.scoredStage, between] using hj

theorem not_cancelled {groups : List Int} {c : Ctx} (h : c.isCancelled groups = false) :
    c.cancelled = false := by
  by_contra cancelled
  have := Ctx.isCancelled_iff.mpr (.inl (by simpa using cancelled)) |>.symm.trans h
  cases this

theorem launch_execute {i j : Nat} (wf : sub.WellFormed) (reach : Reachable cfg id base sub l)
    (shape : Shape sub l) (ready : l.Ready (.execute i j))
    (setup : setupExecute l.ctx.cleared i j files = .ok true) :
    Justified sub id l.ctx.log (.execute i j) := by
  obtain ⟨nul, ⟨item, _, free⟩, _⟩ := setupExecute_spec setup
  obtain ⟨hi, hj⟩ := shape.planned _ ready.1
  obtain ⟨planned, leads⟩ := Submission.program_leads wf hi hj
  refine ⟨succeeded_before wf reach shape ready planned leads (by simp) nul (not_cancelled free),
    fun k hk => ⟨?_, fun between => ?_⟩⟩
  · refine over_before wf reach shape ready ⟨hi, by omega⟩
      (Submission.leads_execute hi (by omega) hj) ?_
    simp only [ne_eq, Task.execute.injEq, not_and]
    omega
  · exact over_before wf reach shape ready ⟨hi, scoredStage_of_between between (by omega)⟩
      (.head (.resume hi between (by omega)) (Submission.leads_execute hi (by omega) hj)) (by simp)

theorem launch_scoring {i j : Nat} {files : BoxFiles} {c : Ctx} (wf : sub.WellFormed)
    (reach : Reachable cfg id base sub l) (shape : Shape sub l) (ready : l.Ready (.scoring i j))
    (setup : setupScoring cfg l.ctx.cleared i j files = .ok (true, c)) :
    Justified sub id l.ctx.log (.scoring i j) := by
  obtain ⟨nul, item, free⟩ : l.ctx.result.verdict = .nul ∧
      ∃ item : TestdataItem, l.ctx.cleared.isCancelled item.tdGroups = false := by
    rcases setupScoring_cases setup with ⟨_, _, nul, ⟨item, _, free⟩, _⟩ | ⟨no, _⟩ | ⟨no, _⟩
    · exact ⟨nul, item, free⟩
    · cases no
    · cases no
  obtain ⟨hi, hj⟩ := shape.planned _ ready.1
  have bound := Submission.scoredStage_lt wf hj
  refine ⟨fun type => ?_, ?_, fun k hk => ⟨?_, fun between => ?_⟩⟩
  · obtain ⟨planned, leads⟩ := Submission.specjudge_leads wf hi hj type
    exact succeeded_before wf reach shape ready planned leads (by simp) nul (not_cancelled free)
  · exact over_before wf reach shape ready ⟨hi, bound⟩ (Submission.leads_scoring wf hi le_rfl hj)
      (by simp)
  · exact over_before wf reach shape ready ⟨hi, by omega⟩
      (Submission.leads_scoring wf hi hk.le hj) (by simp)
  · have scored := scoredStage_of_between between (Nat.lt_trans hk bound)
    refine over_before wf reach shape ready ⟨hi, scored⟩
      (Submission.leads_scorings wf hi scored hj hk.le) ?_
    simp only [ne_eq, Task.scoring.injEq, not_and]
    omega

theorem launch_justified {t : Task} {files : BoxFiles} {c : Ctx} (wf : sub.WellFormed)
    (reach : Reachable cfg id base sub l) (ready : l.Ready t)
    (h : setup cfg l.ctx.cleared files t = .ok (true, c)) : Justified sub id l.ctx.log t := by
  have shape := shape wf reach
  cases t with
  | execute i j =>
    obtain ⟨run, rfl⟩ := setup_execute_iff.mp h
    exact launch_execute wf reach shape ready run
  | scoring i j => exact launch_scoring wf reach shape ready h
  | compile | summary => trivial

theorem launches_justified (wf : sub.WellFormed) (h : Reachable cfg id base sub l) :
    Timely (LaunchJustified sub id) l.ctx.log := by
  have report {i : Int} {es : List Event} (reports : Reports i es) :
      ∀ e ∈ es, ∀ past, LaunchJustified sub id past e := by
    rintro e he past tid t handle rfl
    obtain ⟨_, source, _⟩ := reports _ he
    cases source
  induction h with
  | start =>
    exact Timely.nil.snoc fun _ _ _ h => by cases h
  | @next l l' reach step ih =>
    cases step with
    | @launch t handle _ c ready setup =>
      have justified := launch_justified wf reach ready setup
      simp only [launched, started, Ctx.withLog]
      refine Timely.snoc ?_ ?_
      · exact (ih.snoc fun _ _ _ h => by cases h).append_free (report (setup_reports rfl setup).2)
      · rintro _ _ _ h
        cases h
        exact justified.mono fun e he => by simp [he]
    | skip ready setup done =>
      simp only [settled, started, Ctx.withLog]
      refine ((Timely.append_free ?_ (report (setup_reports rfl setup).2)).snoc ?_).append_free
        (report (finalize_reports rfl done).2)
      · exact ih.snoc fun _ _ _ h => by cases h
      · exact fun _ _ _ h => by cases h
    | finish running done =>
      simp only [settled, Ctx.withLog]
      exact (ih.snoc fun _ _ _ h => by cases h).append_free (report (finalize_reports rfl done).2)
    | cancel => exact ih.snoc fun _ _ _ h => by cases h

end Life

/-- Every execution and scoring is launched after the compile tasks it needs
succeeded and after the stages before it. -/
theorem launched_in_order (h : (judge cfg).Reach freshId s) (enq : .enqueued id sub base ∈ s.log) :
    Timely (LaunchJustified sub id) s.log := by
  refine timely_of_lives h enq (fun l wf _ reach => launches_justified wf reach) ?_ ?_
  · intro past e justified tid t handle he
    exact (justified tid t handle he).mono fun e he => (List.mem_filter.mp he).1
  · rintro past e about tid t handle rfl
    simp [Event.about] at about

/-- A submission of one testdata until its checker is started. -/
def scoringLaunched : List Label :=
  [.push (sampleSubmission 1 1 [sampleItem false [0]]) 0, .wake] ++
    runAlone 3 goodOutcome ++ runAlone 1 goodOutcome ++ [.dispatch 2 5 .empty]

theorem launched_in_order_until_scoring :
    ∃ s sub tid handle, (judge (sampleConfig 2)).exec freshId .init scoringLaunched = some s ∧
      .enqueued 1 sub 0 ∈ s.log ∧ .launched tid 1 (.scoring 0 0) handle ∈ s.log ∧
      Timely (LaunchJustified sub 1) s.log := by
  have run : ((judge (sampleConfig 2)).exec freshId .init scoringLaunched).map (fun s => decide
      (.enqueued 1 (sampleSubmission 1 1 [sampleItem false [0]]) 0 ∈ s.log ∧
        .launched 2 1 (.scoring 0 0) 5 ∈ s.log)) = some true := by decide +kernel
  obtain ⟨s, hs, seen⟩ := Option.map_eq_some_iff.mp run
  obtain ⟨enqueued, launched⟩ := of_decide_eq_true seen
  exact ⟨s, _, _, _, hs, enqueued, launched, launched_in_order (reach_exec hs) enqueued⟩

end TiojJudge.Judge
