import TiojJudge.Judge.Refinement
import TiojJudge.Judge.Testdata

/-!
# When the summary program is run

`SetupSummary` tests the merged verdict for `JCE` and nothing else. The verdict
is `JCE` when code of the problem failed to compile; it is `JE` when the sandbox
of any compile task failed, and it stays below both when the compile tasks were
skipped.

* `merged`: what the verdict says about the compile tasks before the summary;
* `SummaryGuarded`: what has to be known of them when the summary is set up;
* `summary_guarded_iff`: the summary program runs only after its compile task
  succeeded exactly when every setup of the summary is guarded.
-/

namespace TiojJudge.Judge
open Machine Life

/-- The sandbox of a compile task failed. -/
def SandboxFailed (id : Int) (past : List Event) : Prop :=
  ∃ subtask o, Ended id (.compile subtask) (some o) past ∧ o.res.timekill = -1

/-- Code of the problem failed to compile. -/
def ProblemFailed (id : Int) (past : List Event) : Prop :=
  ∃ subtask o, Ended id (.compile subtask) (some o) past ∧ subtask ≠ .userprog ∧
    o.res.timekill ≠ -1 ∧ compileFails o = true

/-- A summary program that failed to compile goes with no failure of a sandbox, and one
that was not compiled goes with a compile error of the problem as well. -/
def SummaryGuarded (id : Int) (past : List Event) : Prop :=
  ∀ outcome, Ended id (.compile .summary) outcome past →
    match outcome with
    | some o => compileFails o = true → ¬ SandboxFailed id past
    | none => ProblemFailed id past ∧ ¬ SandboxFailed id past

/-- The past of a launch of the summary program. -/
def SummaryCompiled (id : Int) (past : List Event) (e : Event) : Prop :=
  ∀ tid handle, e = .launched tid id .summary handle → Succeeded id .summary past

/-- The past of a setup of the summary. -/
def SetupGuarded (id : Int) (past : List Event) (e : Event) : Prop :=
  ∀ tid, e = .dispatching tid id .summary → SummaryGuarded id past

variable {cfg : Config} {s : State} {id : Int} {base : Nat} {sub : Submission} {l l' : Life}

/-! ## The merged verdict -/

/-- What the verdict is when a sandbox failed, or code of the problem. -/
structure Merged (sandbox problem : Prop) (v : Verdict) : Prop where
  je : sandbox → v = .je
  jce : ¬ sandbox → problem → v = .jce
  below : ¬ sandbox → ¬ problem → v < .jce

section Merged

variable {sandbox problem : Prop} {v : Verdict}

theorem Merged.jce_iff (m : Merged sandbox problem v) : v = .jce ↔ problem ∧ ¬ sandbox := by
  by_cases hs : sandbox
  · simp [m.je hs, hs]
  · by_cases hp : problem
    · simp [m.jce hs hp, hs, hp]
    · simp [(m.below hs hp).ne, hp]

/-- An ordinary compile error. -/
theorem failVerdict_cases (subtask : CompileSubtask) (o : TaskOutcome) :
    subtask ≠ .userprog ∧ failVerdict subtask o = .jce ∨
      subtask = .userprog ∧ failVerdict subtask o < .jce := by
  unfold failVerdict
  by_cases user : subtask = .userprog
  · refine .inr ⟨user, ?_⟩
    rw [if_neg (not_not.mpr user)]
    split <;> decide
  · exact .inl ⟨user, if_pos user⟩

/-- A compile task ended with outcome `o`. -/
theorem Merged.compile (m : Merged sandbox problem v) (subtask : CompileSubtask)
    (o : TaskOutcome) :
    Merged (sandbox ∨ o.res.timekill = -1)
      (problem ∨ subtask ≠ .userprog ∧ o.res.timekill ≠ -1 ∧ compileFails o = true)
      (compileVerdict subtask o v) := by
  have below (u : Verdict) : u ≤ .je := by cases u <;> decide
  unfold compileVerdict
  by_cases timekill : o.res.timekill = -1
  · exact ⟨fun _ => if_pos timekill, fun no => absurd (.inr timekill) no,
      fun no => absurd (.inr timekill) no⟩
  · rw [if_neg timekill]
    simp only [timekill, or_false, ne_eq, not_false_eq_true, true_and]
    cases fails : compileFails o with
    | false => simpa using m
    | true =>
      simp only [if_true, and_true]
      rcases failVerdict_cases subtask o with ⟨other, jce⟩ | ⟨user, low⟩
      · rw [jce]
        refine ⟨fun hs => ?_, fun hs _ => ?_, fun _ no => absurd (.inr other) no⟩
        · rw [m.je hs]
          exact max_eq_left (by decide)
        · by_cases hp : problem
          · rw [m.jce hs hp, max_self]
          · exact max_eq_right (m.below hs hp).le
      · simp only [user, not_true_eq_false, or_false] at low ⊢
        refine ⟨fun hs => ?_, fun hs hp => ?_, fun hs hp => max_lt (m.below hs hp) low⟩
        · rw [m.je hs]
          exact max_eq_left (below _)
        · rw [m.jce hs hp]
          exact max_eq_left low.le

end Merged

namespace Life

theorem merged (h : Reachable cfg id base sub l) (left : .summary ∈ l.todo)
    (idle : .summary ∉ l.running) :
    Merged (SandboxFailed id l.ctx.log) (ProblemFailed id l.ctx.log) l.ctx.result.verdict := by
  induction h with
  | start =>
    refine ⟨?_, ?_, fun _ _ => (by decide : Verdict.nul < .jce)⟩
    · rintro ⟨_, _, ended, _⟩
      simp [Life.start, Ended] at ended
    · rintro _ ⟨_, _, ended, _⟩
      simp [Life.start, Ended] at ended
  | @next l l' reach step ih =>
    obtain ⟨left', idle'⟩ := step.idle left idle
    have m := ih left' idle'
    rcases step.compiles left idle with ⟨verdict, ended⟩ | ⟨subtask, o, verdict, ended⟩
    · simpa only [verdict, SandboxFailed, ProblemFailed, ended] using m
    · have sandbox : SandboxFailed id l'.ctx.log ↔
          SandboxFailed id l.ctx.log ∨ o.res.timekill = -1 := by
        simp [SandboxFailed, ended, or_and_right, exists_or, and_assoc]
      have problem : ProblemFailed id l'.ctx.log ↔ ProblemFailed id l.ctx.log ∨
          subtask ≠ .userprog ∧ o.res.timekill ≠ -1 ∧ compileFails o = true := by
        simp [ProblemFailed, ended, or_and_right, exists_or, and_assoc]
      rw [verdict, propext sandbox, propext problem]
      exact m.compile subtask o

/-! ## The setup of the summary -/

theorem overallVerdict_lt {tds : List TestdataResult} (low : ∀ td ∈ tds, td.verdict < .ce) :
    overallVerdict sub tds < .ce := by
  unfold overallVerdict
  have low : ∀ p ∈ tds.zip sub.testdata, p.1.verdict < .ce :=
    fun p hp => low _ (List.of_mem_zip hp).1
  generalize tds.zip sub.testdata = pairs at low
  suffices ∀ v, v < Verdict.ce → pairs.foldl (fun v p =>
      if p.2.ignoreVerdict then v else if v < p.1.verdict then p.1.verdict else v) v < .ce from
    this .ac ac_lt
  intro v hv
  induction pairs generalizing v with
  | nil => exact hv
  | cons p pairs ih =>
    refine ih (fun q hq => low q (List.mem_cons_of_mem _ hq)) _ ?_
    dsimp only
    split_ifs
    · exact hv
    · exact low p List.mem_cons_self
    · exact hv

/-- The setup of the summary launches it unless the verdict is `JCE`. -/
theorem summary_launch_iff {launch : Bool} {c : Ctx} (wf : sub.WellFormed)
    (custom : sub.summaryType = .custom) (reach : Reachable cfg id base sub l)
    (ready : l.Ready .summary) (h : setupSummary l.ctx.cleared = .ok (launch, c)) :
    launch = false ↔ ProblemFailed id l.ctx.log ∧ ¬ SandboxFailed id l.ctx.log := by
  have m := merged reach ready.1 ready.2.1
  obtain ⟨rfl, launched⟩ := setupSummary_spec h
  have same : l.ctx.cleared.sub = sub := (shape wf reach).same
  have jce : (summaryResult l.ctx.cleared.sub l.ctx.result).verdict = .jce ↔
      l.ctx.result.verdict = .jce := by
    unfold summaryResult
    split
    · rename_i nul
      have low : overallVerdict l.ctx.cleared.sub l.ctx.result.tdResults < .ce := by
        refine overallVerdict_lt fun td htd => ?_
        obtain ⟨i, hi, rfl⟩ := List.getElem_of_mem htd
        simpa [Ctx.td, hi] using td_verdict_lt reach i
      have lt : (Verdict.ce : Verdict) < .jce := by decide
      simp [nul, (low.trans lt).ne]
    · rfl
  rw [← m.jce_iff, ← jce]
  rw [same] at launched jce ⊢
  simp only [custom, true_and] at launched
  rw [← Bool.not_eq_true, launched, not_not]
  rfl

/-- The guard of the summary's setup, when its compile task ended. -/
theorem summaryGuarded_iff (wf : sub.WellFormed) (custom : sub.summaryType = .custom)
    (reach : Reachable cfg id base sub l) (ready : l.Ready .summary) :
    SummaryGuarded id l.ctx.log ↔ Succeeded id .summary l.ctx.log ∨
      ProblemFailed id l.ctx.log ∧ ¬ SandboxFailed id l.ctx.log := by
  have targets : sub.compileTargets .summary = some [.summary] := by
    simp [Submission.compileTargets, custom]
  have planned : sub.Planned (.compile .summary) := by simp [Submission.Planned, targets]
  have gone := (shape wf reach).before_ready
    (.single (.compile targets (List.mem_singleton.mpr rfl))) ready (by simp)
  obtain ⟨outcome, ended⟩ := (finalized_in_log wf reach planned).mp gone
  have once {outcome' : Option TaskOutcome} (h : Ended id (.compile .summary) outcome' l.ctx.log) :
      outcome' = outcome := ended_once wf reach h ended
  cases outcome with
  | none =>
    have failed : ¬ Succeeded id .summary l.ctx.log := by
      rintro ⟨o, h, _⟩
      cases once h
    constructor
    · exact fun guarded => .inr (guarded none ended)
    · rintro (succeeded | jce) outcome' h
      · exact absurd succeeded failed
      · exact once h ▸ jce
  | some o =>
    constructor
    · intro guarded
      cases fails : compileFails o with
      | false => exact .inl ⟨o, ended, fails⟩
      | true =>
        have sandbox := guarded (some o) ended fails
        refine .inr ⟨⟨.summary, o, ended, by simp, fun timekill => ?_, fails⟩, sandbox⟩
        exact sandbox ⟨.summary, o, ended, timekill⟩
    · rintro (⟨o', h, succeeded⟩ | ⟨_, sandbox⟩) outcome' h'
      · obtain rfl := once h'
        obtain rfl := Option.some.inj (once h)
        simp [succeeded]
      · obtain rfl := once h'
        exact fun _ => sandbox

section Events

variable {past : List Event} {tid : Nat} {t : Task}

/-- Only the events of the summary's dispatch and launch are looked at. -/
theorem timely_reports {es log : List Event} {i : Int} (reports : Reports i es) :
    (Timely (SummaryCompiled id) (log ++ es) ↔ Timely (SummaryCompiled id) log) ∧
      (Timely (SetupGuarded id) (log ++ es) ↔ Timely (SetupGuarded id) log) := by
  refine ⟨Timely.append_free_iff ?_, Timely.append_free_iff ?_⟩
  · rintro _ he past tid handle rfl
    obtain ⟨_, source, _⟩ := reports _ he
    cases source
  · rintro _ he past tid rfl
    obtain ⟨_, source, _⟩ := reports _ he
    cases source

@[simp] theorem summaryCompiled_launched {handle : Int} :
    SummaryCompiled id past (.launched tid id t handle) ↔
      (t = .summary → Succeeded id .summary past) := by
  constructor
  · rintro h rfl
    exact h tid handle rfl
  · rintro h _ _ ⟨⟩
    exact h rfl

@[simp] theorem summaryCompiled_dispatching : SummaryCompiled id past (.dispatching tid id t) := by
  simp [SummaryCompiled]

@[simp] theorem summaryCompiled_finalizing {outcome : Option TaskOutcome} :
    SummaryCompiled id past (.finalizing tid id t outcome) := by
  simp [SummaryCompiled]

@[simp] theorem setupGuarded_dispatching :
    SetupGuarded id past (.dispatching tid id t) ↔ (t = .summary → SummaryGuarded id past) := by
  constructor
  · rintro h rfl
    exact h tid rfl
  · rintro h _ ⟨⟩
    exact h rfl

@[simp] theorem setupGuarded_launched {handle : Int} :
    SetupGuarded id past (.launched tid id t handle) := by
  simp [SetupGuarded]

@[simp] theorem setupGuarded_finalizing {outcome : Option TaskOutcome} :
    SetupGuarded id past (.finalizing tid id t outcome) := by
  simp [SetupGuarded]

end Events

/-- In the life of a submission: the summary program runs after its compile task
succeeded, exactly when every setup of the summary is guarded. -/
theorem summary_guarded_iff (wf : sub.WellFormed) (custom : sub.summaryType = .custom)
    (reach : Reachable cfg id base sub l) :
    Timely (SummaryCompiled id) l.ctx.log ↔ Timely (SetupGuarded id) l.ctx.log := by
  induction reach with
  | start =>
    exact iff_of_true (Timely.nil.snoc fun _ _ h => by cases h) (Timely.nil.snoc fun _ h => by cases h)
  | @next l l' reach step ih =>
    cases step with
    | @launch t _ _ c ready setup =>
      have reports := (setup_reports rfl setup).2
      have noEnd {t : Task} {o : Option TaskOutcome} : ¬ Ended id t o c.log :=
        not_ended_of_reports reports
      simp only [launched, started, Ctx.withLog, Timely.snoc_iff, (timely_reports reports).1,
        (timely_reports reports).2, summaryCompiled_dispatching, summaryCompiled_launched,
        setupGuarded_dispatching, setupGuarded_launched, and_true, ih]
      refine and_congr_right fun _ => forall_congr' fun summary => ?_
      subst summary
      have jce := (summary_launch_iff wf custom reach ready setup).not
      simp only [Bool.true_eq_false, not_false_eq_true, true_iff] at jce
      rw [summaryGuarded_iff wf custom reach ready, or_iff_left jce]
      simp [Succeeded, noEnd]
    | @skip t _ _ c c' ready setup done =>
      simp only [settled, started, Ctx.withLog, Timely.snoc_iff,
        (timely_reports (setup_reports rfl setup).2).1, (timely_reports (setup_reports rfl setup).2).2,
        (timely_reports (finalize_reports rfl done).2).1,
        (timely_reports (finalize_reports rfl done).2).2, summaryCompiled_dispatching,
        summaryCompiled_finalizing, setupGuarded_dispatching, setupGuarded_finalizing, and_true, ih]
      refine (and_iff_left ?_).symm
      rintro rfl
      have jce := (summary_launch_iff wf custom reach ready setup).mp rfl
      exact (summaryGuarded_iff wf custom reach ready).mpr (.inr jce)
    | finish _ done =>
      simp only [settled, Ctx.withLog, Timely.snoc_iff,
        (timely_reports (finalize_reports rfl done).2).1,
        (timely_reports (finalize_reports rfl done).2).2, summaryCompiled_finalizing,
        setupGuarded_finalizing, and_true, ih]
    | cancel =>
      simp only [Life.cancel, Timely.snoc_iff, SummaryCompiled, SetupGuarded, reduceCtorEq,
        false_implies, implies_true, and_true]
      exact ih

end Life

/-- In every run of the scheduler. -/
theorem summary_compiled_iff (h : (judge cfg).Reach freshId s)
    (enq : .enqueued id sub base ∈ s.log) (custom : sub.summaryType = .custom) :
    Timely (SummaryCompiled id) s.log ↔ Timely (SetupGuarded id) s.log := by
  obtain ⟨l, wf, _, reach, log⟩ := lived h enq
  have compiled : Timely (SummaryCompiled id) (s.log.filter (Event.about id)) ↔
      Timely (SummaryCompiled id) s.log := by
    refine Timely.filter_iff (fun past e => by simp [SummaryCompiled, Succeeded]) ?_
    rintro past e about tid handle rfl
    simp [Event.about] at about
  have guarded : Timely (SetupGuarded id) (s.log.filter (Event.about id)) ↔
      Timely (SetupGuarded id) s.log := by
    refine Timely.filter_iff (fun past e => ?_) ?_
    · simp [SetupGuarded, SummaryGuarded, SandboxFailed, ProblemFailed]
    · rintro past e about tid rfl
      simp [Event.about] at about
  rw [← compiled, ← guarded, log]
  exact summary_guarded_iff wf custom reach

/-- A submission without testdata, judged by a summary program. -/
def summarySubmission : Submission := { sampleSubmission 1 1 [] with summaryType := .custom }

/-- Both compile tasks end, and the summary is set up. -/
def summaryRun (compiled : TaskOutcome) : List Label :=
  [.push summarySubmission 0, .wake] ++ runAlone 1 goodOutcome ++ runAlone 2 compiled ++
    [.dispatch 0 5 .empty]

theorem summary_compiled_after_success :
    ∃ s sub, (judge (sampleConfig 1)).exec freshId .init (summaryRun goodOutcome) = some s ∧
      .enqueued 1 sub 0 ∈ s.log ∧ s.handleMap.lookup 5 = some 0 ∧
      (Timely (SummaryCompiled 1) s.log ↔ Timely (SetupGuarded 1) s.log) := by
  have run : ((judge (sampleConfig 1)).exec freshId .init (summaryRun goodOutcome)).map (fun s => decide
      (.enqueued 1 summarySubmission 0 ∈ s.log ∧ s.handleMap.lookup 5 = some 0)) = some true := by
    decide +kernel
  obtain ⟨s, hs, seen⟩ := Option.map_eq_some_iff.mp run
  obtain ⟨enqueued, launched⟩ := of_decide_eq_true seen
  exact ⟨s, _, hs, enqueued, launched, summary_compiled_iff (reach_exec hs) enqueued rfl⟩

/-- The sandbox of the summary's compile task failed. -/
def sandboxFailure : TaskOutcome := ⟨{ CjailResult.zero with timekill := -1 }, .empty⟩

/-- When this is the end of a compile task of a summary, the task failed. -/
def Event.summaryFails : Event → Bool
  | .finalizing _ _ (.compile .summary) (some o) => compileFails o
  | _ => true

/-- The verdict is `JE`, and a summary program that was not compiled is launched. -/
theorem summary_launched_uncompiled :
    ∃ s, (judge (sampleConfig 1)).exec freshId .init (summaryRun sandboxFailure) = some s ∧
      ¬ Timely (SummaryCompiled 1) s.log := by
  have run : ((judge (sampleConfig 1)).exec freshId .init (summaryRun sandboxFailure)).map (fun s => decide
      (.launched 0 1 .summary 5 ∈ s.log ∧ s.log.all Event.summaryFails = true)) = some true := by
    decide +kernel
  obtain ⟨s, hs, seen⟩ := Option.map_eq_some_iff.mp run
  obtain ⟨launched, failed⟩ := of_decide_eq_true seen
  refine ⟨s, hs, fun timely => ?_⟩
  obtain ⟨past, future, split⟩ := List.append_of_mem launched
  obtain ⟨o, ⟨tid, ended⟩, succeeded⟩ := timely past _ future split _ _ rfl
  have fails := List.all_eq_true.mp failed _ (split ▸ List.mem_append_left _ ended)
  simp [Event.summaryFails, succeeded] at fails

end TiojJudge.Judge
