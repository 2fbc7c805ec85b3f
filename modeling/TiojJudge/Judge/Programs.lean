import TiojJudge.Judge.Languages
import TiojJudge.Judge.Leftovers
import TiojJudge.Judge.Order

/-!
# The programs that run

The setups of executions, of scorings and of the summary copy a program from the box
in which it was compiled.

* `programsNoted`: what each compile task leaves, noted when it ends;
* `Kept`: until the summary is over it stays as it is;
* `programs_compiled`: an execution and a checker are launched on what a compilation
  that succeeded left.
-/

namespace TiojJudge.Judge
open Machine FileTree TaskGraph

def compileBoxOutput (id : Int) (subtask : CompileSubtask) (lang : Compiler) : Path :=
  workdir (boxPath id (.compile subtask)) ++ [.name (compileResultName subtask lang)]

/-- `GetLang`, for the submissions by their internal ids. -/
abbrev Languages := Int → CompileSubtask → Compiler

/-- What is left in the boxes of compile tasks. -/
abbrev Programs := Int → CompileSubtask → Option File

section Notes

variable (getLang : Languages)

def programIn (files : Files) (id : Int) (subtask : CompileSubtask) : Option File :=
  files (compileBoxOutput id subtask (getLang id subtask))

/-- The programs after a step: a compile task ends. -/
def programsNoted (programs : Programs) (p : BoxState) : BoxLabel → BoxState → Programs
  | .step (.result handle _), _ =>
    match p.judge.taskOf handle with
    | none => programs
    | some info => fun id subtask =>
      if info.submissionInternalId = id ∧ info.task = .compile subtask then
        programIn getLang p.files id subtask
      else programs id subtask
  | _, _ => programs

def programBoxes (cfg : Config) : Machine (BoxState × Programs) BoxLabel :=
  (boxes cfg).noted (fun _ _ => none) (programsNoted getLang)

/-- The finalizer of a compile task looks for this program. -/
def SeesProgram (files : Files) (id : Int) (o : TaskOutcome) : Task → Prop
  | .compile subtask => o.files.compileOutput = isRegularFile (programIn getLang files id subtask)
  | _ => True

/-- Submissions have fresh ids, and a compilation is judged by what is in its box. -/
def seesPrograms (p : BoxState × Programs) : BoxLabel → Prop
  | .step (.result handle o) =>
    ∀ info ∈ p.1.judge.taskOf handle,
      SeesProgram getLang p.1.files info.submissionInternalId o info.task
  | .step l => freshId p.1.judge l
  | .write .. => True

instance (files : Files) (id : Int) (o : TaskOutcome) : DecidablePred (SeesProgram getLang files id o)
  | .compile _ | .execute .. | .scoring .. | .summary => by
    unfold SeesProgram
    infer_instance

instance (p : BoxState × Programs) : DecidablePred (seesPrograms getLang p)
  | .step (.push ..) | .step .wake | .step (.dispatch ..) | .step .block | .step (.result ..)
  | .step .exit | .write .. => by
    unfold seesPrograms
    infer_instance

end Notes

/-! ## What no task changes -/

section Frame

variable {cfg : Config} {c : Ctx} {box : BoxFiles} {files : Files} {t : Task} {id k : Int}
  {subtask : CompileSubtask} {lang : Compiler} {outcome : Option TaskOutcome}

theorem compileBoxOutput_below : boxPath id (.compile subtask) <+: compileBoxOutput id subtask lang :=
  below_workdir.trans (List.prefix_append _ _)

theorem boxPath_below_output {b : Box} (below : boxPath k b <+: compileBoxOutput id subtask lang) :
    k = id ∧ b = .compile subtask := by
  rw [compileBoxOutput, workdir, List.append_assoc] at below
  exact boxPath_below.mp below

theorem run_below_output (below : submissionRunPath k <+: compileBoxOutput id subtask lang) : k = id :=
  submissionRunPath_unique below (below_submissionRunPath.trans compileBoxOutput_below)

/-- Only the summary's setup and finalizer come near a program. -/
theorem Task.Touches.program (h : t.Touches k (compileBoxOutput id subtask lang)) :
    t = .summary ∧ k = id := by
  have not_here {b : Box} (other : b ≠ .compile subtask)
      (below : boxPath k b <+: compileBoxOutput id subtask lang) : False :=
    other (boxPath_below_output below).2
  cases t with
  | compile => exact h.elim
  | execute => exact (h.elim (not_here (by simp)) (not_here (by simp))).elim
  | scoring =>
    exact (h.elim (not_here (by simp)) fun h => h.elim (not_here (by simp)) (not_here (by simp))).elim
  | summary => exact ⟨rfl, run_below_output h⟩

theorem setupFiles_program : setupFiles cfg c box files t (compileBoxOutput id subtask lang) =
    files (compileBoxOutput id subtask lang) := by
  by_cases last : t = .summary
  · subst last
    have message : compileBoxOutput id subtask lang ≠
        compileBoxMessage c.sub.submissionInternalId .userprog := by
      intro same
      have := congrArg List.getLast? same
      simp [compileBoxOutput, compileBoxMessage, compileResultName_ne_message] at this
    have dest : compileBoxOutput id subtask lang ≠ summaryBoxCEMessage c.sub.submissionInternalId := by
      intro same
      have below : boxPath c.sub.submissionInternalId .summary <+: compileBoxOutput id subtask lang :=
        same ▸ below_workdir.trans (List.prefix_append _ _)
      cases (boxPath_below_output below).2
    simp only [setupFiles, setupSummaryFiles]
    rcases setupSummary c with _ | ⟨_ | _, _⟩
    · rfl
    · rfl
    · dsimp only
      split
      · exact move_other message dest
      · exact put_other dest
  · exact setupFiles_outside fun touches => last touches.program.1

theorem finalizeFiles_program (other : t = .summary → c.sub.submissionInternalId ≠ id) :
    finalizeFiles cfg c files t outcome (compileBoxOutput id subtask lang) =
      files (compileBoxOutput id subtask lang) := by
  apply finalizeFiles_outside
  intro touches
  exact other touches.program.1 touches.program.2

end Frame

/-! ## The invariant -/

section Invariant

variable {cfg : Config} {p p' : BoxState} {outputs outputs' : Files} {held : List Nat} {id : Int}
  {subtask : CompileSubtask} {l : BoxLabel} {n : Node TaskInfo} {getLang : Languages}
  {programs : Programs} {o : TaskOutcome}

/-- Tasks that are left are not over. -/
theorem Refined.not_over {s : State} (r : Refined cfg s held) (hn : n ∈ s.graph.nodes) :
    ¬ Life.Over n.data.submissionInternalId n.data.task s.log ∧
      ¬ Life.Over n.data.submissionInternalId .summary s.log := by
  obtain ⟨sub, base, l, t, _, wf, _, reach, shape, follows, ht, rfl, _⟩ := r.life hn
  have left {t : Task} (ht : t ∈ l.todo) : ¬ Life.Over n.data.submissionInternalId t s.log := by
    intro gone
    refine (Life.finalized_in_log wf reach (shape.planned t ht)).mpr ?_ ht
    rw [← follows.log]
    simpa only [ended_filter, Life.Over] using gone
  exact ⟨left ht, left (shape.summary_left wf ht)⟩

/-- A task ends with the result that its handle returns. -/
theorem BoxStep.ends (h : BoxStep cfg p outputs l p' outputs') :
    ∃ new, p'.judge.log = p.judge.log ++ new ∧ ∀ id t o, Life.Ended id t (some o) new →
      ∃ handle, l = .step (.result handle o) ∧ ∃ n ∈ p.judge.graph.nodes,
        p.judge.taskOf handle = some n.data ∧ n.data.submissionInternalId = id ∧ n.data.task = t := by
  have silent {k : Int} {es : List Event} (reports : Reports k es) (id : Int) (t : Task)
      (outcome : Option TaskOutcome) : ¬ Life.Ended id t outcome es := Life.not_ended_of_reports reports
  cases h with
  | quiet actor step =>
    cases step with
    | refused | wake | block | exit => exact ⟨[], (List.append_nil _).symm, by simp⟩
    | push =>
      refine ⟨_, by rw [supersede_log, enqueue_log, List.append_assoc], fun id t o ended => ?_⟩
      simp [Life.Ended] at ended
    | launch _ found | skip _ found => simp [BoxState.actor, found] at actor
    | result _ handled found => simp [BoxState.actor, taskOf_eq handled found] at actor
  | launch _ _ _ _ ready =>
    refine ⟨_, by rw [launch_log, start_log, List.append_assoc, List.append_assoc],
      fun id t o ended => ?_⟩
    simp only [Life.ended_append, silent (setup_reports rfl ready).2] at ended
    simp [Life.Ended] at ended
  | skip _ _ _ _ ready done =>
    refine ⟨_, by rw [settle_log, start_log, List.append_assoc, List.append_assoc, List.append_assoc],
      fun id t o ended => ?_⟩
    simp only [Life.ended_append, silent (setup_reports rfl ready).2,
      silent (finalize_reports rfl done).2] at ended
    simp [Life.Ended] at ended
  | @result n handle o _ _ _ actor _ hn _ done =>
    refine ⟨_, by rw [resume_log, settle_log, returned_log, List.append_assoc],
      fun id t o' ended => ?_⟩
    simp only [Life.ended_append, silent (finalize_reports rfl done).2, or_false] at ended
    simp only [Life.Ended, List.mem_singleton, Event.finalizing.injEq, Option.some.injEq] at ended
    obtain ⟨_, -, rfl, rfl, rfl⟩ := ended
    exact ⟨handle, rfl, n, hn, actor, rfl, rfl⟩
  | write => exact ⟨[], (List.append_nil _).symm, by simp⟩

/-- A step changes no program that is compiled, unless it ends the summary. -/
theorem BoxStep.program_kept (h : BoxStep cfg p outputs l p' outputs') (r : Refined cfg p.judge held)
    (gone : Life.Over id (.compile subtask) p.judge.log)
    (left : ¬ Life.Over id .summary p'.judge.log) :
    programIn getLang p'.files id subtask = programIn getLang p.files id subtask := by
  cases h with
  | quiet => rfl
  | launch => exact setupFiles_program
  | @skip n _ _ _ _ c c' _ _ hn found ready done =>
    obtain ⟨_, _, _, _, key, _⟩ := r.listed found
    have same : c.sub.submissionInternalId = n.data.submissionInternalId := by
      rw [(setup_reports rfl ready).1]
      exact key
    refine (finalizeFiles_program fun last here => left ?_).trans setupFiles_program
    refine ⟨none, n.id, ?_⟩
    simp [← here, same, last]
  | @result n _ o _ _ c _ _ hn found done =>
    obtain ⟨_, _, _, _, key, _⟩ := r.listed found
    have key : (p.judge.ctx _).sub.submissionInternalId = n.data.submissionInternalId := key
    refine finalizeFiles_program fun last here => left ⟨some o, n.id, ?_⟩
    simp [← here, key, last]
  | @write n _ _ _ _ _ hn below =>
    refine put_other fun same => (r.not_over hn).1 ?_
    obtain ⟨rfl, box⟩ := boxPath_below_output (same ▸ below)
    have task : n.data.task = .compile subtask := by
      cases here : n.data.task <;> simp [here, Task.box] at box
      rw [box]
    rw [task]
    exact gone

/-- What a compile task left stays until the summary is over. -/
structure Kept (getLang : Languages) (p : BoxState) (programs : Programs) : Prop where
  seen : ∀ id subtask o, Life.Ended id (.compile subtask) (some o) p.judge.log →
    o.files.compileOutput = isRegularFile (programs id subtask)
  kept : ∀ id subtask o, Life.Ended id (.compile subtask) (some o) p.judge.log →
    ¬ Life.Over id .summary p.judge.log → programIn getLang p.files id subtask = programs id subtask

theorem Kept.init : Kept getLang ⟨.init, fun _ => none⟩ (fun _ _ => none) where
  seen := fun id subtask o ended => by simp [Life.Ended, State.init] at ended
  kept := fun id subtask o ended => by simp [Life.Ended, State.init] at ended

/-- The compile task of this program ends in the step. -/
def EndsCompile (p : BoxState) (l : BoxLabel) (id : Int) (subtask : CompileSubtask)
    (o : TaskOutcome) : Prop :=
  ∃ handle info, l = .step (.result handle o) ∧ p.judge.taskOf handle = some info ∧
    info.submissionInternalId = id ∧ info.task = .compile subtask

theorem programsNoted_other (none : ∀ o, ¬ EndsCompile p l id subtask o) :
    programsNoted getLang programs p l p' id subtask = programs id subtask := by
  cases l with
  | write => rfl
  | step l =>
    cases l with
    | push | wake | dispatch | block | exit => rfl
    | result handle o =>
      cases task : p.judge.taskOf handle with
      | none => simp [programsNoted, task]
      | some info =>
        simp only [programsNoted, task]
        exact if_neg fun ends => none o ⟨handle, info, rfl, task, ends⟩

theorem programsNoted_ends (ends : EndsCompile p l id subtask o) :
    programsNoted getLang programs p l p' id subtask = programIn getLang p.files id subtask := by
  obtain ⟨handle, info, rfl, task, ends⟩ := ends
  simp [programsNoted, task, ends]

/-- The finalizer of a compile task leaves the files alone. -/
theorem BoxStep.compile_files (h : BoxStep cfg p outputs l p' outputs')
    (ends : EndsCompile p l id subtask o) : p'.files = p.files ∧
      ∃ n ∈ p.judge.graph.nodes, n.data.submissionInternalId = id ∧ n.data.task = .compile subtask := by
  obtain ⟨handle, info, rfl, task, rfl, compile⟩ := ends
  cases h with
  | quiet actor => simp [BoxState.actor, task] at actor
  | @result n _ _ _ _ _ actor _ hn =>
    obtain rfl : n.data = info := Option.some.inj (actor.symm.trans task)
    refine ⟨?_, n, hn, rfl, compile⟩
    rw [compile]
    rfl

theorem Kept.step (k : Kept getLang p programs) (r : Refined cfg p.judge held)
    (sees : seesPrograms getLang (p, programs) l) (step : (boxes cfg).step p l = some p') :
    Kept getLang p' (programsNoted getLang programs p l p') := by
  have step : BoxStep cfg p (fun _ => none) l p' _ := boxes_cases step
  obtain ⟨new, log, ends⟩ := step.ends
  have past {id : Int} {subtask : CompileSubtask} {o : TaskOutcome}
      (ended : Life.Ended id (.compile subtask) (some o) p'.judge.log) :
      Life.Ended id (.compile subtask) (some o) p.judge.log ∨ EndsCompile p l id subtask o := by
    rw [log, Life.ended_append] at ended
    refine ended.imp_right fun ended => ?_
    obtain ⟨handle, here, n, _, task, mine, compile⟩ := ends _ _ _ ended
    exact ⟨handle, n.data, here, task, mine, compile⟩
  have first {id : Int} {subtask : CompileSubtask} {o o' : TaskOutcome}
      (ended : Life.Ended id (.compile subtask) (some o) p.judge.log) :
      ¬ EndsCompile p l id subtask o' := by
    intro ends
    obtain ⟨_, n, hn, rfl, task⟩ := step.compile_files ends
    exact (r.not_over hn).1 (task ▸ ⟨_, ended⟩)
  constructor
  · intro id subtask o ended
    rcases past ended with old | ends
    · rw [programsNoted_other fun o' => first old]
      exact k.seen id subtask o old
    · rw [programsNoted_ends ends]
      obtain ⟨handle, info, rfl, task, rfl, compile⟩ := ends
      have sees : SeesProgram getLang p.files info.submissionInternalId o info.task := sees info task
      rw [compile] at sees
      exact sees
  · intro id subtask o ended left
    rcases past ended with old | ends
    · rw [programsNoted_other fun o' => first old, step.program_kept r ⟨_, old⟩ left]
      refine k.kept id subtask o old fun gone => left ?_
      obtain ⟨outcome, tid, gone⟩ := gone
      exact ⟨outcome, tid, log ▸ List.mem_append_left _ gone⟩
    · rw [programsNoted_ends ends]
      exact congrFun (step.compile_files ends).1 _

theorem seesPrograms_fresh (sees : seesPrograms getLang (p, programs) l) : freshBoxes p l := by
  cases l with
  | write => trivial
  | step l =>
    cases l with
    | result => trivial
    | push | wake | dispatch | block | exit => exact sees

theorem kept (h : (programBoxes getLang cfg).Reach (seesPrograms getLang) (p, programs)) :
    (judge cfg).Reach freshId p.judge ∧ Kept getLang p programs := by
  refine Reach.noted_invariant
    (I := fun p programs => (judge cfg).Reach freshId p.judge ∧ Kept getLang p programs) h
    ⟨.init, .init⟩ fun a programs l b kept sees step => ?_
  obtain ⟨held, r⟩ := refined kept.1
  exact ⟨judge_reach kept.1 (seesPrograms_fresh sees) step, kept.2.step r sees step⟩

end Invariant

/-! ## Launches -/

/-- The program of a compile task that succeeded is in its box, as the task left it. -/
structure Compiled (getLang : Languages) (p : BoxState) (programs : Programs) (id : Int)
    (subtask : CompileSubtask) : Prop where
  succeeded : Life.Succeeded id subtask p.judge.log
  program : ∃ content, programIn getLang p.files id subtask = some (.regular content) ∧
    programs id subtask = some (.regular content)

variable {cfg : Config} {p p' : BoxState} {id : Int} {getLang : Languages} {programs : Programs}

theorem Kept.compiled {subtask : CompileSubtask} (k : Kept getLang p programs)
    (succeeded : Life.Succeeded id subtask p.judge.log)
    (left : ¬ Life.Over id .summary p.judge.log) : Compiled getLang p programs id subtask := by
  obtain ⟨o, ended, success⟩ := succeeded
  refine ⟨⟨o, ended, success⟩, ?_⟩
  have regular : isRegularFile (programs id subtask) = true := by
    rw [← k.seen id subtask o ended]
    simp only [compileFails, Bool.or_eq_false_iff, Bool.not_eq_false'] at success
    exact success.2
  rw [k.kept id subtask o ended left]
  exact (isRegularFile_iff.mp regular).imp fun _ same => ⟨same, same⟩

/-- A stage is launched on its program, and a checker is the one of the problem: each is what
its compilation left, which succeeded. A program of the summary that was compiled is in place. -/
theorem programs_compiled {sub : Submission} {base : Nat} {task : Task} {l : BoxLabel}
    (h : (programBoxes getLang cfg).Reach (seesPrograms getLang) (p, programs))
    (enq : .enqueued id sub base ∈ p.judge.log) (step : (boxes cfg).step p l = some p')
    (launches : Launches p.judge p'.judge id task) :
    (∀ i j, task = .execute i j → Compiled getLang p programs id (sub.program j)) ∧
    (∀ i j, task = .scoring i j → sub.specjudgeType ≠ .normal →
      Compiled getLang p programs id .specjudge) ∧
    (task = .summary → Life.Succeeded id .summary p.judge.log →
      Compiled getLang p programs id .summary) := by
  obtain ⟨reach, k⟩ := kept h
  obtain ⟨held, r⟩ := refined reach
  have step : BoxStep cfg p (fun _ => none) l p' _ := boxes_cases step
  obtain ⟨n, box, entry, c, rfl, rfl, queued, hn, listed, ready, -⟩ := step.launches launches
  have left := (r.not_over hn).2
  obtain ⟨sub', base', life, _, enq', wf, key, lives, shape, follows, -, -, -⟩ := r.life hn
  obtain ⟨rfl, rfl⟩ := r.once _ _ _ _ _ enq enq'
  have call := follows.called shape wf key hn listed
  have lready := follows.ready shape wf r.wired hn queued call.left call.node
  have justified := Life.launch_justified wf lives lready (call.ctx ▸ ready)
  have here {subtask : CompileSubtask}
      (succeeded : Life.Succeeded n.data.submissionInternalId subtask life.ctx.log) :
      Compiled getLang p programs n.data.submissionInternalId subtask := by
    rw [← follows.log] at succeeded
    exact k.compiled (by simpa only [Life.Succeeded, ended_filter] using succeeded) left
  refine ⟨fun i j task => ?_, fun i j task type => ?_, fun _ succeeded => k.compiled succeeded left⟩
  · rw [task] at justified
    exact here justified.1
  · rw [task] at justified
    exact here (justified.1 type)

/-- The program is compiled. -/
def compiledRun : List BoxLabel :=
  [.step (.push (stagesSubmission .normal) 0), .step .wake] ++
    writeAlone 5 [(compileBoxOutput 1 .userprog .gccCpp17, .regular ['x'])] goodOutcome

theorem programs_compiled_first : ∃ p programs,
    (programBoxes (fun _ _ => .gccCpp17) (sampleConfig 1)).exec (seesPrograms fun _ _ => .gccCpp17)
      (programBoxes (fun _ _ => .gccCpp17) (sampleConfig 1)).init compiledRun = some (p, programs) ∧
    Compiled (fun _ _ => .gccCpp17) p programs 1 .userprog := by
  have runs : ((programBoxes (fun _ _ => .gccCpp17) (sampleConfig 1)).exec
      (seesPrograms fun _ _ => .gccCpp17)
      (programBoxes (fun _ _ => .gccCpp17) (sampleConfig 1)).init compiledRun).bind (fun q =>
        ((boxes (sampleConfig 1)).step q.1 (.step (.dispatch 1 5 .empty))).map fun p' =>
          decide (.enqueued 1 (stagesSubmission .normal) 0 ∈ q.1.judge.log ∧
            p'.judge.log = q.1.judge.log ++
              [.dispatching 1 1 (.execute 0 0), .launched 1 1 (.execute 0 0) 5])) = some true := by
    decide +kernel
  obtain ⟨⟨p, programs⟩, hp, rest⟩ := Option.bind_eq_some_iff.mp runs
  obtain ⟨p', hp', seen⟩ := Option.map_eq_some_iff.mp rest
  obtain ⟨enqueued, log⟩ := of_decide_eq_true seen
  exact ⟨p, programs, hp, (programs_compiled (reach_exec hp) enqueued hp'
    ⟨_, 1, 5, log, by simp⟩).1 0 0 rfl⟩

end TiojJudge.Judge
