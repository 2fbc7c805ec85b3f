import TiojJudge.Judge.Multistage
import TiojJudge.Judge.StageFiles

/-!
# The output of a stage is the input of the next

* `outputsNoted`: the outputs of all stages, noted beside the boxes;
* `Handing`: in every reachable state the output of a stage is where the life of its
  submission says;
* `input_handed_over`: a stage is launched on the output of the one before it, and until
  then no other task touches it.
-/

namespace TiojJudge.Judge
open Machine FileTree TaskGraph

/-! ## The outputs beside the boxes -/

/-- The outputs after a step: a task ends, or a checker writes. -/
def outputsNoted (outputs : Files) (p : BoxState) : BoxLabel → BoxState → Files
  | .step (.result handle o), _ =>
    match p.judge.taskOf handle with
    | none => outputs
    | some info =>
      match p.judge.submissionList.lookup info.submissionInternalId with
      | none => outputs
      | some entry => outputsAfter entry.sub p.files outputs info.task o
  | .write handle path file, _ =>
    match p.judge.taskOf handle with
    | none => outputs
    | some info => outputsWritten info.submissionInternalId path file outputs info.task
  | .step _, _ => outputs

def notedBoxes (cfg : Config) : Machine (BoxState × Files) BoxLabel :=
  (boxes cfg).noted (fun _ => none) outputsNoted

/-- A checker has its user output in place, as a regular file. -/
def UserOutputLeft (files : Files) (id : Int) : Task → Prop
  | .scoring i j => isRegularFile (files (scoringBoxUserOutput id i j)) = true
  | _ => True

/-- Submissions have fresh ids, and checkers leave their `user_output` in place. -/
def leavesUserOutput (p : BoxState × Files) : BoxLabel → Prop
  | .step (.result handle _) =>
    ∀ info ∈ p.1.judge.taskOf handle, UserOutputLeft p.1.files info.submissionInternalId info.task
  | .step l => freshId p.1.judge l
  | .write .. => True

instance (files : Files) (id : Int) : DecidablePred (UserOutputLeft files id)
  | .compile _ | .execute .. | .scoring .. | .summary => by
    unfold UserOutputLeft
    infer_instance

instance (p : BoxState × Files) : DecidablePred (leavesUserOutput p)
  | .step (.push ..) | .step .wake | .step (.dispatch ..) | .step .block | .step (.result ..)
  | .step .exit | .write .. => by
    unfold leavesUserOutput
    infer_instance

/-! ## What a step can do -/

/-- The task that a step is for: it is dispatched, returns, or writes. -/
def BoxState.actor (p : BoxState) : BoxLabel → Option TaskInfo
  | .step (.dispatch tid _ _) => (p.judge.graph.find tid).map fun n => n.data
  | .step (.result handle _) | .write handle _ _ => p.judge.taskOf handle
  | .step _ => none

inductive BoxStep (cfg : Config) (p : BoxState) (outputs : Files) :
    BoxLabel → BoxState → Files → Prop where
  | quiet {l s} : p.actor (.step l) = none → Step cfg p.judge l s →
      BoxStep cfg p outputs (.step l) { p with judge := s } outputs
  | launch {n handle box entry c} : p.actor (.step (.dispatch n.id handle box)) = some n.data →
      n.id ∈ p.judge.graph.queue → n ∈ p.judge.graph.nodes →
      p.judge.submissionList.lookup n.data.submissionInternalId = some entry →
      setup cfg (p.judge.ctx entry) box n.data.task = .ok (true, c) →
      BoxStep cfg p outputs (.step (.dispatch n.id handle box))
        ⟨(p.judge.start n c).launch n.id n.data handle,
          setupFiles cfg (p.judge.ctx entry) box p.files n.data.task⟩ outputs
  | skip {n handle box entry listSize c c'} :
      p.actor (.step (.dispatch n.id handle box)) = some n.data →
      n.id ∈ p.judge.graph.queue → n ∈ p.judge.graph.nodes →
      p.judge.submissionList.lookup n.data.submissionInternalId = some entry →
      setup cfg (p.judge.ctx entry) box n.data.task = .ok (false, c) →
      finalize cfg c.cleared listSize n.data.task none = .ok c' →
      BoxStep cfg p outputs (.step (.dispatch n.id handle box))
        ⟨(p.judge.start n c).settle n none c',
          finalizeFiles cfg c (setupFiles cfg (p.judge.ctx entry) box p.files n.data.task)
            n.data.task none⟩ outputs
  | result {n handle o entry listSize c} :
      p.actor (.step (.result handle o)) = some n.data →
      p.judge.handleMap.lookup handle = some n.id → n ∈ p.judge.graph.nodes →
      p.judge.submissionList.lookup n.data.submissionInternalId = some entry →
      finalize cfg (p.judge.ctx entry) listSize n.data.task (some o) = .ok c →
      BoxStep cfg p outputs (.step (.result handle o))
        ⟨((p.judge.returned handle).settle n (some o) c).resume,
          finalizeFiles cfg (p.judge.ctx entry) p.files n.data.task (some o)⟩
        (outputsAfter entry.sub p.files outputs n.data.task o)
  | write {n handle path file} : p.actor (.write handle path file) = some n.data →
      p.judge.handleMap.lookup handle = some n.id → n ∈ p.judge.graph.nodes →
      boxPath n.data.submissionInternalId n.data.task.box <+: path →
      BoxStep cfg p outputs (.write handle path file) { p with files := p.files.put path file }
        (outputsWritten n.data.submissionInternalId path file outputs n.data.task)

section Cases

variable {cfg : Config} {p p' : BoxState} {outputs : Files} {n : Node TaskInfo} {handle : Int}

theorem taskOf_eq (handled : p.judge.handleMap.lookup handle = some n.id)
    (found : p.judge.graph.find n.id = some n) : p.judge.taskOf handle = some n.data := by
  simp [State.taskOf, handled, found]

theorem boxStep_of_step {l : Label} {s : State} (step : Step cfg p.judge l s) :
    BoxStep cfg p outputs (.step l) ⟨s, filesAfter cfg p.judge p.files l⟩
      (outputsNoted outputs p (.step l) ⟨s, filesAfter cfg p.judge p.files l⟩) := by
  cases step with
  | refused working => exact .quiet rfl (.refused working)
  | push working exist narrow => exact .quiet rfl (.push working exist narrow)
  | wake waiting queued => exact .quiet rfl (.wake waiting queued)
  | block enabled => exact .quiet rfl (.block enabled)
  | exit enabled => exact .quiet rfl (.exit enabled)
  | @launch n handle box entry c enabled found listed ready =>
    have files : filesAfter cfg p.judge p.files (.dispatch n.id handle box) =
        setupFiles cfg (p.judge.ctx entry) box p.files n.data.task := by
      simp only [filesAfter, State.dispatchFiles, found, listed, ready]
    rw [files]
    exact .launch (by simp [BoxState.actor, found]) enabled.2.2.1.1 (Graph.find_mem found).1 listed
      ready
  | @skip n handle box entry c c' enabled found listed ready done =>
    have files : filesAfter cfg p.judge p.files (.dispatch n.id handle box) =
        finalizeFiles cfg c (setupFiles cfg (p.judge.ctx entry) box p.files n.data.task)
          n.data.task none := by
      simp only [filesAfter, State.dispatchFiles, found, listed, ready]
    rw [files]
    exact .skip (by simp [BoxState.actor, found]) enabled.2.2.1.1 (Graph.find_mem found).1 listed
      ready done
  | @result n handle o entry c _ handled found listed done =>
    have task := taskOf_eq handled found
    have files : filesAfter cfg p.judge p.files (.result handle o) =
        finalizeFiles cfg (p.judge.ctx entry) p.files n.data.task (some o) := by
      simp only [filesAfter, State.resultFiles, task, listed]
    simp only [outputsNoted, task, listed, files]
    exact .result task handled (Graph.find_mem found).1 listed done

/-- Everything a step of the boxes can do. -/
theorem boxes_cases {l : BoxLabel} (h : (boxes cfg).step p l = some p') :
    BoxStep cfg p outputs l p' (outputsNoted outputs p l p') := by
  cases l with
  | step l =>
    simp only [boxes] at h
    split at h
    · obtain ⟨s, step, rfl⟩ := Option.map_eq_some_iff.mp h
      exact boxStep_of_step (step_cases step)
    · cases h
  | write handle path file =>
    simp only [boxes] at h
    split at h
    · rename_i enabled
      obtain ⟨_, info, task, below⟩ := enabled
      obtain ⟨tid, handled, here⟩ := Option.bind_eq_some_iff.mp task
      obtain ⟨n, found, rfl⟩ := Option.map_eq_some_iff.mp here
      obtain ⟨hn, rfl⟩ := Graph.find_mem found
      cases h
      simp only [outputsNoted, taskOf_eq handled found]
      exact .write task handled hn below
    · cases h

end Cases

/-! ## The invariant -/

/-- The state of the boxes follows the lives of all submissions, with their files. -/
structure Handing (cfg : Config) (p : BoxState) (outputs : Files) (held : List Nat) : Prop where
  refined : Refined cfg p.judge held
  lives : ∀ id sub base, .enqueued id sub base ∈ p.judge.log → sub.specjudgeType ≠ .skip →
    ∃ l, Life.Reachable cfg id base sub l ∧ Follows p.judge held id base l ∧
      ∀ i j, l.Between i j → l.Handed sub i j p.files outputs

section Keeps

variable {cfg : Config} {p p' : BoxState} {outputs outputs' : Files} {held held' : List Nat}
  {id : Int}

/-- A step for one submission. -/
theorem Handing.touched (h : Handing cfg p outputs held) (r : Refined cfg p'.judge held')
    (old : ∀ y sub base, .enqueued y sub base ∈ p'.judge.log → .enqueued y sub base ∈ p.judge.log)
    (mine : ∀ sub base l, sub.WellFormed → sub.submissionInternalId = id → l.Shape sub →
      Follows p.judge held id base l → ∃ l', Follows p'.judge held' id base l' ∧
        Life.FileStep cfg id base l p.files outputs l' p'.files outputs')
    (others : ∀ y, y ≠ id → Untouched p.judge held p'.judge held' y)
    (files : ∀ path, ¬ submissionRunPath id <+: path →
      p'.files path = p.files path ∧ outputs' path = outputs path) :
    Handing cfg p' outputs' held' := by
  refine ⟨r, fun y sub base enq type => ?_⟩
  have enq := old y sub base enq
  obtain ⟨wf, key⟩ := h.refined.sound y sub base enq
  obtain ⟨l, reach, follows, handed⟩ := h.lives y sub base enq type
  have shape := Life.shape wf reach
  by_cases same : y = id
  · subst same
    obtain ⟨l', follows', step⟩ := mine sub base l wf key shape follows
    exact ⟨l', step.reachable reach, follows', step.handed wf shape key type handed⟩
  · have step : Life.FileStep cfg y base l p.files outputs l p'.files outputs' :=
      .elsewhere fun path below => files path fun here =>
        same (submissionRunPath_unique below here)
    exact ⟨l, reach, follows.untouched (others y same), step.handed wf shape key type handed⟩

variable {n : Node TaskInfo} {entry : SubmissionAndResult} {box : BoxFiles} {c c' : Ctx}
  {listSize : Nat} {handle : Int} {o : TaskOutcome}

/-- The calls for a task write below the path of its submission. -/
theorem Called.outside {s : State} {sub : Submission} {base : Nat} {l : Life} {path : Path}
    (call : Called s base sub n entry l)
    (key : sub.submissionInternalId = n.data.submissionInternalId)
    (outside : ¬ submissionRunPath n.data.submissionInternalId <+: path) :
    ¬ n.data.task.Touches (s.ctx entry).sub.submissionInternalId path := by
  have same : (s.ctx entry).sub.submissionInternalId = n.data.submissionInternalId :=
    (congrArg Submission.submissionInternalId call.entry).trans key
  exact fun touches => outside (same ▸ touches.below)

theorem Handing.launch (h : Handing cfg p outputs held) (queued : n.id ∈ p.judge.graph.queue)
    (hn : n ∈ p.judge.graph.nodes)
    (listed : p.judge.submissionList.lookup n.data.submissionInternalId = some entry)
    (ready : setup cfg (p.judge.ctx entry) box n.data.task = .ok (true, c)) :
    Handing cfg ⟨(p.judge.start n c).launch n.id n.data handle,
      setupFiles cfg (p.judge.ctx entry) box p.files n.data.task⟩ outputs (n.id :: held) := by
  have r := h.refined
  obtain ⟨sub, base, l, _, enq, wf, key, reach, shape, follows, -, -, -⟩ := r.life hn
  have call := follows.called shape wf key hn listed
  obtain ⟨-, ckey, reports⟩ := call.setup shape key ready
  refine h.touched (r.launch queued hn listed ready)
    (fun _ _ _ => (launch_adds reports).old) (fun sub base l wf key shape follows => ?_)
    (fun _ => launch_untouched r.wired hn ckey reports)
    fun path outside => ⟨setupFiles_outside (call.outside key outside), rfl⟩
  have call := follows.called shape wf key hn listed
  have lready := follows.ready shape wf r.wired hn queued call.left call.node
  refine ⟨_, launch_follows follows call shape wf key (call.setup shape key ready).1 reports, ?_⟩
  exact call.ctx ▸ .launch lready (call.ctx ▸ ready)

theorem Handing.skip (h : Handing cfg p outputs held) (queued : n.id ∈ p.judge.graph.queue)
    (hn : n ∈ p.judge.graph.nodes)
    (listed : p.judge.submissionList.lookup n.data.submissionInternalId = some entry)
    (ready : setup cfg (p.judge.ctx entry) box n.data.task = .ok (false, c))
    (done : finalize cfg c.cleared listSize n.data.task none = .ok c') :
    Handing cfg ⟨(p.judge.start n c).settle n none c',
      finalizeFiles cfg c (setupFiles cfg (p.judge.ctx entry) box p.files n.data.task) n.data.task
        none⟩ outputs held := by
  have r := h.refined
  obtain ⟨sub, base, l, _, enq, wf, key, reach, shape, follows, -, -, -⟩ := r.life hn
  have call := follows.called shape wf key hn listed
  obtain ⟨same, ckey, reports⟩ := call.setup shape key ready
  obtain ⟨same', reports'⟩ := skipped_reports ckey done
  refine h.touched (r.skip queued hn listed ready done)
    (fun _ _ _ => (adds_trans (start_adds reports) (settle_adds reports')).old)
    (fun sub base l wf key shape follows => ?_)
    (fun _ => skip_untouched r.wired queued hn ckey reports same' reports')
    fun path outside => ⟨?_, rfl⟩
  · have call := follows.called shape wf key hn listed
    have lready := follows.ready shape wf r.wired hn queued call.left call.node
    refine ⟨_, skip_follows follows call shape wf key lready (call.setup shape key ready).1 reports
      done same' reports', ?_⟩
    exact call.ctx ▸ .skip lready (call.ctx ▸ ready) done
  · refine (finalizeFiles_outside ?_).trans (setupFiles_outside (call.outside key outside))
    exact fun touches => outside (ckey ▸ touches.below)

theorem Handing.result (h : Handing cfg p outputs held)
    (handled : p.judge.handleMap.lookup handle = some n.id) (hn : n ∈ p.judge.graph.nodes)
    (listed : p.judge.submissionList.lookup n.data.submissionInternalId = some entry)
    (done : finalize cfg (p.judge.ctx entry) listSize n.data.task (some o) = .ok c)
    (left : UserOutputLeft p.files n.data.submissionInternalId n.data.task) :
    Handing cfg ⟨((p.judge.returned handle).settle n (some o) c).resume,
      finalizeFiles cfg (p.judge.ctx entry) p.files n.data.task (some o)⟩
      (outputsAfter entry.sub p.files outputs n.data.task o) (held.erase n.id) := by
  have r := h.refined
  have here := r.wired.mem_held handled
  obtain ⟨sub, base, l, _, enq, wf, key, reach, shape, follows, -, -, -⟩ := r.life hn
  have call := follows.called shape wf key hn listed
  obtain ⟨-, ckey, reports⟩ := call.finalize shape key done
  refine h.touched (r.result handled hn listed done)
    (fun _ _ _ => (settle_adds reports : AddsAbout _ (p.judge.returned handle) _).old)
    (fun sub base l wf key shape follows => ?_)
    (fun _ => result_untouched r.wired handled hn ckey reports)
    fun path outside => ⟨finalizeFiles_outside (call.outside key outside), ?_⟩
  · have call := follows.called shape wf key hn listed
    refine ⟨_, result_follows follows call shape wf key here done (call.finalize shape key done).1
      reports, ?_⟩
    have same : entry.sub = l.ctx.sub := call.entry.trans shape.same.symm
    rw [same, call.ctx]
    refine .finish (follows.runs hn here) (call.ctx ▸ done) fun i j scoring => ?_
    rw [scoring] at left
    exact left
  · refine outputsAfter_other fun i j _ same => outside ?_
    rw [same, call.entry, key]
    exact below_submissionRunPath.trans below_executeBoxFinalOutput

theorem Handing.push {sub : Submission} {submissionId : Int} (h : Handing cfg p outputs held)
    (exist : sub.clamp.probStageExists = true) (key : sub.submissionInternalId = id)
    (fresh : ¬ Enqueued id p.judge.log) :
    Handing cfg { p with judge := (p.judge.enqueue id sub.clamp).supersede submissionId id } outputs
      held := by
  refine ⟨h.refined.push exist key fresh, fun y sub' base enq type => ?_⟩
  have split : .enqueued y sub' base ∈ p.judge.log ∨
      (y = id ∧ sub' = sub.clamp ∧ base = p.judge.taskCount) := by simpa using enq
  rcases split with old | ⟨rfl, rfl, rfl⟩
  · obtain ⟨l, reach, follows, handed⟩ := h.lives y sub' base old type
    obtain ⟨wf, key'⟩ := h.refined.sound y sub' base old
    have other : y ≠ id := by
      rintro rfl
      exact fresh (enqueued_iff.mpr ⟨_, _, old⟩)
    obtain ⟨l', same | same, follows⟩ :=
      supersede_follows (follows.untouched (enqueue_untouched other))
    · exact ⟨l', same ▸ reach, follows, same ▸ handed⟩
    · have step : Life.FileStep cfg y base l p.files outputs l' p.files outputs := same ▸ .cancel
      exact ⟨l', step.reachable reach, follows, step.handed wf (Life.shape wf reach) key' type handed⟩
  · refine ⟨_, .start, enqueue_follows h.refined fresh, fun i j b => absurd ?_ b.past⟩
    have next : (Life.start y p.judge.taskCount sub.clamp).todo = sub.clamp.planTasks.toFinset := rfl
    have planned := Submission.mem_planTasks.mp (List.mem_toFinset.mp (next ▸ b.next))
    exact List.mem_toFinset.mpr (Submission.mem_planTasks.mpr ⟨planned.1, j.lt_succ_self.trans planned.2⟩)

theorem Handing.same {s : State} (h : Handing cfg p outputs held) (r : Refined cfg s held)
    (log : s.log = p.judge.log) (untouched : ∀ y, Untouched p.judge held s held y) :
    Handing cfg { p with judge := s } outputs held := by
  refine ⟨r, fun y sub base enq type => ?_⟩
  obtain ⟨l, reach, follows, handed⟩ := h.lives y sub base (log ▸ enq) type
  exact ⟨l, reach, follows.untouched (untouched y), handed⟩

theorem Handing.write {path : Path} {file : Option File} (h : Handing cfg p outputs held)
    (handled : p.judge.handleMap.lookup handle = some n.id) (hn : n ∈ p.judge.graph.nodes)
    (below : boxPath n.data.submissionInternalId n.data.task.box <+: path) :
    Handing cfg { p with files := p.files.put path file }
      (outputsWritten n.data.submissionInternalId path file outputs n.data.task) held := by
  have here := h.refined.wired.mem_held handled
  have mine (base : Nat) (l : Life) (follows : Follows p.judge held n.data.submissionInternalId base l) :
      Life.FileStep cfg n.data.submissionInternalId base l p.files outputs l (p.files.put path file)
        (outputsWritten n.data.submissionInternalId path file outputs n.data.task) :=
    .write (follows.runs hn here) below
  refine touched h h.refined (fun _ _ _ enq => enq)
    (fun sub base l _ _ _ follows => ⟨l, follows, mine base l follows⟩)
    (fun _ _ => .of_same rfl rfl rfl rfl rfl) fun q outside => ⟨?_, ?_⟩
  · exact put_outside (below_submissionRunPath.trans below) outside
  · refine outputsWritten_other fun i j _ same => outside ?_
    rw [same]
    exact below_submissionRunPath.trans below_executeBoxFinalOutput

theorem Handing.step {l : BoxLabel} (h : Handing cfg p outputs held)
    (leaves : leavesUserOutput (p, outputs) l) (hs : BoxStep cfg p outputs l p' outputs') :
    ∃ held', Handing cfg p' outputs' held' := by
  cases hs with
  | @quiet l s actor step =>
    cases step with
    | refused => exact ⟨held, h⟩
    | @push sub maxQueue _ _ exist narrow =>
      have fresh : freshId p.judge (.push sub maxQueue) := leaves
      rw [narrow, fresh.1]
      exact ⟨held, h.push exist rfl fresh.2⟩
    | wake | block | exit =>
      have w := h.refined.wired
      exact ⟨held, h.same (h.refined.same rfl rfl rfl rfl rfl rfl
        ⟨w.inv, w.below, w.handles, w.dispatched⟩) rfl fun _ => .of_same rfl rfl rfl rfl rfl⟩
    | launch _ found | skip _ found => simp [BoxState.actor, found] at actor
    | result _ handled found => simp [BoxState.actor, taskOf_eq handled found] at actor
  | launch _ queued hn listed ready => exact ⟨_, h.launch queued hn listed ready⟩
  | skip _ queued hn listed ready done => exact ⟨_, h.skip queued hn listed ready done⟩
  | result actor handled hn listed done => exact ⟨_, h.result handled hn listed done (leaves _ actor)⟩
  | write _ handled hn below => exact ⟨held, h.write handled hn below⟩

end Keeps

variable {cfg : Config} {p p' : BoxState} {outputs : Files} {s : State}

theorem handing (h : (notedBoxes cfg).Reach leavesUserOutput (p, outputs)) :
    ∃ held, Handing cfg p outputs held := by
  refine Reach.noted_invariant (I := fun p outputs => ∃ held, Handing cfg p outputs held) h
    ⟨[], .init, ?_⟩ fun _ _ _ _ h leaves step => ?_
  · intro _ _ _ enq
    cases enq
  · obtain ⟨held, h⟩ := h
    exact h.step leaves (boxes_cases step)

/-! ## From one stage to the next -/

/-- The step launches the task. -/
def Launches (s t : State) (id : Int) (task : Task) : Prop :=
  ∃ new tid handle, t.log = s.log ++ new ∧ .launched tid id task handle ∈ new

/-- Stage `j` of testdata `i` is over, and the next stage is not launched. -/
structure AwaitsNext (id : Int) (i j : Nat) (log : List Event) : Prop where
  past : Life.Over id (.execute i j) log
  next : ¬ Life.Over id (.execute i (j + 1)) log
  idle : ∀ tid handle, .launched tid id (.execute i (j + 1)) handle ∉ log

/-- The task scores the stage or executes the next one. -/
def TakesOutput (id : Int) (i j : Nat) (info : TaskInfo) : Prop :=
  info.submissionInternalId = id ∧ (info.task = .scoring i j ∨ info.task = .execute i (j + 1))

theorem Launches.mem {s t : State} {id : Int} {task : Task} {added : List Event}
    (h : Launches s t id task) (log : t.log = s.log ++ added) :
    ∃ tid handle, .launched tid id task handle ∈ added := by
  obtain ⟨new, tid, handle, log', here⟩ := h
  obtain rfl : new = added := List.append_cancel_left (log'.symm.trans log)
  exact ⟨tid, handle, here⟩

theorem Reports.not_launched {k id : Int} {es : List Event} {tid : Nat} {task : Task} {handle : Int}
    (h : Reports k es) : .launched tid id task handle ∉ es := by
  intro he
  obtain ⟨_, source, _⟩ := h _ he
  cases source

section Launch

variable {id : Int} {task : Task} {l : BoxLabel} {outputs' : Files}

/-- A step that launches a task is the one that dispatches it. -/
theorem BoxStep.launches (h : BoxStep cfg p outputs l p' outputs')
    (launches : Launches p.judge p'.judge id task) : ∃ n box entry c,
      n.data.submissionInternalId = id ∧ n.data.task = task ∧ n.id ∈ p.judge.graph.queue ∧
      n ∈ p.judge.graph.nodes ∧
      p.judge.submissionList.lookup n.data.submissionInternalId = some entry ∧
      setup cfg (p.judge.ctx entry) box n.data.task = .ok (true, c) ∧
      p'.files = setupFiles cfg (p.judge.ctx entry) box p.files n.data.task := by
  have none {added : List Event} (log : p'.judge.log = p.judge.log ++ added)
      (free : ∀ tid handle, .launched tid id task handle ∉ added) : False := by
    obtain ⟨tid, handle, here⟩ := launches.mem log
    exact free tid handle here
  cases h with
  | quiet actor step =>
    cases step with
    | refused | wake | block | exit =>
      exact (none (List.append_nil _).symm fun _ _ => List.not_mem_nil).elim
    | push =>
      refine (none (by rw [supersede_log, enqueue_log, List.append_assoc]) fun _ _ => ?_).elim
      simp
    | launch _ found | skip _ found => simp [BoxState.actor, found] at actor
    | result _ handled found => simp [BoxState.actor, taskOf_eq handled found] at actor
  | @launch n handle box entry c _ queued hn listed ready =>
    obtain ⟨_, _, here⟩ := launches.mem (by rw [launch_log, start_log, List.append_assoc, List.append_assoc])
    have silent := (setup_reports rfl ready).2
    simp only [List.mem_append, List.mem_singleton, reduceCtorEq, silent.not_launched, false_or,
      Event.launched.injEq] at here
    obtain ⟨-, rfl, rfl, -⟩ := here
    exact ⟨n, box, entry, c, rfl, rfl, queued, hn, listed, ready, rfl⟩
  | skip _ _ _ _ ready done =>
    refine (none (by simp only [settle_log, start_log, List.append_assoc]; rfl) fun _ _ => ?_).elim
    simp [(setup_reports rfl ready).2.not_launched, (finalize_reports rfl done).2.not_launched]
  | result _ _ _ _ done =>
    refine (none (by rw [resume_log, settle_log, returned_log, List.append_assoc]) fun _ _ => ?_).elim
    simp [(finalize_reports rfl done).2.not_launched]
  | write => exact (none (List.append_nil _).symm fun _ _ => List.not_mem_nil).elim

end Launch

section Between

variable {sub : Submission} {id : Int} {base i j : Nat} {held : List Nat} {l : Life}
  {outputs' : Files} {label : BoxLabel}

theorem AwaitsNext.between (awaits : AwaitsNext id i j s.log) (wf : sub.WellFormed)
    (follows : Follows s held id base l) (reach : Life.Reachable cfg id base sub l)
    (hi : i < sub.numTds) (hj : j + 1 < sub.numStages) : l.Between i j := by
  have past {t : Task} (planned : sub.Planned t) : t ∉ l.todo ↔ Life.Over id t s.log := by
    rw [Life.finalized_in_log wf reach planned, ← follows.log]
    simp only [ended_filter, Life.Over]
  refine ⟨(past (t := .execute i j) ⟨hi, by omega⟩).mpr awaits.past, ?_, fun running => ?_⟩
  · by_contra gone
    exact awaits.next ((past (t := .execute i (j + 1)) ⟨hi, hj⟩).mp gone)
  · obtain ⟨tid, handle, here⟩ := Life.launched_of_running reach running
    exact awaits.idle tid handle (List.mem_filter.mp (follows.log.symm ▸ here)).1

/-- Between the stages a task that does not take the output has nothing to do with its testdata,
and does not come near it. -/
theorem apart_of_active {n : Node TaskInfo} (wf : sub.WellFormed)
    (key : sub.submissionInternalId = id) (shape : l.Shape sub) (follows : Follows s held id base l)
    (b : l.Between i j) (w : Wired s held) (hn : n ∈ s.graph.nodes)
    (active : n.id ∈ s.graph.queue ∨ n.id ∈ held) (other : ¬ TakesOutput id i j n.data) :
    (n.data.submissionInternalId = id → n.data.task.testdata ≠ some i) ∧
      ∀ q, OutputAt id i j q → ¬ n.data.task.Touches n.data.submissionInternalId q := by
  by_cases same : n.data.submissionInternalId = id
  · subst same
    obtain ⟨t, ht, node⟩ := follows.nodes n hn rfl
    obtain rfl : n.data.task = t := by rw [node.2.1]; rfl
    have active : l.Active n.data.task := active.symm.imp (follows.runs hn)
      fun queued => follows.ready shape wf w hn queued ht node
    have mine : n.data.task.testdata ≠ some i :=
      fun mine => other ⟨rfl, b.active wf shape active mine⟩
    exact ⟨fun _ => mine, fun _ out => b.not_touched wf shape active mine out⟩
  · exact ⟨fun h => absurd h same, fun _ out touches => same (touches.output out).1⟩

theorem BoxStep.keeps_output (h : BoxStep cfg p outputs label p' outputs')
    (r : Refined cfg p.judge held) (wf : sub.WellFormed) (key : sub.submissionInternalId = id)
    (shape : l.Shape sub) (follows : Follows p.judge held id base l) (b : l.Between i j)
    (other : ∀ info ∈ p.actor label, ¬ TakesOutput id i j info) :
    (∀ q, OutputAt id i j q → p'.files q = p.files q) ∧
    outputs' (executeBoxFinalOutput id i j) = outputs (executeBoxFinalOutput id i j) := by
  cases h with
  | quiet => exact ⟨fun _ _ => rfl, rfl⟩
  | launch actor queued hn listed ready =>
    obtain ⟨_, _, _, _, ekey, _, _⟩ := r.listed listed
    obtain ⟨_, apart⟩ := apart_of_active wf key shape follows b r.wired hn (.inl queued) (other _ actor)
    exact ⟨fun q out => setupFiles_outside (ekey ▸ apart q out), rfl⟩
  | skip actor queued hn listed ready done =>
    obtain ⟨_, _, _, _, ekey, _, _⟩ := r.listed listed
    obtain ⟨_, apart⟩ := apart_of_active wf key shape follows b r.wired hn (.inl queued) (other _ actor)
    have ckey := (congrArg Submission.submissionInternalId (setup_frame ready).sub).trans ekey
    exact ⟨fun q out => (finalizeFiles_outside (ckey ▸ apart q out)).trans
      (setupFiles_outside (ekey ▸ apart q out)), rfl⟩
  | result actor handled hn listed done =>
    obtain ⟨_, _, _, _, ekey, _, _⟩ := r.listed listed
    obtain ⟨notMine, apart⟩ := apart_of_active wf key shape follows b r.wired hn
      (.inr (r.wired.mem_held handled)) (other _ actor)
    refine ⟨fun q out => finalizeFiles_outside (ekey ▸ apart q out), ?_⟩
    refine outputsAfter_other fun k m mine same => ?_
    obtain ⟨sid, rfl, -⟩ := executeBoxFinalOutput_inj same
    exact notMine (ekey.symm.trans sid.symm) mine
  | write actor handled hn below =>
    obtain ⟨notMine, apart⟩ := apart_of_active wf key shape follows b r.wired hn
      (.inr (r.wired.mem_held handled)) (other _ actor)
    refine ⟨fun q out => put_outside below fun inside => apart q out (.of_box out inside), ?_⟩
    refine outputsWritten_other fun k m mine same => ?_
    obtain ⟨sid, rfl, -⟩ := executeBoxFinalOutput_inj same
    exact notMine sid.symm mine

end Between

/-- A stage is launched on the output of the stage before, as its checker left it. Until then
no other task moves, overwrites or removes the output. -/
theorem input_handed_over {sub : Submission} {id : Int} {base i j : Nat}
    (h : (notedBoxes cfg).Reach leavesUserOutput (p, outputs))
    (enq : .enqueued id sub base ∈ p.judge.log) (type : sub.specjudgeType ≠ .skip)
    (hi : i < sub.numTds) (hj : j + 1 < sub.numStages) {l : BoxLabel}
    (step : (boxes cfg).step p l = some p') :
    (Launches p.judge p'.judge id (.execute i (j + 1)) → ∃ content,
      p'.files (executeBoxInput id i (j + 1) sub.sandboxStrict) = some (.regular content) ∧
      outputs (executeBoxFinalOutput id i j) = some (.regular content)) ∧
    (AwaitsNext id i j p.judge.log → (∀ info ∈ p.actor l, ¬ TakesOutput id i j info) →
      (∀ q, OutputAt id i j q → p'.files q = p.files q) ∧
      outputsNoted outputs p l p' (executeBoxFinalOutput id i j) =
        outputs (executeBoxFinalOutput id i j)) := by
  obtain ⟨held, h⟩ := handing h
  have step : BoxStep cfg p outputs l p' (outputsNoted outputs p l p') := boxes_cases step
  obtain ⟨wf, key⟩ := h.refined.sound id sub base enq
  obtain ⟨l, reach, follows, handed⟩ := h.lives id sub base enq type
  have shape := Life.shape wf reach
  constructor
  · intro launches
    obtain ⟨n, box, entry, c, rfl, task, queued, hn, listed, ready, files⟩ := step.launches launches
    have call := follows.called shape wf key hn listed
    have lready := follows.ready shape wf h.refined.wired hn queued call.left call.node
    rw [task] at lready ready files
    obtain ⟨input, regular⟩ := Life.launch_input shape lready (call.ctx ▸ ready) (handed i j)
    rw [files, call.ctx, ← key, input]
    exact (isRegularFile_iff.mp regular).imp fun _ same => ⟨same, same⟩
  · intro awaits other
    have b := awaits.between wf follows reach hi hj
    exact step.keeps_output h.refined wf key shape follows b other

/-- A task that runs alone and writes these files. -/
def writeAlone (tid : Nat) (files : List (Path × File)) (o : TaskOutcome) : List BoxLabel :=
  [.step (.dispatch tid 5 .empty)] ++ files.map (fun f => .write 5 f.1 (some f.2)) ++
    [.step .block, .step (.result 5 o)]

/-- Until the first stage is scored. Its output is `a`, and the checker writes these files. -/
def firstStageRun (type : SpecjudgeType) (compiles : List Nat) (files : List (Path × File))
    (o : TaskOutcome) : List BoxLabel :=
  [.step (.push (stagesSubmission type) 0), .step .wake] ++
    compiles.flatMap (fun tid => writeAlone tid [] goodOutcome) ++
    writeAlone 1 [(executeBoxOutput 1 0 0 true, .regular ['a'])] goodOutcome ++
    writeAlone 2 files o

/-- What a run comes to: the second stage is launched, on `input`. -/
structure SecondLaunched (type : SpecjudgeType) (run : List BoxLabel) (input : List Char)
    (p : BoxState) (outputs : Files) (p' : BoxState) : Prop where
  run : (notedBoxes (sampleConfig 1)).exec leavesUserOutput (notedBoxes (sampleConfig 1)).init run =
    some (p, outputs)
  step : (boxes (sampleConfig 1)).step p (.step (.dispatch 3 5 .empty)) = some p'
  enqueued : .enqueued 1 (stagesSubmission type) 0 ∈ p.judge.log
  launches : Launches p.judge p'.judge 1 (.execute 0 1)
  input : p'.files (executeBoxInput 1 0 1 true) = some (.regular input)

theorem secondLaunched (type : SpecjudgeType) (run : List BoxLabel) (input : List Char)
    (see : BoxState → Bool)
    (runs : ((notedBoxes (sampleConfig 1)).exec leavesUserOutput
      (notedBoxes (sampleConfig 1)).init run).bind (fun q =>
        ((boxes (sampleConfig 1)).step q.1 (.step (.dispatch 3 5 .empty))).map fun p' =>
          decide (.enqueued 1 (stagesSubmission type) 0 ∈ q.1.judge.log ∧
            p'.judge.log = q.1.judge.log ++
              [.dispatching 3 1 (.execute 0 1), .launched 3 1 (.execute 0 1) 5] ∧
            p'.files (executeBoxInput 1 0 1 true) = some (.regular input) ∧ see q.1 = true)) =
        some true) :
    ∃ p outputs p', SecondLaunched type run input p outputs p' ∧ see p = true := by
  obtain ⟨⟨p, outputs⟩, hp, rest⟩ := Option.bind_eq_some_iff.mp runs
  obtain ⟨p', hp', seen⟩ := Option.map_eq_some_iff.mp rest
  obtain ⟨enqueued, log, input, seen⟩ := of_decide_eq_true seen
  exact ⟨p, outputs, p', ⟨hp, hp', enqueued, ⟨_, 3, 5, log, by simp⟩, input⟩, seen⟩

/-- The checker has no verdict, and makes the output `b`. -/
def replacedRun : List BoxLabel :=
  firstStageRun .normal [5]
    [(scoringBoxUserOutput 1 0 0, .regular ['b']), (scoringBoxOutput 1 0 0, .regular [])]
    ⟨exited 0, { BoxFiles.empty with output := some [] }⟩

theorem input_handed_over_replaced :
    ∃ p outputs p', SecondLaunched .normal replacedRun ['b'] p outputs p' ∧
      outputs (executeBoxFinalOutput 1 0 0) = some (.regular ['b']) := by
  obtain ⟨p, outputs, p', ran, -⟩ := secondLaunched .normal replacedRun ['b'] (fun _ => true)
    (by decide +kernel)
  obtain ⟨content, input, noted⟩ := (input_handed_over (reach_exec ran.run) ran.enqueued (by decide)
    (by decide) (by decide) ran.step).1 ran.launches
  obtain rfl : content = ['b'] := by
    simpa using input.symm.trans ran.input
  exact ⟨p, outputs, p', ran, noted⟩

def overrideText : List Char := "SPECJUDGE_OVERRIDE_VERDICT NONE".toList

/-- The checker rejects, leaves a `nextpass.in` with `n`, and takes its verdict back. -/
def overriddenRun : List BoxLabel :=
  firstStageRun .specjudgeKattis [5, 6]
    [(scoringBoxOutput 1 0 0, .regular []), (judgeDirFile 1 0 0 "nextpass.in", .regular ['n']),
      (judgeDirFile 1 0 0 "judgemessage.txt", .regular overrideText)]
    ⟨exited 43,
      { BoxFiles.empty with output := some [], nextpass := true, judgemessage := some overrideText }⟩

/-- The next stage runs on the old output, and not on what is in `nextpass.in`. -/
theorem input_not_nextpass :
    ∃ p outputs p', SecondLaunched .specjudgeKattis overriddenRun ['a'] p outputs p' ∧
      p.files (judgeDirFile 1 0 0 "nextpass.in") = some (.regular ['n']) := by
  obtain ⟨p, outputs, p', ran, seen⟩ := secondLaunched .specjudgeKattis overriddenRun ['a']
    (fun p => p.files (judgeDirFile 1 0 0 "nextpass.in") == some (.regular ['n'])) (by decide +kernel)
  exact ⟨p, outputs, p', ran, by simpa using seen⟩

end TiojJudge.Judge
