import TiojJudge.Judge.Effects

/-!
# What a step of the scheduler can do

`Step cfg s l t` lists the steps once, with what each of them looked up and
what its setup and finalizer returned; `step_cases` takes a step of `judge`
apart. The invariants go through these cases and do not unfold `perform`.
-/

namespace TiojJudge.Judge
open TaskGraph

inductive Step (cfg : Config) (s : State) : Label → State → Prop where
  | refused {sub maxQueue} : s.phase ≠ .working → Step cfg s (.push sub maxQueue) s
  | push {sub maxQueue id} : s.phase ≠ .working → sub.clamp.probStageExists = true →
      id = Numerals.toInt32 sub.submissionInternalId →
      Step cfg s (.push sub maxQueue) ((s.enqueue id sub.clamp).supersede sub.submissionId id)
  | wake : s.phase = .waiting → s.graph.queue ≠ [] →
      Step cfg s .wake { s with phase := .working, taskRunning := 0 }
  | launch {n handle files entry c} : Enabled cfg s (.dispatch n.id handle files) →
      s.graph.find n.id = some n →
      s.submissionList.lookup n.data.submissionInternalId = some entry →
      setup cfg (s.ctx entry) files n.data.task = .ok (true, c) →
      Step cfg s (.dispatch n.id handle files) ((s.start n c).launch n.id n.data handle)
  | skip {n handle files entry c c'} : Enabled cfg s (.dispatch n.id handle files) →
      s.graph.find n.id = some n →
      s.submissionList.lookup n.data.submissionInternalId = some entry →
      setup cfg (s.ctx entry) files n.data.task = .ok (false, c) →
      finalize cfg { c with log := [] } (s.start n c).queueSize n.data.task none = .ok c' →
      Step cfg s (.dispatch n.id handle files) ((s.start n c).settle n none c')
  | block : Enabled cfg s .block → Step cfg s .block { s with phase := .blocked }
  | result {n handle o entry c} : Enabled cfg s (.result handle o) →
      s.handleMap.lookup handle = some n.id → s.graph.find n.id = some n →
      s.submissionList.lookup n.data.submissionInternalId = some entry →
      finalize cfg (s.ctx entry) s.queueSize n.data.task (some o) = .ok c →
      Step cfg s (.result handle o) ((s.returned handle).settle n (some o) c).resume
  | exit : Enabled cfg s .exit →
      Step cfg s .exit { s with phase := if cfg.loop then .waiting else .returned }

variable {cfg : Config} {s t : State}

theorem judge_step {l : Label} :
    (judge cfg).step s l = some t ↔ Enabled cfg s l ∧ perform cfg s l = .ok t := by
  simp only [judge]
  split
  · rename_i enabled
    cases h : perform cfg s l <;> simp [Except.toOption, enabled]
  · rename_i disabled
    simp [disabled]

/-! ## The fields after each part of a step -/

section Fields

variable (s : State) (n : Node TaskInfo) (outcome : Option TaskOutcome) (c : Ctx)

@[simp] theorem settle_graph : (s.settle n outcome c).graph = s.graph.remove n := by
  unfold State.settle
  split <;> rfl

@[simp] theorem settle_handleMap : (s.settle n outcome c).handleMap = s.handleMap := by
  unfold State.settle
  split <;> rfl

@[simp] theorem settle_running : (s.settle n outcome c).running = s.running := by
  unfold State.settle
  split <;> rfl

@[simp] theorem settle_taskCount : (s.settle n outcome c).taskCount = s.taskCount := by
  unfold State.settle
  split <;> rfl

@[simp] theorem settle_taskRunning : (s.settle n outcome c).taskRunning = s.taskRunning := by
  unfold State.settle
  split <;> rfl

@[simp] theorem settle_phase : (s.settle n outcome c).phase = s.phase := by
  unfold State.settle
  split <;> rfl

@[simp] theorem settle_log : (s.settle n outcome c).log =
    s.log ++ [.finalizing n.id n.data.submissionInternalId n.data.task outcome] ++ c.log := by
  unfold State.settle
  split <;> rfl

@[simp] theorem start_graph : (s.start n c).graph = s.graph.pop n.id := rfl

@[simp] theorem start_handleMap : (s.start n c).handleMap = s.handleMap := rfl

@[simp] theorem start_taskCount : (s.start n c).taskCount = s.taskCount := rfl

@[simp] theorem start_running : (s.start n c).running = s.running := rfl

@[simp] theorem start_taskRunning : (s.start n c).taskRunning = s.taskRunning := rfl

@[simp] theorem start_phase : (s.start n c).phase = s.phase := rfl

@[simp] theorem start_log : (s.start n c).log =
    s.log ++ [.dispatching n.id n.data.submissionInternalId n.data.task] ++ c.log := rfl

@[simp] theorem returned_graph (handle : Int) : (s.returned handle).graph = s.graph := rfl

@[simp] theorem returned_handleMap (handle : Int) :
    (s.returned handle).handleMap = s.handleMap.erase handle := rfl

@[simp] theorem supersede_graph (submissionId id : Int) :
    (s.supersede submissionId id).graph = s.graph := rfl

@[simp] theorem supersede_taskCount (submissionId id : Int) :
    (s.supersede submissionId id).taskCount = s.taskCount := rfl

@[simp] theorem supersede_log (submissionId id : Int) :
    (s.supersede submissionId id).log =
      s.log ++ (s.submissionIdMap.lookup submissionId).toList.map .superseded := rfl

@[simp] theorem enqueue_taskCount (id : Int) (sub : Submission) :
    (s.enqueue id sub).taskCount = s.taskCount + sub.planTasks.length := rfl

@[simp] theorem enqueue_log (id : Int) (sub : Submission) :
    (s.enqueue id sub).log = s.log ++ [.enqueued id sub s.taskCount] := rfl

@[simp] theorem launch_log (info : TaskInfo) (handle : Int) (tid : Nat) :
    (s.launch tid info handle).log =
      s.log ++ [.launched tid info.submissionInternalId info.task handle] := rfl

@[simp] theorem returned_log (handle : Int) : (s.returned handle).log = s.log := rfl

@[simp] theorem resume_log : s.resume.log = s.log := rfl

@[simp] theorem resume_graph : s.resume.graph = s.graph := rfl

@[simp] theorem resume_handleMap : s.resume.handleMap = s.handleMap := rfl

end Fields

theorem start_lookup (s : State) (n : Node TaskInfo) (c : Ctx) :
    (s.start n c).submissionList.lookup n.data.submissionInternalId = some ⟨c.sub, c.result⟩ := by
  simp [State.start, State.putCtx]

/-- What was written is read back. -/
theorem start_ctx (s : State) (n : Node TaskInfo) (c : Ctx) :
    (s.start n c).ctx ⟨c.sub, c.result⟩ = { c with log := [] } := by
  have cancelled : decide (c.sub.submissionInternalId ∈ (s.start n c).cancelledList) =
      c.cancelled := by
    cases h : c.cancelled <;> simp [State.start, State.putCtx, h]
  have groups : (s.start n c).cancelledGroup.lookup c.sub.submissionInternalId =
      c.cancelledGroup := by
    cases h : c.cancelledGroup <;> simp [State.start, State.putCtx, h]
  simp only [State.ctx, cancelled, groups]

theorem finalizeTask_ok {tid : Nat} {outcome : Option TaskOutcome}
    (h : s.finalizeTask cfg tid outcome = .ok t) :
    ∃ n entry c, s.graph.find tid = some n ∧
      s.submissionList.lookup n.data.submissionInternalId = some entry ∧
      finalize cfg (s.ctx entry) s.queueSize n.data.task outcome = .ok c ∧
      t = s.settle n outcome c := by
  unfold State.finalizeTask at h
  split at h
  · cases h
  · rename_i n found
    split at h
    · cases h
    · rename_i entry listed
      cases done : finalize cfg (s.ctx entry) s.queueSize n.data.task outcome with
      | error => simp [done, Except.map] at h
      | ok c =>
        simp only [done, Except.map, Except.ok.injEq] at h
        exact ⟨n, entry, c, found, listed, done, h.symm⟩

theorem dispatch_cases {tid : Nat} {handle : Int} {files : BoxFiles}
    (enabled : Enabled cfg s (.dispatch tid handle files))
    (h : s.dispatchTask cfg tid handle files = .ok t) :
    Step cfg s (.dispatch tid handle files) t := by
  unfold State.dispatchTask at h
  split at h
  · cases h
  · rename_i n found
    obtain ⟨_, rfl⟩ := Graph.find_mem found
    split at h
    · cases h
    · rename_i entry listed
      split at h
      · cases h
      · rename_i c ready
        cases h
        exact .launch enabled found listed ready
      · rename_i c skipped
        obtain ⟨m, entry', c', found', listed', done, rfl⟩ := finalizeTask_ok h
        obtain rfl : n = m := Option.some.inj (found.symm.trans found')
        obtain rfl : ⟨c.sub, c.result⟩ = entry' :=
          Option.some.inj ((start_lookup s n c).symm.trans listed')
        rw [start_ctx] at done
        exact .skip enabled found listed skipped done

theorem result_cases {handle : Int} {o : TaskOutcome} (enabled : Enabled cfg s (.result handle o))
    (h : s.resultTask cfg handle o = .ok t) : Step cfg s (.result handle o) t := by
  unfold State.resultTask at h
  split at h
  · cases h
  · rename_i tid held
    cases finalized : (s.returned handle).finalizeTask cfg tid (some o) with
    | error => simp [finalized, Except.map] at h
    | ok u =>
      simp only [finalized, Except.map, Except.ok.injEq] at h
      subst h
      obtain ⟨n, entry, c, found, listed, done, rfl⟩ := finalizeTask_ok finalized
      obtain ⟨_, rfl⟩ := Graph.find_mem found
      exact .result enabled held found listed done

theorem step_cases {l : Label} (h : (judge cfg).step s l = some t) : Step cfg s l t := by
  obtain ⟨enabled, h⟩ := judge_step.mp h
  cases l with
  | push sub maxQueue =>
    simp only [perform, State.pushSubmission] at h
    split at h
    · cases h
      exact .refused enabled
    · split at h
      · rename_i exist
        cases h
        exact .push enabled exist rfl
      · cases h
  | wake =>
    cases h
    exact .wake enabled.1 enabled.2
  | dispatch tid handle files => exact dispatch_cases enabled h
  | block =>
    cases h
    exact .block enabled
  | result handle o => exact result_cases enabled h
  | exit =>
    cases h
    exact .exit enabled

/-! ## The log -/

/-- Counting events of the scheduler passes over reports. -/
theorem Reports.countP {id : Int} {es : List Event} (h : Reports id es) {p : Event → Bool}
    (hp : ∀ e, e.source.isSome = true → p e = false) : es.countP p = 0 := by
  refine List.countP_eq_zero.mpr fun e he => ?_
  obtain ⟨sub, source, _⟩ := h e he
  simp [hp e (by simp [source])]

/-- The task was dispatched. -/
def Dispatched (tid : Nat) (log : List Event) : Prop := ∃ id task, .dispatching tid id task ∈ log

theorem Reports.not_dispatched {id : Int} {es : List Event} (h : Reports id es) (tid : Nat) :
    ¬ Dispatched tid es := by
  rintro ⟨id', task, he⟩
  obtain ⟨_, source, _⟩ := h _ he
  cases source

section Cons

variable (tid k : Nat) (id : Int) (task : Task) (log log' : List Event)

@[simp] theorem dispatched_nil : ¬ Dispatched tid [] := by
  rintro ⟨_, _, h⟩
  cases h

@[simp] theorem dispatched_append :
    Dispatched tid (log ++ log') ↔ Dispatched tid log ∨ Dispatched tid log' := by
  simp only [Dispatched, List.mem_append, exists_or]

@[simp] theorem dispatched_dispatching :
    Dispatched tid (.dispatching k id task :: log) ↔ tid = k ∨ Dispatched tid log := by
  constructor
  · rintro ⟨id', task', h⟩
    rcases List.mem_cons.mp h with h | h
    · cases h
      exact .inl rfl
    · exact .inr ⟨id', task', h⟩
  · rintro (rfl | ⟨id', task', h⟩)
    · exact ⟨id, task, List.mem_cons_self⟩
    · exact ⟨id', task', List.mem_cons_of_mem _ h⟩

@[simp] theorem dispatched_finalizing (outcome : Option TaskOutcome) :
    Dispatched tid (.finalizing k id task outcome :: log) ↔ Dispatched tid log := by
  simp [Dispatched]

@[simp] theorem dispatched_launched (handle : Int) :
    Dispatched tid (.launched k id task handle :: log) ↔ Dispatched tid log := by
  simp [Dispatched]

@[simp] theorem dispatched_enqueued (sub : Submission) (first : Nat) :
    Dispatched tid (.enqueued id sub first :: log) ↔ Dispatched tid log := by
  simp [Dispatched]

@[simp] theorem dispatched_superseded (older : Option Int) :
    ¬ Dispatched tid (older.toList.map .superseded) := by
  simp [Dispatched]

end Cons

def Event.finalizes (tid : Nat) : Event → Bool
  | .finalizing k .. => k == tid
  | _ => false

/-- How often the task was finalized. -/
def finalizations (tid : Nat) (log : List Event) : Nat := log.countP (Event.finalizes tid)

@[simp] theorem finalizations_append (tid : Nat) (log log' : List Event) :
    finalizations tid (log ++ log') = finalizations tid log + finalizations tid log' :=
  List.countP_append

@[simp] theorem finalizations_nil (tid : Nat) : finalizations tid [] = 0 := rfl

section Cons

variable (tid k : Nat) (id : Int) (task : Task) (log : List Event)

@[simp] theorem finalizations_finalizing (outcome : Option TaskOutcome) :
    finalizations tid (.finalizing k id task outcome :: log) =
      finalizations tid log + if tid = k then 1 else 0 := by
  by_cases same : tid = k
  · simp [finalizations, Event.finalizes, same]
  · simp [finalizations, Event.finalizes, same, Ne.symm same]

@[simp] theorem finalizations_dispatching :
    finalizations tid (.dispatching k id task :: log) = finalizations tid log := by
  simp [finalizations, Event.finalizes]

@[simp] theorem finalizations_launched (handle : Int) :
    finalizations tid (.launched k id task handle :: log) = finalizations tid log := by
  simp [finalizations, Event.finalizes]

@[simp] theorem finalizations_enqueued (sub : Submission) (first : Nat) :
    finalizations tid (.enqueued id sub first :: log) = finalizations tid log := by
  simp [finalizations, Event.finalizes]

@[simp] theorem finalizations_superseded (older : Option Int) :
    finalizations tid (older.toList.map .superseded) = 0 := by
  cases older <;> simp [finalizations, Event.finalizes]

end Cons

theorem Reports.finalizations {id : Int} {es : List Event} (h : Reports id es) (tid : Nat) :
    finalizations tid es = 0 :=
  h.countP fun e => by cases e <;> simp [Event.source, Event.finalizes]

end TiojJudge.Judge
