import Mathlib.Data.Finset.Image
import TiojJudge.History
import TiojJudge.Judge.Effects

/-!
# The life of one submission

What the scheduler is for, seen from one submission: a planned task runs once
those before it are finalized, or is skipped, and other submissions can do
nothing but cancel it. `Life.Step` is this machine, with the setups and
finalizers of the scheduler.

* `Shape`: what is left to do is closed under the links of the plan;
* `finalized_in_log`: every task that is not left was finalized;
* `compiled`: while no verdict is set, compile tasks succeeded, or were skipped
  because the submission is cancelled.
-/

namespace TiojJudge.Judge

structure Life where
  /-- With all events of the submission so far. -/
  ctx : Ctx
  /-- The tasks that are not finalized. -/
  todo : Finset Task
  running : Finset Task

/-- What a setup or finalizer is called on. -/
def Ctx.cleared (c : Ctx) : Ctx := { c with log := [] }

def Ctx.withLog (c : Ctx) (log : List Event) : Ctx := { c with log := log }

namespace Life

def start (id : Int) (base : Nat) (sub : Submission) : Life where
  ctx := ⟨sub, .new, false, none, [.enqueued id sub base]⟩
  todo := sub.planTasks.toFinset
  running := ∅

/-- On top of the queue, at the earliest when all tasks before it are finalized. -/
def Ready (l : Life) (t : Task) : Prop :=
  t ∈ l.todo ∧ t ∉ l.running ∧ ∀ a, l.ctx.sub.Linked a t → a ∉ l.todo

/-- The task was dispatched, and its setup left `c`. -/
def started (l : Life) (id : Int) (base : Nat) (t : Task) (c : Ctx) : Life where
  ctx := c.withLog (l.ctx.log ++ [.dispatching (l.ctx.sub.taskId base t) id t] ++ c.log)
  todo := l.todo
  running := insert t l.running

def launched (l : Life) (id : Int) (base : Nat) (t : Task) (handle : Int) : Life :=
  let log := l.ctx.log ++ [.launched (l.ctx.sub.taskId base t) id t handle]
  { l with ctx := l.ctx.withLog log }

/-- The task is finalized, and its finalizer left `c`. -/
def settled (l : Life) (id : Int) (base : Nat) (t : Task) (outcome : Option TaskOutcome)
    (c : Ctx) : Life where
  ctx := c.withLog (l.ctx.log ++ [.finalizing (l.ctx.sub.taskId base t) id t outcome] ++ c.log)
  todo := l.todo.erase t
  running := l.running.erase t

def cancel (l : Life) (id : Int) : Life :=
  { l with ctx := { l.ctx with cancelled := true, log := l.ctx.log ++ [.superseded id] } }

inductive Step (cfg : Config) (id : Int) (base : Nat) (l : Life) : Life → Prop where
  | launch {t handle files c} : l.Ready t → setup cfg l.ctx.cleared files t = .ok (true, c) →
      Step cfg id base l ((l.started id base t c).launched id base t handle)
  | skip {t files listSize c c'} : l.Ready t → setup cfg l.ctx.cleared files t = .ok (false, c) →
      finalize cfg c.cleared listSize t none = .ok c' →
      Step cfg id base l ((l.started id base t c).settled id base t none c')
  | finish {t o listSize c} : t ∈ l.running →
      finalize cfg l.ctx.cleared listSize t (some o) = .ok c →
      Step cfg id base l (l.settled id base t (some o) c)
  | cancel : Step cfg id base l (l.cancel id)

inductive Reachable (cfg : Config) (id : Int) (base : Nat) (sub : Submission) : Life → Prop where
  | start : Reachable cfg id base sub (start id base sub)
  | next {l l'} : Reachable cfg id base sub l → Step cfg id base l l' →
      Reachable cfg id base sub l'

variable {cfg : Config} {id : Int} {base : Nat} {sub : Submission} {l l' : Life}

/-! ## What is left to do -/

structure Shape (sub : Submission) (l : Life) : Prop where
  same : l.ctx.sub = sub
  planned : ∀ t ∈ l.todo, sub.Planned t
  running : l.running ⊆ l.todo
  after : ∀ a b, sub.Linked a b → a ∈ l.todo → b ∈ l.todo ∧ b ∉ l.running

theorem Shape.start (wf : sub.WellFormed) : Shape sub (start id base sub) where
  same := rfl
  planned := fun t ht => Submission.mem_planTasks.mp (List.mem_toFinset.mp ht)
  running := by simp [Life.start]
  after := fun a b link _ => by
    simp [Life.start, Submission.mem_planTasks.mpr (link.target wf)]

theorem Shape.started {t : Task} {c : Ctx} (s : Shape sub l) (ready : l.Ready t)
    (same : c.sub = l.ctx.sub) : Shape sub (l.started id base t c) := by
  obtain ⟨here, idle, before⟩ := ready
  rw [s.same] at before
  refine ⟨same.trans s.same, s.planned, Finset.insert_subset here s.running,
    fun a b link ha => ⟨(s.after a b link ha).1, ?_⟩⟩
  rw [Life.started, Finset.mem_insert, not_or]
  refine ⟨?_, (s.after a b link ha).2⟩
  rintro rfl
  exact before a link ha

theorem Shape.settled {t : Task} {c : Ctx} {outcome : Option TaskOutcome} (s : Shape sub l)
    (running : t ∈ l.running) (same : c.sub = l.ctx.sub) :
    Shape sub (l.settled id base t outcome c) := by
  refine ⟨same.trans s.same, fun t ht => s.planned t (Finset.mem_of_mem_erase ht),
    Finset.erase_subset_erase _ s.running, fun a b link ha => ?_⟩
  have later := s.after a b link (Finset.mem_of_mem_erase ha)
  refine ⟨Finset.mem_erase.mpr ⟨?_, later.1⟩, fun h => later.2 (Finset.mem_of_mem_erase h)⟩
  rintro rfl
  exact later.2 running

theorem Shape.step (s : Shape sub l) (h : Step cfg id base l l') : Shape sub l' := by
  cases h with
  | launch ready setup =>
    have started : Shape sub (l.started id base _ _) := s.started ready (setup_frame setup).sub
    exact ⟨started.same, started.planned, started.running, started.after⟩
  | skip ready setup done =>
    exact (s.started ready (setup_frame setup).sub).settled (Finset.mem_insert_self _ _)
      (finalize_frame done).sub
  | finish running done => exact s.settled running (finalize_frame done).sub
  | cancel => exact ⟨s.same, s.planned, s.running, s.after⟩

theorem shape (wf : sub.WellFormed) (h : Reachable cfg id base sub l) : Shape sub l := by
  induction h with
  | start => exact .start wf
  | next _ step ih => exact ih.step step

/-- What comes after an unfinished task is unfinished and does not run. -/
theorem Shape.leads {a b : Task} (s : Shape sub l) (h : sub.Leads a b) (ha : a ∈ l.todo) :
    b ∈ l.todo ∧ (b ≠ a → b ∉ l.running) := by
  induction h with
  | refl => exact ⟨ha, fun h => absurd rfl h⟩
  | tail _ link ih => exact ⟨(s.after _ _ link ih.1).1, fun _ => (s.after _ _ link ih.1).2⟩

/-- What comes before a task that is ready is finalized. -/
theorem Shape.before_ready {a b : Task} (s : Shape sub l) (h : sub.Leads a b) (ready : l.Ready b)
    (other : a ≠ b) : a ∉ l.todo := by
  rcases Relation.ReflTransGen.cases_tail h with same | ⟨c, leads, link⟩
  · exact absurd same.symm other
  · intro ha
    exact ready.2.2 c (s.same ▸ link) (s.leads leads ha).1

/-- What comes before a running task is finalized. -/
theorem Shape.before_running {a b : Task} (s : Shape sub l) (h : sub.Leads a b)
    (running : b ∈ l.running) (other : a ≠ b) : a ∉ l.todo :=
  fun ha => (s.leads h ha).2 (Ne.symm other) running

theorem Shape.summary_left (wf : sub.WellFormed) (s : Shape sub l) {t : Task} (h : t ∈ l.todo) :
    .summary ∈ l.todo :=
  (s.leads (Submission.leads_summary wf (s.planned t h)) h).1

/-! ## The log -/

/-- Everything before a step stays in the log. -/
theorem Step.log (h : Step cfg id base l l') : ∃ new, l'.ctx.log = l.ctx.log ++ new := by
  cases h with
  | launch => exact ⟨_, by simp only [launched, started, Ctx.withLog, List.append_assoc]; rfl⟩
  | skip => exact ⟨_, by simp only [settled, started, Ctx.withLog, List.append_assoc]; rfl⟩
  | finish => exact ⟨_, by simp only [settled, Ctx.withLog, List.append_assoc]; rfl⟩
  | cancel => exact ⟨_, rfl⟩

/-- Reports name the submission. -/
theorem reported_sub (wf : sub.WellFormed) (h : Reachable cfg id base sub l) {e : Event}
    {sub' : Submission} (he : e ∈ l.ctx.log) (source : e.source = some sub') : sub' = sub := by
  have same {c c' : Ctx} (frame : c.Frame c') (empty : c.log = []) (here : c.sub = sub)
      (he : e ∈ c'.log) : sub' = sub :=
    (Option.some.inj (source.symm.trans (frame.source empty e he))).trans here
  induction h with
  | start =>
    obtain rfl := List.mem_singleton.mp he
    cases source
  | @next l l' reach step ih =>
    have here : l.ctx.cleared.sub = sub := (shape wf reach).same
    cases step with
    | launch _ setup =>
      simp only [launched, started, Ctx.withLog, List.mem_append, List.mem_singleton] at he
      rcases he with ((old | rfl) | he) | rfl
      · exact ih old
      · cases source
      · exact same (setup_frame setup) rfl here he
      · cases source
    | skip _ setup done =>
      simp only [settled, started, Ctx.withLog, List.mem_append, List.mem_singleton] at he
      rcases he with (((old | rfl) | he) | rfl) | he
      · exact ih old
      · cases source
      · exact same (setup_frame setup) rfl here he
      · cases source
      · exact same (finalize_frame done) rfl ((setup_frame setup).sub.trans here) he
    | finish _ done =>
      simp only [settled, Ctx.withLog, List.mem_append, List.mem_singleton] at he
      rcases he with (old | rfl) | he
      · exact ih old
      · cases source
      · exact same (finalize_frame done) rfl here he
    | cancel =>
      simp only [Life.cancel, List.mem_append, List.mem_singleton] at he
      rcases he with old | rfl
      · exact ih old
      · cases source

/-- The log has the end of the task. -/
def Ended (id : Int) (t : Task) (outcome : Option TaskOutcome) (log : List Event) : Prop :=
  ∃ tid, .finalizing tid id t outcome ∈ log

/-- The task was finalized, after it ran or without. -/
def Over (id : Int) (t : Task) (log : List Event) : Prop := ∃ outcome, Ended id t outcome log

/-- The compile task ended with success. -/
def Succeeded (id : Int) (subtask : CompileSubtask) (log : List Event) : Prop :=
  ∃ o, Ended id (.compile subtask) (some o) log ∧ compileFails o = false

theorem Ended.append {t : Task} {outcome : Option TaskOutcome} {log new : List Event}
    (h : Ended id t outcome log) : Ended id t outcome (log ++ new) := by
  obtain ⟨tid, h⟩ := h
  exact ⟨tid, List.mem_append_left _ h⟩

theorem not_ended_of_reports {t : Task} {outcome : Option TaskOutcome} {i : Int} {es : List Event}
    (h : Reports i es) : ¬ Ended id t outcome es := by
  rintro ⟨tid, he⟩
  obtain ⟨_, source, _⟩ := h _ he
  cases source

@[simp] theorem ended_append {t : Task} {outcome : Option TaskOutcome} {log new : List Event} :
    Ended id t outcome (log ++ new) ↔ Ended id t outcome log ∨ Ended id t outcome new := by
  simp only [Ended, List.mem_append, exists_or]

section Cons

variable {t t' : Task} {outcome outcome' : Option TaskOutcome} {tid : Nat} {log : List Event}

@[simp] theorem ended_nil : ¬ Ended id t outcome [] := by
  simp [Ended]

@[simp] theorem ended_finalizing :
    Ended id t outcome (.finalizing tid id t' outcome' :: log) ↔
      (t = t' ∧ outcome = outcome') ∨ Ended id t outcome log := by
  simp [Ended, exists_or]

@[simp] theorem ended_dispatching :
    Ended id t outcome (.dispatching tid id t' :: log) ↔ Ended id t outcome log := by
  simp [Ended]

@[simp] theorem ended_superseded : ¬ Ended id t outcome [.superseded id] := by
  simp [Ended]

@[simp] theorem ended_launched {handle : Int} :
    Ended id t outcome (.launched tid id t' handle :: log) ↔ Ended id t outcome log := by
  simp [Ended]

end Cons

/-- A step ends one task, or none. -/
theorem Step.ends (h : Step cfg id base l l') (running : l.running ⊆ l.todo) :
    (l'.todo = l.todo ∧
      ∀ t outcome, Ended id t outcome l'.ctx.log ↔ Ended id t outcome l.ctx.log) ∨
    ∃ t ∈ l.todo, ∃ outcome, l'.todo = l.todo.erase t ∧ ∀ t' outcome',
      Ended id t' outcome' l'.ctx.log ↔
        Ended id t' outcome' l.ctx.log ∨ t' = t ∧ outcome' = outcome := by
  cases h with
  | launch _ setup =>
    refine .inl ⟨rfl, fun t outcome => ?_⟩
    have reports : ¬ Ended id t outcome _ := not_ended_of_reports (setup_reports rfl setup).2
    simp [launched, started, Ctx.withLog, reports]
  | @skip t _ _ _ _ ready setup done =>
    refine .inr ⟨t, ready.1, none, rfl, fun t' outcome' => ?_⟩
    have before : ¬ Ended id t' outcome' _ := not_ended_of_reports (setup_reports rfl setup).2
    have after : ¬ Ended id t' outcome' _ := not_ended_of_reports (finalize_reports rfl done).2
    simp [settled, started, Ctx.withLog, before, after]
  | @finish t o _ _ here done =>
    refine .inr ⟨t, running here, some o, rfl, fun t' outcome' => ?_⟩
    have after : ¬ Ended id t' outcome' _ := not_ended_of_reports (finalize_reports rfl done).2
    simp [settled, Ctx.withLog, after]
  | cancel => exact .inl ⟨rfl, fun t outcome => by simp [Life.cancel]⟩

theorem Step.todo_subset (h : Step cfg id base l l') (shape : Shape sub l) : l'.todo ⊆ l.todo := by
  rcases h.ends shape.running with ⟨todo, _⟩ | ⟨_, _, _, todo, _⟩
  · exact todo.subset
  · exact todo ▸ Finset.erase_subset _ _

/-- A task that is left and does not run was so before. -/
theorem Step.idle {t : Task} (h : Step cfg id base l l') (left : t ∈ l'.todo)
    (idle : t ∉ l'.running) : t ∈ l.todo ∧ t ∉ l.running := by
  cases h with
  | launch => exact ⟨left, fun running => idle (Finset.mem_insert_of_mem running)⟩
  | skip | finish =>
    obtain ⟨other, left⟩ := Finset.mem_erase.mp left
    refine ⟨left, fun running => idle (Finset.mem_erase.mpr ⟨other, ?_⟩)⟩
    first | exact Finset.mem_insert_of_mem running | exact running
  | cancel => exact ⟨left, idle⟩

/-- The log has an end for exactly those planned tasks that are not left. -/
theorem finalized_in_log (wf : sub.WellFormed) (h : Reachable cfg id base sub l) {t : Task}
    (planned : sub.Planned t) : t ∉ l.todo ↔ ∃ outcome, Ended id t outcome l.ctx.log := by
  induction h with
  | start => simp [Life.start, Submission.mem_planTasks.mpr planned, Ended]
  | next reach step ih =>
    rcases step.ends (shape wf reach).running with ⟨todo, ended⟩ | ⟨t', here, outcome, todo, ended⟩
    · simp only [todo, ended, ih]
    · simp only [todo, Finset.mem_erase, ended, exists_or, ← ih]
      by_cases same : t = t'
      · simp [same]
      · simp [same]

/-- A task ends once. -/
theorem ended_once (wf : sub.WellFormed) (h : Reachable cfg id base sub l) {t : Task}
    {outcome outcome' : Option TaskOutcome}
    (one : Ended id t outcome l.ctx.log) (two : Ended id t outcome' l.ctx.log) :
    outcome = outcome' := by
  induction h with
  | start => simp [Life.start, Ended] at one
  | next reach step ih =>
    rcases step.ends (shape wf reach).running with ⟨_, ended⟩ | ⟨t', here, _, _, ended⟩
    · exact ih ((ended _ _).mp one) ((ended _ _).mp two)
    · have left {o : Option TaskOutcome} (old : Ended id t' o _) : False :=
        (finalized_in_log wf reach ((shape wf reach).planned t' here)).mpr ⟨o, old⟩ here
      rcases (ended _ _).mp one with old | ⟨rfl, rfl⟩ <;>
        rcases (ended _ _).mp two with old' | ⟨same, rfl⟩
      · exact ih old old'
      · exact (left (same ▸ old)).elim
      · exact (left old').elim
      · rfl

/-- The step that ends a task, with the context its finalizer is called on. -/
theorem Step.ended {t : Task} {outcome : Option TaskOutcome} (h : Step cfg id base l l')
    (ended : Ended id t outcome l'.ctx.log) :
    Ended id t outcome l.ctx.log ∨
    (outcome = none ∧ l.Ready t ∧ ∃ files c, setup cfg l.ctx.cleared files t = .ok (false, c)) ∨
    ∃ o listSize c, outcome = some o ∧ t ∈ l.running ∧
      finalize cfg l.ctx.cleared listSize t (some o) = .ok c ∧ l'.ctx.result = c.result := by
  cases h with
  | launch _ setup =>
    have reports : ¬ Ended id t outcome _ := not_ended_of_reports
      (setup_reports rfl setup).2
    exact .inl (by simpa [launched, started, Ctx.withLog, reports] using ended)
  | skip ready setup done =>
    have before : ¬ Ended id t outcome _ := not_ended_of_reports
      (setup_reports rfl setup).2
    have after : ¬ Ended id t outcome _ := not_ended_of_reports
      (finalize_reports rfl done).2
    simp only [settled, started, Ctx.withLog, ended_append, ended_dispatching, ended_finalizing,
      before, after, ended_nil, or_false] at ended
    rcases ended with old | ⟨rfl, rfl⟩
    · exact .inl old
    · exact .inr (.inl ⟨rfl, ready, _, _, setup⟩)
  | finish running done =>
    have after : ¬ Ended id t outcome _ := not_ended_of_reports
      (finalize_reports rfl done).2
    simp only [settled, Ctx.withLog, ended_append, ended_finalizing, after, ended_nil,
      or_false] at ended
    rcases ended with old | ⟨rfl, rfl⟩
    · exact .inl old
    · exact .inr (.inr ⟨_, _, _, rfl, running, done, rfl⟩)
  | cancel => exact .inl (by simpa [Life.cancel] using ended)

/-- What a step does to the verdict and the ends of compile tasks, before the summary. -/
theorem Step.compiles (h : Step cfg id base l l') (left : .summary ∈ l'.todo)
    (idle : .summary ∉ l'.running) :
    (l'.ctx.result.verdict = l.ctx.result.verdict ∧ ∀ subtask o,
      Ended id (.compile subtask) (some o) l'.ctx.log ↔
        Ended id (.compile subtask) (some o) l.ctx.log) ∨
    ∃ subtask o, l'.ctx.result.verdict = compileVerdict subtask o l.ctx.result.verdict ∧
      ∀ subtask' o', Ended id (.compile subtask') (some o') l'.ctx.log ↔
        Ended id (.compile subtask') (some o') l.ctx.log ∨ subtask' = subtask ∧ o' = o := by
  cases h with
  | @launch t _ _ c _ setup =>
    have other : t ≠ .summary := fun same => idle (by simp [launched, started, same])
    have verdict : c.result.verdict = l.ctx.cleared.result.verdict := setup_verdict other setup
    refine .inl ⟨verdict, fun subtask o => ?_⟩
    have reports : ¬ Ended id (.compile subtask) (some o) _ :=
      not_ended_of_reports (setup_reports rfl setup).2
    simp [launched, started, Ctx.withLog, reports]
  | @skip t _ _ c c' _ setup done =>
    have other : t ≠ .summary := fun same => (Finset.mem_erase.mp left).1 same.symm
    have verdict : c.result.verdict = l.ctx.cleared.result.verdict := setup_verdict other setup
    have verdict' : c'.result.verdict = c.cleared.result.verdict := by
      simpa using finalize_verdict other done
    refine .inl ⟨verdict'.trans verdict, fun subtask o => ?_⟩
    · have before : ¬ Ended id (.compile subtask) (some o) _ :=
        not_ended_of_reports (setup_reports rfl setup).2
      have after : ¬ Ended id (.compile subtask) (some o) _ :=
        not_ended_of_reports (finalize_reports rfl done).2
      simp [settled, started, Ctx.withLog, before, after]
  | @finish t o _ c _ done =>
    have other : t ≠ .summary := fun same => (Finset.mem_erase.mp left).1 same.symm
    have after (subtask : CompileSubtask) (o : TaskOutcome) :
        ¬ Ended id (.compile subtask) (some o) c.log :=
      not_ended_of_reports (finalize_reports rfl done).2
    have verdict := finalize_verdict other done
    cases t with
    | compile subtask =>
      exact .inr ⟨subtask, o, verdict, fun subtask' o' => by simp [settled, Ctx.withLog, after]⟩
    | execute | scoring =>
      exact .inl ⟨verdict, fun subtask' o' => by simp [settled, Ctx.withLog, after]⟩
    | summary => exact absurd rfl other
  | cancel => exact .inl ⟨rfl, fun subtask o => by simp [Life.cancel]⟩

/-- A verdict that is set stays set. -/
theorem Step.verdict (h : Step cfg id base l l') (nul : l'.ctx.result.verdict = .nul) :
    l.ctx.result.verdict = .nul ∧ (l.ctx.cancelled = true → l'.ctx.cancelled = true) := by
  by_contra set
  cases h with
  | launch _ setup =>
    have grows := setup_grows setup
    exact set ⟨not_not.mp fun h => grows.verdict h nul, grows.cancelled⟩
  | @skip t _ _ _ _ _ setup done =>
    have grows := setup_grows setup
    by_cases summary : t = .summary
    · subst summary
      obtain ⟨_, _, verdict, _⟩ := finalizeSummary_spec done
      rw [(setupSummary_spec setup).1] at verdict
      exact summaryResult_verdict _ _ ((verdict rfl).symm.trans nul)
    · have more := finalize_grows summary done
      exact set ⟨not_not.mp fun h => more.verdict (grows.verdict h) nul,
        fun h => more.cancelled (grows.cancelled h)⟩
  | @finish t _ _ _ _ done =>
    by_cases summary : t = .summary
    · subst summary
      obtain ⟨_, _, _, verdict, _⟩ := finalizeSummary_spec done
      exact verdict rfl nul
    · have grows := finalize_grows summary done
      exact set ⟨not_not.mp fun h => grows.verdict h nul, grows.cancelled⟩
  | cancel => exact set ⟨nul, fun _ => rfl⟩

/-- Only newer submissions cancel. -/
theorem superseded_of_cancelled (h : Reachable cfg id base sub l) (on : l.ctx.cancelled = true) :
    .superseded id ∈ l.ctx.log := by
  induction h with
  | start => cases on
  | @next l l' reach step ih =>
    obtain ⟨new, log⟩ := step.log
    rw [log]
    cases step with
    | launch _ setup =>
      exact List.mem_append_left _ (ih ((setup_cancelled setup).symm.trans on))
    | @skip _ _ _ c c' _ setup done =>
      have before : c.cleared.cancelled = true :=
        finalize_cancelled done (show c'.cancelled = true from on)
      exact List.mem_append_left _ (ih ((setup_cancelled setup).symm.trans before))
    | @finish _ _ _ c _ done =>
      have before : l.ctx.cleared.cancelled = true :=
        finalize_cancelled done (show c.cancelled = true from on)
      exact List.mem_append_left _ (ih before)
    | cancel => simp [← log, Life.cancel]

/-- Without a verdict every compile task that ended succeeded, or the submission
is cancelled. -/
theorem compiled (h : Reachable cfg id base sub l) (nul : l.ctx.result.verdict = .nul) :
    ∀ subtask outcome, Ended id (.compile subtask) outcome l.ctx.log →
      (∃ o, outcome = some o ∧ compileFails o = false) ∨ l.ctx.cancelled = true := by
  induction h with
  | start =>
    rintro subtask outcome ⟨tid, h⟩
    simp [Life.start] at h
  | next _ step ih =>
    intro subtask outcome ended
    obtain ⟨nul', cancelled⟩ := step.verdict nul
    rcases step.ended ended with old | ⟨rfl, ready, _, _, setup⟩ | ⟨o, _, _, rfl, _, done, result⟩
    · exact (ih nul' subtask outcome old).imp_right cancelled
    · simp only [Judge.setup, Except.ok.injEq] at setup
      have skipped := (setupCompile_spec setup).2.1
      exact .inr (cancelled (by simpa [Ctx.cleared] using skipped))
    · refine .inl ⟨o, rfl, ?_⟩
      cases done
      rw [result, (finalizeCompile_spec _ _ _ _).2.1] at nul
      by_contra fails
      simp only [Bool.not_eq_false] at fails
      unfold compileVerdict at nul
      split at nul
      · cases nul
      · have upper : failVerdict subtask o ≤ .nul := nul ▸ le_max_right _ _
        revert upper
        unfold failVerdict
        split_ifs <;> decide

/-- No compile task that ran failed. -/
def NoCompileFailure (id : Int) (log : List Event) : Prop :=
  ∀ subtask o, Ended id (.compile subtask) (some o) log → compileFails o = false

theorem NoCompileFailure.before {log new : List Event} (h : NoCompileFailure id (log ++ new)) :
    NoCompileFailure id log :=
  fun subtask o ended => h subtask o ended.append

theorem compileVerdict_of_success {subtask : CompileSubtask} {o : TaskOutcome} {v : Verdict}
    (success : compileFails o = false) : compileVerdict subtask o v = v := by
  have timekill : o.res.timekill ≠ -1 := by
    intro failed
    simp [compileFails, failed] at success
  simp [compileVerdict, timekill, success]

/-- Without a failure no verdict is set before the summary. -/
theorem nul_of_compiled (h : Reachable cfg id base sub l) (success : NoCompileFailure id l.ctx.log)
    (left : .summary ∈ l.todo) (idle : .summary ∉ l.running) : l.ctx.result.verdict = .nul := by
  induction h with
  | start => rfl
  | next reach step ih =>
    obtain ⟨left', idle'⟩ := step.idle left idle
    obtain ⟨new, log⟩ := step.log
    have nul := ih (log ▸ success).before left' idle'
    rcases step.compiles left idle with ⟨same, _⟩ | ⟨subtask, o, verdict, ended⟩
    · exact same.trans nul
    · have ended := (ended subtask o).mpr (.inr ⟨rfl, rfl⟩)
      rw [verdict, compileVerdict_of_success (success subtask o ended), nul]

end Life

end TiojJudge.Judge
