import Mathlib.Algebra.Order.BigOperators.Group.List
import TiojJudge.Judge.Multistage
import TiojJudge.Judge.Outcomes

/-!
# Submissions that are judged after the last stage

The executions of a testdata run one after the other, and the first that fails stops them.

* `stageEvents_eq`: the launches and ends of executions in the log, by stages;
* `made_executions`: what the executions add up to, and which verdict they leave;
* `Life.made_at_scoring`: the scoring finds what all of them made;
* `scoring_starts_nul`: it starts with verdict `NUL` when all stages ended well within the limits
  and, as long as every execution that is not killed has an end, only then.
-/

namespace TiojJudge.Judge
open Machine

/-! ## The executions in the log -/

/-- A stage is launched, or ends with a result. -/
inductive StageEvent where
  | started (stage : Nat)
  | ended (stage : Nat) (o : TaskOutcome)
  deriving DecidableEq

/-- What the event says of the executions of testdata `i`. -/
def Event.stageEvent (id : Int) (i : Nat) : Event → Option StageEvent
  | .launched _ k (.execute i' j) _ => if k = id ∧ i' = i then some (.started j) else none
  | .finalizing _ k (.execute i' j) (some o) =>
    if k = id ∧ i' = i then some (.ended j o) else none
  | _ => none

abbrev stageEvents (id : Int) (i : Nat) (log : List Event) : List StageEvent :=
  log.filterMap (Event.stageEvent id i)

/-- The stages one after the other, with these outcomes. -/
def stagesInOrder (os : List TaskOutcome) : List StageEvent :=
  os.zipIdx.flatMap fun p => [.started p.2, .ended p.2 p.1]

/-- What a function says of the events of a task that is finalized. -/
def Event.outcome (id : Int) (t : Task) : Event → Option TaskOutcome
  | .finalizing _ k t' (some o) => if k = id ∧ t' = t then some o else none
  | _ => none

/-- The outcome of a task in the log, `none` when there is none. -/
def outcomeIn (id : Int) (log : List Event) (t : Task) : Option TaskOutcome :=
  log.findSome? (Event.outcome id t)

/-- Where testdata `i` is with stage `j`, when its tasks have the outcomes `out`. -/
def Life.stageEvents (l : Life) (out : Task → Option TaskOutcome) (i j : Nat) : List StageEvent :=
  if .execute i j ∈ l.todo then
    if .execute i j ∈ l.running then [.started j] else []
  else (out (.execute i j)).elim [] fun o => [.started j, .ended j o]

section Log

variable {id : Int} {i : Nat} {t : Task} {tid : Nat} {log : List Event}

theorem outcome_eq_some {o : TaskOutcome} {e : Event} :
    e.outcome id t = some o ↔ ∃ tid, e = .finalizing tid id t (some o) := by
  constructor
  · intro h
    unfold Event.outcome at h
    split at h
    · split at h
      · rename_i same
        obtain ⟨rfl, rfl⟩ := same
        cases h
        exact ⟨_, rfl⟩
      · cases h
    · cases h
  · rintro ⟨tid, rfl⟩
    exact if_pos ⟨rfl, rfl⟩

instance : OfTasks (Event.stageEvent id i) where
  others e other := by cases e <;> first | rfl | cases other

@[simp] theorem stageEvents_skipped :
    stageEvents id i (.finalizing tid id t none :: log) = stageEvents id i log := by
  cases t <;> rfl

@[simp] theorem stageEvents_launched_self {j : Nat} {handle : Int} :
    stageEvents id i (.launched tid id (.execute i j) handle :: log) =
      .started j :: stageEvents id i log :=
  List.filterMap_cons_some (if_pos ⟨rfl, rfl⟩)

@[simp] theorem stageEvents_ended_self {j : Nat} {o : TaskOutcome} :
    stageEvents id i (.finalizing tid id (.execute i j) (some o) :: log) =
      .ended j o :: stageEvents id i log :=
  List.filterMap_cons_some (if_pos ⟨rfl, rfl⟩)

theorem stageEvents_launched_other {handle : Int} (other : ∀ j, t ≠ .execute i j) :
    stageEvents id i (.launched tid id t handle :: log) = stageEvents id i log := by
  cases t with
  | execute k j =>
    have ne : k ≠ i := fun same => other j (same ▸ rfl)
    exact List.filterMap_cons_none (if_neg fun both => ne both.2)
  | compile | scoring | summary => rfl

theorem stageEvents_ended_other {outcome : Option TaskOutcome} (other : ∀ j, t ≠ .execute i j) :
    stageEvents id i (.finalizing tid id t outcome :: log) = stageEvents id i log := by
  cases outcome with
  | none => exact stageEvents_skipped
  | some o =>
    cases t with
    | execute k j =>
      have ne : k ≠ i := fun same => other j (same ▸ rfl)
      exact List.filterMap_cons_none (if_neg fun both => ne both.2)
    | compile | scoring | summary => rfl

theorem stageEvent_other (e : Event) (other : e.about id = false) : e.stageEvent id i = none := by
  unfold Event.stageEvent
  split
  · simp_all [Event.about]
  · simp_all [Event.about]
  · rfl

end Log

/-- A concatenation that grows at `j`, after which there is nothing. -/
theorem flatMap_range_grows {α : Type*} {f g : Nat → List α} {n j : Nat} {more : List α} (hj : j < n)
    (before : ∀ k < j, g k = f k) (here : g j = f j ++ more)
    (after : ∀ k, j < k → k < n → f k = [] ∧ g k = []) :
    (List.range n).flatMap g = (List.range n).flatMap f ++ more := by
  obtain ⟨m, rfl⟩ := Nat.exists_eq_add_of_lt hj
  have none : ∀ k ∈ (List.range m).map (j + 1 + ·), f k = [] ∧ g k = [] := by
    intro k hk
    obtain ⟨a, ha, rfl⟩ := List.mem_map.mp hk
    have := List.mem_range.mp ha
    exact after _ (by omega) (by omega)
  have first : (List.range j).flatMap g = (List.range j).flatMap f :=
    List.flatMap_congr fun k hk => before k (List.mem_range.mp hk)
  rw [show j + m + 1 = j + 1 + m by omega, List.range_add, List.range_succ]
  simp only [List.flatMap_append, List.flatMap_singleton, first, here,
    List.flatMap_eq_nil_iff.mpr fun k hk => (none k hk).1,
    List.flatMap_eq_nil_iff.mpr fun k hk => (none k hk).2, List.append_nil, List.append_assoc]

namespace Life

variable {cfg : Config} {id : Int} {base : Nat} {sub : Submission} {l l' : Life} {i : Nat}
  {out : Task → Option TaskOutcome}

/-- A task that has nothing to do with the executions of the testdata. -/
theorem stageEvents_congr {j : Nat} (todo : .execute i j ∈ l'.todo ↔ .execute i j ∈ l.todo)
    (running : .execute i j ∈ l'.running ↔ .execute i j ∈ l.running) :
    l'.stageEvents out i j = l.stageEvents out i j := by
  simp only [Life.stageEvents, todo, running]

/-- Stages after an active one have no events. -/
theorem stageEvents_later {j k : Nat} (shape : Shape sub l) (hi : i < sub.numTds)
    (active : l.Active (.execute i j)) (less : j < k) (hk : k < sub.numStages) :
    .execute i k ∈ l.todo ∧ .execute i k ∉ l.running := by
  obtain ⟨left, idle⟩ :=
    shape.leads (Submission.leads_execute hi less.le hk) (shape.active_todo active)
  refine ⟨left, idle ?_⟩
  simp only [ne_eq, Task.execute.injEq, true_and]
  omega

/-- The execution of a stage gets further, and the others stay where they are. -/
theorem stageEvents_grow {j : Nat} {more : List StageEvent} (shape : Shape sub l) (hi : i < sub.numTds)
    (active : l.Active (.execute i j))
    (todo : ∀ k, k ≠ j → (.execute i k ∈ l'.todo ↔ .execute i k ∈ l.todo))
    (running : ∀ k, k ≠ j → (.execute i k ∈ l'.running ↔ .execute i k ∈ l.running))
    (here : l'.stageEvents out i j = l.stageEvents out i j ++ more) :
    (List.range sub.numStages).flatMap (l'.stageEvents out i) =
      (List.range sub.numStages).flatMap (l.stageEvents out i) ++ more := by
  apply flatMap_range_grows (shape.planned _ (shape.active_todo active)).2
  · intro k hk
    exact stageEvents_congr (todo k hk.ne) (running k hk.ne)
  · exact here
  · intro k less hk
    obtain ⟨left, idle⟩ := stageEvents_later shape hi active less hk
    rw [stageEvents_congr (todo k less.ne') (running k less.ne'), Life.stageEvents, if_pos left,
      if_neg idle]
    exact ⟨rfl, rfl⟩

/-- What a step does to the executions of testdata `i`, and which events it adds. -/
inductive OnStages (id : Int) (i : Nat) (l l' : Life) : Prop where
  | other : (∀ j, (.execute i j ∈ l'.todo ↔ .execute i j ∈ l.todo) ∧
        (.execute i j ∈ l'.running ↔ .execute i j ∈ l.running)) →
      Judge.stageEvents id i l'.ctx.log = Judge.stageEvents id i l.ctx.log → OnStages id i l l'
  | launch {j} : l.Ready (.execute i j) → l'.todo = l.todo →
      l'.running = insert (.execute i j) l.running →
      Judge.stageEvents id i l'.ctx.log = Judge.stageEvents id i l.ctx.log ++ [.started j] →
      OnStages id i l l'
  | skip {j} : l.Ready (.execute i j) → Ended id (.execute i j) none l'.ctx.log →
      l'.todo = l.todo.erase (.execute i j) → l'.running = l.running →
      Judge.stageEvents id i l'.ctx.log = Judge.stageEvents id i l.ctx.log → OnStages id i l l'
  | finish {j o} : .execute i j ∈ l.running → Ended id (.execute i j) (some o) l'.ctx.log →
      l'.todo = l.todo.erase (.execute i j) → l'.running = l.running.erase (.execute i j) →
      Judge.stageEvents id i l'.ctx.log = Judge.stageEvents id i l.ctx.log ++ [.ended j o] →
      OnStages id i l l'

theorem Step.stages (h : Step cfg id base l l') (i : Nat) : OnStages id i l l' := by
  have kept {t : Task} (ne : ∀ j, t ≠ .execute i j) (ts : Finset Task) (j : Nat) :
      (.execute i j ∈ ts.erase t ↔ .execute i j ∈ ts) ∧
        (.execute i j ∈ insert t ts ↔ .execute i j ∈ ts) := by
    have other := (ne j).symm
    simp [other]
  cases h with
  | @launch t handle _ c ready setup =>
    have reports : Judge.stageEvents id i c.log = [] := (setup_reports rfl setup).2.selects
    by_cases mine : ∃ j, t = .execute i j
    · obtain ⟨j, rfl⟩ := mine
      refine .launch ready rfl rfl ?_
      simp [launched, started, Ctx.withLog, reports]
    · have ne : ∀ j, t ≠ .execute i j := fun j same => mine ⟨j, same⟩
      refine .other (fun j => ⟨Iff.rfl, (kept ne l.running j).2⟩) ?_
      simp [launched, started, Ctx.withLog, reports, stageEvents_launched_other ne]
  | @skip t _ _ c c' ready setup done =>
    have before : Judge.stageEvents id i c.log = [] := (setup_reports rfl setup).2.selects
    have after : Judge.stageEvents id i c'.log = [] := (finalize_reports rfl done).2.selects
    have same : Judge.stageEvents id i
        ((l.started id base t c).settled id base t none c').ctx.log =
          Judge.stageEvents id i l.ctx.log := by
      simp [settled, started, Ctx.withLog, before, after]
    by_cases mine : ∃ j, t = .execute i j
    · obtain ⟨j, rfl⟩ := mine
      refine .skip ready ?_ rfl (Finset.erase_insert ready.2.1) same
      simp [settled, started, Ctx.withLog]
    · have ne : ∀ j, t ≠ .execute i j := fun j same => mine ⟨j, same⟩
      refine .other (fun j => ⟨(kept ne l.todo j).1, ?_⟩) same
      exact (kept ne (insert t l.running) j).1.trans (kept ne l.running j).2
  | @finish t o _ c running done =>
    have after : Judge.stageEvents id i c.log = [] := (finalize_reports rfl done).2.selects
    by_cases mine : ∃ j, t = .execute i j
    · obtain ⟨j, rfl⟩ := mine
      have ended : Ended id (.execute i j) (some o) (l.settled id base (.execute i j) (some o) c).ctx.log := by
        simp [settled, Ctx.withLog]
      refine .finish running ended rfl rfl ?_
      simp [settled, Ctx.withLog, after]
    · have ne : ∀ j, t ≠ .execute i j := fun j same => mine ⟨j, same⟩
      refine .other (fun j => ⟨(kept ne l.todo j).1, (kept ne l.running j).1⟩) ?_
      simp [settled, Ctx.withLog, after, stageEvents_ended_other ne]
  | cancel => exact .other (fun _ => ⟨Iff.rfl, Iff.rfl⟩) (by simp [Life.cancel])

/-- The events of the executions in the log are those of the stages, one after the other. -/
theorem stageEvents_eq (wf : sub.WellFormed) (hi : i < sub.numTds) (h : Reachable cfg id base sub l)
    (known : ∀ t outcome, Ended id t outcome l.ctx.log → outcome = out t) :
    Judge.stageEvents id i l.ctx.log = (List.range sub.numStages).flatMap (l.stageEvents out i) := by
  induction h with
  | start =>
    refine Eq.symm (List.flatMap_eq_nil_iff.mpr fun j hj => ?_)
    have here : .execute i j ∈ (Life.start id base sub).todo :=
      List.mem_toFinset.mpr (Submission.mem_planTasks.mpr ⟨hi, List.mem_range.mp hj⟩)
    rw [Life.stageEvents, if_pos here]
    exact if_neg (Finset.notMem_empty _)
  | @next l l' reach step ih =>
    have shape := shape wf reach
    obtain ⟨new, log⟩ := step.log
    have ih := ih fun t outcome ended => known t outcome (log ▸ ended.append)
    rcases step.stages i with ⟨chain, same⟩ | @⟨j, ready, todo, running, more⟩ |
      @⟨j, ready, ended, todo, running, same⟩ | @⟨j, o, here, ended, todo, running, more⟩
    · rw [same, ih]
      exact List.flatMap_congr fun j _ => (stageEvents_congr (chain j).1 (chain j).2).symm
    · rw [more, ih]
      refine (stageEvents_grow shape hi (.inr ready) (fun k _ => by rw [todo]) (fun k ne => ?_) ?_).symm
      · simp [running, ne]
      · simp [Life.stageEvents, todo, running, ready.1, ready.2.1]
    · rw [same, ih, ← List.append_nil (List.flatMap _ _)]
      refine (stageEvents_grow shape hi (.inr ready) (fun k ne => ?_) (fun k _ => by rw [running]) ?_).symm
      · simp [todo, ne]
      · have none := known _ _ ended
        simp [Life.stageEvents, todo, ready.1, ready.2.1, ← none]
    · rw [more, ih]
      refine (stageEvents_grow shape hi (.inl here) (fun k ne => ?_) (fun k ne => ?_) ?_).symm
      · simp [todo, ne]
      · simp [running, ne]
      · have some := known _ _ ended
        simp [Life.stageEvents, todo, shape.running here, here, ← some]

end Life

/-! ## What the executions add up to -/

/-- The program ended by itself with status 0. -/
structure EndedWell (res : CjailResult) : Prop where
  exited : res.siCode = CLD_EXITED
  status : res.siStatus = 0
  time : res.timekill = 0
  memory : res.oomkill ≤ 0

/-- No branch of `FinalizeExecute` sees a failure, but for those on limits. -/
structure Quiet (res : CjailResult) : Prop where
  time : res.timekill = 0
  memory : res.oomkill ≤ 0
  status : res.siStatus = 0
  killed : res.siCode ≠ CLD_KILLED
  dumped : res.siCode ≠ CLD_DUMPED

def usedTime (cfg : Config) (res : CjailResult) : Int := toUs cfg res.utime + toUs cfg res.stime

/-- The executions keep to the limits: together to the one on time, each, and so their maximum, to
those on memory, which 0 lifts. -/
structure WithinLimits (cfg : Config) (lim : TestdataItem) (rs : List CjailResult) : Prop where
  time : (rs.map (usedTime cfg)).sum ≤ lim.time
  vss : lim.vss ≠ 0 → ∀ r ∈ rs, r.hiwaterVm ≤ lim.vss
  rss : lim.rss ≠ 0 → ∀ r ∈ rs, r.maxrss ≤ lim.rss

/-- The result holds what the executions used. -/
structure Added (cfg : Config) (rs : List CjailResult) (td : TestdataResult) : Prop where
  go : td.skipStage = false
  time : td.time = (rs.map (usedTime cfg)).sum
  vss : ∀ b, td.vss ≤ b ↔ ∀ r ∈ rs, r.hiwaterVm ≤ b
  rss : ∀ b, td.rss ≤ b ↔ ∀ r ∈ rs, r.maxrss ≤ b

section Totals

variable {cfg : Config} {sub : Submission} {lim : TestdataItem} {rs : List CjailResult}
  {res : CjailResult} {td : TestdataResult}

theorem added_first (go : td.skipStage = false) :
    Added cfg [res] (executeResult cfg sub lim 0 res td) where
  go := go
  time := by simp [executeResult, accumulate, usedTime]
  vss := fun b => by simp [executeResult, accumulate]
  rss := fun b => by simp [executeResult, accumulate]

theorem Added.later {stage : Nat} (added : Added cfg rs td) :
    Added cfg (rs ++ [res]) (executeResult cfg sub lim (stage + 1) res td) where
  go := added.go
  time := by
    rw [List.map_append, List.sum_append, ← added.time]
    simp [executeResult, accumulate, usedTime]
  vss := fun b => by
    rw [List.forall_mem_append, List.forall_mem_singleton, ← added.vss]
    exact max_le_iff
  rss := fun b => by
    rw [List.forall_mem_append, List.forall_mem_singleton, ← added.rss]
    exact max_le_iff

theorem Added.within_iff (added : Added cfg rs td) :
    WithinLimits cfg lim rs ↔ exceedsMemory lim td = false ∧ ¬ lim.time < td.time := by
  have memory : exceedsMemory lim td = false ↔
      (lim.vss ≠ 0 → td.vss ≤ lim.vss) ∧ (lim.rss ≠ 0 → td.rss ≤ lim.rss) := by
    simp [exceedsMemory]
  rw [memory, added.time, added.vss, added.rss, Int.not_lt]
  exact ⟨fun within => ⟨⟨within.vss, within.rss⟩, within.time⟩,
    fun kept => ⟨kept.2, kept.1.1, kept.1.2⟩⟩

/-- The chain of conditions of `FinalizeExecute`. -/
theorem executeVerdict_nul_iff : executeVerdict sub lim res td = .nul ↔
    Quiet res ∧ exceedsMemory lim td = false ∧ ¬ lim.time < td.time := by
  unfold executeVerdict
  constructor
  · intro nul
    split_ifs at nul with error oom kill signal size big big' status late
    rw [not_or] at signal
    exact ⟨⟨not_not.mp kill, by omega, not_not.mp status, signal.1, signal.2⟩, by simpa using big', late⟩
  · rintro ⟨quiet, small, early⟩
    have alive : ¬ (res.siCode = CLD_KILLED ∨ res.siCode = CLD_DUMPED) :=
      not_or.mpr ⟨quiet.killed, quiet.dumped⟩
    have room : ¬ 0 < res.oomkill := Int.not_lt.mpr quiet.memory
    simp [quiet.time, quiet.status, alive, room, small, early]

theorem executeResult_nul_iff {stage : Nat}
    (added : Added cfg rs (executeResult cfg sub lim stage res td)) :
    (executeResult cfg sub lim stage res td).verdict = .nul ↔ Quiet res ∧ WithinLimits cfg lim rs := by
  rw [added.within_iff]
  exact executeVerdict_nul_iff

end Totals

/-- The first `k` executions of testdata `i`, and their results. -/
def executions (i k : Nat) : List Task := (List.range k).map (.execute i)

def results (out : Task → TaskOutcome) (i k : Nat) : List CjailResult :=
  (List.range k).map fun j => (out (.execute i j)).res

section Chain

variable {cfg : Config} {sub : Submission} {lim : TestdataItem} {out : Task → TaskOutcome} {i : Nat}

@[simp] theorem executions_succ (k : Nat) : executions i (k + 1) = executions i k ++ [.execute i k] := by
  simp [executions, List.range_succ]

@[simp] theorem results_succ (k : Nat) :
    results out i (k + 1) = results out i k ++ [(out (.execute i k)).res] := by
  simp [results, List.range_succ]

@[simp] theorem results_zero : results out i 0 = [] := rfl

theorem mem_results {k : Nat} {r : CjailResult} :
    r ∈ results out i k ↔ ∃ j < k, (out (.execute i j)).res = r := by
  simp [results]

theorem results_add (m d : Nat) : results out i (m + d) =
    results out i m ++ (List.range d).map fun j => (out (.execute i (m + j))).res := by
  simp [results, List.range_add]

/-- The executions before keep to the limits, too. -/
theorem WithinLimits.before {n m : Nat} (h : WithinLimits cfg lim (results out i n)) (le : m ≤ n)
    (nonneg : ∀ r ∈ results out i n, 0 ≤ usedTime cfg r) : WithinLimits cfg lim (results out i m) := by
  obtain ⟨d, rfl⟩ := Nat.exists_eq_add_of_le le
  rw [results_add] at h nonneg
  refine ⟨?_, fun limited r hr => h.vss limited r (List.mem_append_left _ hr),
    fun limited r hr => h.rss limited r (List.mem_append_left _ hr)⟩
  have time := h.time
  rw [List.map_append, List.sum_append] at time
  have rest : 0 ≤ (((List.range d).map fun j => (out (.execute i (m + j))).res).map (usedTime cfg)).sum := by
    apply List.sum_nonneg
    intro t ht
    obtain ⟨r, hr, rfl⟩ := List.mem_map.mp ht
    exact nonneg r (List.mem_append_right _ hr)
  omega

/-- A failure stops the chain; until then the executions add up. -/
theorem made_executions (found : sub.testdata[i]? = some lim) (k : Nat) :
    ((made cfg sub out (executions i (k + 1))).verdict = .nul →
      Added cfg (results out i (k + 1)) (made cfg sub out (executions i (k + 1)))) ∧
    ((made cfg sub out (executions i (k + 1))).verdict = .nul ↔
      (∀ r ∈ results out i (k + 1), Quiet r) ∧
        ∀ m ≤ k, WithinLimits cfg lim (results out i (m + 1))) := by
  induction k with
  | zero =>
    have first : made cfg sub out (executions i 1) =
        executeResult cfg sub lim 0 (out (.execute i 0)).res .new := by
      simp [executions, made, afterTask, found]
    have added : Added cfg [(out (.execute i 0)).res] (made cfg sub out (executions i 1)) :=
      first ▸ added_first rfl
    refine ⟨fun _ => added, ?_⟩
    rw [first] at added ⊢
    rw [executeResult_nul_iff added]
    simp
  | succ k ih =>
    obtain ⟨sums, nul_iff⟩ := ih
    rw [executions_succ, made_concat]
    set td := made cfg sub out (executions i (k + 1))
    have grown : results out i (k + 1 + 1) =
        results out i (k + 1) ++ [(out (.execute i (k + 1))).res] := results_succ (k + 1)
    by_cases nul : td.verdict = .nul
    · have added := sums nul
      have next : afterTask cfg sub out td (.execute i (k + 1)) =
          executeResult cfg sub lim (k + 1) (out (.execute i (k + 1))).res td := by
        simp [afterTask, found, added.go, nul]
      have more : Added cfg (results out i (k + 1) ++ [(out (.execute i (k + 1))).res])
          (executeResult cfg sub lim (k + 1) (out (.execute i (k + 1))).res td) := added.later
      rw [next, grown]
      refine ⟨fun _ => more, ?_⟩
      rw [executeResult_nul_iff more]
      obtain ⟨quiet, within⟩ := nul_iff.mp nul
      constructor
      · rintro ⟨last, small⟩
        refine ⟨List.forall_mem_append.mpr ⟨quiet, by simpa using last⟩, fun m hm => ?_⟩
        rcases Nat.le_succ_iff.mp hm with le | rfl
        · exact within m le
        · exact grown ▸ small
      · rintro ⟨all, each⟩
        exact ⟨all _ (List.mem_append_right _ (List.mem_singleton_self _)),
          grown ▸ each (k + 1) le_rfl⟩
    · have stays : afterTask cfg sub out td (.execute i (k + 1)) = td := by
        simp [afterTask, found, nul]
      rw [stays]
      refine ⟨fun h => absurd h nul, iff_of_false nul ?_⟩
      rintro ⟨all, each⟩
      refine nul (nul_iff.mpr ⟨fun r hr => all r ?_, fun m hm => each m (by omega)⟩)
      exact grown ▸ List.mem_append_left _ hr

/-- The verdict after all stages, when no time is negative. -/
theorem executed_nul_iff {n : Nat} (found : sub.testdata[i]? = some lim) (positive : 0 < n)
    (nonneg : ∀ r ∈ results out i n, 0 ≤ usedTime cfg r) :
    (made cfg sub out (executions i n)).verdict = .nul ↔
      (∀ r ∈ results out i n, Quiet r) ∧ WithinLimits cfg lim (results out i n) := by
  obtain ⟨k, rfl⟩ := Nat.exists_eq_add_of_lt positive
  rw [Nat.zero_add] at nonneg ⊢
  rw [(made_executions found k).2]
  refine and_congr_right fun _ => ⟨fun each => each k le_rfl, fun all m hm => ?_⟩
  exact all.before (by omega) nonneg

end Chain

/-! ## The scoring of a testdata -/

namespace Life

variable {cfg : Config} {id : Int} {base : Nat} {sub : Submission} {l l' : Life} {i : Nat}

theorem chainTasks_apart (apart : sub.judgeBetweenStages = false) :
    sub.chainTasks i = executions i sub.numStages ++ [sub.lastScoring i] := by
  simp [Submission.chainTasks, apart, executions]

/-- When the executions are over, they are what was finalized of the testdata. -/
theorem passed_executions (apart : sub.judgeBetweenStages = false)
    (past : ∀ j < sub.numStages, .execute i j ∉ l.todo) (left : sub.lastScoring i ∈ l.todo) :
    passed sub l i = executions i sub.numStages := by
  rw [passed, chainTasks_apart apart, List.filter_append, List.filter_eq_self.mpr,
    List.filter_eq_nil_iff.mpr, List.append_nil]
  · intro t ht
    obtain rfl := List.mem_singleton.mp ht
    simpa using left
  · intro t ht
    obtain ⟨j, hj, rfl⟩ := List.mem_map.mp ht
    simpa using past j (List.mem_range.mp hj)

/-- A task that was launched and is left runs. -/
theorem running_of_launched {t : Task} {tid : Nat} {handle : Int} (h : Reachable cfg id base sub l)
    (started : .launched tid id t handle ∈ l.ctx.log) (left : t ∈ l.todo) : t ∈ l.running := by
  have silent {k : Int} {es : List Event} (reports : Reports k es) :
      .launched tid id t handle ∉ es := by
    intro he
    obtain ⟨_, source, _⟩ := reports _ he
    cases source
  induction h with
  | start => simp [Life.start] at started
  | next _ step ih =>
    cases step with
    | launch _ setup =>
      have reports := silent (setup_reports rfl setup).2
      simp only [launched, Life.started, Ctx.withLog, List.mem_append, List.mem_singleton, reports,
        reduceCtorEq, or_false, Event.launched.injEq, true_and] at started
      rcases started with old | ⟨_, rfl, _⟩
      · exact Finset.mem_insert_of_mem (ih old left)
      · exact Finset.mem_insert_self _ _
    | skip _ setup done =>
      have before := silent (setup_reports rfl setup).2
      have after := silent (finalize_reports rfl done).2
      simp only [settled, Life.started, Ctx.withLog, List.mem_append, List.mem_singleton, before, after,
        reduceCtorEq, or_false] at started
      obtain ⟨other, left⟩ := Finset.mem_erase.mp left
      exact Finset.mem_erase.mpr ⟨other, Finset.mem_insert_of_mem (ih started left)⟩
    | finish _ done =>
      have after := silent (finalize_reports rfl done).2
      simp only [settled, Ctx.withLog, List.mem_append, List.mem_singleton, after, reduceCtorEq,
        or_false] at started
      obtain ⟨other, left⟩ := Finset.mem_erase.mp left
      exact Finset.mem_erase.mpr ⟨other, ih started left⟩
    | cancel =>
      simp only [Life.cancel, List.mem_append, List.mem_singleton, reduceCtorEq, or_false] at started
      exact ih started left

variable {out : Task → TaskOutcome}

/-- The result that the scoring finds when it runs, or is not called off. -/
theorem made_at_scoring (wf : sub.WellFormed) (hi : i < sub.numTds)
    (apart : sub.judgeBetweenStages = false) (reach : Reachable cfg id base sub l)
    (fixed : Fixed out id l.ctx.log) (past : ∀ j < sub.numStages, .execute i j ∉ l.todo)
    (left : sub.lastScoring i ∈ l.todo) (free : sub.lastScoring i ∈ l.running ∨ ¬ l.Excused i) :
    l.ctx.td i = made cfg sub out (executions i sub.numStages) := by
  have played := played wf hi reach fixed ((shape wf reach).summary_left wf left)
  rw [← passed_executions apart past left]
  rcases free with running | going
  · exact (played.busy _ running rfl).1
  · exact played.live going

/-- With the last execution all are over. -/
theorem Shape.executions_over (s : Shape sub l) (hi : i < sub.numTds)
    (gone : .execute i (sub.numStages - 1) ∉ l.todo) : ∀ j < sub.numStages, .execute i j ∉ l.todo :=
  fun j hj here => gone (s.leads (Submission.leads_execute hi (by omega) (by omega)) here).1

/-- Once the last stage ran, nothing but the scoring changes the result. -/
theorem made_by_executions (wf : sub.WellFormed) (hi : i < sub.numTds)
    (apart : sub.judgeBetweenStages = false) (reach : Reachable cfg id base sub l)
    (fixed : Fixed out id l.ctx.log) {o : TaskOutcome}
    (ran : Ended id (.execute i (sub.numStages - 1)) (some o) l.ctx.log)
    (left : sub.lastScoring i ∈ l.todo) :
    l.ctx.td i = made cfg sub out (executions i sub.numStages) := by
  obtain ⟨positive, _⟩ := wf.numStages
  have planned : sub.Planned (.execute i (sub.numStages - 1)) := ⟨hi, by omega⟩
  induction reach with
  | start => simp [Life.start, Ended] at ran
  | @next l l' reach step ih =>
    have shape := shape wf reach
    have shape' := Life.shape wf (reach.next step)
    have before : sub.lastScoring i ∈ l.todo := step.todo_subset shape left
    have fixed' := Fixed.step step fixed
    have played := played wf hi reach fixed' (shape.summary_left wf before)
    have past' := shape'.executions_over hi
      ((finalized_in_log wf (reach.next step) planned).mpr ⟨_, ran⟩)
    have plays := step.plays fixed fun t ht mine => shape.same ▸ (played.busy t ht mine).2
    rcases step.ended ran with old | ⟨no, _⟩ | ⟨_, _, _, _, running, _⟩
    · have past := shape.executions_over hi ((finalized_in_log wf reach planned).mpr ⟨_, old⟩)
      rcases plays with ⟨td, _⟩ | ⟨_, _, _, td, _⟩ | ⟨_, _, _, td, _⟩ | @⟨t, mine, active, _, _, todo, _⟩
      · exact td.trans (ih fixed' old before)
      · exact td.trans (ih fixed' old before)
      · exact td.trans (ih fixed' old before)
      · -- only the scoring is left to work
        have here := shape.active_todo active
        have chain := (Submission.mem_chain hi).mpr ⟨shape.planned t here, mine⟩
        rw [chainTasks_apart apart, List.mem_append, List.mem_singleton] at chain
        rcases chain with early | rfl
        · obtain ⟨j, hj, rfl⟩ := List.mem_map.mp early
          exact absurd here (past j (List.mem_range.mp hj))
        · exact absurd (todo ▸ left) (Finset.notMem_erase _ _)
    · cases no
    · have here := shape.running running
      have gone := past' _ planned.2
      rcases plays with ⟨_, chain⟩ | ⟨_, _, _, _, todo, _⟩ | @⟨t, _, ready, _, _, todo, _⟩ |
        ⟨mine, active, free, td, todo, _⟩
      · exact absurd ((chain _ rfl).1.mpr here) gone
      · exact absurd (todo ▸ here) gone
      · have same : .execute i (sub.numStages - 1) = t := by
          by_contra other
          exact gone (todo ▸ Finset.mem_erase.mpr ⟨other, here⟩)
        exact absurd (same ▸ running) ready.2.1
      · rw [played.work wf hi shape mine active free td todo, passed_executions apart past' left]

end Life

/-! ## Outcomes in the log -/

/-- No execution ended so. -/
def unheard : TaskOutcome := ⟨{ CjailResult.zero with timekill := -1 }, .empty⟩

/-- The outcome of the task, `unheard` when it did not run. -/
def heardOf (id : Int) (log : List Event) (t : Task) : TaskOutcome := (outcomeIn id log t).getD unheard

/-- All stages of testdata `i` were executed, once each and one after the other. -/
structure Executed (sub : Submission) (id : Int) (i : Nat) (os : List TaskOutcome) (log : List Event) :
    Prop where
  all : os.length = sub.numStages
  events : stageEvents id i log = stagesInOrder os

section Outcomes

variable {cfg : Config} {id : Int} {base i : Nat} {sub : Submission} {l : Life} {log : List Event}

theorem ended_of_outcomeIn {t : Task} {o : TaskOutcome} (h : outcomeIn id log t = some o) :
    Life.Ended id t (some o) log := by
  obtain ⟨e, he, here⟩ := List.exists_of_findSome?_eq_some h
  obtain ⟨tid, rfl⟩ := outcome_eq_some.mp here
  exact ⟨tid, he⟩

/-- In a life a task has one outcome. -/
theorem outcomeIn_eq (wf : sub.WellFormed) (reach : Life.Reachable cfg id base sub l) {t : Task}
    {outcome : Option TaskOutcome} (ended : Life.Ended id t outcome l.ctx.log) :
    outcome = outcomeIn id l.ctx.log t := by
  cases found : outcomeIn id l.ctx.log t with
  | some o => exact Life.ended_once wf reach ended (ended_of_outcomeIn found)
  | none =>
    cases outcome with
    | none => rfl
    | some o =>
      obtain ⟨tid, here⟩ := ended
      have no := List.findSome?_eq_none_iff.mp found _ here
      cases no.symm.trans (outcome_eq_some.mpr ⟨tid, rfl⟩)

theorem heardOf_fixed (wf : sub.WellFormed) (reach : Life.Reachable cfg id base sub l) :
    Fixed (heardOf id l.ctx.log) id l.ctx.log := by
  intro t o ended
  rw [heardOf, ← outcomeIn_eq wf reach ended, Option.getD_some]

theorem mem_stagesInOrder {os : List TaskOutcome} {j : Nat} {o : TaskOutcome} :
    .ended j o ∈ stagesInOrder os ↔ os[j]? = some o := by
  simp [stagesInOrder, List.mem_zipIdx_iff_getElem?]

theorem ended_of_stageEvents {j : Nat} {o : TaskOutcome} (h : .ended j o ∈ stageEvents id i log) :
    Life.Ended id (.execute i j) (some o) log := by
  obtain ⟨e, he, here⟩ := List.mem_filterMap.mp h
  unfold Event.stageEvent at here
  split at here
  · split at here <;> cases here
  · split at here
    · rename_i same
      obtain ⟨rfl, rfl⟩ := same
      cases here
      exact ⟨_, he⟩
    · cases here
  · cases here

theorem stageEvents_of_ended {j : Nat} {o : TaskOutcome}
    (h : Life.Ended id (.execute i j) (some o) log) : .ended j o ∈ stageEvents id i log := by
  obtain ⟨tid, he⟩ := h
  exact List.mem_filterMap.mpr ⟨_, he, if_pos ⟨rfl, rfl⟩⟩

theorem stagesInOrder_range (f : Nat → TaskOutcome) (n : Nat) :
    stagesInOrder ((List.range n).map f) =
      (List.range n).flatMap fun j => [.started j, .ended j (f j)] := by
  have pairs : ((List.range n).map f).zipIdx = (List.range n).map fun j => (f j, j) := by
    apply List.ext_getElem <;> simp
  rw [stagesInOrder, pairs, List.flatMap_map]

theorem Executed.ended {os : List TaskOutcome} (h : Executed sub id i os log) {j : Nat} {o : TaskOutcome}
    (found : os[j]? = some o) : Life.Ended id (.execute i j) (some o) log :=
  ended_of_stageEvents (h.events ▸ mem_stagesInOrder.mpr found)

/-- The outcomes of the run are those in the log. -/
theorem Executed.results (wf : sub.WellFormed) (reach : Life.Reachable cfg id base sub l)
    {os : List TaskOutcome} (h : Executed sub id i os l.ctx.log) :
    os.map TaskOutcome.res = Judge.results (heardOf id l.ctx.log) i sub.numStages := by
  apply List.ext_getElem
  · simp [Judge.results, h.all]
  · intro j hj _
    have inside : j < os.length := by simpa using hj
    have ended := h.ended (List.getElem?_eq_getElem inside)
    simp [Judge.results, ← heardOf_fixed wf reach _ _ ended]

/-- When no execution is unheard of, all stages were executed. -/
theorem executed_of_heard (wf : sub.WellFormed) (hi : i < sub.numTds)
    (reach : Life.Reachable cfg id base sub l) (past : ∀ j < sub.numStages, .execute i j ∉ l.todo)
    (heard : ∀ j < sub.numStages, (heardOf id l.ctx.log (.execute i j)).res.timekill = 0) :
    Executed sub id i ((List.range sub.numStages).map fun j => heardOf id l.ctx.log (.execute i j))
      l.ctx.log := by
  refine ⟨by simp, ?_⟩
  rw [Life.stageEvents_eq wf hi reach fun _ _ => outcomeIn_eq wf reach, stagesInOrder_range]
  refine List.flatMap_congr fun j hj => ?_
  have hj := List.mem_range.mp hj
  have alive := heard j hj
  rw [Life.stageEvents, if_neg (past j hj)]
  unfold heardOf at alive ⊢
  cases found : outcomeIn id l.ctx.log (.execute i j) with
  | none =>
    rw [found] at alive
    cases alive
  | some o => rfl

end Outcomes

/-! ## The verdict that the scoring starts with -/

/-- A result that tells of no end, though of no kill either. The result of a task whose process
died is of this kind, since it is all zeros. -/
structure Untold (res : CjailResult) : Prop where
  time : res.timekill = 0
  memory : res.oomkill ≤ 0
  status : res.siStatus = 0
  code : res.siCode ∉ [CLD_EXITED, CLD_KILLED, CLD_DUMPED]

theorem Quiet.endedWell {res : CjailResult} (quiet : Quiet res) (told : ¬ Untold res) :
    EndedWell res := by
  refine ⟨?_, quiet.status, quiet.time, quiet.memory⟩
  by_contra other
  refine told ⟨quiet.time, quiet.memory, quiet.status, ?_⟩
  simp [other, quiet.killed, quiet.dumped]

theorem EndedWell.quiet {res : CjailResult} (well : EndedWell res) : Quiet res := by
  refine ⟨well.time, well.memory, well.status, ?_, ?_⟩
  · rw [well.exited]
    decide
  · rw [well.exited]
    decide

/-- All stages were executed once each in their order, ended by themselves with status 0 and kept
to the limits. -/
structure CleanRun (cfg : Config) (sub : Submission) (id : Int) (i : Nat) (lim : TestdataItem)
    (log : List Event) (os : List TaskOutcome) : Prop where
  executed : Executed sub id i os log
  well : ∀ o ∈ os, EndedWell o.res
  within : WithinLimits cfg lim (os.map TaskOutcome.res)

/-- The scoring of testdata `i` runs; or all before it is over, and nothing calls it off: it
starts. -/
structure AtScoring (sub : Submission) (id : Int) (i : Nat) (lim : TestdataItem) (s : State)
    (entry : SubmissionAndResult) : Prop where
  left : ¬ Life.Over id (sub.lastScoring i) s.log
  starts : (∃ tid handle, .launched tid id (sub.lastScoring i) handle ∈ s.log) ∨
    (∀ j < sub.numStages, Life.Over id (.execute i j) s.log) ∧ entry.result.verdict = .nul ∧
      (s.ctx entry).isCancelled lim.tdGroups = false

variable {cfg : Config} {s : State} {sub : Submission} {id : Int} {base i : Nat} {lim : TestdataItem}
  {entry : SubmissionAndResult} {l : Life}

namespace Life

theorem clean_of_nul (wf : sub.WellFormed) (found : sub.testdata[i]? = some lim)
    (apart : sub.judgeBetweenStages = false) (reach : Reachable cfg id base sub l)
    (told : ∀ j o, Ended id (.execute i j) (some o) l.ctx.log → ¬ Untold o.res)
    (past : ∀ j < sub.numStages, .execute i j ∉ l.todo) (left : sub.lastScoring i ∈ l.todo)
    (free : sub.lastScoring i ∈ l.running ∨ ¬ l.Excused i) (nul : (l.ctx.td i).verdict = .nul) :
    ∃ os, CleanRun cfg sub id i lim l.ctx.log os := by
  have hi : i < sub.numTds := (List.getElem?_eq_some_iff.mp found).1
  obtain ⟨k, hk⟩ : ∃ k, sub.numStages = k + 1 := Nat.exists_eq_add_one.mpr wf.numStages.1
  have made := made_at_scoring wf hi apart reach (heardOf_fixed wf reach) past left free
  rw [made, hk] at nul
  obtain ⟨quiet, within⟩ := (made_executions found k).2.mp nul
  rw [← hk] at quiet
  have each (j : Nat) (hj : j < sub.numStages) :
      Quiet (heardOf id l.ctx.log (.execute i j)).res := quiet _ (mem_results.mpr ⟨j, hj, rfl⟩)
  have executed := executed_of_heard wf hi reach past fun j hj => (each j hj).time
  refine ⟨_, executed, fun o ho => ?_, ?_⟩
  · obtain ⟨j, hj⟩ := List.mem_iff_getElem?.mp ho
    have ended := executed.ended hj
    have inside : j < sub.numStages := executed.all ▸ (List.getElem?_eq_some_iff.mp hj).1
    have same := heardOf_fixed wf reach _ _ ended
    exact same ▸ (each j inside).endedWell (same ▸ told j o ended)
  · rw [executed.results wf reach, hk]
    exact within k le_rfl

theorem nul_of_clean (wf : sub.WellFormed) (found : sub.testdata[i]? = some lim)
    (apart : sub.judgeBetweenStages = false) (reach : Reachable cfg id base sub l)
    (nonneg : ∀ j o, Ended id (.execute i j) (some o) l.ctx.log → 0 ≤ usedTime cfg o.res)
    (left : sub.lastScoring i ∈ l.todo) {os : List TaskOutcome}
    (clean : CleanRun cfg sub id i lim l.ctx.log os) : (l.ctx.td i).verdict = .nul := by
  have hi : i < sub.numTds := (List.getElem?_eq_some_iff.mp found).1
  have positive := wf.numStages.1
  have last : sub.numStages - 1 < os.length := by
    rw [clean.executed.all]
    omega
  have ran := clean.executed.ended (List.getElem?_eq_getElem last)
  rw [made_by_executions wf hi apart reach (heardOf_fixed wf reach) ran left]
  have same := clean.executed.results wf reach
  refine (executed_nul_iff found positive ?_).mpr ⟨?_, same ▸ clean.within⟩
  · intro r hr
    obtain ⟨o, ho, rfl⟩ := List.mem_map.mp (same ▸ hr)
    obtain ⟨j, hj⟩ := List.mem_iff_getElem?.mp ho
    exact nonneg j o (clean.executed.ended hj)
  · intro r hr
    obtain ⟨o, ho, rfl⟩ := List.mem_map.mp (same ▸ hr)
    exact (clean.well o ho).quiet

end Life

/-- Of a submission that is not judged between the stages, a scoring that starts with verdict
`NUL` comes after a clean run of all stages, as long as every execution that was not killed has an
end; and after a clean run the verdict is `NUL`. -/
theorem scoring_starts_nul (h : (judge cfg).Reach freshId s) (enq : .enqueued id sub base ∈ s.log)
    (apart : sub.judgeBetweenStages = false) (found : sub.testdata[i]? = some lim)
    (listed : s.submissionList.lookup id = some entry)
    (nonneg : ∀ j o, Life.Ended id (.execute i j) (some o) s.log →
      0 ≤ toUs cfg o.res.utime ∧ 0 ≤ toUs cfg o.res.stime)
    (told : ∀ j o, Life.Ended id (.execute i j) (some o) s.log → ¬ Untold o.res) :
    (AtScoring sub id i lim s entry → ((s.ctx entry).td i).verdict = .nul →
      ∃ os, CleanRun cfg sub id i lim s.log os) ∧
    ∀ os, CleanRun cfg sub id i lim s.log os → ¬ Life.Over id (sub.lastScoring i) s.log →
      ((s.ctx entry).td i).verdict = .nul := by
  obtain ⟨held, r⟩ := refined h
  obtain ⟨wf, key⟩ := r.sound id sub base enq
  obtain ⟨l, reach, follows⟩ := r.lives id sub base enq
  have shape := Life.shape wf reach
  have hi : i < sub.numTds := (List.getElem?_eq_some_iff.mp found).1
  have ended {t : Task} {outcome : Option TaskOutcome} :
      Life.Ended id t outcome l.ctx.log ↔ Life.Ended id t outcome s.log := follows.log ▸ ended_filter
  have past {t : Task} (planned : sub.Planned t) : t ∉ l.todo ↔ Life.Over id t s.log := by
    rw [Life.finalized_in_log wf reach planned]
    simp only [ended, Life.Over]
  have events : stageEvents id i l.ctx.log = stageEvents id i s.log := follows.log ▸ selects_about stageEvent_other _
  have last := Submission.planned_lastScoring wf hi
  have scoring (open_ : ¬ Life.Over id (sub.lastScoring i) s.log) : sub.lastScoring i ∈ l.todo := by
    by_contra gone
    exact open_ ((past last).mp gone)
  have context (left : sub.lastScoring i ∈ l.todo) : s.ctx entry = l.ctx.cleared ∧
      entry.result = l.ctx.result := by
    have summary := shape.summary_left wf left
    obtain rfl := Option.some.inj (listed.symm.trans (follows.listed summary).1)
    exact ⟨follows.ctx shape key summary, rfl⟩
  constructor
  · rintro ⟨open_, starts⟩ nul
    have left := scoring open_
    obtain ⟨same, result⟩ := context left
    rw [same] at nul starts
    have free : sub.lastScoring i ∈ l.running ∨
        (∀ j < sub.numStages, Life.Over id (.execute i j) s.log) ∧ ¬ l.Excused i := by
      rcases starts with ⟨tid, handle, launched⟩ | ⟨all, none, going⟩
      · have here : .launched tid id (sub.lastScoring i) handle ∈ l.ctx.log :=
          follows.log ▸ List.mem_filter.mpr ⟨launched, by simp [Event.about]⟩
        exact .inl (Life.running_of_launched reach here left)
      · exact .inr ⟨all, Life.not_excused (result ▸ none) (shape.same ▸ found) going⟩
    have before : ∀ j < sub.numStages, .execute i j ∉ l.todo := by
      intro j hj
      rcases free with running | ⟨all, _⟩
      · exact shape.before_running (Submission.leads_scoring wf hi (by omega)
          (Submission.scoredStage_last wf)) running (by simp)
      · exact (past (t := .execute i j) ⟨hi, hj⟩).mpr (all j hj)
    obtain ⟨os, clean⟩ := Life.clean_of_nul wf found apart reach
      (fun j o here => told j o (ended.mp here)) before left (free.imp_right And.right) nul
    exact ⟨os, ⟨clean.executed.all, events ▸ clean.executed.events⟩, clean.well, clean.within⟩
  · rintro os clean open_
    have left := scoring open_
    rw [(context left).1]
    refine Life.nul_of_clean wf found apart reach (fun j o here => ?_) left
      ⟨⟨clean.executed.all, events ▸ clean.executed.events⟩, clean.well, clean.within⟩
    obtain ⟨user, system⟩ := nonneg j o (ended.mp here)
    exact Int.add_nonneg user system

/-- One testdata, two stages, and the checker after them. -/
def chainSubmission : Submission := { stagesSubmission .normal with judgeBetweenStages := false }

/-- Until the checker is started; the second stage ends with `o`. -/
def chainRun (o : TaskOutcome) : List Label :=
  [.push chainSubmission 0, .wake] ++ runAlone 4 goodOutcome ++ runAlone 1 goodOutcome ++
    runAlone 2 o ++ [.dispatch 3 5 .empty]

/-- What `chainRun` comes to. -/
structure ChainRan (o : TaskOutcome) (s : State) (entry : SubmissionAndResult) : Prop where
  run : (judge (sampleConfig 1)).exec freshId .init (chainRun o) = some s
  enqueued : .enqueued 1 chainSubmission 0 ∈ s.log
  listed : s.submissionList.lookup 1 = some entry
  events : stageEvents 1 0 s.log = stagesInOrder [goodOutcome, o]
  start : AtScoring chainSubmission 1 0 (sampleItem false [0]) s entry
  nul : ((s.ctx entry).td 0).verdict = .nul

theorem chainRan {o : TaskOutcome} (run : ((judge (sampleConfig 1)).exec freshId .init (chainRun o)).map
      (fun s => decide (.enqueued 1 chainSubmission 0 ∈ s.log ∧
        .launched 3 1 (.scoring 0 1) 5 ∈ s.log ∧
        (s.log.all fun e => e.finalizedTask 1 0 != some (.scoring 0 1)) = true ∧
        stageEvents 1 0 s.log = stagesInOrder [goodOutcome, o] ∧
        (s.submissionList.lookup 1).map (fun entry => ((s.ctx entry).td 0).verdict) = some .nul)) =
      some true) : ∃ s entry, ChainRan o s entry := by
  obtain ⟨s, hs, seen⟩ := Option.map_eq_some_iff.mp run
  obtain ⟨enqueued, launched, idle, events, nul⟩ := of_decide_eq_true seen
  obtain ⟨entry, listed, nul⟩ := Option.map_eq_some_iff.mp nul
  refine ⟨s, entry, hs, enqueued, listed, events, ⟨?_, .inl ⟨_, _, launched⟩⟩, nul⟩
  rintro ⟨outcome, tid, here⟩
  have := List.all_eq_true.mp idle _ here
  cases this

theorem ChainRan.outcome {o o' : TaskOutcome} {s : State} {entry : SubmissionAndResult} {j : Nat}
    (ran : ChainRan o s entry) (ended : Life.Ended 1 (.execute 0 j) (some o') s.log) :
    o' ∈ [goodOutcome, o] :=
  List.mem_of_getElem? (mem_stagesInOrder.mp (ran.events ▸ stageEvents_of_ended ended))

theorem scoring_starts_nul_after_stages :
    ∃ s entry, ChainRan goodOutcome s entry ∧
      ∃ os, CleanRun (sampleConfig 1) chainSubmission 1 0 (sampleItem false [0]) s.log os := by
  obtain ⟨s, entry, ran⟩ := chainRan (o := goodOutcome) (by decide +kernel)
  have only {j : Nat} {o : TaskOutcome} (ended : Life.Ended 1 (.execute 0 j) (some o) s.log) :
      o = goodOutcome := by simpa using ran.outcome ended
  refine ⟨s, entry, ran, ?_⟩
  exact (scoring_starts_nul (reach_exec ran.run) ran.enqueued rfl rfl ran.listed
    (fun j o ended => only ended ▸ by decide +kernel)
    (fun j o ended untold => absurd untold.code (only ended ▸ by decide))).1 ran.start ran.nul

/-- The second stage leaves no result, and the scoring starts as if it had succeeded. -/
theorem scoring_starts_nul_unheard :
    ∃ s entry, ChainRan ⟨.zero, .empty⟩ s entry ∧
      (∀ j o, Life.Ended 1 (.execute 0 j) (some o) s.log →
        0 ≤ toUs (sampleConfig 1) o.res.utime ∧ 0 ≤ toUs (sampleConfig 1) o.res.stime) ∧
      ∀ os, ¬ CleanRun (sampleConfig 1) chainSubmission 1 0 (sampleItem false [0]) s.log os := by
  obtain ⟨s, entry, ran⟩ := chainRan (o := ⟨.zero, .empty⟩) (by decide +kernel)
  refine ⟨s, entry, ran, fun j o ended => ?_, fun os clean => ?_⟩
  · rcases List.mem_pair.mp (ran.outcome ended) with rfl | rfl
    · decide +kernel
    · decide +kernel
  · have here : .ended 1 ⟨.zero, .empty⟩ ∈ stagesInOrder os := by
      rw [← clean.executed.events, ran.events]
      decide
    have exited := (clean.well _ (List.mem_of_getElem? (mem_stagesInOrder.mp here))).exited
    cases exited

end TiojJudge.Judge
