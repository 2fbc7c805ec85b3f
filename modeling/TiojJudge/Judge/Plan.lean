import Mathlib.Data.List.Sort
import Mathlib.Logic.Relation
import TiojJudge.Judge.Stages
import TiojJudge.TaskGraph

/-!
# The task graph of a submission

`PushSubmission` builds a chain of execute and scoring tasks for each testdata,
ending in the summary, and links each compile task to the tasks that wait for
it.

* `Submission.planTasks`, `planLinks`: the tasks and the calls of `Link`;
* `Linked`: the same links, as a relation;
* `planNodes`: the entries for `task_list`, in the order they are inserted.
-/

namespace TiojJudge.Judge
open TaskGraph

/-- `std::min(std::max(1, sub.stages), 32)`. -/
def clampStages (stages : Int) : Int := min (max 1 stages) 32

def Submission.clamp (sub : Submission) : Submission := { sub with stages := clampStages sub.stages }

namespace Submission

def numStages (sub : Submission) : Nat := sub.stages.toNat

def numTds (sub : Submission) : Nat := sub.testdata.length

/-! ## The order of the testdata -/

/-- The first layer that lacks one of the groups; a layer is inside the ones
before it, so `std::lower_bound` finds it. -/
def layerOf (layers : List (Finset Int)) (groups : List Int) : Nat :=
  layers.findIdx fun layer => !groups.all (· ∈ layer)

/-- The layers, and the layer of each testdata, after one more testdata. -/
def assignLayer (sub : Submission) (acc : List (Finset Int) × List Nat) (td : Nat) :
    List (Finset Int) × List Nat :=
  let groups := ((sub.testdata[td]?).map TestdataItem.tdGroups).getD []
  let pos := layerOf acc.1 groups
  let layers := if pos = acc.1.length then acc.1 ++ [∅] else acc.1
  (layers.modify pos (· ∪ groups.toFinset), acc.2.set td pos)

/-- `td_order`: the testdata layer by layer when groups are skipped. -/
def tdOrder (sub : Submission) : List Nat :=
  let all := List.range sub.numTds
  if sub.skipGroup then
    let size : Nat → Nat := fun td => ((sub.testdata[td]?).map fun item => item.tdGroups.length).getD 0
    let scanOrder := all.insertionSort fun a b => size b ≤ size a
    let layers := (scanOrder.foldl sub.assignLayer ([], List.replicate sub.numTds 0)).2
    let invOrder := all.insertionSort fun a b : Nat => layers[a]?.getD 0 ≤ layers[b]?.getD 0
    all.map invOrder.idxOf
  else all

/-! ## Tasks and links -/

/-- The last scoring task of a testdata, `scorings[i].back()`. -/
def lastScoring (sub : Submission) (i : Nat) : Task := .scoring i (sub.numStages - 1)

/-- The first one, `scorings[i][0]`. -/
def firstScoring (sub : Submission) (i : Nat) : Task :=
  if sub.judgeBetweenStages then .scoring i 0 else sub.lastScoring i

/-- The tasks of testdata `i`, in the order they are created. -/
def chainTasks (sub : Submission) (i : Nat) : List Task :=
  if sub.judgeBetweenStages then
    (List.range sub.numStages).flatMap fun j => [.execute i j, .scoring i j]
  else (List.range sub.numStages).map (.execute i) ++ [sub.lastScoring i]

def chainLinks (sub : Submission) (i : Nat) : List (Task × Task) :=
  let stages := List.range sub.numStages
  if sub.judgeBetweenStages then
    stages.flatMap fun j =>
      (.execute i j, .scoring i j) :: if 0 < j then [(.scoring i (j - 1), .execute i j)] else []
  else
    stages.flatMap (fun j => if 0 < j then [(.execute i (j - 1), .execute i j)] else []) ++
      [(.execute i (sub.numStages - 1), sub.lastScoring i)]

def firstNonProbStage (sub : Submission) : Option Nat :=
  (List.range sub.numStages).find? fun j => (j : Int) ∉ sub.problemProgStages

def firstProbStage (sub : Submission) : Option Int := sub.problemProgStages.elems.head?

/-- One task for each testdata, or the summary when there is none. -/
def perTestdata (sub : Submission) (f : Nat → Task) : List Task :=
  if sub.numTds = 0 then [.summary] else (List.range sub.numTds).map f

/-- What a compile task is linked to; `none` when there is no such task. -/
def compileTargets (sub : Submission) : CompileSubtask → Option (List Task)
  | .userprog => sub.firstNonProbStage.map fun j => sub.perTestdata fun i => .execute i j
  | .probprog => sub.firstProbStage.map fun j => sub.perTestdata fun i => .execute i j.toNat
  | .specjudge =>
    if sub.specjudgeType ≠ .normal then some (sub.perTestdata sub.firstScoring) else none
  | .summary => if sub.summaryType = .custom then some [.summary] else none

def compileOrder : List CompileSubtask := [.userprog, .probprog, .specjudge, .summary]

def compileTasks (sub : Submission) : List Task :=
  (compileOrder.filter fun subtask => (sub.compileTargets subtask).isSome).map .compile

/-- The tasks in the order of their ids. -/
def planTasks (sub : Submission) : List Task :=
  .summary :: ((List.range sub.numTds).flatMap sub.chainTasks ++ sub.compileTasks)

def compileLinks (sub : Submission) (subtask : CompileSubtask) : List (Task × Task) :=
  ((sub.compileTargets subtask).getD []).map fun t => (.compile subtask, t)

def planLinks (sub : Submission) : List (Task × Task) :=
  (List.range sub.numTds).flatMap
    (fun i => sub.chainLinks i ++ [(sub.lastScoring i, .summary)]) ++
  compileOrder.flatMap sub.compileLinks

/-- `executes[i][first_prob_stage]` is there, for each testdata. -/
def probStageExists (sub : Submission) : Bool :=
  sub.numTds == 0 || sub.firstProbStage.all fun j => decide (0 ≤ j ∧ j < sub.stages)

end Submission

/-! ## Entries -/

/-- `TaskEntry` without its place in the graph. -/
structure TaskInfo where
  submissionInternalId : Int
  task : Task
  priority : Int
  taskOrder : Int
  deriving DecidableEq

/-- `TaskEntry::operator<`: the tuples `(priority, -submission_internal_id, -task_order)`. -/
def TaskInfo.less (x y : TaskInfo) : Bool :=
  decide (x.priority < y.priority ∨ x.priority = y.priority ∧
    (-x.submissionInternalId < -y.submissionInternalId ∨
      x.submissionInternalId = y.submissionInternalId ∧ -x.taskOrder < -y.taskOrder))

namespace Submission

def isExecute : Task → Bool
  | .execute .. => true
  | _ => false

def isScoring : Task → Bool
  | .scoring .. => true
  | _ => false

/-- The tasks in the order of the calls of `InsertTaskList`. -/
def insertOrder (sub : Submission) : List Task :=
  let chains := (List.range sub.numTds).flatMap sub.chainTasks
  sub.compileTasks ++ chains.filter isExecute ++ chains.filter isScoring ++ [.summary]

def taskOrder (sub : Submission) : Task → Int
  | .execute i _ | .scoring i _ => sub.tdOrder[i]?.getD 0
  | _ => 0

/-- The task's id when the ids from `base` on are free. -/
def taskId (sub : Submission) (base : Nat) (t : Task) : Nat := base + sub.planTasks.idxOf t

def planNode (sub : Submission) (id : Int) (base : Nat) (t : Task) : Node TaskInfo where
  id := sub.taskId base t
  data := ⟨id, t, sub.priority, sub.taskOrder t⟩
  indeg := sub.planLinks.countP fun l => l.2 = t
  edges := outEdges sub.planLinks (sub.taskId base) t

def planNodes (sub : Submission) (id : Int) (base : Nat) : List (Node TaskInfo) :=
  sub.insertOrder.map (sub.planNode id base)

/-! ## The plan as a relation -/

/-- Whether a testdata is scored after stage `j`. -/
def scoredStage (sub : Submission) (j : Nat) : Prop :=
  if sub.judgeBetweenStages then j < sub.numStages else j = sub.numStages - 1

inductive Linked (sub : Submission) : Task → Task → Prop where
  | score {i j} : i < sub.numTds → sub.scoredStage j → Linked sub (.execute i j) (.scoring i j)
  | resume {i j} : i < sub.numTds → sub.judgeBetweenStages = true → j + 1 < sub.numStages →
      Linked sub (.scoring i j) (.execute i (j + 1))
  | next {i j} : i < sub.numTds → sub.judgeBetweenStages = false → j + 1 < sub.numStages →
      Linked sub (.execute i j) (.execute i (j + 1))
  | finish {i} : i < sub.numTds → Linked sub (sub.lastScoring i) .summary
  | compile {subtask ts t} : sub.compileTargets subtask = some ts → t ∈ ts →
      Linked sub (.compile subtask) t

/-- Stages were clamped and the problem program has stages that exist. -/
structure WellFormed (sub : Submission) : Prop where
  stages : 1 ≤ sub.stages ∧ sub.stages ≤ 32
  probStage : sub.probStageExists = true

theorem clamp_stages (sub : Submission) : 1 ≤ sub.clamp.stages ∧ sub.clamp.stages ≤ 32 := by
  simp only [clamp, clampStages]
  omega

variable {sub : Submission}

theorem WellFormed.numStages (h : sub.WellFormed) :
    0 < sub.numStages ∧ sub.numStages ≤ 32 ∧ (sub.numStages : Int) = sub.stages := by
  have := h.stages
  simp only [Submission.numStages]
  omega

theorem mem_chainLinks {i : Nat} (wf : sub.WellFormed) {l : Task × Task} :
    l ∈ sub.chainLinks i ↔
      (∃ j, sub.scoredStage j ∧ l = (.execute i j, .scoring i j)) ∨
      (∃ j, sub.judgeBetweenStages = true ∧ j + 1 < sub.numStages ∧
        l = (.scoring i j, .execute i (j + 1))) ∨
      ∃ j, sub.judgeBetweenStages = false ∧ j + 1 < sub.numStages ∧
        l = (.execute i j, .execute i (j + 1)) := by
  cases between : sub.judgeBetweenStages with
  | true =>
    simp only [chainLinks, scoredStage, between, if_true, List.mem_flatMap, List.mem_range,
      List.mem_cons, true_and, Bool.true_eq_false, false_and, exists_false, or_false]
    constructor
    · rintro ⟨j, hj, rfl | h⟩
      · exact .inl ⟨j, hj, rfl⟩
      · split at h
        · obtain rfl := List.mem_singleton.mp h
          exact .inr ⟨j - 1, by omega, by rw [Nat.sub_add_cancel (by omega)]⟩
        · cases h
    · rintro (⟨j, hj, rfl⟩ | ⟨j, hj, rfl⟩)
      · exact ⟨j, hj, .inl rfl⟩
      · exact ⟨j + 1, hj, .inr (by simp)⟩
  | false =>
    have := wf.numStages
    simp only [chainLinks, scoredStage, between, if_false, Bool.false_eq_true, List.mem_append,
      List.mem_flatMap, List.mem_range, List.mem_singleton, true_and, false_and, exists_false,
      false_or, lastScoring]
    constructor
    · rintro (⟨j, hj, h⟩ | rfl)
      · split at h
        · obtain rfl := List.mem_singleton.mp h
          exact .inr ⟨j - 1, by omega, by rw [Nat.sub_add_cancel (by omega)]⟩
        · cases h
      · exact .inl ⟨_, rfl, rfl⟩
    · rintro (⟨j, rfl, rfl⟩ | ⟨j, hj, rfl⟩)
      · exact .inr rfl
      · exact .inl ⟨j + 1, hj, by simp⟩

theorem mem_planLinks (wf : sub.WellFormed) {a b : Task} :
    (a, b) ∈ sub.planLinks ↔ Linked sub a b := by
  simp only [planLinks, List.mem_append, List.mem_flatMap, List.mem_range, mem_chainLinks wf,
    List.mem_singleton, compileLinks, List.mem_map]
  constructor
  · rintro (⟨i, hi, (⟨j, hj, h⟩ | ⟨j, hb, hj, h⟩ | ⟨j, hb, hj, h⟩) | h⟩ | ⟨subtask, _, t, ht, h⟩)
    · cases h; exact .score hi hj
    · cases h; exact .resume hi hb hj
    · cases h; exact .next hi hb hj
    · cases h; exact .finish hi
    · cases h
      cases targets : sub.compileTargets subtask with
      | none => simp [targets] at ht
      | some ts => exact .compile targets (by simpa [targets] using ht)
  · intro h
    cases h with
    | score hi hj => exact .inl ⟨_, hi, .inl (.inl ⟨_, hj, rfl⟩)⟩
    | resume hi hb hj => exact .inl ⟨_, hi, .inl (.inr (.inl ⟨_, hb, hj, rfl⟩))⟩
    | next hi hb hj => exact .inl ⟨_, hi, .inl (.inr (.inr ⟨_, hb, hj, rfl⟩))⟩
    | finish hi => exact .inl ⟨_, hi, .inr rfl⟩
    | @compile subtask _ _ targets ht =>
      refine .inr ⟨subtask, ?_, _, by simpa [targets] using ht, rfl⟩
      cases subtask <;> simp [compileOrder]

/-- The tasks of the plan. -/
def Planned (sub : Submission) : Task → Prop
  | .compile subtask => (sub.compileTargets subtask).isSome
  | .execute i j => i < sub.numTds ∧ j < sub.numStages
  | .scoring i j => i < sub.numTds ∧ sub.scoredStage j
  | .summary => True

theorem scoredStage_lt (wf : sub.WellFormed) {j : Nat} (h : sub.scoredStage j) :
    j < sub.numStages := by
  have := wf.numStages
  unfold scoredStage at h
  split at h <;> omega

theorem mem_chainTasks {i : Nat} {t : Task} :
    t ∈ sub.chainTasks i ↔
      (∃ j, j < sub.numStages ∧ t = .execute i j) ∨ ∃ j, sub.scoredStage j ∧ t = .scoring i j := by
  cases between : sub.judgeBetweenStages with
  | true =>
    simp only [chainTasks, scoredStage, between, if_true, List.mem_flatMap, List.mem_range,
      List.mem_cons, List.not_mem_nil, or_false, and_or_left, exists_or]
  | false =>
    simp only [chainTasks, scoredStage, between, if_false, Bool.false_eq_true, List.mem_append,
      List.mem_map, List.mem_range, List.mem_singleton, lastScoring, exists_eq_left, eq_comm]

theorem mem_planTasks {t : Task} : t ∈ sub.planTasks ↔ sub.Planned t := by
  simp only [planTasks, List.mem_cons, List.mem_append, List.mem_flatMap, List.mem_range,
    mem_chainTasks, compileTasks, List.mem_map, List.mem_filter]
  cases t with
  | compile subtask => cases subtask <;> simp [Planned, compileOrder]
  | execute i j => simp [Planned]
  | scoring i j => simp [Planned]
  | summary => simp [Planned]

theorem nodup_chainTasks (i : Nat) : (sub.chainTasks i).Nodup := by
  unfold chainTasks
  split
  · rw [List.nodup_flatMap]
    refine ⟨fun j _ => by simp, (List.nodup_range).imp fun {j k} ne => ?_⟩
    simp [Function.onFun, List.disjoint_left, ne]
  · refine List.nodup_append.mpr ⟨?_, by simp, ?_⟩
    · exact List.nodup_range.map fun j k h => by simpa using h
    · simp [lastScoring]

theorem nodup_planTasks (sub : Submission) : sub.planTasks.Nodup := by
  have chains : ((List.range sub.numTds).flatMap sub.chainTasks).Nodup := by
    rw [List.nodup_flatMap]
    refine ⟨fun i _ => nodup_chainTasks i, List.nodup_range.imp fun {i k} ne => ?_⟩
    simp only [Function.onFun, List.disjoint_left, mem_chainTasks]
    rintro t (⟨j, _, rfl⟩ | ⟨j, _, rfl⟩) <;> simp [ne]
  have compiles : sub.compileTasks.Nodup := by
    refine List.Nodup.map (fun a b h => by simpa using h) (List.Nodup.filter _ ?_)
    simp [compileOrder]
  refine List.nodup_cons.mpr ⟨?_, List.nodup_append.mpr ⟨chains, compiles, ?_⟩⟩
  · simp [mem_chainTasks, compileTasks]
  · rintro t ht _ hc rfl
    obtain ⟨i, _, hi⟩ := List.mem_flatMap.mp ht
    obtain ⟨subtask, _, rfl⟩ := List.mem_map.mp hc
    simp [mem_chainTasks] at hi

theorem insertOrder_perm (sub : Submission) : sub.insertOrder.Perm sub.planTasks := by
  have kinds : ∀ t ∈ (List.range sub.numTds).flatMap sub.chainTasks,
      isScoring t = !isExecute t := by
    intro t ht
    obtain ⟨i, _, hi⟩ := List.mem_flatMap.mp ht
    rcases mem_chainTasks.mp hi with ⟨j, _, rfl⟩ | ⟨j, _, rfl⟩ <;> rfl
  rw [insertOrder, planTasks, List.filter_congr kinds, List.append_assoc sub.compileTasks]
  refine (List.perm_append_singleton _ _).trans (.cons _ ?_)
  exact ((List.filter_append_perm _ _).append_left _).trans List.perm_append_comm

theorem mem_perTestdata {f : Nat → Task} {t : Task} :
    t ∈ sub.perTestdata f ↔
      (sub.numTds = 0 ∧ t = .summary) ∨ ∃ i, i < sub.numTds ∧ t = f i := by
  unfold perTestdata
  split
  · rename_i none
    simp [none]
  · rename_i some
    simp [some, eq_comm]

theorem firstNonProbStage_some {j : Nat} (h : sub.firstNonProbStage = some j) :
    j < sub.numStages ∧ (j : Int) ∉ sub.problemProgStages ∧
      ∀ k < j, (k : Int) ∈ sub.problemProgStages := by
  have first := List.find?_range_eq_some.mp h
  simp only [decide_eq_true_eq, List.mem_range, Bool.not_eq_true', decide_eq_false_iff_not,
    not_not] at first
  exact ⟨first.2.1, first.1, first.2.2⟩

theorem firstProbStage_some {j : Int} (h : sub.firstProbStage = some j) :
    j ∈ sub.problemProgStages ∧ ∀ k ∈ sub.problemProgStages, j ≤ k := by
  cases sorted : sub.problemProgStages.elems with
  | nil => simp [firstProbStage, sorted] at h
  | cons a as =>
    obtain rfl : a = j := by simpa [firstProbStage, sorted] using h
    have order := sub.problemProgStages.sorted
    rw [sorted, List.pairwise_cons] at order
    simp only [OrdSet.mem_def, sorted, List.mem_cons, true_or, true_and]
    rintro k (rfl | hk)
    · exact le_rfl
    · exact (order.1 k hk).le

theorem probStage_bounds (wf : sub.WellFormed) (nonempty : 0 < sub.numTds) {j : Int}
    (h : sub.firstProbStage = some j) : 0 ≤ j ∧ j.toNat < sub.numStages := by
  have exist := wf.probStage
  simp only [probStageExists, h, Option.all_some, Bool.or_eq_true, beq_iff_eq,
    decide_eq_true_eq] at exist
  simp only [numStages]
  omega

theorem scoredStage_last (wf : sub.WellFormed) : sub.scoredStage (sub.numStages - 1) := by
  have := wf.numStages
  unfold scoredStage
  split <;> omega

theorem planned_lastScoring (wf : sub.WellFormed) {i : Nat} (hi : i < sub.numTds) :
    sub.Planned (sub.lastScoring i) :=
  ⟨hi, scoredStage_last wf⟩

theorem planned_firstScoring (wf : sub.WellFormed) {i : Nat} (hi : i < sub.numTds) :
    sub.Planned (sub.firstScoring i) := by
  unfold firstScoring
  split
  · rename_i between
    exact ⟨hi, by simpa [scoredStage, between] using wf.numStages.1⟩
  · exact planned_lastScoring wf hi

/-- Every link goes up in rank, for at most 32 stages. -/
def rank : Task → Nat
  | .compile _ => 0
  | .execute _ j => 2 * j + 1
  | .scoring _ j => 2 * j + 2
  | .summary => 66

/-- Compile tasks are linked to planned tasks of the other kinds. -/
theorem target_planned (wf : sub.WellFormed) {subtask : CompileSubtask} {ts : List Task} {t : Task}
    (h : sub.compileTargets subtask = some ts) (ht : t ∈ ts) : sub.Planned t ∧ 0 < rank t := by
  cases subtask with
  | userprog =>
    obtain ⟨j, first, rfl⟩ := Option.map_eq_some_iff.mp h
    rcases mem_perTestdata.mp ht with ⟨_, rfl⟩ | ⟨i, hi, rfl⟩
    · exact ⟨trivial, by simp [rank]⟩
    · exact ⟨⟨hi, (firstNonProbStage_some first).1⟩, by simp [rank]⟩
  | probprog =>
    obtain ⟨j, first, rfl⟩ := Option.map_eq_some_iff.mp h
    rcases mem_perTestdata.mp ht with ⟨_, rfl⟩ | ⟨i, hi, rfl⟩
    · exact ⟨trivial, by simp [rank]⟩
    · exact ⟨⟨hi, (probStage_bounds wf (Nat.zero_lt_of_lt hi) first).2⟩, by simp [rank]⟩
  | specjudge =>
    obtain ⟨_, h⟩ := Option.ite_none_right_eq_some.mp h
    cases h
    rcases mem_perTestdata.mp ht with ⟨_, rfl⟩ | ⟨i, hi, rfl⟩
    · exact ⟨trivial, by simp [rank]⟩
    · refine ⟨planned_firstScoring wf hi, ?_⟩
      unfold firstScoring lastScoring
      split <;> simp [rank]
  | summary =>
    obtain ⟨_, h⟩ := Option.ite_none_right_eq_some.mp h
    cases h
    obtain rfl := List.mem_singleton.mp ht
    exact ⟨trivial, by simp [rank]⟩

theorem compileTargets_nonempty {subtask : CompileSubtask} {ts : List Task}
    (h : sub.compileTargets subtask = some ts) : ∃ t, t ∈ ts := by
  have some_ (f : Nat → Task) : ∃ t, t ∈ sub.perTestdata f := by
    by_cases none : sub.numTds = 0
    · exact ⟨_, mem_perTestdata.mpr (.inl ⟨none, rfl⟩)⟩
    · exact ⟨_, mem_perTestdata.mpr (.inr ⟨0, Nat.pos_of_ne_zero none, rfl⟩)⟩
  cases subtask with
  | userprog | probprog =>
    obtain ⟨_, _, rfl⟩ := Option.map_eq_some_iff.mp h
    exact some_ _
  | specjudge =>
    obtain ⟨_, h⟩ := Option.ite_none_right_eq_some.mp h
    cases h
    exact some_ _
  | summary =>
    obtain ⟨_, h⟩ := Option.ite_none_right_eq_some.mp h
    cases h
    exact ⟨_, List.mem_singleton.mpr rfl⟩

theorem Linked.source {a b : Task} (wf : sub.WellFormed) (h : sub.Linked a b) :
    sub.Planned a := by
  cases h with
  | score hi hj => exact ⟨hi, scoredStage_lt wf hj⟩
  | resume hi hb hj => exact ⟨hi, by simp only [scoredStage, hb, if_true]; omega⟩
  | next hi _ hj => exact ⟨hi, by omega⟩
  | finish hi => exact planned_lastScoring wf hi
  | compile targets _ => simp [Planned, targets]

theorem Linked.target {a b : Task} (wf : sub.WellFormed) (h : sub.Linked a b) :
    sub.Planned b := by
  cases h with
  | score hi hj => exact ⟨hi, hj⟩
  | resume hi _ hj => exact ⟨hi, hj⟩
  | next hi _ hj => exact ⟨hi, hj⟩
  | finish => trivial
  | compile targets ht => exact (target_planned wf targets ht).1

theorem Linked.rank_lt {a b : Task} (wf : sub.WellFormed) (h : sub.Linked a b) :
    rank a < rank b := by
  have bound := wf.numStages.2.1
  cases h with
  | finish => simp only [rank, lastScoring]; omega
  | compile targets ht => exact (target_planned wf targets ht).2
  | score | resume | next => simp only [rank]; omega

/-! ## What waits for what -/

/-- `b` cannot start before `a` is finished. -/
abbrev Leads (sub : Submission) : Task → Task → Prop := Relation.ReflTransGen sub.Linked

theorem Leads.rank_le {a b : Task} (wf : sub.WellFormed) (h : sub.Leads a b) : rank a ≤ rank b := by
  induction h with
  | refl => exact le_rfl
  | tail _ link ih => exact ih.trans (link.rank_lt wf).le

theorem Leads.rank_lt {a b : Task} (wf : sub.WellFormed) (h : sub.Leads a b) (other : a ≠ b) :
    rank a < rank b := by
  rcases Relation.ReflTransGen.cases_head h with same | ⟨c, link, rest⟩
  · exact absurd same other
  · exact (link.rank_lt wf).trans_le (Leads.rank_le wf rest)

/-- The tasks of a testdata are listed in the order of their stages. -/
theorem chainTasks_sorted (wf : sub.WellFormed) (i : Nat) :
    (sub.chainTasks i).Pairwise fun a b => rank a < rank b := by
  unfold chainTasks
  split
  · refine List.pairwise_flatMap.mpr ⟨fun j _ => by simp [rank], ?_⟩
    refine List.pairwise_lt_range.imp fun {j k} less => ?_
    simp only [List.mem_cons, List.not_mem_nil, or_false, rank, forall_eq_or_imp, forall_eq]
    omega
  · refine List.pairwise_append.mpr ⟨?_, List.pairwise_singleton _ _, ?_⟩
    · refine List.pairwise_map.mpr (List.pairwise_lt_range.imp fun {j k} less => ?_)
      simp only [rank]
      omega
    · have := wf.numStages
      simp only [List.mem_map, List.mem_range, List.mem_singleton, lastScoring]
      rintro _ ⟨j, hj, rfl⟩ _ rfl
      simp only [rank]
      omega

theorem leads_execute {i j k : Nat} (hi : i < sub.numTds) (hjk : j ≤ k) (hk : k < sub.numStages) :
    sub.Leads (.execute i j) (.execute i k) := by
  induction k with
  | zero =>
    obtain rfl : j = 0 := by omega
    exact .refl
  | succ k ih =>
    rcases Nat.eq_or_lt_of_le hjk with rfl | less
    · exact .refl
    · have before := ih (by omega) (by omega)
      cases between : sub.judgeBetweenStages with
      | true =>
        have scored : sub.scoredStage k := by
          simp only [scoredStage, between, if_true]
          omega
        exact (before.tail (.score hi scored)).tail (.resume hi between hk)
      | false => exact before.tail (.next hi between hk)

theorem leads_scoring (wf : sub.WellFormed) {i j k : Nat} (hi : i < sub.numTds) (hjk : j ≤ k)
    (hk : sub.scoredStage k) : sub.Leads (.execute i j) (.scoring i k) :=
  (leads_execute hi hjk (scoredStage_lt wf hk)).tail (.score hi hk)

/-- Scorings of one testdata wait for those of the stages before. -/
theorem leads_scorings (wf : sub.WellFormed) {i j k : Nat} (hi : i < sub.numTds)
    (hj : sub.scoredStage j) (hk : sub.scoredStage k) (hjk : j ≤ k) :
    sub.Leads (.scoring i j) (.scoring i k) := by
  rcases Nat.eq_or_lt_of_le hjk with rfl | less
  · exact .refl
  · cases between : sub.judgeBetweenStages with
    | true =>
      have bound := scoredStage_lt wf hk
      exact (Relation.ReflTransGen.single (.resume hi between (by omega))).trans
        (leads_scoring wf hi less hk)
    | false =>
      simp only [scoredStage, between, Bool.false_eq_true, if_false] at hj hk
      omega

theorem leads_summary (wf : sub.WellFormed) {t : Task} (h : sub.Planned t) :
    sub.Leads t .summary := by
  have chain {i : Nat} (hi : i < sub.numTds) {j : Nat} (hj : j < sub.numStages) :
      sub.Leads (.execute i j) .summary :=
    (leads_scoring wf hi (by omega) (scoredStage_last wf)).tail (.finish hi)
  have scorings {i : Nat} (hi : i < sub.numTds) {j : Nat} (hj : sub.scoredStage j) :
      sub.Leads (.scoring i j) .summary := by
    have bound := scoredStage_lt wf hj
    exact (leads_scorings wf hi hj (scoredStage_last wf) (by omega)).tail (.finish hi)
  cases t with
  | summary => exact .refl
  | execute i j => exact chain h.1 h.2
  | scoring i j => exact scorings h.1 h.2
  | compile subtask =>
    obtain ⟨ts, targets⟩ := Option.isSome_iff_exists.mp h
    obtain ⟨t, ht⟩ : ∃ t, t ∈ ts := compileTargets_nonempty targets
    refine .head (.compile targets ht) ?_
    have planned := target_planned wf targets ht
    cases t with
    | summary => exact .refl
    | execute i j => exact chain planned.1.1 planned.1.2
    | scoring i j => exact scorings planned.1.1 planned.1.2
    | compile => exact absurd planned.2 (Nat.lt_irrefl _)

/-- The program that stage `j` runs. -/
def program (sub : Submission) (j : Nat) : CompileSubtask :=
  if (j : Int) ∈ sub.problemProgStages then .probprog else .userprog

/-- An execution waits for the compile task of its program. -/
theorem program_leads (wf : sub.WellFormed) {i j : Nat} (hi : i < sub.numTds)
    (hj : j < sub.numStages) : sub.Planned (.compile (sub.program j)) ∧
      sub.Leads (.compile (sub.program j)) (.execute i j) := by
  have nonempty : sub.numTds ≠ 0 := by omega
  unfold program
  split
  · rename_i prob
    have exists_ : ∃ k, sub.firstProbStage = some k := by
      cases sorted : sub.problemProgStages.elems with
      | nil => simp [OrdSet.mem_def, sorted] at prob
      | cons k ks => exact ⟨k, by simp [firstProbStage, sorted]⟩
    obtain ⟨k, first⟩ := exists_
    have least := (firstProbStage_some first).2 _ prob
    have bounds := probStage_bounds wf (by omega) first
    have targets : sub.compileTargets .probprog =
        some (sub.perTestdata fun i => .execute i k.toNat) := by
      simp [compileTargets, first]
    refine ⟨by simp [Planned, targets],
      .head (.compile targets (mem_perTestdata.mpr (.inr ⟨i, hi, rfl⟩)))
        (leads_execute hi (by omega) hj)⟩
  · rename_i user
    cases first : sub.firstNonProbStage with
    | none =>
      have all := List.find?_eq_none.mp first j (List.mem_range.mpr hj)
      simp [user] at all
    | some k =>
      have before : k ≤ j := by
        by_contra later
        exact user ((firstNonProbStage_some first).2.2 j (by omega))
      have targets : sub.compileTargets .userprog =
          some (sub.perTestdata fun i => .execute i k) := by
        simp [compileTargets, first]
      exact ⟨by simp [Planned, targets],
        .head (.compile targets (mem_perTestdata.mpr (.inr ⟨i, hi, rfl⟩)))
          (leads_execute hi before hj)⟩

theorem specjudge_leads (wf : sub.WellFormed) {i j : Nat} (hi : i < sub.numTds)
    (hj : sub.scoredStage j) (type : sub.specjudgeType ≠ .normal) :
    sub.Planned (.compile .specjudge) ∧
      sub.Leads (.compile .specjudge) (.scoring i j) := by
  have targets : sub.compileTargets .specjudge = some (sub.perTestdata sub.firstScoring) := by
    simp [compileTargets, type]
  have link := Linked.compile targets (mem_perTestdata.mpr (.inr ⟨i, hi, rfl⟩))
  refine ⟨by simp [Planned, targets], .head link ?_⟩
  have last := scoredStage_lt wf hj
  cases between : sub.judgeBetweenStages with
  | true =>
    have first : sub.scoredStage 0 := by
      simp only [scoredStage, between, if_true]
      omega
    simpa [firstScoring, between] using leads_scorings wf hi first hj (by omega)
  | false =>
    obtain rfl : j = sub.numStages - 1 := by
      simpa [scoredStage, between] using hj
    simp only [firstScoring, between, lastScoring]
    exact .refl

/-! ## The nodes -/

theorem taskId_inj {base : Nat} {a b : Task} (ha : sub.Planned a) :
    sub.taskId base a = sub.taskId base b ↔ a = b := by
  simp [taskId, List.idxOf_inj (mem_planTasks.mpr ha)]

theorem planned_of_mem {a : Task} (h : a ∈ sub.insertOrder) : sub.Planned a :=
  mem_planTasks.mp ((insertOrder_perm sub).mem_iff.mp h)

theorem mem_planNodes {id : Int} {base : Nat} {n : Node TaskInfo} :
    n ∈ sub.planNodes id base ↔ ∃ t, sub.Planned t ∧ sub.planNode id base t = n := by
  simp only [planNodes, List.mem_map, (insertOrder_perm sub).mem_iff, mem_planTasks]

theorem planNodes_distinct (id : Int) (base : Nat) :
    ((sub.planNodes id base).map Node.id).Nodup := by
  rw [planNodes, List.map_map]
  refine List.Nodup.map_on (fun a ha b _ same => ?_)
    ((insertOrder_perm sub).nodup_iff.mpr (nodup_planTasks sub))
  exact (taskId_inj (planned_of_mem ha)).mp same

theorem planNodes_closed (wf : sub.WellFormed) (id : Int) (base : Nat) :
    ∀ n ∈ sub.planNodes id base, ∀ e ∈ n.edges, ∃ m ∈ sub.planNodes id base, m.id = e := by
  intro n hn e he
  obtain ⟨t, _, rfl⟩ := mem_planNodes.mp hn
  simp only [planNode, outEdges, List.mem_map, List.mem_filter, decide_eq_true_eq] at he
  obtain ⟨⟨a, b⟩, ⟨link, rfl⟩, rfl⟩ := he
  exact ⟨_, mem_planNodes.mpr ⟨b, ((mem_planLinks wf).mp link).target wf, rfl⟩, rfl⟩

theorem planNodes_indeg (wf : sub.WellFormed) (id : Int) (base : Nat) :
    ∀ n ∈ sub.planNodes id base, n.indeg = inCount (sub.planNodes id base) n.id := by
  intro n hn
  obtain ⟨t, _, rfl⟩ := mem_planNodes.mp hn
  have sources : ∀ l ∈ sub.planLinks, l.1 ∈ sub.insertOrder := fun l hl =>
    (insertOrder_perm sub).mem_iff.mpr
      (mem_planTasks.mpr (((mem_planLinks wf).mp hl).source wf))
  have counted := @sum_outEdges _ _ sub.planLinks (sub.taskId base) sub.insertOrder t
    ((insertOrder_perm sub).nodup_iff.mpr (nodup_planTasks sub)) sources
    (fun l hl => (taskId_inj (((mem_planLinks wf).mp hl).target wf)).mp)
  simp only [inCount, planNodes, List.map_map, Function.comp_def, planNode, counted]

theorem planNodes_bounds {id : Int} {base : Nat} {n : Node TaskInfo}
    (h : n ∈ sub.planNodes id base) : base ≤ n.id ∧ n.id < base + sub.planTasks.length := by
  obtain ⟨t, ht, rfl⟩ := mem_planNodes.mp h
  have := List.idxOf_lt_length_iff.mpr (mem_planTasks.mpr ht)
  simp only [planNode, taskId]
  omega

/-- The ids from `base` on, without a gap. -/
theorem mem_planNodes_ids {id : Int} {base tid : Nat} :
    tid ∈ (sub.planNodes id base).map Node.id ↔
      base ≤ tid ∧ tid < base + sub.planTasks.length := by
  constructor
  · intro h
    obtain ⟨n, hn, rfl⟩ := List.mem_map.mp h
    exact planNodes_bounds hn
  · rintro ⟨low, high⟩
    have inside : tid - base < sub.planTasks.length := by omega
    refine List.mem_map.mpr ⟨sub.planNode id base sub.planTasks[tid - base],
      mem_planNodes.mpr ⟨_, mem_planTasks.mp (List.getElem_mem inside), rfl⟩, ?_⟩
    simp only [planNode, taskId, (nodup_planTasks sub).idxOf_getElem]
    omega

theorem mem_edges (wf : sub.WellFormed) {id : Int} {base : Nat} {a b : Task} :
    sub.taskId base b ∈ (sub.planNode id base a).edges ↔ sub.Linked a b := by
  simp only [planNode, outEdges, List.mem_map, List.mem_filter, decide_eq_true_eq]
  constructor
  · rintro ⟨⟨_, c⟩, ⟨link, rfl⟩, same⟩
    rw [(taskId_inj (((mem_planLinks wf).mp link).target wf)).mp same] at link
    exact (mem_planLinks wf).mp link
  · exact fun link => ⟨(a, b), ⟨(mem_planLinks wf).mpr link, rfl⟩, rfl⟩

end Submission

end TiojJudge.Judge
