import TiojJudge.Judge.Ending
import TiojJudge.Judge.Totals
import TiojJudge.Receiver.Frame
import TiojJudge.Receiver.Threads

/-!
# From frames to judged submissions

What `DealOneSubmission` pushes for a frame, and the receiving threads beside a
`WorkLoop` that judges nothing else.

* `Received.submission`: what is pushed;
* `task_minimum`: a task gets the least score at its positions;
* `fromFrames`, `Fed`: the runs that are looked at, and their invariant;
* `frames_judged`: no step fails, there is no run without an end, and where nothing can
  be done all frames are through.
-/

namespace TiojJudge.Receiver
open JsonTree Machine
open Judge (Submission SpecjudgeType SummaryType TestdataResult GroupsIndexed orderly)

/-! ## What is pushed -/

/-- The enumeration `SpecjudgeType`. -/
def specjudgeTypes : List SpecjudgeType :=
  [.normal, .specjudgeOld, .specjudgeNew, .specjudgePolygon, .specjudgeKattis, .skip]

/-- None for a number without a name. -/
def Scoring.specjudgeType (scoring : Scoring) : Option SpecjudgeType :=
  if scoring.type < 0 then none else specjudgeTypes[scoring.type.toNat]?

def Problem.summaryType (p : Problem) : Option SummaryType :=
  match p.summary with
  | none => some .none
  | some (type, _) => if type = 1 then some .custom else none

/-- The internal id comes with the push. -/
def Received.submission (r : Received) : Option Submission := do
  let specjudgeType ← r.problem.scoring.specjudgeType
  let summaryType ← r.problem.summaryType
  return {
    submissionInternalId := 0
    submissionId := r.header.submissionId
    priority := r.header.priority
    specjudgeType := specjudgeType
    summaryType := summaryType
    stages := r.problem.stages
    problemProgStages := r.problem.problemProgStages
    judgeBetweenStages := r.problem.scoring.checker.any Checker.judgeBetweenStages
    judgeAbnormallyTerminated := r.problem.scoring.checker.any Checker.judgeAbnormallyTerminated
    -- the constructor sets it
    specjudgeReAsWa := r.problem.scoring.checker.all Checker.reAsWa
    sandboxStrict := r.problem.sandboxStrict
    testdata := r.testdata
    groupScore := r.groupScore
    skipGroup := r.header.skipGroup
    reporter := serverReporter
    reportIntermediateStage := false }

section Submissions

variable {reading : Reading} {data : JsonTree} {r : Received} {sub : Submission}

theorem submission_parts (h : r.submission = some sub) :
    sub.submissionId = r.header.submissionId ∧ sub.stages = r.problem.stages ∧
      sub.problemProgStages = r.problem.problemProgStages ∧ sub.testdata = r.testdata ∧
      sub.groupScore = r.groupScore := by
  simp only [Received.submission, Option.bind_eq_bind, Option.bind_eq_some_iff, Option.pure_def,
    Option.some.injEq] at h
  obtain ⟨_, _, _, _, rfl⟩ := h
  exact ⟨rfl, rfl, rfl, rfl, rfl⟩

theorem groupsIndexed_of_frame (wf : r.WellFormed reading) (h : r.submission = some sub) :
    GroupsIndexed sub := by
  obtain ⟨_, _, _, testdata, groupScore⟩ := submission_parts h
  intro item hi _
  rw [testdata] at hi
  rw [groupScore]
  exact (wf.groups item hi).2

theorem probStageExists_of_frame (wf : r.WellFormed reading) (h : r.submission = some sub) :
    sub.clamp.probStageExists = true := by
  obtain ⟨_, stages, progStages, _⟩ := submission_parts h
  have bounds := wf.problem.stages
  have clamped : sub.clamp.stages = r.problem.stages := by
    change Judge.clampStages sub.stages = _
    rw [stages, Judge.clampStages]
    omega
  have first : sub.clamp.firstProbStage = r.problem.problemProgStages.elems.head? := by
    change sub.problemProgStages.elems.head? = _
    rw [progStages]
  unfold Judge.Submission.probStageExists
  rw [first, clamped, Bool.or_eq_true]
  right
  cases here : r.problem.problemProgStages.elems with
  | nil => rfl
  | cons s rest =>
    have inside := wf.problem.progStages s (here ▸ List.mem_cons_self)
    simpa using inside

/-- The scores at these positions, of the testdata that count. -/
def scoresAt (sub : Submission) (tds : List TestdataResult) (positions : List Nat) : List Int :=
  positions.filterMap fun p => do
    let td ← tds[p]?
    let item ← sub.testdata[p]?
    if item.ignoreVerdict then none else some td.score

/-- In the loop of `FinalizeSummary` a task gets the least of the scores at its positions. -/
theorem task_minimum {tds : List TestdataResult} {scores : List Int}
    (parsed : parseFrame reading data = some r) (h : r.submission = some sub)
    (made : Judge.subtaskScores sub tds = .ok scores) :
    ∃ tasks, data.fieldAs (getEach (parseTask reading sub.testdata.length)) "tasks" = some tasks ∧
      sub.groupScore = tasks.map Prod.snd ∧
      scores = tasks.map fun task => (scoresAt sub tds task.1).foldl min Judge.kInfScore := by
  obtain ⟨_, _, _, testdata, groupScore⟩ := submission_parts h
  obtain ⟨tasks, read, weights, count⟩ := parseFrame_tasks parsed
  rw [← testdata] at read count
  rw [← groupScore] at weights
  have size : sub.groupScore.length = tasks.length := by rw [weights, List.length_map]
  refine ⟨tasks, read, weights, List.ext_getElem? fun g => ?_⟩
  by_cases inside : g < sub.groupScore.length
  · have here : tasks[g]? = some tasks[g] := List.getElem?_eq_getElem (size ▸ inside)
    rw [Judge.groupScores_eq made inside, List.getElem?_map, here, Option.map_some, Option.some.injEq]
    have listed {p : Nat} {item : Judge.TestdataItem} (hp : sub.testdata[p]? = some item) :
        (g : Int) ∈ item.tdGroups ↔ p ∈ tasks[g].1 := by
      rw [← List.count_pos_iff, count p item hp g, List.getElem?_map, here, Option.map_some,
        Option.getD_some, List.count_pos_iff]
    have same (y : Int) : y ∈ Judge.countedScores sub tds g ↔ y ∈ scoresAt sub tds tasks[g].1 := by
      rw [Judge.mem_countedScores]
      constructor
      · rintro ⟨q, hq, counts, mem, rfl⟩
        obtain ⟨p, hp⟩ := List.mem_iff_getElem?.mp hq
        obtain ⟨htd, hitem⟩ := List.getElem?_zip_eq_some.mp hp
        exact List.mem_filterMap.mpr ⟨p, (listed hitem).mp mem, by simp [htd, hitem, counts]⟩
      · intro hy
        obtain ⟨p, hp, value⟩ := List.mem_filterMap.mp hy
        simp only [Option.bind_eq_bind, Option.bind_eq_some_iff] at value
        obtain ⟨td, htd, item, hitem, value⟩ := value
        split at value
        · cases value
        · rename_i counts
          cases value
          have pair : (tds.zip sub.testdata)[p]? = some (td, item) :=
            List.getElem?_zip_eq_some.mpr ⟨htd, hitem⟩
          exact ⟨_, List.mem_of_getElem? pair, Bool.eq_false_iff.mpr counts, (listed hitem).mpr hp, rfl⟩
    apply eq_of_forall_le_iff
    intro x
    simp only [Judge.sentinelMinimum, Judge.le_foldl_min, same]
  · have short := Judge.subtaskScores_length made
    rw [List.getElem?_eq_none (by omega), List.getElem?_eq_none (by simp; omega)]

end Submissions

def sampleReading : Reading := ⟨Rat.floor, 2⟩

/-- A submission with these groups of testdata, and tasks that weigh the same. -/
def sampleReceived (id : Int) (groups : List (List Int)) (tasks : Nat) : Received where
  header := ⟨id, 0, 0, .gccCpp17, 0, false, ""⟩
  user := ⟨1, "user", ""⟩
  problem := ⟨1, true, 1, ∅, none, .normal [], none, none⟩
  processLimit := 1
  td := groups.map fun _ => TestdataStore.plain 1 0
  testdata := groups.map (Judge.sampleItem false)
  groupScore := List.replicate tasks 100000000

theorem sampleReceived_wellFormed {id : Int} {groups : List (List Int)} {tasks : Nat}
    (fits : FitsInt id) (few : groups.length < 2 ^ 31)
    (sorted : ∀ gs ∈ groups, gs.Pairwise (· ≤ ·) ∧ ∀ g ∈ gs, 0 ≤ g ∧ g < tasks) :
    (sampleReceived id groups tasks).WellFormed sampleReading where
  header := ⟨fits, fitsInt_zero, fitsLong_zero, fitsLong_zero⟩
  user := rfl
  problem := ⟨rfl, of_decide_eq_true rfl, nofun, iff_of_true rfl rfl, trivial, nofun, nofun⟩
  processLimit := rfl
  td := by simp [sampleReceived]
  rows := by
    intro item hi
    obtain ⟨_, _, rfl⟩ := List.mem_map.mp hi
    exact ⟨rfl, rfl⟩
  limits := by
    intro item hi
    obtain ⟨_, _, rfl⟩ := List.mem_map.mp hi
    exact ⟨rfl, ⟨rfl, le_rfl⟩, ⟨rfl, le_rfl⟩, ⟨rfl, of_decide_eq_true rfl⟩, fun _ => rfl⟩
  groups := by
    intro item hi
    obtain ⟨gs, here, rfl⟩ := List.mem_map.mp hi
    simpa [sampleReceived, Judge.sampleItem] using sorted gs here
  positions := by
    intro p item here _
    have inside := (List.getElem?_eq_some_iff.mp here).1
    simp only [sampleReceived, List.length_map] at inside
    exact fitsInt_of_lt (by omega) (by omega)
  scores := by
    intro x hx
    obtain rfl := List.eq_of_mem_replicate hx
    rfl

def samplePushed (id : Int) (groups : List (List Int)) (tasks : Nat) : Submission :=
  { Judge.sampleSubmission 0 id (groups.map (Judge.sampleItem false)) with
    specjudgeReAsWa := true
    groupScore := List.replicate tasks 100000000
    reporter := serverReporter }

def scored (score : Int) : TestdataResult := { TestdataResult.new with score := score }

/-- Two testdata, of which the second is in both tasks. -/
def sharedTask : Submission := samplePushed 5 [[0], [0, 1]] 2

theorem task_minimum_shared :
    ∃ tasks, (encodeFrame (sampleReceived 5 [[0], [0, 1]] 2)).fieldAs
        (getEach (parseTask sampleReading sharedTask.testdata.length)) "tasks" = some tasks ∧
      sharedTask.groupScore = tasks.map Prod.snd ∧
      [30, 70] = tasks.map fun task =>
        (scoresAt sharedTask [scored 30, scored 70] task.1).foldl min Judge.kInfScore := by
  have wf : (sampleReceived 5 [[0], [0, 1]] 2).WellFormed sampleReading :=
    sampleReceived_wellFormed rfl (by decide) (by decide)
  have pushed : (sampleReceived 5 [[0], [0, 1]] 2).submission = some sharedTask := rfl
  have made : Judge.subtaskScores sharedTask [scored 30, scored 70] = .ok [30, 70] := rfl
  exact task_minimum (parseFrame_encode wf) pushed made

/-! ## Runs with frames -/

/-- `DealOneSubmission` pushes this for a frame with the id. -/
def Dealt (reading : Reading) (id : Int) (sub : Submission) : Prop :=
  ∃ data r, parseFrame reading data = some r ∧ r.header.submissionId = id ∧ r.submission = some sub

/-- Submissions come from frames, internal ids fit an `int`, and every `RunTask` succeeds. -/
def fromFrames (reading : Reading) (s : Threads) : ThreadsLabel → Prop
  | .access k (.push sub) =>
    s.submissionInternalIdSeq + 1 < 2 ^ 31 ∧ ∃ thread ∈ s.threads[k]?, Dealt reading thread.id sub
  | .other (.work (.dispatch _ handle _)) => handle ≠ -1
  | _ => True

variable {reading : Reading} {cfg : Config} {s t : Threads} {l : ThreadsLabel}

structure Fed (cfg : Config) (s : Threads) : Prop where
  exclusive : Exclusive s
  /-- `judge_mtx` is taken by a thread that is past its lock. -/
  taken : ∀ k, s.judgeMtx = some k → ∃ thread, s.threads[k]? = some thread ∧ thread.place.holds = true
  sound : Sound cfg (s.view .idle)
  reach : (Judge.judge cfg.judge).Reach orderly s.judge
  on : s.judge.phase ≠ .returned

theorem Fed.init : Fed cfg .init := ⟨.init, nofun, .init, .init, nofun⟩

theorem orderly_received {id : Int} {sub : Submission} {phase : Phase} (fed : Fed cfg s)
    (few : s.submissionInternalIdSeq + 1 < 2 ^ 31) (dealt : Dealt reading id sub) (id' : Int) :
    orderly s.judge (.push ((s.view phase).received id' sub) 0) := by
  obtain ⟨data, r, parsed, _, here⟩ := dealt
  have groups := groupsIndexed_of_frame (parseFrame_sound parsed) here
  exact ⟨fed.sound.fresh few, groups, fed.on⟩

theorem phase_on {a b : Judge.State} {l : Judge.Label} (loop : cfg.judge.loop = true)
    (on : a.phase ≠ .returned) (h : Judge.Step cfg.judge a l b) : b.phase ≠ .returned := by
  cases h with
  | refused | push => exact on
  | wake | block | result => exact nofun
  | launch enabled =>
    have same : a.phase = .working := enabled.1
    exact fun no => nomatch same.symm.trans no
  | skip enabled =>
    rw [Judge.settle_phase, Judge.start_phase, enabled.1]
    exact nofun
  | exit =>
    simp only [loop, if_true]
    exact nofun

theorem holds_after (phase : Phase) : (Place.after phase).holds = true := by
  cases phase <;> rfl

theorem moveTo_self {k : Nat} {old : Thread} (place : Place) (here : s.threads[k]? = some old) :
    (s.moveTo k old place).threads[k]? = some { old with place := place } := by
  simp [Threads.moveTo, (List.getElem?_eq_some_iff.mp here).1]

theorem Fed.step (loop : cfg.judge.loop = true) (fed : Fed cfg s) (cond : fromFrames reading s l)
    (h : ThreadsStep cfg s l t) : Fed cfg t := by
  have exclusive := fed.exclusive.step h
  cases h with
  | @frame id =>
    refine ⟨exclusive, fun k mine => ?_, ⟨fed.sound.refined, fed.sound.ids, fed.sound.reporters⟩,
      fed.reach, fed.on⟩
    obtain ⟨thread, here, holds⟩ := fed.taken k mine
    exact ⟨thread, (List.getElem?_append_left (List.getElem?_eq_some_iff.mp here).1).trans here, holds⟩
  | @lock k id here free =>
    refine ⟨exclusive, fun j mine => ?_, ⟨fed.sound.refined, fed.sound.ids, fed.sound.reporters⟩,
      fed.reach, fed.on⟩
    obtain rfl : k = j := Option.some.inj mine
    exact ⟨_, moveTo_self (s := { s with judgeMtx := some k }) (.inside .idle) here, rfl⟩
  | @access k id phase l u here own made =>
    have made : (receiver cfg).step (s.view phase) l = some u := made
    have view : Sound cfg (s.view phase) := ⟨fed.sound.refined, fed.sound.ids, fed.sound.reporters⟩
    have fits : numbered (s.view phase) l := by
      cases l with
      | push => exact cond.1
      | _ => trivial
    have sound := view.step fits (step_cases made)
    have judge : (Judge.judge cfg.judge).Reach orderly u.judge ∧ u.judge.phase ≠ .returned := by
      cases step_cases made with
      | work | fetch | readQueue | readVariable => cases own
      | @push id' _ _ _ pushed =>
        obtain ⟨few, thread, _, dealt⟩ := cond
        have ok : orderly s.judge (.push (((s.view phase).received id' _)) 0) :=
          orderly_received fed few dealt id'
        exact ⟨fed.reach.step ok pushed, phase_on loop fed.on (Judge.step_cases pushed)⟩
      | _ => exact ⟨fed.reach, fed.on⟩
    refine ⟨exclusive, fun j mine => ?_, ⟨sound.refined, sound.ids, sound.reporters⟩,
      judge.1, judge.2⟩
    obtain rfl : k = j := Option.some.inj ((fed.exclusive _ _ here rfl).symm.trans mine)
    exact ⟨_, moveTo_self (s := s.put u) (.after u.receiver) here, holds_after _⟩
  | @unlock k id here =>
    refine ⟨exclusive, nofun, ⟨fed.sound.refined, fed.sound.ids, fed.sound.reporters⟩, fed.reach,
      fed.on⟩
  | @other l u other made =>
    have made : (receiver cfg).step (s.view .idle) l = some u := made
    have fits : numbered (s.view .idle) l := by
      cases l with
      | push => cases other 0
      | _ => trivial
    have sound := fed.sound.step fits (step_cases made)
    have judge : (Judge.judge cfg.judge).Reach orderly u.judge ∧ u.judge.phase ≠ .returned := by
      cases step_cases made with
      | @work l u quiet worked =>
        have ok : orderly s.judge l := by
          cases l with
          | push => cases quiet
          | dispatch => exact cond
          | _ => trivial
        exact ⟨fed.reach.step ok worked, phase_on loop fed.on (Judge.step_cases worked)⟩
      | push => cases other 0
      | _ => exact ⟨fed.reach, fed.on⟩
    exact ⟨exclusive, fed.taken, ⟨sound.refined, sound.ids, sound.reporters⟩, judge.1, judge.2⟩

theorem fed (loop : cfg.judge.loop = true) (h : (threads cfg).Reach (fromFrames reading) s) :
    Fed cfg s :=
  h.invariant .init fun _ _ _ _ fed cond made => fed.step loop cond (threads_cases made)

/-! ## No step fails -/

/-- The worker goes on as it does alone. -/
theorem work_ok {l : Judge.Label} (quiet : l.isPush = false) :
    (∃ t, (threads cfg).step s (.other (.work l)) = some t) ↔
      ∃ u, (Judge.judge cfg.judge).step s.judge l = some u := by
  have view : (s.view .idle).judge = s.judge := rfl
  cases worked : (Judge.judge cfg.judge).step s.judge l <;>
    simp [threads, threadsStep, Receiver.step, State.work, quiet, view, worked]

theorem worker_ok {l : Judge.Label} (par : 1 ≤ cfg.judge.kMaxParallel) (fed : Fed cfg s)
    (writable : Judge.SummariesWritable s.judge) (enabled : Judge.Enabled cfg.judge s.judge l)
    (quiet : l.isPush = false) :
    (∃ t, (threads cfg).step s (.other (.work l)) = some t) ↔ Judge.FilesFound s.judge l :=
  (work_ok quiet).trans (Judge.goes_on par fed.reach writable l enabled quiet)

theorem access_ok {k : Nat} {id : Int} {phase : Phase} {l : Label} {u : State}
    (here : s.threads[k]? = some ⟨id, .inside phase⟩) (own : l.isAccess id = true)
    (made : (receiver cfg).step (s.view phase) l = some u) :
    (threads cfg).step s (.access k l) =
      some ((s.put u).moveTo k ⟨id, .inside phase⟩ (.after u.receiver)) := by
  have made : Receiver.step cfg (s.view phase) l = some u := made
  simp [threads, threadsStep, here, own, made]

theorem push_ok {k : Nat} {id id' : Int} {sub : Submission} (free : s.judge.phase ≠ .working)
    (here : s.threads[k]? = some ⟨id, .inside (.dealing id')⟩) (dealt : Dealt reading id sub) :
    ∃ t, (threads cfg).step s (.access k (.push sub)) = some t := by
  obtain ⟨data, r, parsed, _, read⟩ := dealt
  have exist := probStageExists_of_frame (parseFrame_sound parsed) read
  have exist : ((s.view (.dealing id')).received id' sub).clamp.probStageExists = true := exist
  have enabled : Judge.Enabled cfg.judge s.judge (.push ((s.view (.dealing id')).received id' sub) 0) :=
    free
  obtain ⟨u, pushed⟩ : ∃ u, Judge.perform cfg.judge s.judge
      (.push ((s.view (.dealing id')).received id' sub) 0) = .ok u := by
    simp only [Judge.perform, Judge.State.pushSubmission, lt_irrefl, false_and, if_false, exist, if_true]
    exact ⟨_, rfl⟩
  have made : (s.view (.dealing id')).deal cfg id' sub = some _ :=
    Option.map_eq_some_iff.mpr ⟨u, Judge.judge_step.mpr ⟨enabled, pushed⟩, rfl⟩
  exact ⟨_, access_ok here rfl made⟩

/-! ## Where nothing can be done -/

/-- Neither a frame nor a notification comes in, and nothing is reported. -/
def ThreadsLabel.isOwn : ThreadsLabel → Bool
  | .frame _ | .other .fetch | .other .readQueue | .other .readVariable => false
  | _ => true

def Resting (cfg : Config) (s : Threads) : Prop :=
  ∀ l t, (threads cfg).step s l = some t → l.isOwn = false

/-- The thread that has `judge_mtx` waits for nothing but the end of `WorkLoop`'s turn. -/
theorem exists_access (free : s.judge.phase ≠ .working) (phase : Phase) (id : Int) :
    ∃ l u, l.isAccess id = true ∧ (receiver cfg).step (s.view phase) l = some u := by
  cases phase with
  | idle =>
    refine ⟨.lock id, ?_⟩
    simp only [Label.isAccess, decide_true, true_and, receiver, Receiver.step]
    rw [if_pos ⟨rfl, free⟩]
    split <;> exact ⟨_, rfl⟩
  | accepted => exact ⟨.announce, _, rfl, rfl⟩
  | announced =>
    refine ⟨.test, ?_⟩
    simp only [Label.isAccess, true_and, receiver, Receiver.step, Threads.view]
    rw [if_neg free]
    split <;> exact ⟨_, rfl⟩
  | fetching => exact ⟨.tryFetch, _, rfl, rfl⟩
  | dealing => exact ⟨.fail, _, rfl, rfl⟩
  | dealt => exact ⟨.reset, _, rfl, rfl⟩
  | failed => exact ⟨.tryFetch, _, rfl, rfl⟩

theorem resting_ended (par : 1 ≤ cfg.judge.kMaxParallel) (fed : Fed cfg s)
    (writable : Judge.SummariesWritable s.judge) (resting : Resting cfg s) :
    s.judge.graph.nodes = [] ∧ ∀ thread ∈ s.threads, thread.place = .ended := by
  have stuck : Judge.Stuck cfg.judge s.judge := by
    intro l u worked
    by_contra quiet
    obtain ⟨t, made⟩ := (work_ok (Bool.eq_false_iff.mpr quiet)).mpr ⟨u, worked⟩
    cases resting _ t made
  have free : s.judge.phase ≠ .working := by
    intro working
    obtain ⟨l, quiet, enabled, found⟩ : ∃ l : Judge.Label, l.isPush = false ∧
        Judge.Enabled cfg.judge s.judge l ∧ Judge.FilesFound s.judge l :=
      Judge.exists_enabled (.inl working)
    obtain ⟨t, made⟩ := (worker_ok par fed writable enabled quiet).mpr found
    cases resting _ t made
  have moves {k : Nat} {thread : Thread} (here : s.threads[k]? = some thread) :
      thread.place.holds = false := by
    obtain ⟨id, place⟩ := thread
    cases place with
    | waiting | ended => rfl
    | inside phase =>
      obtain ⟨l, u, own, made⟩ : ∃ l u, l.isAccess id = true ∧
          (receiver cfg).step (s.view phase) l = some u := exists_access free phase id
      cases resting _ _ (access_ok here own made)
    | leaving =>
      have made : (threads cfg).step s (.unlock k) =
          some ({ s with judgeMtx := none }.moveTo k ⟨id, .leaving⟩ .ended) := by
        simp [threads, threadsStep, here]
      cases resting _ _ made
  have unlocked : s.judgeMtx = none := by
    by_contra locked
    obtain ⟨k, mine⟩ := Option.ne_none_iff_exists'.mp locked
    obtain ⟨thread, here, holds⟩ := fed.taken k mine
    rw [moves here] at holds
    cases holds
  refine ⟨Judge.stuck_nil par fed.reach writable stuck, fun thread hm => ?_⟩
  obtain ⟨k, here⟩ := List.mem_iff_getElem?.mp hm
  have loose := moves here
  obtain ⟨id, place⟩ := thread
  cases place with
  | waiting =>
    have made : (threads cfg).step s (.lock k) =
        some ({ s with judgeMtx := some k }.moveTo k ⟨id, .waiting⟩ (.inside .idle)) := by
      simp [threads, threadsStep, here, unlocked]
    cases resting _ _ made
  | inside | leaving => cases loose
  | ended => rfl

/-! ## Runs end -/

/-- A thread in this place has not pushed, and may. -/
def Place.mayPush : Place → Bool
  | .waiting => true
  | .inside phase => phase.entering || phase == .idle
  | .leaving | .ended => false

/-- An upper bound of the accesses that are left to a thread. -/
def Place.left : Place → Nat
  | .waiting => 9
  | .inside .idle => 8
  | .inside (.accepted _) => 7
  | .inside (.announced _) => 6
  | .inside (.fetching _) => 5
  | .inside (.dealing _) => 4
  | .inside (.dealt ..) => 3
  | .inside (.failed _) => 2
  | .leaving => 1
  | .ended => 0

def Threads.pushesLeft (s : Threads) : Nat := total (fun thread => thread.place.mayPush.toNat) s.threads

def Threads.workLeft (s : Threads) : Nat :=
  s.judge.work + total (fun thread => thread.place.left) s.threads

/-- First the pushes, and between two of them what else is to be done. -/
def Threads.measure (s : Threads) : ℕ ×ₗ ℕ := toLex (s.pushesLeft, s.workLeft)

theorem judge_work_lt {l : Judge.Label} {u : Judge.State} (par : 1 ≤ cfg.judge.kMaxParallel)
    (fed : Fed cfg s) (ok : orderly s.judge l) (quiet : l.isPush = false)
    (worked : (Judge.judge cfg.judge).step s.judge l = some u) : u.work < s.judge.work := by
  obtain ⟨running, held, wired, _⟩ := Judge.running_wired par (Judge.orderly_handles fed.reach)
  have fresh : Judge.freshHandle s.judge l := by
    apply running.fresh (Judge.judge_step.mp worked).1
    cases l with
    | dispatch => exact fun failed => absurd failed ok
    | _ => trivial
  exact (Judge.step_cases worked).work_lt wired fresh quiet

/-- A thread moves on. -/
theorem measure_moveTo {k : Nat} {id : Int} {old place : Place} (here : s.threads[k]? = some ⟨id, old⟩)
    (pushes : place.mayPush.toNat ≤ old.mayPush.toNat) (less : place.left < old.left)
    (judge : t.judge = s.judge ∨ place.mayPush.toNat < old.mayPush.toNat)
    (threads : t.threads = s.threads.set k ⟨id, place⟩) : t.measure < s.measure := by
  have p := total_set (f := fun thread : Thread => thread.place.mayPush.toNat) (b := ⟨id, place⟩) here
  have w := total_set (f := fun thread : Thread => thread.place.left) (b := ⟨id, place⟩) here
  simp only [Threads.measure, Prod.Lex.toLex_lt_toLex, Threads.pushesLeft, Threads.workLeft, threads]
  dsimp only at p w
  rcases judge with same | fewer
  · rw [same]
    omega
  · omega

theorem own_lt (par : 1 ≤ cfg.judge.kMaxParallel) (fed : Fed cfg s) (cond : fromFrames reading s l)
    (own : l.isOwn = true) (h : ThreadsStep cfg s l t) : t.measure < s.measure := by
  cases h with
  | frame => cases own
  | lock here => exact measure_moveTo here (by decide) (by decide) (.inl rfl) rfl
  | @access k id phase l u here mine made =>
    have made : (receiver cfg).step (s.view phase) l = some u := made
    cases step_cases made with
    | work | fetch | readQueue | readVariable => cases mine
    | rejected at_ | accepted at_ | announce at_ | asks at_ | full at_ | asked at_ | gaveUp at_
    | fail at_ | done at_ | failed at_ =>
      obtain rfl : phase = _ := at_
      exact measure_moveTo here (of_decide_eq_true rfl) (of_decide_eq_true rfl) (.inl rfl) rfl
    | push at_ =>
      obtain rfl : phase = _ := at_
      exact measure_moveTo here (of_decide_eq_true rfl) (of_decide_eq_true rfl)
        (.inr (of_decide_eq_true rfl)) rfl
  | unlock here => exact measure_moveTo here (by decide) (by decide) (.inl rfl) rfl
  | @other l u other made =>
    have made : (receiver cfg).step (s.view .idle) l = some u := made
    cases step_cases made with
    | @work l u quiet worked =>
      have ok : orderly s.judge l := by
        cases l with
        | push => cases quiet
        | dispatch => exact cond
        | _ => trivial
      have less := judge_work_lt par fed ok quiet worked
      exact Prod.Lex.toLex_lt_toLex.mpr (.inr ⟨rfl, Nat.add_lt_add_right less _⟩)
    | fetch | readQueue | readVariable => cases own
    | rejected | accepted => cases (decide_eq_false_iff_not.mp (other _)) rfl
    | _ => cases other 0

structure Serves (reading : Reading) (cfg : Config) (s : Threads) : Prop where
  /-- No step of the worker fails, but for a setup that misses a file. -/
  worker : ∀ l, Judge.Enabled cfg.judge s.judge l → l.isPush = false →
    ((∃ t, (threads cfg).step s (.other (.work l)) = some t) ↔ Judge.FilesFound s.judge l)
  push : ∀ k id id' sub, s.threads[k]? = some ⟨id, .inside (.dealing id')⟩ → Dealt reading id sub →
    s.judge.phase ≠ .working → ∃ t, (threads cfg).step s (.access k (.push sub)) = some t
  /-- Without frames from outside, no run goes on for ever. -/
  finite : ¬ ∃ states : Nat → Threads, states 0 = s ∧ ∀ n, ∃ l, l.isOwn = true ∧
    fromFrames reading (states n) l ∧ (threads cfg).step (states n) l = some (states (n + 1))
  ended : Resting cfg s →
    (∀ thread ∈ s.threads, thread.place = .ended) ∧ Judge.Emptied s.judge ∧
      ∀ id sub base, .enqueued id sub base ∈ s.judge.log → Judge.Judged s.judge id sub base

theorem runs_end (par : 1 ≤ cfg.judge.kMaxParallel) (loop : cfg.judge.loop = true) (start : Fed cfg s)
    {states : Nat → Threads} (first : states 0 = s) : ¬ ∀ n, ∃ l, l.isOwn = true ∧
      fromFrames reading (states n) l ∧ (threads cfg).step (states n) l = some (states (n + 1)) := by
  intro steps
  have fed (n : Nat) : Fed cfg (states n) := by
    induction n with
    | zero => exact first ▸ start
    | succ n ih =>
      obtain ⟨l, _, cond, made⟩ := steps n
      exact ih.step loop cond (threads_cases made)
  obtain ⟨n, stops⟩ := WellFounded.not_rel_apply_succ (r := (· < ·)) fun n => (states n).measure
  obtain ⟨l, own, cond, made⟩ := steps n
  exact stops (own_lt par (fed n) cond own (threads_cases made))

/-- Where all threads have ended and the worker waits for tasks, nothing is left to do. -/
theorem resting_of_ended (ended : ∀ thread ∈ s.threads, thread.place = .ended)
    (waiting : s.judge.phase = .waiting) (idle : s.judge.graph.queue = []) : Resting cfg s := by
  intro l t made
  have none {k : Nat} {thread : Thread} (here : s.threads[k]? = some thread)
      (left : thread.place ≠ .ended) : False := left (ended thread (List.mem_of_getElem? here))
  cases threads_cases made with
  | frame => rfl
  | lock here => exact (none here nofun).elim
  | access here => exact (none here nofun).elim
  | unlock here => exact (none here nofun).elim
  | other outside step =>
    cases step_cases step with
    | fetch | readQueue | readVariable => rfl
    | @work l u quiet worked =>
      obtain ⟨enabled, _⟩ := Judge.judge_step.mp worked
      have here : (s.view .idle).judge.phase = .waiting := waiting
      cases l with
      | push => cases quiet
      | wake => exact absurd idle enabled.2
      | dispatch | block | result | exit =>
        rw [enabled.1] at here
        cases here
    | @rejected id | @accepted id => simp [Label.isAccess] at outside
    | _ => cases outside 0

theorem dealt_sample {id : Int} (fits : FitsInt id) :
    Dealt sampleReading id (samplePushed id [] 0) :=
  have wf : (sampleReceived id [] 0).WellFormed sampleReading :=
    sampleReceived_wellFormed fits (by decide) nofun
  ⟨_, _, parseFrame_encode wf, rfl, rfl⟩

/-- One frame, whose submission is pushed while the worker waits and then judged. -/
def oneFrame : List ThreadsLabel :=
  [.frame 5, .lock 0, .access 0 (.lock 5), .access 0 .announce, .access 0 .test,
    .access 0 (.push (samplePushed 5 [] 0)), .access 0 .reset, .unlock 0] ++
  ([.wake] ++ Judge.runAlone 1 Judge.goodOutcome ++ [.dispatch 0 5 .empty, .exit] :
    List Judge.Label).map fun l => .other (.work l)

def ofOneFrame (s : Threads) : ThreadsLabel → Prop
  | .access k (.push sub) =>
    s.submissionInternalIdSeq = 0 ∧ (s.threads[k]?).map Thread.id = some 5 ∧ sub = samplePushed 5 [] 0
  | .other (.work (.dispatch _ handle _)) => handle ≠ -1
  | _ => True

instance : DecidableRel ofOneFrame := fun s l => by
  unfold ofOneFrame
  split <;> infer_instance

theorem ofOneFrame_fromFrames (s : Threads) (l : ThreadsLabel) (h : ofOneFrame s l) :
    fromFrames sampleReading s l := by
  cases l with
  | access k l =>
    cases l with
    | push sub =>
      obtain ⟨first, id, rfl⟩ := h
      obtain ⟨thread, here, five⟩ := Option.map_eq_some_iff.mp id
      have few : s.submissionInternalIdSeq + 1 < 2 ^ 31 := by
        rw [first]
        decide
      exact ⟨few, thread, here, five.symm ▸ dealt_sample rfl⟩
    | _ => trivial
  | other l =>
    cases l with
    | work l =>
      cases l with
      | dispatch => exact h
      | _ => trivial
    | _ => trivial
  | _ => trivial

end TiojJudge.Receiver
