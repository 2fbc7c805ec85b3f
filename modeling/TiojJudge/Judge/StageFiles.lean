import TiojJudge.Judge.Boxes
import TiojJudge.Judge.Testdata

/-!
# The output of a stage, until the next one

* `outputsAfter`, `outputsWritten`: what the output of each stage should be, noted as tasks
  end and checkers write;
* `FileStep`: the life of a submission with its files;
* `Handed`: where the output of a stage is until the next stage is launched; every step
  keeps it (`FileStep.handed`);
* `launch_input`: the next stage is launched on it.
-/

namespace TiojJudge.Judge
open FileTree

/-- What `FinalizeExecute` makes the output of the stage: a non-regular file is treated as empty. -/
def executeOutput (id : Int) (i j : Nat) (strict : Bool) (files : Files) : Option File :=
  if isRegularFile (files (executeBoxOutput id i j strict)) then files (executeBoxOutput id i j strict)
  else some (.regular [])

/-- The checker accepts, and hands on `nextpass.in`. -/
def HandsNextpass (sub : Submission) (i j : Nat) (o : TaskOutcome) (files : Files) : Prop :=
  sub.specjudgeType = .specjudgeKattis ∧ o.res.siCode = CLD_EXITED ∧ o.res.siStatus = 42 ∧
    isRegularFile (files (judgeDirFile sub.submissionInternalId i j "nextpass.in")) = true

instance (sub : Submission) (i j : Nat) (o : TaskOutcome) (files : Files) :
    Decidable (HandsNextpass sub i j o files) :=
  inferInstanceAs (Decidable (_ ∧ _))

/-- The outputs of the stages when a task has ended, noted under `ExecuteBoxFinalOutput`. -/
def outputsAfter (sub : Submission) (files outputs : Files) : Task → TaskOutcome → Files
  | .execute i j, _ =>
    let id := sub.submissionInternalId
    outputs.put (executeBoxFinalOutput id i j) (executeOutput id i j sub.sandboxStrict files)
  | .scoring i j, o =>
    let id := sub.submissionInternalId
    if HandsNextpass sub i j o files then
      outputs.put (executeBoxFinalOutput id i j) (files (judgeDirFile id i j "nextpass.in"))
    else outputs
  | .compile _, _ | .summary, _ => outputs

/-- The outputs of the stages when a task has written a file: a checker changes the output. -/
def outputsWritten (id : Int) (path : Path) (file : Option File) (outputs : Files) : Task → Files
  | .scoring i j =>
    if path = scoringBoxUserOutput id i j then outputs.put (executeBoxFinalOutput id i j) file
    else outputs
  | .compile _ | .execute .. | .summary => outputs

/-! ## Paths of outputs -/

section Paths

variable {id k : Int} {i j i' j' : Nat} {t : Task}

theorem executeBoxFinalOutput_inj (same : executeBoxFinalOutput id i j = executeBoxFinalOutput k i' j') :
    id = k ∧ i = i' ∧ j = j' := by
  simpa [executeBoxFinalOutput, executeBoxPath, boxPath] using same

theorem boxPath_below {b b' : Box} {rest : Path} :
    boxPath k b <+: boxPath id b' ++ rest ↔ k = id ∧ b = b' := by
  simp [boxPath]

theorem submissionRunPath_below {b : Box} {rest : Path} :
    submissionRunPath k <+: boxPath id b ++ rest ↔ k = id := by
  simp [submissionRunPath, boxPath]

theorem Task.Touches.below {q : Path} (h : t.Touches k q) : submissionRunPath k <+: q := by
  cases t with
  | compile => exact h.elim
  | execute => exact h.elim below_submissionRunPath.trans below_submissionRunPath.trans
  | scoring =>
    exact h.elim below_submissionRunPath.trans
      fun h => h.elim below_submissionRunPath.trans below_submissionRunPath.trans
  | summary => exact h

theorem submissionRunPath_unique {q : Path} (h : submissionRunPath k <+: q)
    (h' : submissionRunPath id <+: q) : k = id := by
  obtain ⟨rest, rfl⟩ := h
  simpa [submissionRunPath, eq_comm] using h'

/-- Where the output of a stage is, until the next stage is launched. -/
def OutputAt (id : Int) (i j : Nat) (q : Path) : Prop :=
  q = executeBoxFinalOutput id i j ∨ q = scoringBoxUserOutput id i j

variable {q : Path}

theorem OutputAt.box (out : OutputAt id i j q) : ∃ place rest, q = boxPath id place ++ rest ∧
    (place = .execute i j ∨ place = .scoring i j) := by
  rcases out with rfl | rfl
  · exact ⟨_, _, rfl, .inl rfl⟩
  · exact ⟨_, _, rfl, .inr rfl⟩

theorem OutputAt.below (out : OutputAt id i j q) : submissionRunPath id <+: q := by
  obtain ⟨_, _, rfl, _⟩ := out.box
  exact submissionRunPath_below.mpr rfl

/-- Only tasks of the testdata, and the summary, come near the output of a stage. -/
theorem Task.Touches.output (out : OutputAt id i j q) (h : t.Touches k q) :
    k = id ∧ (t.testdata = some i ∨ t = .summary) := by
  obtain ⟨place, rest, rfl, mine⟩ := out.box
  cases t with
  | compile => exact h.elim
  | execute =>
    simp only [Task.Touches, executeBoxPath, boxPath_below] at h
    rcases mine with rfl | rfl
    · rcases h with ⟨rfl, same⟩ | ⟨rfl, same⟩ <;> cases same <;> exact ⟨rfl, .inl rfl⟩
    · rcases h with ⟨_, same⟩ | ⟨_, same⟩ <;> cases same
  | scoring =>
    simp only [Task.Touches, executeBoxPath, scoringBoxPath, boxPath_below] at h
    rcases mine with rfl | rfl
    · rcases h with ⟨_, same⟩ | ⟨_, same⟩ | ⟨rfl, same⟩ <;> cases same
      exact ⟨rfl, .inl rfl⟩
    · rcases h with ⟨rfl, same⟩ | ⟨rfl, same⟩ | ⟨_, same⟩ <;> cases same <;> exact ⟨rfl, .inl rfl⟩
  | summary => exact ⟨submissionRunPath_below.mp h, .inr rfl⟩

/-- A task that writes to the box where an output is comes near it. -/
theorem Task.Touches.of_box (out : OutputAt id i j q) (below : boxPath k t.box <+: q) :
    t.Touches k q := by
  obtain ⟨place, rest, rfl, mine⟩ := out.box
  cases t with
  | compile =>
    obtain ⟨-, same⟩ := boxPath_below.mp below
    rcases mine with rfl | rfl <;> cases same
  | execute | scoring => exact .inl below
  | summary => exact below_submissionRunPath.trans below

end Paths

section Outputs

variable {sub : Submission} {id : Int} {files outputs : Files} {o : TaskOutcome} {path q : Path}
  {file : Option File} {t : Task}

theorem outputsAfter_other
    (other : ∀ i j, t.testdata = some i → q ≠ executeBoxFinalOutput sub.submissionInternalId i j) :
    outputsAfter sub files outputs t o q = outputs q := by
  cases t with
  | compile | summary => rfl
  | execute i j => exact put_other (other i j rfl)
  | scoring i j =>
    simp only [outputsAfter]
    split
    · exact put_other (other i j rfl)
    · rfl

theorem outputsWritten_other (other : ∀ i j, t.testdata = some i → q ≠ executeBoxFinalOutput id i j) :
    outputsWritten id path file outputs t q = outputs q := by
  cases t with
  | compile | execute | summary => rfl
  | scoring i j =>
    simp only [outputsWritten]
    split
    · exact put_other (other i j rfl)
    · rfl

end Outputs

/-! ## What the setups and finalizers do to the output -/

theorem isSome_of_isRegularFile {file : Option File} (regular : isRegularFile file = true) :
    file.isSome = true := by
  cases file with
  | none => cases regular
  | some => rfl

theorem isRegularFile_iff {file : Option File} :
    isRegularFile file = true ↔ ∃ content, file = some (.regular content) := by
  cases file with
  | none => simp [isRegularFile]
  | some f => cases f <;> simp [isRegularFile]

section Effects

variable {cfg : Config} {c c' : Ctx} {i j : Nat} {o : TaskOutcome} {box : BoxFiles} {files : Files}

theorem finalizeExecuteFiles_output :
    finalizeExecuteFiles c i j files (executeBoxFinalOutput c.sub.submissionInternalId i j) =
      executeOutput c.sub.submissionInternalId i j c.sub.sandboxStrict files := by
  have apart : ¬ workdir (executeBoxPath c.sub.submissionInternalId i j) <+:
      executeBoxFinalOutput c.sub.submissionInternalId i j := by
    simp [workdir, executeBoxFinalOutput]
  unfold finalizeExecuteFiles
  split
  case' isTrue later =>
    have before : ¬ executeBoxPath c.sub.submissionInternalId i (j - 1) <+:
        executeBoxFinalOutput c.sub.submissionInternalId i j := by
      simp only [executeBoxFinalOutput, executeBoxPath, boxPath_below, Box.execute.injEq]
      omega
    refine (removeAll_other before).trans ?_
  all_goals
    refine (removeAll_other apart).trans ?_
    unfold executeOutput
    split
    · rename_i regular
      exact move_dest (isSome_of_isRegularFile regular)
    · exact put_self

theorem isRegularFile_executeOutput {id : Int} {strict : Bool} :
    isRegularFile (executeOutput id i j strict files) = true := by
  unfold executeOutput
  split
  · assumption
  · rfl

theorem setupScoringFiles_launch (h : setupScoring cfg c i j box = .ok (true, c')) :
    setupScoringFiles cfg c i j box files = launchScoringFiles c i j files := by
  have finalized {skipped : Bool} (h : ((finalizeScoring cfg c i j ⟨.zero, box⟩ skipped).map
      fun c => (false, c)) = .ok (true, c')) : False := by
    cases scored : finalizeScoring cfg c i j ⟨.zero, box⟩ skipped <;> simp [scored, Except.map] at h
  unfold setupScoring at h
  unfold setupScoringFiles
  split at h
  · cases h
  · rename_i nul
    rw [if_neg nul]
    cases found : c.sub.testdata[i]? with
    | none => simp [found] at h
    | some item =>
      simp only [found] at h
      split at h
      · cases h
      · rename_i free
        cases here : c.result.tdResults[i]? with
        | none => simp [here] at h
        | some td =>
          simp only [here, free, if_false, Bool.false_eq_true] at h ⊢
          split_ifs at h ⊢
          · cases h
          · exact (finalized h).elim
          · exact (finalized h).elim
          · rfl

theorem launchScoringFiles_output
    (there : (files (executeBoxFinalOutput c.sub.submissionInternalId i j)).isSome = true) :
    launchScoringFiles c i j files (scoringBoxUserOutput c.sub.submissionInternalId i j) =
      files (executeBoxFinalOutput c.sub.submissionInternalId i j) := by
  have apart (k : Nat) : ¬ scoringBoxTempdir c.sub.submissionInternalId i k <+:
      scoringBoxUserOutput c.sub.submissionInternalId i j := by
    simp [scoringBoxTempdir, scoringBoxUserOutput, scoringBoxPath, boxPath, workdir]
  unfold launchScoringFiles
  rw [if_pos there]
  split
  · exact move_dest there
  · exact (moveAll_other (apart _) (apart _)).trans (move_dest there)

theorem settleStage_goes {td : TestdataResult} (go : (settleStage false td).skipStage = false) :
    td.verdict = .nul ∧ settleStage false td = td := by
  unfold settleStage at go ⊢
  by_cases nul : td.verdict = .nul
  · simp [nul]
  · simp [nul] at go

/-- A testdata goes on after a stage when its checker did not fail and left no verdict. -/
theorem scoringOutcome_goes {sub : Submission} {td : TestdataResult} (last : sub.lastStage j = false)
    (go : (scoringOutcome cfg sub j o false td).skipStage = false) :
    (scoringOutcome cfg sub j o false td).verdict = .nul ∧
      specjudgeFailed sub.specjudgeType o = false := by
  unfold scoringOutcome at go ⊢
  rw [last] at go ⊢
  obtain ⟨nul, same⟩ := settleStage_goes go
  refine ⟨(congrArg TestdataResult.verdict same).trans nul, ?_⟩
  by_contra failed
  simp only [Bool.not_eq_false] at failed
  simp only [Bool.false_eq_true, if_false, readSpecjudgeResult, failed, if_true] at nul
  split at nul
  · dsimp only at nul
    split at nul <;> cases nul
  · rename_i set
    exact set nul

theorem readSpecjudgeFiles_output (heard : specjudgeFailed c.sub.specjudgeType o = false)
    (last : c.sub.lastStage j = false) :
    readSpecjudgeFiles c i j o files (scoringBoxUserOutput c.sub.submissionInternalId i j) =
      if HandsNextpass c.sub i j o files then
        files (judgeDirFile c.sub.submissionInternalId i j "nextpass.in")
      else files (scoringBoxUserOutput c.sub.submissionInternalId i j) := by
  have exited : o.res.siCode = CLD_EXITED := by
    simp only [specjudgeFailed, Bool.or_eq_false_iff, bne_eq_false_iff_eq] at heard
    exact heard.1.1.1.2
  unfold readSpecjudgeFiles
  split
  · rename_i moves
    simp only [heard, last, Bool.not_false, Bool.true_and, Bool.and_true, Bool.and_eq_true,
      beq_iff_eq] at moves
    obtain ⟨⟨kattis, status⟩, regular⟩ := moves
    rw [if_pos ⟨kattis, exited, status, regular⟩]
    exact move_dest (isSome_of_isRegularFile regular)
  · rename_i stays
    refine (if_neg fun hands => stays ?_).symm
    obtain ⟨kattis, _, status, regular⟩ := hands
    rw [kattis] at heard
    simp [heard, last, kattis, status, regular]

/-- When the checker lets the testdata go on, the output is the one it hands on. -/
theorem finalizeScoringFiles_output (other : c.sub.specjudgeType ≠ .skip)
    (last : c.sub.lastStage j = false)
    (go : (scoringOutcome cfg c.sub j o false (c.td i)).skipStage = false)
    (regular : isRegularFile (files (scoringBoxUserOutput c.sub.submissionInternalId i j)) = true) :
    finalizeScoringFiles cfg c i j o false files
        (executeBoxFinalOutput c.sub.submissionInternalId i j) =
      if HandsNextpass c.sub i j o files then
        files (judgeDirFile c.sub.submissionInternalId i j "nextpass.in")
      else files (scoringBoxUserOutput c.sub.submissionInternalId i j) := by
  have read : readSpecjudgeFiles c i j o files (scoringBoxUserOutput c.sub.submissionInternalId i j) =
      _ := readSpecjudgeFiles_output (scoringOutcome_goes last go).2 last
  have apart : ¬ scoringBoxPath c.sub.submissionInternalId i (j - 1) <+:
      executeBoxFinalOutput c.sub.submissionInternalId i j := by
    simp [scoringBoxPath, executeBoxFinalOutput, executeBoxPath, boxPath_below]
  have moved : moveUserOutputBack cfg c i j o false files
      (executeBoxFinalOutput c.sub.submissionInternalId i j) =
        readSpecjudgeFiles c i j o files (scoringBoxUserOutput c.sub.submissionInternalId i j) := by
    have back : (!c.sub.lastStage j && !false &&
        !(scoringOutcome cfg c.sub j o false (c.td i)).skipStage && c.sub.specjudgeType != .skip) = true := by
      simp [last, go, other]
    unfold moveUserOutputBack
    refine (congrFun (if_pos back) _).trans (move_dest ?_)
    rw [if_neg Bool.false_ne_true, read]
    split
    · rename_i hands
      exact isSome_of_isRegularFile hands.2.2.2
    · exact isSome_of_isRegularFile regular
  refine Eq.trans ?_ (moved.trans read)
  unfold finalizeScoringFiles removeTestdataFiles
  simp only [last, Bool.false_eq_true, if_false]
  split
  · exact removeAll_other apart
  · rfl

theorem launchExecuteFiles_input
    (there : (files (executeBoxFinalOutput c.sub.submissionInternalId i j)).isSome = true) :
    launchExecuteFiles c i (j + 1) files
        (executeBoxInput c.sub.submissionInternalId i (j + 1) c.sub.sandboxStrict) =
      files (executeBoxFinalOutput c.sub.submissionInternalId i j) := by
  have apart : ¬ workdir (executeBoxPath c.sub.submissionInternalId i (j + 1)) <+:
      executeBoxFinalOutput c.sub.submissionInternalId i j := by
    simp [workdir, executeBoxFinalOutput, executeBoxPath, boxPath]
  unfold launchExecuteFiles
  rw [if_neg (Nat.succ_ne_zero j)]
  split
  · exact move_dest there
  · exact (move_dest ((congrArg Option.isSome (removeAll_other apart)).trans there)).trans (removeAll_other apart)

end Effects

/-! ## The life of a submission with its files -/

namespace Life

variable {cfg : Config} {id : Int} {base : Nat} {sub : Submission} {l l' : Life} {i j : Nat}
  {files files' outputs outputs' : Files} {t : Task}

/-- Other submissions do what they like with their own files. A checker that ends has left its
user output as a regular file. -/
inductive FileStep (cfg : Config) (id : Int) (base : Nat) (l : Life) (files outputs : Files) :
    Life → Files → Files → Prop where
  | launch {t handle box c} : l.Ready t → setup cfg l.ctx.cleared box t = .ok (true, c) →
      FileStep cfg id base l files outputs ((l.started id base t c).launched id base t handle)
        (setupFiles cfg l.ctx.cleared box files t) outputs
  | skip {t box listSize c c'} : l.Ready t → setup cfg l.ctx.cleared box t = .ok (false, c) →
      finalize cfg c.cleared listSize t none = .ok c' →
      FileStep cfg id base l files outputs ((l.started id base t c).settled id base t none c')
        (finalizeFiles cfg c (setupFiles cfg l.ctx.cleared box files t) t none) outputs
  | finish {t o listSize c} : t ∈ l.running →
      finalize cfg l.ctx.cleared listSize t (some o) = .ok c →
      (∀ i j, t = .scoring i j → isRegularFile (files (scoringBoxUserOutput id i j)) = true) →
      FileStep cfg id base l files outputs (l.settled id base t (some o) c)
        (finalizeFiles cfg l.ctx.cleared files t (some o)) (outputsAfter l.ctx.sub files outputs t o)
  | write {t path file} : t ∈ l.running → boxPath id t.box <+: path →
      FileStep cfg id base l files outputs l (files.put path file)
        (outputsWritten id path file outputs t)
  | cancel : FileStep cfg id base l files outputs (l.cancel id) files outputs
  | elsewhere {files' outputs' : Files} : (∀ path, submissionRunPath id <+: path →
        files' path = files path ∧ outputs' path = outputs path) →
      FileStep cfg id base l files outputs l files' outputs'

theorem FileStep.reachable (h : FileStep cfg id base l files outputs l' files' outputs')
    (reach : Reachable cfg id base sub l) : Reachable cfg id base sub l' := by
  cases h with
  | launch ready launch => exact .next reach (.launch ready launch)
  | skip ready skip done => exact .next reach (.skip ready skip done)
  | finish here done => exact .next reach (.finish here done)
  | cancel => exact .next reach .cancel
  | write | elsewhere => exact reach

/-- Stage `j` is over, and the next is still to be launched. -/
structure Between (l : Life) (i j : Nat) : Prop where
  past : .execute i j ∉ l.todo
  next : .execute i (j + 1) ∈ l.todo
  idle : .execute i (j + 1) ∉ l.running

/-- Nothing stopped the testdata so far but for a verdict. -/
def Going (l : Life) (i : Nat) : Prop := ¬ l.Excused i ∧ (l.ctx.td i).skipStage = false

/-- The output of the stage is in the execute box, as a regular file. -/
def AtHome (sub : Submission) (i j : Nat) (files outputs : Files) : Prop :=
  files (executeBoxFinalOutput sub.submissionInternalId i j) =
      outputs (executeBoxFinalOutput sub.submissionInternalId i j) ∧
    isRegularFile (outputs (executeBoxFinalOutput sub.submissionInternalId i j)) = true

/-- Where the output of stage `j` is, between the stages. -/
structure Handed (sub : Submission) (i j : Nat) (l : Life) (files outputs : Files) : Prop where
  apart : sub.judgeBetweenStages = false → l.Going i → (l.ctx.td i).verdict = .nul →
    AtHome sub i j files outputs
  toScoring : sub.judgeBetweenStages = true → .scoring i j ∈ l.todo → .scoring i j ∉ l.running →
    l.Going i → AtHome sub i j files outputs
  inScoring : .scoring i j ∈ l.running →
    files (scoringBoxUserOutput sub.submissionInternalId i j) =
      outputs (executeBoxFinalOutput sub.submissionInternalId i j)
  scored : sub.judgeBetweenStages = true → .scoring i j ∉ l.todo → l.Going i →
    (l.ctx.td i).verdict = .nul ∧ AtHome sub i j files outputs

/-! ### Between the stages -/

theorem launched_of_running (h : Reachable cfg id base sub l) (running : t ∈ l.running) :
    ∃ tid handle, .launched tid id t handle ∈ l.ctx.log := by
  induction h with
  | start => exact absurd running (Finset.notMem_empty t)
  | @next l l' _ step ih =>
    obtain ⟨new, log⟩ := step.log
    have old (before : t ∈ l.running) : ∃ tid handle, .launched tid id t handle ∈ l'.ctx.log := by
      obtain ⟨tid, handle, here⟩ := ih before
      exact ⟨tid, handle, log ▸ List.mem_append_left _ here⟩
    cases step with
    | launch =>
      rcases Finset.mem_insert.mp running with rfl | before
      · exact ⟨_, _, List.mem_append_right _ (List.mem_singleton_self _)⟩
      · exact old before
    | skip ready =>
      obtain ⟨other, running⟩ := Finset.mem_erase.mp running
      exact old (Finset.mem_of_mem_insert_of_ne running other)
    | finish => exact old (Finset.mem_of_mem_erase running)
    | cancel => exact old running

theorem Between.stage (b : l.Between i j) (s : Shape sub l) : i < sub.numTds ∧ j + 1 < sub.numStages :=
  s.planned _ b.next

/-- Between the stages only the scoring and the next stage can be active. -/
theorem Between.active (b : l.Between i j) (wf : sub.WellFormed) (s : Shape sub l)
    (active : l.Active t) (mine : t.testdata = some i) : t = .scoring i j ∨ t = .execute i (j + 1) := by
  obtain ⟨hi, hj⟩ := b.stage s
  have here := s.active_todo active
  have planned := s.planned t here
  have early (leads : sub.Leads t (.execute i j)) : False := b.past (s.leads leads here).1
  have late (leads : sub.Leads (.execute i (j + 1)) t) : t = .execute i (j + 1) := by
    by_contra other
    exact s.before_active leads active (Ne.symm other) b.next
  cases t with
  | compile | summary => cases mine
  | execute k m =>
    obtain rfl : k = i := Option.some.inj mine
    rcases Nat.lt_or_ge j m with after | before
    · exact .inr (late (Submission.leads_execute hi after planned.2))
    · exact (early (Submission.leads_execute hi before (by omega))).elim
  | scoring k m =>
    obtain rfl : k = i := Option.some.inj mine
    rcases Nat.lt_trichotomy m j with before | same | after
    · exact (early (Submission.scoring_leads_execute hi planned.2 before (by omega))).elim
    · exact .inl (same ▸ rfl)
    · cases late (Submission.leads_scoring wf hi after planned.2)

/-- The other tasks do not come near the output. -/
theorem Between.not_touched {k : Int} {q : Path} (b : l.Between i j) (wf : sub.WellFormed)
    (s : Shape sub l) (active : l.Active t) (other : t.testdata ≠ some i) (out : OutputAt id i j q) :
    ¬ t.Touches k q := by
  intro touches
  rcases (touches.output out).2 with same | rfl
  · exact other same
  · have leads := Submission.leads_summary wf (s.planned _ b.next)
    exact s.before_active leads active (by simp) b.next

theorem Between.judged (b : l.Between i j) (s : Shape sub l) (left : .scoring i j ∈ l.todo) :
    sub.judgeBetweenStages = true := by
  have hj := (b.stage s).2
  have scored : sub.scoredStage j := (s.planned _ left).2
  by_contra apart
  rw [Submission.scoredStage, if_neg apart] at scored
  omega

theorem Handed.kept (h : Handed sub i j l files outputs)
    (todo : .scoring i j ∈ l'.todo ↔ .scoring i j ∈ l.todo)
    (running : .scoring i j ∈ l'.running ↔ .scoring i j ∈ l.running)
    (td : l'.ctx.td i = l.ctx.td i) (excused : l.Excused i → l'.Excused i)
    (final : files' (executeBoxFinalOutput sub.submissionInternalId i j) =
      files (executeBoxFinalOutput sub.submissionInternalId i j))
    (user : files' (scoringBoxUserOutput sub.submissionInternalId i j) =
      files (scoringBoxUserOutput sub.submissionInternalId i j))
    (output : outputs' (executeBoxFinalOutput sub.submissionInternalId i j) =
      outputs (executeBoxFinalOutput sub.submissionInternalId i j)) :
    Handed sub i j l' files' outputs' := by
  have going (h : l'.Going i) : l.Going i := ⟨fun e => h.1 (excused e), td ▸ h.2⟩
  have home (h : AtHome sub i j files outputs) : AtHome sub i j files' outputs' := by
    unfold AtHome at h ⊢
    rwa [final, output]
  refine ⟨fun apart go nul => ?_, fun between left idle go => ?_, fun here => ?_, fun between gone go => ?_⟩
  · exact home (h.apart apart (going go) (td ▸ nul))
  · exact home (h.toScoring between (todo.mp left) (fun r => idle (running.mpr r)) (going go))
  · rw [user, output]
    exact h.inScoring (running.mp here)
  · obtain ⟨nul, there⟩ := h.scored between (fun left => gone (todo.mpr left)) (going go)
    exact ⟨td ▸ nul, home there⟩

/-- The summary is left when a task before it ends. -/
theorem Shape.summary_stays (wf : sub.WellFormed) (s : Shape sub l) (here : .execute i j ∈ l.todo)
    (active : l.Active t) : .summary ∈ l.todo.erase t := by
  refine Finset.mem_erase.mpr ⟨?_, s.summary_left wf here⟩
  rintro rfl
  exact s.before_active (Submission.leads_summary wf (s.planned _ here)) active (by simp) here

/-- A task of another testdata leaves the output where it is. -/
theorem Handed.other (h : Handed sub i j l files outputs) (wf : sub.WellFormed) (s : Shape sub l)
    (b : l.Between i j) (active : l.Active t) (other : t.testdata ≠ some i)
    (step : Step cfg id base l l') (left : .summary ∈ l'.todo)
    (todo : .scoring i j ∈ l'.todo ↔ .scoring i j ∈ l.todo)
    (running : .scoring i j ∈ l'.running ↔ .scoring i j ∈ l.running)
    (td : l'.ctx.td i = l.ctx.td i)
    (outside : ∀ q, (∀ k, ¬ t.Touches k q) → files' q = files q)
    (output : outputs' (executeBoxFinalOutput sub.submissionInternalId i j) =
      outputs (executeBoxFinalOutput sub.submissionInternalId i j)) :
    Handed sub i j l' files' outputs' :=
  h.kept todo running td (fun excused => excused.step step left)
    (outside _ fun _ => b.not_touched wf s active other (.inl rfl))
    (outside _ fun _ => b.not_touched wf s active other (.inr rfl)) output

/-- Nothing is handed on when the testdata stops. -/
theorem Handed.of_stopped (idle : .scoring i j ∉ l.running)
    (stopped : l.Going i → sub.judgeBetweenStages = false ∧ (l.ctx.td i).verdict ≠ .nul) :
    Handed sub i j l files outputs := by
  have apart (between : sub.judgeBetweenStages = true) (go : l.Going i) : False :=
    Bool.false_ne_true ((stopped go).1.symm.trans between)
  exact ⟨fun _ go nul => absurd nul (stopped go).2, fun between _ _ go => (apart between go).elim,
    fun here => absurd here idle, fun between _ go => (apart between go).elim⟩

/-! ### What a step does to the output -/

section Steps

variable {box : BoxFiles} {o : TaskOutcome} {c c' : Ctx} {listSize : Nat} {handle : Int}

theorem launch_handed (wf : sub.WellFormed) (s : Shape sub l) (key : sub.submissionInternalId = id)
    (ready : l.Ready t) (launch : setup cfg l.ctx.cleared box t = .ok (true, c))
    (b : (l.started id base t c).Between i j) (ih : ∀ j, l.Between i j → Handed sub i j l files outputs) :
    Handed sub i j ((l.started id base t c).launched id base t handle)
      (setupFiles cfg l.ctx.cleared box files t) outputs := by
  have before : l.Between i j := ⟨b.past, b.next, fun h => b.idle (Finset.mem_insert_of_mem h)⟩
  have h := ih j before
  have step : Step cfg id base l ((l.started id base t c).launched id base t handle) :=
    .launch ready launch
  obtain rfl := s.same
  subst key
  by_cases mine : t.testdata = some i
  · rcases before.active wf s (.inr ready) mine with rfl | rfl
    · have between := before.judged s ready.1
      have home := h.toScoring between ready.1 ready.2.1 (setup_wanted rfl launch)
      have running : .scoring i j ∈ (l.started l.ctx.sub.submissionInternalId base (.scoring i j) c).running :=
        Finset.mem_insert_self _ _
      refine ⟨fun apart => ?_, fun _ _ idle => absurd running idle, fun _ => ?_,
        fun _ gone => absurd ready.1 gone⟩
      · rw [between] at apart
        cases apart
      · refine Eq.trans ?_ home.1
        refine (congrFun (setupScoringFiles_launch launch) _).trans (launchScoringFiles_output ?_)
        exact isSome_of_isRegularFile (home.1 ▸ home.2)
    · exact absurd (Finset.mem_insert_self _ _) b.idle
  · have other : .scoring i j ≠ t := fun same => mine (same ▸ rfl)
    have left : .summary ∈ l.todo := s.summary_left wf before.next
    have td : c.td i = l.ctx.cleared.td i := setup_td mine launch
    refine h.other wf s before (.inr ready) mine step left Iff.rfl ?_ td
      (fun _ apart => setupFiles_outside (apart _)) rfl
    simp [launched, started, other]

/-- The testdata stops with a stage that is skipped. -/
theorem skip_stops (s : Shape sub l) (type : sub.specjudgeType ≠ .skip)
    (last : sub.lastStage j = false) (mine : t = .execute i j ∨ t = .scoring i j) (ready : l.Ready t)
    (skip : setup cfg l.ctx.cleared box t = .ok (false, c))
    (ih : ∀ j, l.Between i j → Handed sub i j l files outputs) (go : ¬ l.Excused i) :
    (c.td i).skipStage = true ∨ sub.judgeBetweenStages = false ∧ (c.td i).verdict ≠ .nul := by
  have testdata : t.testdata = some i := by rcases mine with rfl | rfl <;> rfl
  rcases setup_unwanted testdata skip with ⟨excused | stop | ⟨set, k, rfl⟩, td⟩ |
    ⟨k, skipped, same, _, _, failed, skips, td⟩
  · exact absurd excused go
  · exact .inl (td ▸ stop)
  · rw [td]
    cases between : sub.judgeBetweenStages with
    | false => exact .inr ⟨rfl, set⟩
    | true =>
      obtain ⟨hi, hk⟩ := s.planned _ ready.1
      have scoring : sub.Leads (.scoring i k) (.execute i (k + 1)) :=
        .single (.resume hi between hk)
      have before : l.Between i k :=
        ⟨s.before_ready (Submission.leads_execute hi k.le_succ hk) ready (by simp), ready.1, ready.2.1⟩
      by_contra unstopped
      rw [not_or, Bool.not_eq_true] at unstopped
      exact set ((ih k before).scored between (s.before_ready scoring ready (by simp))
        ⟨go, unstopped.1⟩).1
  · obtain rfl : k = j := by
      subst same
      simpa using mine
    cases skipped with
    | true =>
      refine .inl (td ▸ ?_)
      unfold scoringOutcome settleStage
      simp [s.same, last, failed rfl]
    | false => exact absurd (s.same ▸ skips rfl) type

theorem lastStage_of_next (wf : sub.WellFormed) (hj : j + 1 < sub.numStages) :
    sub.lastStage j = false := by
  rw [← Bool.not_eq_true, lastStage_iff wf]
  omega

theorem skip_handed (wf : sub.WellFormed) (s : Shape sub l)
    (type : sub.specjudgeType ≠ .skip) (ready : l.Ready t)
    (skip : setup cfg l.ctx.cleared box t = .ok (false, c))
    (done : finalize cfg c.cleared listSize t none = .ok c')
    (b : ((l.started id base t c).settled id base t none c').Between i j)
    (ih : ∀ j, l.Between i j → Handed sub i j l files outputs) :
    Handed sub i j ((l.started id base t c).settled id base t none c')
      (finalizeFiles cfg c (setupFiles cfg l.ctx.cleared box files t) t none) outputs := by
  have step : Step cfg id base l ((l.started id base t c).settled id base t none c') :=
    .skip ready skip done
  have running : ((l.started id base t c).settled id base t none c').running = l.running :=
    Finset.erase_insert ready.2.1
  obtain ⟨next, here⟩ := Finset.mem_erase.mp b.next
  have here : .execute i (j + 1) ∈ l.todo := here
  have hj := (s.planned _ here).2
  by_cases mine : t = .execute i j ∨ t = .scoring i j
  · have td : c'.td i = c.td i := by
      rcases mine with rfl | rfl <;> cases done <;> rfl
    refine .of_stopped ?_ fun go => ?_
    · rw [running]
      intro scoring
      rcases mine with rfl | rfl
      · have leads := Submission.leads_scoring wf (s.planned _ here).1 le_rfl
          (s.planned _ (s.running scoring)).2
        exact (s.leads leads ready.1).2 (by simp) scoring
      · exact ready.2.1 scoring
    · have left : .summary ∈ l.todo.erase t := s.summary_stays wf here (.inr ready)
      have going : ¬ l.Excused i := fun excused => go.1 (excused.step step left)
      rcases skip_stops s type (lastStage_of_next wf hj) mine ready skip ih going with
        stop | ⟨between, set⟩
      · have kept : (c'.td i).skipStage = false := go.2
        rw [td, stop] at kept
        cases kept
      · exact ⟨between, td ▸ set⟩
  · obtain ⟨notPast, notScoring⟩ := not_or.mp mine
    have before : l.Between i j :=
      ⟨fun h => b.past (Finset.mem_erase.mpr ⟨Ne.symm notPast, h⟩), here, fun h => b.idle (running ▸ h)⟩
    have mine : t.testdata ≠ some i := by
      intro mine
      rcases before.active wf s (.inr ready) mine with same | same
      · exact notScoring same
      · exact next same.symm
    have td : c'.td i = l.ctx.cleared.td i :=
      (finalize_td mine done : c'.td i = c.cleared.td i).trans (setup_td mine skip : c.td i = _)
    have left : .summary ∈ l.todo.erase t := s.summary_stays wf here (.inr ready)
    refine (ih j before).other wf s before (.inr ready) mine step left ?_ ?_ td
      (fun _ apart => (finalizeFiles_outside (apart _)).trans (setupFiles_outside (apart _))) rfl
    · simp [settled, started, Ne.symm notScoring]
    · rw [running]

theorem outputsAfter_scoring :
    outputsAfter sub files outputs (.scoring i j) o
        (executeBoxFinalOutput sub.submissionInternalId i j) =
      if HandsNextpass sub i j o files then
        files (judgeDirFile sub.submissionInternalId i j "nextpass.in")
      else outputs (executeBoxFinalOutput sub.submissionInternalId i j) := by
  simp only [outputsAfter]
  split
  · exact put_self
  · rfl

theorem executed_handed (wf : sub.WellFormed) (s : Shape sub l) (here : .execute i j ∈ l.running)
    (hi : i < sub.numTds) (hj : j + 1 < sub.numStages) :
    Handed sub i j (l.settled id base (.execute i j) (some o) c)
      (finalizeFiles cfg l.ctx.cleared files (.execute i j) (some o))
      (outputsAfter l.ctx.sub files outputs (.execute i j) o) := by
  obtain rfl := s.same
  have home : AtHome l.ctx.sub i j
      (finalizeFiles cfg l.ctx.cleared files (.execute i j) (some o))
      (outputsAfter l.ctx.sub files outputs (.execute i j) o) := by
    refine ⟨finalizeExecuteFiles_output.trans put_self.symm, ?_⟩
    rw [outputsAfter, put_self]
    exact isRegularFile_executeOutput
  have waits (between : l.ctx.sub.judgeBetweenStages = true) : .scoring i j ∈ l.todo := by
    have scored : l.ctx.sub.scoredStage j := by
      rw [Submission.scoredStage, if_pos between]
      omega
    exact (s.after _ _ (.score hi scored) (s.running here)).1
  refine ⟨fun _ _ _ => home, fun _ _ _ _ => home, fun scoring => ?_, fun between gone => ?_⟩
  · have scoring := Finset.mem_of_mem_erase scoring
    have leads := Submission.leads_scoring wf hi le_rfl (s.planned _ (s.running scoring)).2
    exact absurd (s.running here) (s.before_running leads scoring (by simp))
  · exact absurd (Finset.mem_erase.mpr ⟨by simp, waits between⟩) gone

theorem scored_handed (s : Shape sub l) (type : sub.specjudgeType ≠ .skip)
    (here : .scoring i j ∈ l.running)
    (done : finalize cfg l.ctx.cleared listSize (.scoring i j) (some o) = .ok c)
    (regular : isRegularFile (files (scoringBoxUserOutput sub.submissionInternalId i j)) = true)
    (between : sub.judgeBetweenStages = true) (last : sub.lastStage j = false)
    (h : Handed sub i j l files outputs) :
    Handed sub i j (l.settled id base (.scoring i j) (some o) c)
      (finalizeFiles cfg l.ctx.cleared files (.scoring i j) (some o))
      (outputsAfter l.ctx.sub files outputs (.scoring i j) o) := by
  obtain rfl := s.same
  have gone : .scoring i j ∉ (l.settled id base (.scoring i j) (some o) c).todo :=
    Finset.notMem_erase _ _
  refine ⟨fun apart => ?_, fun _ left => absurd left gone,
    fun running => absurd running (Finset.notMem_erase _ _), fun _ _ go => ?_⟩
  · rw [between] at apart
    cases apart
  · have td : c.td i = scoringOutcome cfg l.ctx.sub j o false (l.ctx.td i) :=
      (finalizeScoring_spec done).td
    have goes : (scoringOutcome cfg l.ctx.sub j o false (l.ctx.td i)).skipStage = false :=
      td ▸ go.2
    have final := finalizeScoringFiles_output (c := l.ctx.cleared) type last goes regular
    refine ⟨(congrArg TestdataResult.verdict td).trans (scoringOutcome_goes last goes).1, ?_⟩
    rw [AtHome, outputsAfter_scoring, ← h.inScoring here]
    refine ⟨final, ?_⟩
    split
    · rename_i hands
      exact hands.2.2.2
    · exact regular

theorem finish_handed (wf : sub.WellFormed) (s : Shape sub l) (key : sub.submissionInternalId = id)
    (type : sub.specjudgeType ≠ .skip) (here : t ∈ l.running)
    (done : finalize cfg l.ctx.cleared listSize t (some o) = .ok c)
    (regular : ∀ i j, t = .scoring i j → isRegularFile (files (scoringBoxUserOutput id i j)) = true)
    (b : (l.settled id base t (some o) c).Between i j)
    (ih : l.Between i j → Handed sub i j l files outputs) :
    Handed sub i j (l.settled id base t (some o) c)
      (finalizeFiles cfg l.ctx.cleared files t (some o))
      (outputsAfter l.ctx.sub files outputs t o) := by
  have step : Step cfg id base l (l.settled id base t (some o) c) := .finish here done
  obtain ⟨next, left⟩ := Finset.mem_erase.mp b.next
  obtain ⟨hi, hj⟩ := s.planned _ left
  have active : l.Active t := .inl here
  subst key
  by_cases past : t = .execute i j
  · subst past
    exact executed_handed wf s here hi hj
  have before : l.Between i j := by
    refine ⟨fun h => b.past (Finset.mem_erase.mpr ⟨Ne.symm past, h⟩), left, fun h => ?_⟩
    exact b.idle (Finset.mem_erase.mpr ⟨next, h⟩)
  by_cases mine : t.testdata = some i
  · rcases before.active wf s active mine with rfl | rfl
    · have between := before.judged s (s.running here)
      have last := lastStage_of_next wf hj
      exact scored_handed s type here done (regular i j rfl) between last (ih before)
    · exact absurd rfl next
  · have notScoring : .scoring i j ≠ t := fun same => mine (same ▸ rfl)
    have left : .summary ∈ l.todo.erase t := s.summary_stays wf left active
    have td : c.td i = l.ctx.cleared.td i := finalize_td mine done
    refine (ih before).other wf s before active mine step left ?_ ?_ td
      (fun _ apart => finalizeFiles_outside (apart _))
      (outputsAfter_other fun k m mine' same => mine ((executeBoxFinalOutput_inj same).2.1 ▸ mine'))
    · simp [settled, notScoring]
    · simp [settled, notScoring]

theorem write_handed {path : Path} {file : Option File} (wf : sub.WellFormed) (s : Shape sub l)
    (here : t ∈ l.running) (below : boxPath sub.submissionInternalId t.box <+: path)
    (b : l.Between i j) (h : Handed sub i j l files outputs) :
    Handed sub i j l (files.put path file)
      (outputsWritten sub.submissionInternalId path file outputs t) := by
  by_cases mine : t.testdata = some i
  · rcases b.active wf s (.inl here) mine with rfl | rfl
    · have between := b.judged s (s.running here)
      refine ⟨fun apart => ?_, fun _ _ idle => absurd here idle, fun _ => ?_,
        fun _ gone => absurd (s.running here) gone⟩
      · rw [between] at apart
        cases apart
      · simp only [outputsWritten]
        split
        · rename_i same
          rw [same, put_self, put_self]
        · rename_i other
          rw [put_other (Ne.symm other)]
          exact h.inScoring here
    · exact absurd here b.idle
  · have apart {q : Path} (out : OutputAt sub.submissionInternalId i j q) :
        ¬ boxPath sub.submissionInternalId t.box <+: q :=
      fun inside => b.not_touched wf s (.inl here) mine out (.of_box out inside)
    refine h.kept Iff.rfl Iff.rfl rfl (fun excused => excused) ?_ ?_ ?_
    · exact put_outside below (apart (.inl rfl))
    · exact put_outside below (apart (.inr rfl))
    · exact outputsWritten_other fun k m mine' same =>
        mine ((executeBoxFinalOutput_inj same).2.1 ▸ mine')

/-- Whatever happens, the output of a stage is where it should be. -/
theorem FileStep.handed (wf : sub.WellFormed) (s : Shape sub l) (key : sub.submissionInternalId = id)
    (type : sub.specjudgeType ≠ .skip) (h : FileStep cfg id base l files outputs l' files' outputs')
    (ih : ∀ i j, l.Between i j → Handed sub i j l files outputs) :
    ∀ i j, l'.Between i j → Handed sub i j l' files' outputs' := by
  intro i j b
  cases h with
  | launch ready launch => exact launch_handed wf s key ready launch ⟨b.past, b.next, b.idle⟩ (ih i)
  | skip ready skip done => exact skip_handed wf s type ready skip done b (ih i)
  | finish here done regular => exact finish_handed wf s key type here done regular b (ih i j)
  | write here below => exact key ▸ write_handed wf s here (key ▸ below) b (ih i j b)
  | cancel =>
    have before : l.Between i j := ⟨b.past, b.next, b.idle⟩
    have left : .summary ∈ l.todo := s.summary_left wf before.next
    have step : Step cfg id base l (l.cancel id) := .cancel
    exact (ih i j before).kept Iff.rfl Iff.rfl rfl
      (fun excused => excused.step step left) rfl rfl rfl
  | elsewhere same =>
    have same {q : Path} (out : OutputAt sub.submissionInternalId i j q) := same q (key ▸ out.below)
    exact (ih i j b).kept Iff.rfl Iff.rfl rfl (fun excused => excused) (same (.inl rfl)).1
      (same (.inr rfl)).1 (same (.inl rfl)).2

/-- The next stage is launched on the output. -/
theorem launch_input (s : Shape sub l) (ready : l.Ready (.execute i (j + 1)))
    (launch : setup cfg l.ctx.cleared box (.execute i (j + 1)) = .ok (true, c))
    (h : l.Between i j → Handed sub i j l files outputs) :
    setupFiles cfg l.ctx.cleared box files (.execute i (j + 1))
        (executeBoxInput sub.submissionInternalId i (j + 1) sub.sandboxStrict) =
      outputs (executeBoxFinalOutput sub.submissionInternalId i j) ∧
    isRegularFile (outputs (executeBoxFinalOutput sub.submissionInternalId i j)) = true := by
  obtain ⟨hi, hj⟩ := s.planned _ ready.1
  obtain ⟨going, later⟩ := setup_wanted rfl launch
  obtain ⟨go, nul⟩ := later (Nat.succ_ne_zero j)
  have before : l.Between i j :=
    ⟨s.before_ready (Submission.leads_execute hi j.le_succ hj) ready (by simp), ready.1, ready.2.1⟩
  have home : AtHome sub i j files outputs := by
    cases between : sub.judgeBetweenStages with
    | false => exact (h before).apart between ⟨going, go⟩ nul
    | true =>
      have scoring : sub.Leads (.scoring i j) (.execute i (j + 1)) := .single (.resume hi between hj)
      exact ((h before).scored between (s.before_ready scoring ready (by simp)) ⟨going, go⟩).2
  have launched := (setup_execute_iff.mp launch).1
  obtain rfl := s.same
  refine ⟨Eq.trans ?_ home.1, home.2⟩
  have executed : setupFiles cfg l.ctx.cleared box files (.execute i (j + 1)) =
      launchExecuteFiles l.ctx.cleared i (j + 1) files := by
    simp only [setupFiles, setupExecuteFiles, launched]
  rw [executed]
  exact launchExecuteFiles_input (isSome_of_isRegularFile (home.1 ▸ home.2))

end Steps

end Life

end TiojJudge.Judge
