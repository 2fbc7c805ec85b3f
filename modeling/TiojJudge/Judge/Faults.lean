import TiojJudge.Judge.Testdata

/-!
# Calls that return

A setup or a finalizer leaves the defined behaviour when a testdata, its result
or a group is not there, or when `ScoreToString` throws.

* `GroupsIndexed`, `subtaskScores_ok`: what the default summary needs of a submission;
* `Writable`: what the summary program's input needs of a result;
* `Indexed`: every testdata that is executed has a result;
* `setup_ok`, `finalize_ok`, `skip_ok`: every call in a life returns, when the files that a setup
  needs are there.
-/

namespace TiojJudge.Judge

/-- The groups of the testdata that count are those of `group_score`. -/
def GroupsIndexed (sub : Submission) : Prop :=
  ∀ item ∈ sub.testdata, item.ignoreVerdict = false →
    ∀ group ∈ item.tdGroups, 0 ≤ group ∧ group < sub.groupScore.length

instance : DecidablePred GroupsIndexed := fun sub => by
  unfold GroupsIndexed
  infer_instance

/-- `ScoreToString` returns for every score that `SetupSummary` writes. -/
def Writable (sub : Submission) (res : SubmissionResult) : Prop :=
  sub.summaryType = .custom → (summaryResult sub res).verdict ≠ .jce →
    (summaryMeta sub (summaryResult sub res)).isSome = true

instance (sub : Submission) (res : SubmissionResult) : Decidable (Writable sub res) := by
  unfold Writable
  infer_instance

section Calls

variable {cfg : Config} {c : Ctx} {i j listSize : Nat} {o : TaskOutcome} {files : BoxFiles}

/-- A fold whose every step returns. -/
theorem foldlM_ok {α β : Type} {f : β → α → Except Fault β} {I : β → Prop} {as : List α}
    (keep : ∀ a ∈ as, ∀ b, I b → ∃ b', f b a = .ok b' ∧ I b') :
    ∀ b, I b → ∃ b', as.foldlM f b = .ok b' ∧ I b' := by
  induction as with
  | nil =>
    intro b hb
    exact ⟨b, rfl, hb⟩
  | cons a as ih =>
    intro b hb
    obtain ⟨b', step, hb'⟩ := keep a List.mem_cons_self b hb
    obtain ⟨b'', rest, hb''⟩ := ih (fun a ha => keep a (List.mem_cons_of_mem _ ha)) b' hb'
    refine ⟨b'', ?_, hb''⟩
    rw [List.foldlM_cons, step]
    exact rest

theorem lowerScore_ok {scores : List Int} {group : Int} (score : Int)
    (inside : 0 ≤ group ∧ group < scores.length) :
    ∃ scores', lowerScore scores group score = .ok scores' ∧ scores'.length = scores.length := by
  rw [lowerScore, if_pos inside]
  exact ⟨_, rfl, List.length_modify ..⟩

theorem subtaskScores_ok {sub : Submission} (indexed : GroupsIndexed sub)
    (tds : List TestdataResult) : ∃ scores, subtaskScores sub tds = .ok scores := by
  have keep : ∀ p ∈ tds.zip sub.testdata, ∀ scores : List Int,
      scores.length = sub.groupScore.length → ∃ scores',
        (if p.2.ignoreVerdict then .ok scores
          else p.2.tdGroups.foldlM (fun scores group => lowerScore scores group p.1.score) scores) =
          Except.ok scores' ∧ scores'.length = sub.groupScore.length := by
    intro p hp scores size
    by_cases ignored : p.2.ignoreVerdict = true
    · exact ⟨scores, if_pos ignored, size⟩
    · rw [if_neg ignored]
      have groups := indexed p.2 (List.of_mem_zip hp).2 (by simpa using ignored)
      apply foldlM_ok (fun group hg scores size => ?_) scores size
      obtain ⟨scores', lowered, same⟩ := lowerScore_ok p.1.score (size ▸ groups group hg)
      exact ⟨scores', lowered, same.trans size⟩
  obtain ⟨scores, folded, _⟩ := foldlM_ok keep (List.replicate sub.groupScore.length kInfScore)
    List.length_replicate
  exact ⟨scores, folded⟩

theorem finalizeSummary_ok {skipped : Bool} (indexed : GroupsIndexed c.sub) :
    ∃ c', finalizeSummary cfg c o skipped listSize = .ok c' := by
  obtain ⟨scores, folded⟩ := subtaskScores_ok indexed c.result.tdResults
  unfold finalizeSummary defaultTotals
  by_cases counts : c.result.verdict < .ce
  · rw [if_pos counts, folded]
    exact ⟨_, rfl⟩
  · rw [if_neg counts]
    exact ⟨_, rfl⟩

/-- `SetupExecute` gets to the files of the stage. -/
def Ctx.executes (c : Ctx) (i j : Nat) : Prop :=
  c.result.verdict = .nul ∧ (∀ item ∈ c.sub.testdata[i]?, c.isCancelled item.tdGroups = false) ∧
    (j ≠ 0 → (c.td i).skipStage = false ∧ (c.td i).verdict = .nul)

instance (c : Ctx) (i j : Nat) : Decidable (c.executes i j) :=
  inferInstanceAs (Decidable (_ ∧ _ ∧ _))

/-- The call returns, unless a file that it needs is missing. -/
theorem setupExecute_ok (inside : i < c.sub.testdata.length)
    (here : j ≠ 0 → c.result.verdict ≠ .nul ∨
      (∃ item, c.sub.testdata[i]? = some item ∧ c.isCancelled item.tdGroups = true) ∨
      i < c.result.tdResults.length) : setupExecute c i j files =
      if c.executes i j then prepareExecute c j files else .ok false := by
  have found := List.getElem?_eq_getElem inside
  by_cases set : c.result.verdict = .nul
  · by_cases cancelled : c.isCancelled c.sub.testdata[i].tdGroups = true
    · have never : ¬ c.executes i j := fun executes =>
        Bool.false_ne_true ((executes.2.1 _ found).symm.trans cancelled)
      simp [setupExecute, set, found, cancelled, never]
    · rw [Bool.not_eq_true] at cancelled
      have free : ∀ item ∈ c.sub.testdata[i]?, c.isCancelled item.tdGroups = false := by
        intro item same
        obtain rfl := Option.some.inj (found.symm.trans same)
        exact cancelled
      by_cases first : j = 0
      · have executes : c.executes i j := ⟨set, free, fun later => absurd first later⟩
        rw [if_pos executes]
        simp [setupExecute, set, found, cancelled, first]
      · have inside' : i < c.result.tdResults.length := by
          rcases here first with no | ⟨item, same, yes⟩ | inside'
          · exact absurd set no
          · exact (Bool.false_ne_true ((free item same).symm.trans yes)).elim
          · exact inside'
        have executes : c.executes i j ↔ c.result.tdResults[i].skipStage = false ∧
            c.result.tdResults[i].verdict = .nul := by
          have entry : c.td i = c.result.tdResults[i] := by simp [Ctx.td, inside']
          rw [Ctx.executes, entry]
          exact ⟨fun going => going.2.2 first, fun going => ⟨set, free, fun _ => going⟩⟩
        by_cases going : c.executes i j
        · rw [if_pos going]
          obtain ⟨go, nul⟩ := executes.mp going
          simp [setupExecute, set, found, cancelled, first, List.getElem?_eq_getElem inside', go, nul]
        · rw [if_neg going]
          have passed : c.result.tdResults[i].skipStage = true ∨ c.result.tdResults[i].verdict ≠ .nul := by
            by_contra no
            rw [not_or, Bool.not_eq_true, not_not] at no
            exact going (executes.mpr no)
          simp [setupExecute, set, found, cancelled, first, List.getElem?_eq_getElem inside', passed]
  · have never : ¬ c.executes i j := fun executes => set executes.1
    simp [setupExecute, set, never]

/-- The files that the setup of the task needs are there. -/
def Task.Complete (c : Ctx) (files : BoxFiles) : Task → Prop
  | .execute i j => c.executes i j → files.complete c.sub j = true
  | .compile _ | .scoring .. | .summary => True

instance (c : Ctx) (files : BoxFiles) : DecidablePred (Task.Complete c files)
  | .compile _ | .execute .. | .scoring .. | .summary => by
    unfold Task.Complete
    infer_instance

theorem complete_empty (c : Ctx) (t : Task) : t.Complete c .empty := by
  cases t with
  | execute i j =>
    intro _
    simp [BoxFiles.complete, BoxFiles.empty]
  | compile | scoring | summary => trivial

theorem finalizeExecute_ok (inside : i < c.sub.testdata.length) :
    ∃ c', finalizeExecute cfg c i j o = .ok c' := by
  unfold finalizeExecute
  rw [List.getElem?_eq_getElem inside]
  exact ⟨_, rfl⟩

theorem finalizeScoring_ok {skipped : Bool} (inside : i < c.sub.testdata.length)
    (here : i < c.result.tdResults.length) : ∃ c', finalizeScoring cfg c i j o skipped = .ok c' := by
  unfold finalizeScoring
  rw [List.getElem?_eq_getElem inside, List.getElem?_eq_getElem here]
  exact ⟨_, rfl⟩

theorem setupScoring_ok {files : BoxFiles} (inside : i < c.sub.testdata.length)
    (here : c.result.verdict ≠ .nul ∨
      (∃ item, c.sub.testdata[i]? = some item ∧ c.isCancelled item.tdGroups = true) ∨
      i < c.result.tdResults.length) : ∃ launch c', setupScoring cfg c i j files = .ok (launch, c') := by
  unfold setupScoring
  by_cases set : c.result.verdict ≠ .nul
  · exact ⟨false, c, if_pos set⟩
  · rw [if_neg set, List.getElem?_eq_getElem inside]
    by_cases cancelled : c.isCancelled c.sub.testdata[i].tdGroups = true
    · exact ⟨false, c, if_pos cancelled⟩
    · rcases here with no | ⟨item, found, yes⟩ | here
      · exact absurd no set
      · rw [List.getElem?_eq_getElem inside, Option.some.injEq] at found
        exact absurd (found ▸ yes) cancelled
      · obtain ⟨c₁, skipped⟩ := @finalizeScoring_ok cfg c i j ⟨.zero, files⟩ true inside here
        obtain ⟨c₂, unread⟩ := @finalizeScoring_ok cfg c i j ⟨.zero, files⟩ false inside here
        simp only [cancelled, List.getElem?_eq_getElem here, skipped, unread]
        split_ifs <;> exact ⟨_, _, rfl⟩

theorem setupSummary_ok (size : c.result.tdResults.length ≤ c.sub.testdata.length)
    (writable : Writable c.sub c.result) : ∃ launch c', setupSummary c = .ok (launch, c') := by
  unfold setupSummary
  rw [if_neg (Nat.not_lt.mpr size)]
  by_cases plain : c.sub.summaryType = .none ∨ (summaryResult c.sub c.result).verdict = .jce
  · exact ⟨_, _, if_pos plain⟩
  · rw [not_or] at plain
    have custom : c.sub.summaryType = .custom := by
      cases type : c.sub.summaryType with
      | none => exact absurd type plain.1
      | custom => rfl
    obtain ⟨text, written⟩ := Option.isSome_iff_exists.mp (writable custom plain.2)
    simp only [plain.1, plain.2, or_self, if_false, written]
    exact ⟨_, _, rfl⟩

/-! ## The number of results -/

theorem setup_length {t : Task} {files : BoxFiles} {launch : Bool} {c' : Ctx}
    (h : setup cfg c files t = .ok (launch, c')) :
    c'.result.tdResults.length = c.result.tdResults.length := by
  cases t with
  | compile subtask =>
    simp only [setup, Except.ok.injEq] at h
    rw [(setupCompile_spec h).2.2.1]
  | execute i j =>
    obtain ⟨_, rfl⟩ := setup_execute_iff.mp h
    rfl
  | scoring i j =>
    rcases setupScoring_cases h with ⟨_, rfl, _⟩ | ⟨_, rfl, _⟩ | ⟨_, _, _, _, _, _, _, scored⟩
    · rfl
    · rfl
    · exact scored.length
  | summary =>
    rw [(setupSummary_spec h).1]
    exact congrArg List.length (summaryResult_tdResults _ _)

/-- Only an execution adds results, up to its own. -/
theorem finalize_length {t : Task} {outcome : Option TaskOutcome} {c' : Ctx}
    (h : finalize cfg c listSize t outcome = .ok c') :
    c'.result.tdResults.length = c.result.tdResults.length ∨
    ∃ i j, t = .execute i j ∧ i < c.sub.testdata.length ∧
      c'.result.tdResults.length = max c.result.tdResults.length (i + 1) := by
  cases outcome with
  | none =>
    cases t with
    | compile | execute | scoring =>
      cases h
      exact .inl rfl
    | summary => exact .inl (congrArg List.length (finalizeSummary_spec h).2.1)
  | some o =>
    cases t with
    | compile subtask =>
      cases h
      exact .inl (congrArg List.length (finalizeCompile_spec cfg c subtask o).2.2.1)
    | execute i j =>
      obtain ⟨_, found, _, _, _, _, _, length, _⟩ := finalizeExecute_spec h
      exact .inr ⟨i, j, rfl, (List.getElem?_eq_some_iff.mp found).1, length⟩
    | scoring i j => exact .inl (finalizeScoring_spec h).length
    | summary => exact .inl (congrArg List.length (finalizeSummary_spec h).2.1)

end Calls

namespace Life

variable {cfg : Config} {id : Int} {base : Nat} {sub : Submission} {l l' : Life}

/-- A testdata that was executed has a result, unless no task of it needs to run. -/
structure Indexed (sub : Submission) (l : Life) : Prop where
  size : l.ctx.result.tdResults.length ≤ sub.numTds
  judged : ∀ i j, .scoring i j ∈ l.running → i < l.ctx.result.tdResults.length
  grown : ∀ i, i < sub.numTds → .execute i 0 ∉ l.todo → .summary ∈ l.todo →
    l.Excused i ∨ i < l.ctx.result.tdResults.length

theorem Indexed.start (wf : sub.WellFormed) : Indexed sub (start id base sub) where
  size := Nat.zero_le _
  judged := by
    intro i j running
    exact absurd running (Finset.notMem_empty _)
  grown := by
    intro i hi gone _
    have planned : sub.Planned (.execute i 0) := ⟨hi, wf.numStages.1⟩
    exact absurd (List.mem_toFinset.mpr (Submission.mem_planTasks.mpr planned)) gone

/-- A skipped first execution is one that does not need to run. -/
theorem excused_of_skip {i : Nat} {files : BoxFiles} {c : Ctx}
    (h : setup cfg l.ctx.cleared files (.execute i 0) = .ok (false, c)) : l.Excused i := by
  obtain ⟨ready, rfl⟩ := setup_execute_iff.mp h
  rcases setupExecute_skips ready with set | cancelled | ⟨later, _⟩
  · exact .inl set
  · exact .inr cancelled
  · exact absurd rfl later

/-- A step keeps the results, or an execution adds some. -/
theorem Step.length (h : Step cfg id base l l') :
    l'.ctx.result.tdResults.length = l.ctx.result.tdResults.length ∨
    ∃ i < l.ctx.sub.testdata.length,
      l'.ctx.result.tdResults.length = max l.ctx.result.tdResults.length (i + 1) := by
  cases h with
  | @launch _ _ _ c _ setup =>
    have same : c.result.tdResults.length = l.ctx.cleared.result.tdResults.length := setup_length setup
    exact .inl same
  | @skip t _ _ c c' _ setup done =>
    have before : c.result.tdResults.length = l.ctx.cleared.result.tdResults.length :=
      setup_length setup
    rcases finalize_length done with same | ⟨i, _, _, inside, more⟩
    · exact .inl (same.trans before)
    · refine .inr ⟨i, ?_, more.trans (congrArg (max · (i + 1)) before)⟩
      exact (congrArg (fun sub => sub.testdata.length) (setup_frame setup).sub) ▸ inside
  | finish _ done =>
    rcases finalize_length done with same | ⟨i, _, _, inside, more⟩
    · exact .inl same
    · exact .inr ⟨i, inside, more⟩
  | cancel => exact .inl rfl

/-- A task ends the first execution of a testdata that has a result then, or needs none. -/
theorem Step.executed {i : Nat} (h : Step cfg id base l l') (here : .execute i 0 ∈ l.todo)
    (gone : .execute i 0 ∉ l'.todo) : l.Excused i ∨ i < l'.ctx.result.tdResults.length := by
  cases h with
  | launch => exact absurd here gone
  | @skip t _ _ _ _ _ setup _ =>
    obtain rfl : .execute i 0 = t := by
      by_contra other
      exact gone (Finset.mem_erase.mpr ⟨other, here⟩)
    exact .inl (excused_of_skip setup)
  | @finish t o _ c _ done =>
    obtain rfl : .execute i 0 = t := by
      by_contra other
      exact gone (Finset.mem_erase.mpr ⟨other, here⟩)
    apply Or.inr
    obtain ⟨_, _, _, _, _, _, _, length, _⟩ := finalizeExecute_spec done
    have inside : i < c.result.tdResults.length := by omega
    exact inside
  | cancel => exact absurd here gone

/-- A task that starts to be judged has a result. -/
theorem Step.judging {i j : Nat} (h : Step cfg id base l l') (running : .scoring i j ∈ l'.running) :
    .scoring i j ∈ l.running ∨ i < l.ctx.result.tdResults.length := by
  cases h with
  | launch _ setup =>
    rcases Finset.mem_insert.mp running with rfl | old
    · rcases setupScoring_cases setup with ⟨_, _, _, _, inside, _⟩ | ⟨no, _⟩ | ⟨no, _⟩
      · exact .inr inside
      · cases no
      · cases no
    · exact .inl old
  | skip =>
    obtain ⟨other, old⟩ := Finset.mem_erase.mp running
    exact .inl ((Finset.mem_insert.mp old).resolve_left other)
  | finish => exact .inl (Finset.mem_of_mem_erase running)
  | cancel => exact .inl running

theorem Indexed.step (indexed : Indexed sub l) (shape : Shape sub l) (h : Step cfg id base l l') :
    Indexed sub l' := by
  have grew : l.ctx.result.tdResults.length ≤ l'.ctx.result.tdResults.length := by
    rcases h.length with same | ⟨i, _, more⟩ <;> omega
  constructor
  · rcases h.length with same | ⟨i, inside, more⟩
    · rw [same]
      exact indexed.size
    · rw [shape.same] at inside
      rw [more]
      exact max_le indexed.size inside
  · intro i j running
    rcases h.judging running with old | inside
    · exact (indexed.judged i j old).trans_le grew
    · exact inside.trans_le grew
  · intro i hi gone left
    by_cases here : .execute i 0 ∈ l.todo
    · exact (h.executed here gone).imp_left fun excused => excused.step h left
    · rcases indexed.grown i hi here (h.todo_subset shape left) with excused | inside
      · exact .inl (excused.step h left)
      · exact .inr (inside.trans_le grew)

theorem indexed (wf : sub.WellFormed) (h : Reachable cfg id base sub l) : Indexed sub l := by
  induction h with
  | start => exact .start wf
  | next reach step ih => exact ih.step (shape wf reach) step

/-! ## No call faults -/

/-- The first execution is over when another task of the testdata is ready. -/
theorem entry_of_ready {t : Task} {i : Nat} (wf : sub.WellFormed) (reach : Reachable cfg id base sub l)
    (ready : l.Ready t) (mine : t.testdata = some i) (other : .execute i 0 ≠ t) (hi : i < sub.numTds) :
    l.ctx.cleared.result.verdict ≠ .nul ∨
      (∃ item, l.ctx.cleared.sub.testdata[i]? = some item ∧
        l.ctx.cleared.isCancelled item.tdGroups = true) ∨
      i < l.ctx.cleared.result.tdResults.length := by
  have shape := shape wf reach
  have gone := shape.before_ready (Submission.first_leads wf (shape.planned t ready.1) mine) ready other
  have left := shape.summary_left wf ready.1
  exact or_assoc.mp ((indexed wf reach).grown i hi gone left)

theorem setup_execute {i j : Nat} (wf : sub.WellFormed) (reach : Reachable cfg id base sub l)
    (ready : l.Ready (.execute i j)) (files : BoxFiles) : setupExecute l.ctx.cleared i j files =
      if l.ctx.cleared.executes i j then prepareExecute l.ctx.cleared j files else .ok false := by
  have shape := shape wf reach
  have planned : i < sub.numTds := (shape.planned _ ready.1).1
  apply setupExecute_ok
  · rw [show l.ctx.cleared.sub = sub from shape.same]
    exact planned
  · intro later
    exact entry_of_ready wf reach ready rfl (by simpa using Ne.symm later) planned

theorem setup_ok {t : Task} (wf : sub.WellFormed) (reach : Reachable cfg id base sub l)
    (ready : l.Ready t) (writable : t = .summary → Writable sub l.ctx.result) {files : BoxFiles}
    (complete : t.Complete l.ctx.cleared files) :
    ∃ launch c, setup cfg l.ctx.cleared files t = .ok (launch, c) := by
  have shape := shape wf reach
  have planned := shape.planned t ready.1
  have inside {i : Nat} (hi : i < sub.numTds) : i < l.ctx.cleared.sub.testdata.length := by
    rw [show l.ctx.cleared.sub = sub from shape.same]
    exact hi
  cases t with
  | compile => exact ⟨_, _, rfl⟩
  | execute i j =>
    have call := setup_execute wf reach ready files
    by_cases executes : l.ctx.cleared.executes i j
    · rw [if_pos executes, prepareExecute, if_pos (complete executes)] at call
      exact ⟨true, l.ctx.cleared, by rw [setup, call]; rfl⟩
    · rw [if_neg executes] at call
      exact ⟨false, l.ctx.cleared, by rw [setup, call]; rfl⟩
  | scoring i j =>
    exact setupScoring_ok (inside planned.1)
      (entry_of_ready wf reach ready rfl Task.noConfusion planned.1)
  | summary =>
    apply setupSummary_ok
    · rw [show l.ctx.cleared.sub = sub from shape.same]
      exact (indexed wf reach).size
    · rw [show l.ctx.cleared.sub = sub from shape.same]
      exact writable rfl

/-- A missing file ends the judge. -/
theorem setup_throws {t : Task} (wf : sub.WellFormed) (reach : Reachable cfg id base sub l)
    (ready : l.Ready t) {files : BoxFiles} (missing : ¬ t.Complete l.ctx.cleared files) :
    setup cfg l.ctx.cleared files t = .error .filesystemError := by
  cases t with
  | execute i j =>
    obtain ⟨executes, gone⟩ := Classical.not_imp.mp missing
    rw [setup, setup_execute wf reach ready files, if_pos executes, prepareExecute, if_neg gone]
    rfl
  | compile | scoring | summary => exact absurd trivial missing

theorem finalize_ok {t : Task} (wf : sub.WellFormed) (groups : GroupsIndexed sub)
    (reach : Reachable cfg id base sub l) (running : t ∈ l.running) (listSize : Nat)
    (o : TaskOutcome) : ∃ c, finalize cfg l.ctx.cleared listSize t (some o) = .ok c := by
  have shape := shape wf reach
  have planned := shape.planned t (shape.running running)
  have inside {i : Nat} (hi : i < sub.numTds) : i < l.ctx.cleared.sub.testdata.length := by
    rw [show l.ctx.cleared.sub = sub from shape.same]
    exact hi
  cases t with
  | compile => exact ⟨_, rfl⟩
  | execute i j => exact finalizeExecute_ok (inside planned.1)
  | scoring i j =>
    exact finalizeScoring_ok (inside planned.1) ((indexed wf reach).judged i j running)
  | summary =>
    apply finalizeSummary_ok
    rw [show l.ctx.cleared.sub = sub from shape.same]
    exact groups

theorem skip_ok {t : Task} {files : BoxFiles} {c : Ctx} (wf : sub.WellFormed)
    (groups : GroupsIndexed sub) (reach : Reachable cfg id base sub l)
    (skipped : setup cfg l.ctx.cleared files t = .ok (false, c)) (listSize : Nat) :
    ∃ c', finalize cfg c.cleared listSize t none = .ok c' := by
  cases t with
  | compile | execute | scoring => exact ⟨_, rfl⟩
  | summary =>
    apply finalizeSummary_ok
    have same : c.cleared.sub = sub := (setup_frame skipped).sub.trans (shape wf reach).same
    rw [same]
    exact groups

end Life

end TiojJudge.Judge
