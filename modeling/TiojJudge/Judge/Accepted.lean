import TiojJudge.Judge.Refinement
import TiojJudge.Judge.Testdata

/-!
# What an accepted submission has passed

`FinalizeScoring` cancels the groups of a testdata that was rejected, also when
its own verdict is ignored. Other testdata in these groups are then skipped,
and a testdata without a verdict does not lower the overall one.

* `Rejected`: a testdata whose rejection is final;
* `blamed`: a cancelled group has a rejected testdata;
* `GroupsDecided`: no testdata that counts is in groups of ignored ones only;
* `accepted_entries`: then a submission that is reported `AC` has an accepted
  entry for every testdata that counts.
-/

namespace TiojJudge.Judge
open Machine

section Groups

variable {cfg : Config} {c c' : Ctx} {i j listSize : Nat} {o : TaskOutcome} {t : Task}

/-- The groups that a scoring blames are those of a testdata that it rejects. -/
theorem Scored.blames {skipped : Bool} (h : Scored cfg c i j o skipped c') {g : Int}
    (blamed : c'.Blames g) : c.Blames g ∨ ∃ item, c.sub.testdata[i]? = some item ∧
      g ∈ item.tdGroups ∧ c.sub.skipGroup = true ∧ (c'.td i).verdict ≠ .nul ∧
      (c'.td i).verdict ≠ .ac := by
  obtain ⟨item, found, groups⟩ := h.groups
  obtain ⟨cancelled, some_, hg⟩ := blamed
  unfold groupsAfter at groups
  split at groups
  · rename_i rejected
    obtain rfl := Option.some.inj (some_.symm.trans groups)
    rcases Finset.mem_union.mp hg with old | new
    · refine .inl ?_
      cases before : c.cancelledGroup with
      | none => simp [before] at old
      | some groups => exact ⟨groups, before, by simpa [before] using old⟩
    · exact .inr ⟨item, found, List.mem_toFinset.mp new, rejected⟩
  · exact .inl ⟨cancelled, groups ▸ some_, hg⟩

theorem setup_groups {files : BoxFiles} {launch : Bool}
    (h : setup cfg c files t = .ok (launch, c')) : c'.cancelledGroup = c.cancelledGroup ∨
      launch = false ∧ ∃ i j skipped, t = .scoring i j ∧ c.result.verdict = .nul ∧
        (∃ item, c.sub.testdata[i]? = some item ∧ c.isCancelled item.tdGroups = false) ∧
        Scored cfg c i j ⟨.zero, files⟩ skipped c' := by
  cases t with
  | compile subtask =>
    simp only [setup, Except.ok.injEq] at h
    exact .inl (setupCompile_spec h).2.2.2.2
  | execute i j =>
    obtain ⟨_, rfl⟩ := setup_execute_iff.mp h
    exact .inl rfl
  | scoring i j =>
    rcases setupScoring_cases h with ⟨_, rfl, _⟩ | ⟨_, rfl, _⟩ |
      ⟨no, nul, free, _, skipped, _, _, scored⟩
    · exact .inl rfl
    · exact .inl rfl
    · exact .inr ⟨no, i, j, skipped, rfl, nul, free, scored⟩
  | summary =>
    rw [(setupSummary_spec h).1]
    exact .inl rfl

theorem finalize_groups {outcome : Option TaskOutcome}
    (h : finalize cfg c listSize t outcome = .ok c') : c'.cancelledGroup = c.cancelledGroup ∨
      c'.cancelledGroup = none ∨
      ∃ i j o, t = .scoring i j ∧ outcome = some o ∧ Scored cfg c i j o false c' := by
  cases outcome with
  | none =>
    cases t with
    | compile | execute | scoring =>
      cases h
      exact .inl rfl
    | summary => exact .inr (.inl (finalizeSummary_spec h).2.2.2.2.2.1)
  | some o =>
    cases t with
    | compile subtask =>
      cases h
      exact .inl (finalizeCompile_spec cfg c subtask o).2.2.2.2
    | execute i j =>
      obtain ⟨_, _, _, _, _, _, groups, _⟩ := finalizeExecute_spec h
      exact .inl groups
    | scoring i j => exact .inr (.inr ⟨i, j, o, rfl, rfl, finalizeScoring_spec h⟩)
    | summary => exact .inr (.inl (finalizeSummary_spec h).2.2.2.2.2.1)

/-- Before the last stage a verdict skips the stages that follow. -/
theorem scoringOutcome_settled {sub : Submission} {skipped : Bool} {td : TestdataResult}
    (early : sub.lastStage j = false) (set : (scoringOutcome cfg sub j o skipped td).verdict ≠ .nul) :
    (scoringOutcome cfg sub j o skipped td).skipStage = true := by
  obtain ⟨td', _, same⟩ := scoringOutcome_cases cfg sub j o skipped td
  rw [same] at set ⊢
  unfold settleStage at set ⊢
  rw [early] at set ⊢
  simp only [Bool.not_false, Bool.true_and, Bool.false_and, Bool.false_eq_true, if_false] at set ⊢
  split at set
  · rename_i rejected
    rw [if_pos rejected]
  · rename_i unset
    simp only [bne_iff_ne, not_not] at unset
    exact absurd unset set

end Groups

namespace Life

variable {cfg : Config} {id : Int} {base : Nat} {sub : Submission} {l l' : Life} {i : Nat} {g : Int}

/-- No task of the testdata will change its result. -/
def Final (sub : Submission) (l : Life) (i : Nat) : Prop :=
  (l.ctx.td i).skipStage = true ∨ sub.lastScoring i ∉ l.todo

instance : Decidable (Final sub l i) := inferInstanceAs (Decidable (_ ∨ _))

theorem Final.kept (f : Final sub l i) (wf : sub.WellFormed) (shape : Shape sub l)
    (tested : Tested sub i l) (h : Step cfg id base l l') : l'.ctx.td i = l.ctx.td i := by
  have quiet {t : Task} (active : l.Active t) (mine : t.testdata = some i)
      (go : (l.ctx.td i).skipStage = false) : False := by
    rcases f with skip | gone
    · rw [go] at skip
      cases skip
    · exact gone (shape.last_left wf (shape.active_todo active) mine)
  rcases h.testdata i with ⟨td, _⟩ | ⟨_, _, _, td, _⟩ | ⟨_, _, _, td, _⟩ | ⟨ready, _, go, _⟩ |
    ⟨here, _⟩ | ⟨here, _⟩
  · exact td
  · exact td
  · exact td
  · exact (quiet (.inr ready) rfl go).elim
  · exact (quiet (.inl here) rfl (tested.active _ here rfl)).elim
  · exact (quiet (.inl here) rfl (tested.active _ here rfl)).elim

theorem Final.step (f : Final sub l i) (wf : sub.WellFormed) (shape : Shape sub l)
    (tested : Tested sub i l) (h : Step cfg id base l l') : Final sub l' i := by
  have td := f.kept wf shape tested h
  exact f.imp (fun skip => td ▸ skip) fun gone here => gone (h.todo_subset shape here)

/-- The testdata has a verdict other than `AC`, and no task of it will change that. -/
structure Rejected (sub : Submission) (l : Life) (i : Nat) : Prop where
  set : (l.ctx.td i).verdict ≠ .nul
  failed : (l.ctx.td i).verdict ≠ .ac
  final : (l.ctx.td i).skipStage = true ∨ sub.lastScoring i ∉ l.todo

theorem Rejected.step (r : Rejected sub l i) (wf : sub.WellFormed) (shape : Shape sub l)
    (tested : Tested sub i l) (h : Step cfg id base l l') : Rejected sub l' i := by
  have td := Final.kept r.final wf shape tested h
  exact ⟨td ▸ r.set, td ▸ r.failed, Final.step r.final wf shape tested h⟩

/-- A scoring that blames groups rejects its testdata for good. -/
theorem rejected_of_scored {j : Nat} {o : TaskOutcome} {skipped : Bool} {c c' : Ctx}
    (wf : sub.WellFormed) (same : c.sub = sub) (scored : Scored cfg c i j o skipped c')
    (td : l'.ctx.td i = c'.td i) (gone : .scoring i j ∉ l'.todo)
    (set : (c'.td i).verdict ≠ .nul) (failed : (c'.td i).verdict ≠ .ac) : Rejected sub l' i := by
  refine ⟨td ▸ set, td ▸ failed, ?_⟩
  cases last : sub.lastStage j with
  | true =>
    refine .inr ?_
    rw [lastStage_iff wf] at last
    rwa [Submission.lastScoring, ← last]
  | false =>
    rw [scored.td, same] at set
    rw [td, scored.td, same]
    exact .inl (scoringOutcome_settled last set)

/-- A group that a step cancels has a testdata that the step scored and rejected. -/
theorem Step.blames (h : Step cfg id base l l') (wf : sub.WellFormed) (shape : Shape sub l)
    (blamed : l'.ctx.Blames g) : l.ctx.Blames g ∨ sub.skipGroup = true ∧
      ∃ i j item, sub.testdata[i]? = some item ∧ g ∈ item.tdGroups ∧ Rejected sub l' i ∧
        .scoring i j ∈ l.todo ∧ .scoring i j ∉ l'.todo ∧
        (.scoring i j ∈ l.running ∨ ¬ l.Excused i) := by
  have same : l.ctx.cleared.sub = sub := shape.same
  have of_scored {i j : Nat} {o : TaskOutcome} {skipped : Bool} {c : Ctx}
      (scored : Scored cfg l.ctx.cleared i j o skipped c) (hg : c.Blames g)
      (td : l'.ctx.td i = c.td i) (here : .scoring i j ∈ l.todo) (gone : .scoring i j ∉ l'.todo)
      (going : .scoring i j ∈ l.running ∨ ¬ l.Excused i) :
      l.ctx.Blames g ∨ sub.skipGroup = true ∧
        ∃ i j item, sub.testdata[i]? = some item ∧ g ∈ item.tdGroups ∧ Rejected sub l' i ∧
          .scoring i j ∈ l.todo ∧ .scoring i j ∉ l'.todo ∧
          (.scoring i j ∈ l.running ∨ ¬ l.Excused i) := by
    rcases scored.blames hg with old | ⟨item, found, mem, skipGroup, set, failed⟩
    · exact .inl old
    · rw [same] at found skipGroup
      exact .inr ⟨skipGroup, i, j, item, found, mem,
        rejected_of_scored wf same scored td gone set failed, here, gone, going⟩
  obtain ⟨cancelled, some_, hg⟩ := blamed
  cases h with
  | launch _ setup =>
    rcases setup_groups setup with kept | ⟨no, _⟩
    · exact .inl ⟨cancelled, kept.symm.trans some_, hg⟩
    · cases no
  | skip ready setup done =>
    rcases finalize_groups done with kept | none | ⟨_, _, _, _, no, _⟩
    · rcases setup_groups setup with kept' | ⟨_, i, j, skipped, rfl, nul, ⟨item, found, free⟩, scored⟩
      · exact .inl ⟨cancelled, kept'.symm.trans (kept.symm.trans some_), hg⟩
      · cases done
        exact of_scored scored ⟨cancelled, some_, hg⟩ rfl ready.1 (Finset.notMem_erase _ _)
          (.inr (not_excused nul found free))
    · cases none.symm.trans some_
    · cases no
  | finish here done =>
    rcases finalize_groups done with kept | none | ⟨i, j, o, rfl, _, scored⟩
    · exact .inl ⟨cancelled, kept.symm.trans some_, hg⟩
    · cases none.symm.trans some_
    · exact of_scored scored ⟨cancelled, some_, hg⟩ rfl (shape.running here)
        (Finset.notMem_erase _ _) (.inl here)
  | cancel => exact .inl ⟨cancelled, some_, hg⟩

theorem blamed (wf : sub.WellFormed) (h : Reachable cfg id base sub l) (hg : l.ctx.Blames g) :
    sub.skipGroup = true ∧
      ∃ i item, sub.testdata[i]? = some item ∧ g ∈ item.tdGroups ∧ Rejected sub l i := by
  induction h with
  | start =>
    obtain ⟨_, no, _⟩ := hg
    cases no
  | next reach step ih =>
    have shape := shape wf reach
    rcases step.blames wf shape hg with old | new
    · obtain ⟨skipGroup, i, item, found, mem, r⟩ := ih old
      have hi : i < sub.numTds := (List.getElem?_eq_some_iff.mp found).1
      exact ⟨skipGroup, i, item, found, mem, r.step wf shape (tested wf hi reach) step⟩
    · obtain ⟨skipGroup, i, _, item, found, mem, r, _⟩ := new
      exact ⟨skipGroup, i, item, found, mem, r⟩

/-- The verdict is one of compile tasks, or not set yet. -/
theorem verdict_cases (h : Reachable cfg id base sub l) (left : .summary ∈ l.todo)
    (idle : .summary ∉ l.running) : l.ctx.result.verdict = .nul ∨ .ce ≤ l.ctx.result.verdict := by
  induction h with
  | start => exact .inl rfl
  | next reach step ih =>
    obtain ⟨left', idle'⟩ := step.idle left idle
    rcases step.compiles left idle with ⟨same, _⟩ | ⟨subtask, o, verdict, _⟩
    · exact same ▸ ih left' idle'
    · rw [verdict]
      unfold compileVerdict
      split
      · exact .inr (by decide)
      · split
        · refine .inr (le_max_of_le_right ?_)
          unfold failVerdict
          split_ifs <;> decide
        · exact ih left' idle'

theorem summary_idle (none : sub.summaryType = .none) (wf : sub.WellFormed)
    (h : Reachable cfg id base sub l) : .summary ∉ l.running := by
  induction h with
  | start => exact Finset.notMem_empty _
  | next reach step ih =>
    cases step with
    | @launch t _ _ _ ready setup =>
      rw [launched, started, Finset.mem_insert, not_or]
      refine ⟨?_, ih⟩
      rintro rfl
      have custom := ((setupSummary_spec setup).2.mp rfl).1
      have same := congrArg Submission.summaryType (shape wf reach).same
      cases custom.symm.trans (same.trans none)
    | skip ready =>
      rw [settled, started, Finset.erase_insert ready.2.1]
      exact ih
    | finish => exact fun h => ih (Finset.mem_of_mem_erase h)
    | cancel => exact ih

end Life

/-! ## The overall verdict -/

/-- A testdata that counts and has groups has one without ignored testdata. -/
def GroupsDecided (sub : Submission) : Prop :=
  sub.skipGroup = true → ∀ item ∈ sub.testdata, item.ignoreVerdict = false → item.tdGroups ≠ [] →
    ∃ g ∈ item.tdGroups, ∀ other ∈ sub.testdata, g ∈ other.tdGroups → other.ignoreVerdict = false

instance (sub : Submission) : Decidable (GroupsDecided sub) := by
  unfold GroupsDecided
  infer_instance

/-- Every testdata that counts has an accepted entry. -/
def AllAccepted (sub : Submission) (res : SubmissionResult) : Prop :=
  ∀ (i : Nat) (item : TestdataItem), sub.testdata[i]? = some item → item.ignoreVerdict = false →
    ∃ td : TestdataResult, res.tdResults[i]? = some td ∧ td.verdict = .ac

theorem le_overallVerdict {sub : Submission} {tds : List TestdataResult} {td : TestdataResult}
    {item : TestdataItem} (h : (td, item) ∈ tds.zip sub.testdata)
    (counts : item.ignoreVerdict = false) : td.verdict ≤ overallVerdict sub tds := by
  unfold overallVerdict
  generalize tds.zip sub.testdata = pairs at h
  suffices ∀ v, let max := pairs.foldl (fun v p =>
      if p.2.ignoreVerdict then v else if v < p.1.verdict then p.1.verdict else v) v
      v ≤ max ∧ ∀ p ∈ pairs, p.2.ignoreVerdict = false → p.1.verdict ≤ max from
    (this .ac).2 _ h counts
  clear h
  induction pairs with
  | nil => exact fun v => ⟨le_rfl, fun _ h => by cases h⟩
  | cons p pairs ih =>
    intro v
    obtain ⟨above, all⟩ := ih (if p.2.ignoreVerdict then v
      else if v < p.1.verdict then p.1.verdict else v)
    refine ⟨le_trans ?_ above, fun q hq counts => ?_⟩
    · split_ifs with _ larger
      · exact le_rfl
      · exact larger.le
      · exact le_rfl
    · rcases List.mem_cons.mp hq with rfl | hq
      · refine le_trans ?_ above
        rw [if_neg (by simp [counts])]
        split_ifs with larger
        · exact le_rfl
        · exact not_lt.mp larger
      · exact all q hq counts

namespace Life

variable {cfg : Config} {id : Int} {base : Nat} {sub : Submission} {l l' : Life} {i : Nat}

/-- The entry of a testdata that has a verdict is among those of the overall one. -/
theorem td_le_overallVerdict {item : TestdataItem} (found : sub.testdata[i]? = some item)
    (counts : item.ignoreVerdict = false) (set : (l.ctx.td i).verdict ≠ .nul) :
    ∃ td, l.ctx.result.tdResults[i]? = some td ∧ td.verdict = (l.ctx.td i).verdict ∧
      td.verdict ≤ overallVerdict sub l.ctx.result.tdResults := by
  cases here : l.ctx.result.tdResults[i]? with
  | none => simp [Ctx.td, here, TestdataResult.new] at set
  | some td =>
    have together : (l.ctx.result.tdResults.zip sub.testdata)[i]? = some (td, item) := by
      simp [List.getElem?_zip_eq_some, here, found]
    exact ⟨td, rfl, by simp [Ctx.td, here],
      le_overallVerdict (List.mem_of_getElem? together) counts⟩

theorem accepted_at_summary (wf : sub.WellFormed) (decided : GroupsDecided sub)
    (reach : Reachable cfg id base sub l) (ready : l.Ready .summary)
    (going : l.ctx.cancelled = false) (overall : (summaryResult sub l.ctx.result).verdict = .ac) :
    AllAccepted sub l.ctx.result := by
  have accepted {v : Verdict} (set : v ≠ .nul) (low : v ≤ .ac) : v = .ac := by
    cases v <;> first | rfl | exact absurd rfl set | exact absurd low (by decide)
  have nul : l.ctx.result.verdict = .nul := by
    rcases verdict_cases reach ready.1 ready.2.1 with nul | set
    · exact nul
    · unfold summaryResult at overall
      split at overall
      · assumption
      · rw [overall] at set
        exact absurd set (by decide)
  simp only [summaryResult, nul, if_true] at overall
  have shape := shape wf reach
  intro i item found counts
  have hi : i < sub.numTds := (List.getElem?_eq_some_iff.mp found).1
  have last := shape.before_ready (Submission.leads_summary wf
    (Submission.planned_lastScoring wf hi)) ready (by simp [Submission.lastScoring])
  rcases (tested wf hi reach).done ready.1 last with (set | ⟨item', found', cancelled⟩) | set
  · exact absurd nul set
  · rw [shape.same] at found'
    obtain rfl := Option.some.inj (found.symm.trans found')
    rcases Ctx.isCancelled_iff.mp cancelled with on | ⟨nonempty, all⟩
    · rw [going] at on
      cases on
    · obtain ⟨g₀, hg₀⟩ := List.exists_mem_of_ne_nil _ nonempty
      obtain ⟨g, hg, counted⟩ := decided (blamed wf reach (all g₀ hg₀)).1 item
        (List.mem_of_getElem? found) counts nonempty
      obtain ⟨_, k, other, found', mem, rejected⟩ := blamed wf reach (all g hg)
      have counts' := counted other (List.mem_of_getElem? found') mem
      obtain ⟨td, _, same, low⟩ := td_le_overallVerdict found' counts' rejected.set
      rw [overall, same] at low
      exact absurd (accepted rejected.set low) rejected.failed
  · obtain ⟨td, here, same, low⟩ := td_le_overallVerdict found counts set
    rw [overall] at low
    exact ⟨td, here, accepted (same ▸ set) low⟩

theorem reported_accepted (wf : sub.WellFormed) (none : sub.summaryType = .none)
    (decided : GroupsDecided sub) (reach : Reachable cfg id base sub l) {sub' : Submission}
    {res : SubmissionResult} (report : .overallResult sub' res ∈ l.ctx.log)
    (ac : res.verdict = .ac) : AllAccepted sub res := by
  induction reach with
  | start => simp [Life.start] at report
  | @next l l' reach step ih =>
    have silent {files : BoxFiles} {t : Task} {launch : Bool} {c : Ctx}
        (setup : setup cfg l.ctx.cleared files t = .ok (launch, c))
        (report : .overallResult sub' res ∈ c.log) : False := by
      obtain ⟨_, _, _, _, no⟩ := setup_results rfl setup report rfl
      cases no
    cases step with
    | launch _ setup =>
      simp only [launched, started, Ctx.withLog, List.mem_append, List.mem_singleton, reduceCtorEq,
        or_false] at report
      exact report.elim ih fun report => (silent setup report).elim
    | @skip t _ _ c c' ready setup done =>
      simp only [settled, started, Ctx.withLog, List.mem_append, List.mem_singleton, reduceCtorEq,
        or_false] at report
      rcases report with (old | report) | report
      · exact ih old
      · exact (silent setup report).elim
      · obtain ⟨going, ⟨_, _, _, no⟩ | ⟨rfl, same⟩⟩ := finalize_results rfl done report rfl
        · cases no
        · obtain ⟨rfl, _⟩ := setupSummary_spec setup
          obtain ⟨_, tds, verdict, _⟩ := finalizeSummary_spec done
          have csub : l.ctx.cleared.sub = sub := (shape wf reach).same
          cases same
          rw [verdict rfl, csub] at ac
          intro i item found counts
          rw [tds]
          exact (summaryResult_tdResults _ _).symm ▸
            accepted_at_summary wf decided reach ready going ac i item found counts
    | @finish t _ _ c running done =>
      simp only [settled, Ctx.withLog, List.mem_append, List.mem_singleton, reduceCtorEq,
        or_false] at report
      rcases report with old | report
      · exact ih old
      · obtain ⟨_, ⟨_, _, _, no⟩ | ⟨rfl, _⟩⟩ := finalize_results rfl done report rfl
        · cases no
        · exact absurd running (summary_idle none wf reach)
    | cancel =>
      simp only [Life.cancel, List.mem_append, List.mem_singleton, reduceCtorEq, or_false] at report
      exact ih report

end Life

variable {cfg : Config} {s : State} {sub : Submission} {res : SubmissionResult}

/-- A submission judged by the default summary that is reported `AC` was accepted on
every testdata that counts. -/
theorem accepted_entries (h : (judge cfg).Reach freshId s) (report : .overallResult sub res ∈ s.log)
    (none : sub.summaryType = .none) (decided : GroupsDecided sub) (ac : res.verdict = .ac) :
    AllAccepted sub res := by
  have about : (Event.overallResult sub res).about sub.submissionInternalId = true := by
    simp [Event.about]
  obtain ⟨sub', base, enq⟩ := enqueued_of_event h report about
  obtain ⟨l, wf, _, reach, log⟩ := lived h enq
  have report : .overallResult sub res ∈ l.ctx.log := log ▸ List.mem_filter.mpr ⟨report, about⟩
  obtain rfl := Life.reported_sub wf reach report rfl
  exact Life.reported_accepted wf none decided reach report ac

/-- A submission of one testdata, judged to its end. -/
def acceptedRun : List Label :=
  [.push (sampleSubmission 1 1 [sampleItem false [0]]) 0, .wake] ++ runAlone 3 goodOutcome ++
    runAlone 1 goodOutcome ++ runAlone 2 goodOutcome ++ [.dispatch 0 5 .empty]

theorem accepted_entries_of_one :
    ∃ s sub res, (judge (sampleConfig 1)).exec freshId .init acceptedRun = some s ∧
      .overallResult sub res ∈ s.log ∧ res.verdict = .ac ∧ AllAccepted sub res := by
  have run : ((judge (sampleConfig 1)).exec freshId .init acceptedRun).map (fun s =>
      s.log.any fun e => match e with
        | .overallResult sub res =>
          sub.summaryType == .none && decide (GroupsDecided sub) && res.verdict == .ac
        | _ => false) = some true := by decide +kernel
  obtain ⟨s, hs, seen⟩ := Option.map_eq_some_iff.mp run
  obtain ⟨e, he, reported⟩ := List.any_eq_true.mp seen
  split at reported
  · simp only [Bool.and_eq_true, beq_iff_eq, decide_eq_true_eq] at reported
    obtain ⟨⟨none, decided⟩, ac⟩ := reported
    exact ⟨s, _, _, hs, he, ac, accepted_entries (reach_exec hs) he none decided ac⟩
  · cases reported

/-- Two testdata of group 0, the second one ignored; it fails while the first one is
executed. -/
def ignoredFailureRun : List Label :=
  [.push { sampleSubmission 1 1 [sampleItem false [0], sampleItem true [0]] with skipGroup := true } 0,
    .wake] ++ runAlone 5 goodOutcome ++
    [.dispatch 1 5 .empty, .dispatch 3 6 .empty, .block, .result 6 ⟨exited 1, .empty⟩,
      .dispatch 4 6 .empty, .block, .result 5 goodOutcome, .dispatch 2 5 .empty, .dispatch 0 5 .empty]

/-- The first testdata is never scored, and the submission is reported `AC`. -/
theorem accepted_without_scoring :
    ∃ s sub res, (judge (sampleConfig 2)).exec freshId .init ignoredFailureRun = some s ∧
      .overallResult sub res ∈ s.log ∧ sub.summaryType = .none ∧ res.verdict = .ac ∧
      ¬ AllAccepted sub res := by
  have run : ((judge (sampleConfig 2)).exec freshId .init ignoredFailureRun).map (fun s =>
      s.log.any fun e => match e with
        | .overallResult sub res =>
          sub.summaryType == .none && res.verdict == .ac &&
            sub.testdata.head?.map TestdataItem.ignoreVerdict == some false &&
            res.tdResults.head?.map TestdataResult.verdict == some .nul
        | _ => false) = some true := by decide +kernel
  obtain ⟨s, hs, seen⟩ := Option.map_eq_some_iff.mp run
  obtain ⟨e, he, reported⟩ := List.any_eq_true.mp seen
  split at reported
  · rename_i sub res
    simp only [Bool.and_eq_true, beq_iff_eq, Option.map_eq_some_iff, List.head?_eq_getElem?]
      at reported
    obtain ⟨⟨⟨none, ac⟩, item, found, counts⟩, td, here, nul⟩ := reported
    refine ⟨s, sub, res, hs, he, none, ac, fun accepted => ?_⟩
    obtain ⟨td', here', ac'⟩ := accepted 0 item found counts
    obtain rfl := Option.some.inj (here.symm.trans here')
    cases nul.symm.trans ac'
  · cases reported

end TiojJudge.Judge
