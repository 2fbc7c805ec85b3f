import TiojJudge.Judge.Life
import TiojJudge.Judge.Readers

/-!
# One testdata in the life of a submission

* `OnTestdata`: what a step can do to the result and the tasks of a testdata;
* `Shape.front`: its tasks run one after the other;
* `Tested`: until its tasks run, a result is new; after `skip_stage` nothing
  changes it; when its last scoring is over it has a verdict, unless the testdata
  is excused.
-/

namespace TiojJudge.Judge
open Ctx

/-- The testdata that a task of its chain belongs to. -/
def Task.testdata : Task → Option Nat
  | .execute i _ | .scoring i _ => some i
  | .compile _ | .summary => none

namespace Submission

variable {sub : Submission} {i j k : Nat}

theorem scoring_leads_execute (hi : i < sub.numTds) (hk : sub.scoredStage k) (hkj : k < j)
    (hj : j < sub.numStages) : sub.Leads (.scoring i k) (.execute i j) := by
  cases between : sub.judgeBetweenStages with
  | true => exact .head (.resume hi between (by omega)) (leads_execute hi hkj hj)
  | false =>
    simp only [scoredStage, between, Bool.false_eq_true, if_false] at hk
    omega

/-- The tasks of one testdata wait for each other. -/
theorem chain_total (wf : sub.WellFormed) {a b : Task} (ha : sub.Planned a) (hb : sub.Planned b)
    (hai : a.testdata = some i) (hbi : b.testdata = some i) : sub.Leads a b ∨ sub.Leads b a := by
  have mixed {j k : Nat} (he : sub.Planned (.execute i j)) (hs : sub.Planned (.scoring i k)) :
      sub.Leads (.execute i j) (.scoring i k) ∨ sub.Leads (.scoring i k) (.execute i j) := by
    rcases Nat.lt_or_ge k j with before | after
    · exact .inr (scoring_leads_execute he.1 hs.2 before he.2)
    · exact .inl (leads_scoring wf he.1 after hs.2)
  cases a with
  | execute i j =>
    obtain rfl := Option.some.inj hai
    cases b with
    | execute i k =>
      obtain rfl := Option.some.inj hbi
      exact (le_total j k).imp (fun h => leads_execute ha.1 h hb.2) fun h => leads_execute ha.1 h ha.2
    | scoring i k =>
      obtain rfl := Option.some.inj hbi
      exact mixed ha hb
    | compile | summary => cases hbi
  | scoring i j =>
    obtain rfl := Option.some.inj hai
    cases b with
    | execute i k =>
      obtain rfl := Option.some.inj hbi
      exact (mixed hb ha).symm
    | scoring i k =>
      obtain rfl := Option.some.inj hbi
      exact (le_total j k).imp (fun h => leads_scorings wf ha.1 ha.2 hb.2 h)
        fun h => leads_scorings wf ha.1 hb.2 ha.2 h
    | compile | summary => cases hbi
  | compile | summary => cases hai

theorem leads_last (wf : sub.WellFormed) {t : Task} (ht : sub.Planned t)
    (mine : t.testdata = some i) : sub.Leads t (sub.lastScoring i) := by
  have last := scoredStage_last wf
  cases t with
  | execute i j =>
    obtain rfl := Option.some.inj mine
    have := ht.2
    exact leads_scoring wf ht.1 (by omega) last
  | scoring i j =>
    obtain rfl := Option.some.inj mine
    have := scoredStage_lt wf ht.2
    exact leads_scorings wf ht.1 ht.2 last (by omega)
  | compile | summary => cases mine

theorem first_leads (wf : sub.WellFormed) {t : Task} (ht : sub.Planned t)
    (mine : t.testdata = some i) : sub.Leads (.execute i 0) t := by
  cases t with
  | execute i j =>
    obtain rfl := Option.some.inj mine
    exact leads_execute ht.1 (Nat.zero_le j) ht.2
  | scoring i j =>
    obtain rfl := Option.some.inj mine
    exact leads_scoring wf ht.1 (Nat.zero_le j) ht.2
  | compile | summary => cases mine

end Submission

/-! ## The result of one testdata -/

section Calls

variable {cfg : Config} {c c' : Ctx} {i listSize : Nat} {t : Task}

theorem setup_td {files : BoxFiles} {launch : Bool} (other : t.testdata ≠ some i)
    (h : setup cfg c files t = .ok (launch, c')) : c'.td i = c.td i := by
  cases t with
  | compile subtask =>
    simp only [setup, Except.ok.injEq] at h
    simp only [Ctx.td, (setupCompile_spec h).2.2.1]
  | execute k j =>
    obtain ⟨_, rfl⟩ := setup_execute_iff.mp h
    rfl
  | scoring k j =>
    rcases setupScoring_cases h with ⟨_, rfl, _⟩ | ⟨_, rfl, _⟩ | ⟨_, _, _, _, _, _, _, scored⟩
    · rfl
    · rfl
    · exact scored.others i fun same => other (by simp [Task.testdata, same])
  | summary =>
    obtain ⟨rfl, _⟩ := setupSummary_spec h
    simp only [Ctx.td, summaryResult_tdResults]

theorem finalize_td {outcome : Option TaskOutcome} (other : t.testdata ≠ some i)
    (h : finalize cfg c listSize t outcome = .ok c') : c'.td i = c.td i := by
  cases outcome with
  | none =>
    cases t with
    | compile | execute | scoring =>
      cases h
      rfl
    | summary => simp only [Ctx.td, (finalizeSummary_spec h).2.1]
  | some o =>
    cases t with
    | compile subtask =>
      cases h
      simp only [Ctx.td, (finalizeCompile_spec cfg c subtask o).2.2.1]
    | execute k j =>
      obtain ⟨_, _, _, _, _, _, _, _, _, others⟩ := finalizeExecute_spec h
      exact others i fun same => other (by simp [Task.testdata, same])
    | scoring k j =>
      exact (finalizeScoring_spec h).others i fun same => other (by simp [Task.testdata, same])
    | summary => simp only [Ctx.td, (finalizeSummary_spec h).2.1]

/-- A launch leaves the testdata. -/
theorem setup_launch_td {files : BoxFiles} (h : setup cfg c files t = .ok (true, c')) :
    c'.td i = c.td i := by
  by_cases this : t.testdata = some i
  · cases t with
    | execute k j =>
      obtain ⟨_, rfl⟩ := setup_execute_iff.mp h
      rfl
    | scoring k j =>
      rcases setupScoring_cases h with ⟨_, rfl, _⟩ | ⟨no, _⟩ | ⟨no, _⟩
      · rfl
      · cases no
      · cases no
    | compile | summary => cases this
  · exact setup_td this h

end Calls

namespace Life

variable {cfg : Config} {id : Int} {base : Nat} {sub : Submission} {l l' : Life} {i : Nat}

/-- No task of the testdata needs to run any more. -/
def Excused (l : Life) (i : Nat) : Prop :=
  l.ctx.result.verdict ≠ .nul ∨
    ∃ item, l.ctx.sub.testdata[i]? = some item ∧ l.ctx.isCancelled item.tdGroups = true

/-- The task is launched: what its setup looked at. -/
def Wanted (l : Life) (i : Nat) : Task → Prop
  | .execute _ j => ¬ l.Excused i ∧
      (j ≠ 0 → (l.ctx.td i).skipStage = false ∧ (l.ctx.td i).verdict = .nul)
  | .scoring .. => ¬ l.Excused i ∧ (l.ctx.td i).skipStage = false
  | _ => True

/-- The task is skipped as it is. -/
def Unwanted (l : Life) (i : Nat) (t : Task) : Prop :=
  l.Excused i ∨ (l.ctx.td i).skipStage = true ∨
    (l.ctx.td i).verdict ≠ .nul ∧ ∃ j, t = .execute i (j + 1)

inductive OnTestdata (cfg : Config) (id : Int) (i : Nat) (l l' : Life) : Prop where
  | other : l'.ctx.td i = l.ctx.td i →
      (∀ t, t.testdata = some i → (t ∈ l'.todo ↔ t ∈ l.todo) ∧ (t ∈ l'.running ↔ t ∈ l.running)) →
      OnTestdata cfg id i l l'
  | launch {t} : t.testdata = some i → l.Ready t → l.Wanted i t → l'.ctx.td i = l.ctx.td i →
      l'.todo = l.todo → l'.running = insert t l.running → OnTestdata cfg id i l l'
  | skip {t} : t.testdata = some i → l.Ready t → l.Unwanted i t → l'.ctx.td i = l.ctx.td i →
      l'.todo = l.todo.erase t → l'.running = l.running → OnTestdata cfg id i l l'
  /-- The setup of a scoring finalizes it. -/
  | score {j o skipped} : l.Ready (.scoring i j) → ¬ l.Excused i → (l.ctx.td i).skipStage = false →
      (skipped = true → (l.ctx.td i).verdict ≠ .nul) →
      (skipped = false → l.ctx.sub.specjudgeType = .skip) →
      l'.ctx.td i = scoringOutcome cfg l.ctx.sub j o skipped (l.ctx.td i) →
      l'.todo = l.todo.erase (.scoring i j) → l'.running = l.running → OnTestdata cfg id i l l'
  | executed {j lim} {o : TaskOutcome} : .execute i j ∈ l.running →
      l'.ctx.td i = executeResult cfg l.ctx.sub lim j o.res (l.ctx.td i) →
      l'.todo = l.todo.erase (.execute i j) → l'.running = l.running.erase (.execute i j) →
      .executeFinished l.ctx.sub i j (l'.ctx.td i) ∈ l'.ctx.log → OnTestdata cfg id i l l'
  | judged {j o} : .scoring i j ∈ l.running →
      l'.ctx.td i = scoringOutcome cfg l.ctx.sub j o false (l.ctx.td i) →
      l'.todo = l.todo.erase (.scoring i j) → l'.running = l.running.erase (.scoring i j) →
      Ended id (.scoring i j) (some o) l'.ctx.log → OnTestdata cfg id i l l'

theorem not_excused {item : TestdataItem} (nul : l.ctx.result.verdict = .nul)
    (found : l.ctx.sub.testdata[i]? = some item) (free : l.ctx.isCancelled item.tdGroups = false) :
    ¬ l.Excused i := by
  rintro (set | ⟨item', found', cancelled⟩)
  · exact set nul
  · obtain rfl := Option.some.inj (found.symm.trans found')
    rw [free] at cancelled
    cases cancelled

theorem setup_wanted {t : Task} {files : BoxFiles} {c : Ctx} (mine : t.testdata = some i)
    (h : setup cfg l.ctx.cleared files t = .ok (true, c)) : l.Wanted i t := by
  cases t with
  | execute k j =>
    obtain rfl : k = i := Option.some.inj mine
    obtain ⟨ready, rfl⟩ := setup_execute_iff.mp h
    obtain ⟨nul, ⟨item, found, free⟩, later⟩ := setupExecute_spec ready
    exact ⟨not_excused nul found free, fun hj => (later hj).2⟩
  | scoring k j =>
    obtain rfl : k = i := Option.some.inj mine
    rcases setupScoring_cases h with ⟨_, _, nul, ⟨item, found, free⟩, _, go⟩ | ⟨no, _⟩ | ⟨no, _⟩
    · exact ⟨not_excused nul found free, go⟩
    · cases no
    · cases no
  | compile | summary => cases mine

/-- The setup of a task of the testdata does not launch it. -/
theorem setup_unwanted {t : Task} {files : BoxFiles} {c : Ctx} (mine : t.testdata = some i)
    (h : setup cfg l.ctx.cleared files t = .ok (false, c)) :
    (l.Unwanted i t ∧ c.td i = l.ctx.td i) ∨
    ∃ j skipped, t = .scoring i j ∧ ¬ l.Excused i ∧ (l.ctx.td i).skipStage = false ∧
      (skipped = true → (l.ctx.td i).verdict ≠ .nul) ∧
      (skipped = false → l.ctx.sub.specjudgeType = .skip) ∧
      c.td i = scoringOutcome cfg l.ctx.sub j ⟨.zero, files⟩ skipped (l.ctx.td i) := by
  cases t with
  | execute k j =>
    obtain rfl : k = i := Option.some.inj mine
    obtain ⟨ready, rfl⟩ := setup_execute_iff.mp h
    refine .inl ⟨?_, rfl⟩
    rcases setupExecute_skips ready with set | cancelled | ⟨later, skip | set⟩
    · exact .inl (.inl set)
    · exact .inl (.inr cancelled)
    · exact .inr (.inl skip)
    · exact .inr (.inr ⟨set, j - 1, by rw [Nat.sub_add_cancel (by omega)]⟩)
  | scoring k j =>
    obtain rfl : k = i := Option.some.inj mine
    rcases setupScoring_cases h with ⟨no, _⟩ | ⟨_, rfl, why⟩ |
      ⟨_, nul, ⟨item, found, free⟩, go, skipped, failed, type, scored⟩
    · cases no
    · refine .inl ⟨?_, rfl⟩
      rcases why with set | cancelled | skip
      · exact .inl (.inl set)
      · exact .inl (.inr cancelled)
      · exact .inr (.inl skip)
    · exact .inr ⟨j, skipped, rfl, not_excused nul found free, go, failed, type, scored.td⟩
  | compile | summary => cases mine

theorem Step.testdata (h : Step cfg id base l l') (i : Nat) :
    OnTestdata cfg id i l l' := by
  cases h with
  | @launch t handle files c ready setup =>
    have kept : c.td i = l.ctx.cleared.td i := setup_launch_td setup
    by_cases mine : t.testdata = some i
    · exact .launch mine ready (setup_wanted mine setup) kept rfl rfl
    · refine .other kept fun t' ht' => ⟨Iff.rfl, ?_⟩
      have ne : t' ≠ t := fun same => mine (same ▸ ht')
      simp [launched, started, ne]
  | @skip t files listSize c c' ready setup done =>
    have running : (insert t l.running).erase t = l.running := Finset.erase_insert ready.2.1
    by_cases mine : t.testdata = some i
    · have same : c'.td i = c.td i := by
        cases t with
        | execute | scoring =>
          cases done
          rfl
        | compile | summary => cases mine
      rcases setup_unwanted mine setup with ⟨unwanted, kept⟩ |
        ⟨j, skipped, rfl, free, go, failed, type, scored⟩
      · exact .skip mine ready unwanted (same.trans kept) rfl running
      · exact .score ready free go failed type (same.trans scored) rfl running
    · have before : c.td i = l.ctx.cleared.td i := setup_td mine setup
      have after : c'.td i = c.cleared.td i := finalize_td mine done
      refine .other (after.trans before) fun t' ht' => ?_
      have ne : t' ≠ t := fun same => mine (same ▸ ht')
      simp [settled, started, ne]
  | @finish t o listSize c here done =>
    by_cases mine : t.testdata = some i
    · cases t with
      | execute k j =>
        obtain rfl : k = i := Option.some.inj mine
        obtain ⟨lim, _, _, log, _, _, _, _, td, _⟩ := finalizeExecute_spec done
        refine .executed here td rfl rfl ?_
        rw [settled, Ctx.withLog, log]
        simp [Ctx.td, Ctx.cleared]
      | scoring k j =>
        obtain rfl : k = i := Option.some.inj mine
        exact .judged here (finalizeScoring_spec done).td rfl rfl (by simp [settled, Ctx.withLog])
      | compile | summary => cases mine
    · have after : c.td i = l.ctx.cleared.td i := finalize_td mine done
      refine .other after fun t' ht' => ?_
      have ne : t' ≠ t := fun same => mine (same ▸ ht')
      simp [settled, ne]
  | cancel => exact .other rfl fun t _ => ⟨Iff.rfl, Iff.rfl⟩

/-! ## One after the other -/

/-- The task runs, or is ready to. -/
def Active (l : Life) (t : Task) : Prop := t ∈ l.running ∨ l.Ready t

theorem Shape.active_todo {a : Task} (s : Shape sub l) (active : l.Active a) : a ∈ l.todo :=
  active.elim (fun running => s.running running) fun ready => ready.1

theorem Shape.before_active {a b : Task} (s : Shape sub l) (leads : sub.Leads b a)
    (active : l.Active a) (other : b ≠ a) : b ∉ l.todo :=
  active.elim (fun running => s.before_running leads running other)
    fun ready => s.before_ready leads ready other

/-- Of the tasks of a testdata one is active, and those that are left wait for it. -/
theorem Shape.front {a b : Task} (s : Shape sub l) (wf : sub.WellFormed) (active : l.Active a)
    (hb : b ∈ l.todo) (hai : a.testdata = some i) (hbi : b.testdata = some i) : sub.Leads a b := by
  rcases Submission.chain_total wf (s.planned a (s.active_todo active)) (s.planned b hb) hai hbi with
    h | h
  · exact h
  · by_cases same : b = a
    · exact same ▸ .refl
    · exact absurd hb (s.before_active h active same)

theorem Shape.alone {a b : Task} (s : Shape sub l) (wf : sub.WellFormed) (active : l.Active a)
    (running : b ∈ l.running) (hai : a.testdata = some i) (hbi : b.testdata = some i) : b = a := by
  by_contra other
  have leads := s.front wf active (s.running running) hai hbi
  exact (s.leads leads (s.active_todo active)).2 other running

theorem Shape.last_left {t : Task} (s : Shape sub l) (wf : sub.WellFormed) (ht : t ∈ l.todo)
    (mine : t.testdata = some i) : sub.lastScoring i ∈ l.todo :=
  (s.leads (Submission.leads_last wf (s.planned t ht) mine) ht).1

/-! ## What lasts -/

/-- Until the summary is over. -/
theorem Step.grows (h : Step cfg id base l l') (left : .summary ∈ l'.todo) : Grows l.ctx l'.ctx := by
  cases h with
  | launch _ setup =>
    have grows := setup_grows setup
    exact ⟨grows.verdict, grows.cancelled, grows.groups, grows.length⟩
  | @skip t _ _ _ _ _ setup done =>
    have other : t ≠ .summary := fun same => (Finset.mem_erase.mp left).1 same.symm
    have before := setup_grows setup
    have after := finalize_grows other done
    exact ⟨fun set => after.verdict (before.verdict set),
      fun cancelled => after.cancelled (before.cancelled cancelled),
      fun g blamed => after.groups g (before.groups g blamed), before.length.trans after.length⟩
  | @finish t _ _ _ _ done =>
    have other : t ≠ .summary := fun same => (Finset.mem_erase.mp left).1 same.symm
    have grows := finalize_grows other done
    exact ⟨grows.verdict, grows.cancelled, grows.groups, grows.length⟩
  | cancel => exact ⟨fun set => set, fun _ => rfl, fun _ blamed => blamed, Nat.le_refl _⟩

theorem Step.same_sub (h : Step cfg id base l l') : l'.ctx.sub = l.ctx.sub := by
  cases h with
  | launch _ setup => exact (setup_frame setup).sub
  | skip _ setup done => exact (finalize_frame done).sub.trans (setup_frame setup).sub
  | finish _ done => exact (finalize_frame done).sub
  | cancel => rfl

theorem Excused.step (excused : l.Excused i) (h : Step cfg id base l l')
    (left : .summary ∈ l'.todo) : l'.Excused i := by
  have grows := h.grows left
  rcases excused with set | ⟨item, found, cancelled⟩
  · exact .inl (grows.verdict set)
  · exact .inr ⟨item, h.same_sub ▸ found, grows.isCancelled cancelled⟩

/-! ## The result of a testdata -/

theorem scoringOutcome_skip {stage : Nat} {o : TaskOutcome} {skipped : Bool} {td : TestdataResult}
    (go : td.skipStage = false) (skip : (scoringOutcome cfg sub stage o skipped td).skipStage = true) :
    (scoringOutcome cfg sub stage o skipped td).verdict ≠ .nul := by
  obtain ⟨td', read, same⟩ := scoringOutcome_cases cfg sub stage o skipped td
  rw [same] at skip ⊢
  unfold settleStage at skip ⊢
  split
  · rename_i set
    simp only [Bool.and_eq_true, bne_iff_ne] at set
    exact set.2
  · rename_i unset
    rw [if_neg unset] at skip
    split at skip
    · rw [read.skipStage, go] at skip
      cases skip
    · rw [read.skipStage, go] at skip
      cases skip

theorem scoringOutcome_last {stage : Nat} {o : TaskOutcome} {skipped : Bool} {td : TestdataResult}
    (last : sub.lastStage stage = true) :
    (scoringOutcome cfg sub stage o skipped td).verdict ≠ .nul := by
  obtain ⟨td', _, same⟩ := scoringOutcome_cases cfg sub stage o skipped td
  rw [same]
  unfold settleStage
  simp only [last, Bool.not_true, Bool.false_and, Bool.false_eq_true, if_false, Bool.true_and]
  split
  · simp
  · rename_i set
    simpa using set

theorem lastStage_iff (wf : sub.WellFormed) {j : Nat} :
    sub.lastStage j = true ↔ j = sub.numStages - 1 := by
  obtain ⟨positive, _, same⟩ := wf.numStages
  simp only [Submission.lastStage, beq_iff_eq]
  omega

/-- Verdicts of testdata are below those of compile tasks. -/
theorem td_verdict_lt (h : Reachable cfg id base sub l) (i : Nat) :
    (l.ctx.td i).verdict < .ce := by
  induction h with
  | start => exact (by decide : Verdict.nul < .ce)
  | next _ step ih =>
    rcases step.testdata i with ⟨td, _⟩ | ⟨_, _, _, td, _⟩ | ⟨_, _, _, td, _⟩ |
      ⟨_, _, _, _, _, td, _⟩ | ⟨_, td, _⟩ | ⟨_, td, _⟩
    · exact td ▸ ih
    · exact td ▸ ih
    · exact td ▸ ih
    · exact td ▸ scoringOutcome_lt ih
    · exact td ▸ executeVerdict_lt _ _ _ _
    · exact td ▸ scoringOutcome_lt ih

structure Tested (sub : Submission) (i : Nat) (l : Life) : Prop where
  fresh : .execute i 0 ∈ l.todo → l.ctx.td i = .new
  active : ∀ t ∈ l.running, t.testdata = some i → (l.ctx.td i).skipStage = false
  skip : (l.ctx.td i).skipStage = true → (l.ctx.td i).verdict ≠ .nul
  done : .summary ∈ l.todo → sub.lastScoring i ∉ l.todo →
    l.Excused i ∨ (l.ctx.td i).verdict ≠ .nul

theorem Tested.start (wf : sub.WellFormed) (hi : i < sub.numTds) :
    Tested sub i (start id base sub) where
  fresh := fun _ => rfl
  active := fun t ht => absurd ht (Finset.notMem_empty t)
  skip := fun h => by cases h
  done := fun _ gone => by
    refine absurd (List.mem_toFinset.mpr ?_) gone
    exact Submission.mem_planTasks.mpr (Submission.planned_lastScoring wf hi)

/-- The scoring of a stage ends it, or is the last of its testdata. -/
theorem Tested.scored {j : Nat} {o : TaskOutcome} {skipped : Bool} (wf : sub.WellFormed)
    (shape : Shape sub l) (active : l.Active (.scoring i j)) (go : (l.ctx.td i).skipStage = false)
    (td : l'.ctx.td i = scoringOutcome cfg l.ctx.sub j o skipped (l.ctx.td i))
    (todo : l'.todo = l.todo.erase (.scoring i j))
    (running : ∀ t ∈ l'.running, t ∈ l.running ∧ t ≠ .scoring i j) : Tested sub i l' where
  fresh := fun first => by
    have leads := Submission.first_leads wf (shape.planned _ (shape.active_todo active)) rfl
    exact absurd (Finset.mem_of_mem_erase (todo ▸ first)) (shape.before_active leads active (by simp))
  active := fun t ht mine => by
    obtain ⟨old, other⟩ := running t ht
    exact absurd (shape.alone wf active old rfl mine) other
  skip := fun skip => by
    rw [td] at skip ⊢
    exact scoringOutcome_skip go skip
  done := fun _ gone => by
    have here := shape.last_left wf (shape.active_todo active) rfl
    obtain same : sub.lastScoring i = .scoring i j := by
      by_contra other
      exact gone (todo ▸ Finset.mem_erase.mpr ⟨other, here⟩)
    refine .inr (td ▸ scoringOutcome_last ?_)
    rw [shape.same, lastStage_iff wf]
    simpa [Submission.lastScoring, eq_comm] using same

theorem Tested.step (tested : Tested sub i l) (wf : sub.WellFormed) (shape : Shape sub l)
    (h : Step cfg id base l l') : Tested sub i l' := by
  have before (left : .summary ∈ l'.todo) : .summary ∈ l.todo := h.todo_subset shape left
  have kept (td : l'.ctx.td i = l.ctx.td i) (gone : sub.lastScoring i ∉ l.todo)
      (left : .summary ∈ l'.todo) : l'.Excused i ∨ (l'.ctx.td i).verdict ≠ .nul := by
    rw [td]
    exact (tested.done (before left) gone).imp_left fun excused => excused.step h left
  -- while a task of the testdata is active, its first one is over or the active one
  have started {t : Task} (active : l.Active t) (mine : t.testdata = some i)
      (other : .execute i 0 ≠ t) : .execute i 0 ∉ l.todo :=
    shape.before_active
      (Submission.first_leads wf (shape.planned t (shape.active_todo active)) mine) active other
  have last {t : Task} (active : l.Active t) (mine : t.testdata = some i) :
      sub.lastScoring i ∈ l.todo := shape.last_left wf (shape.active_todo active) mine
  rcases h.testdata i with ⟨td, chain⟩ | ⟨mine, ready, wanted, td, todo, running⟩ |
    ⟨mine, ready, unwanted, td, todo, running⟩ | ⟨ready, free, go, failed, type, td, todo, running⟩ |
    ⟨here, td, todo, running, -⟩ | ⟨here, td, todo, running, -⟩
  · refine ⟨fun first => ?_, fun t ht mine => ?_, td ▸ tested.skip, fun left gone => ?_⟩
    · exact td.trans (tested.fresh ((chain _ rfl).1.mp first))
    · exact td ▸ tested.active t ((chain t mine).2.mp ht) mine
    · exact kept td (fun here => gone ((chain _ rfl).1.mpr here)) left
  · rename_i t
    refine ⟨fun first => ?_, fun t' ht' mine' => ?_, td ▸ tested.skip, fun left gone => ?_⟩
    · exact td.trans (tested.fresh (todo ▸ first))
    · rw [td]
      rcases Finset.mem_insert.mp (running ▸ ht') with rfl | old
      · cases t' with
        | execute k j =>
          obtain rfl := Option.some.inj mine
          by_cases first : j = 0
          · subst first
            rw [tested.fresh ready.1]
            rfl
          · exact (wanted.2 first).1
        | scoring k j => exact wanted.2
        | compile | summary => cases mine
      · exact tested.active t' old mine'
    · exact kept td (todo ▸ gone) left
  · rename_i t
    refine ⟨fun first => ?_, fun t' ht' mine' => ?_, td ▸ tested.skip, fun left gone => ?_⟩
    · exact td.trans (tested.fresh (Finset.mem_of_mem_erase (todo ▸ first)))
    · exact td ▸ tested.active t' (running ▸ ht') mine'
    · by_cases here : sub.lastScoring i ∈ l.todo
      · obtain rfl : sub.lastScoring i = t := by
          by_contra other
          exact gone (todo ▸ Finset.mem_erase.mpr ⟨other, here⟩)
        rcases unwanted with excused | skip | ⟨_, j, no⟩
        · exact .inl (excused.step h left)
        · exact .inr (td ▸ tested.skip skip)
        · simp [Submission.lastScoring] at no
      · exact kept td here left
  · refine .scored wf shape (.inr ready) go td todo fun t ht => ?_
    have old := running ▸ ht
    exact ⟨old, fun same => ready.2.1 (same ▸ old)⟩
  · rename_i j lim o
    have go := tested.active _ here rfl
    refine ⟨fun first => ?_, fun t' ht' mine' => ?_, fun skip => ?_, fun left gone => ?_⟩
    · obtain ⟨other, first⟩ := Finset.mem_erase.mp (todo ▸ first)
      exact absurd first (started (.inl here) rfl other)
    · obtain ⟨other, old⟩ := Finset.mem_erase.mp (running ▸ ht')
      exact absurd (shape.alone wf (.inl here) old rfl mine') other
    · have same : (l'.ctx.td i).skipStage = (l.ctx.td i).skipStage := by
        rw [td]
        unfold executeResult accumulate
        split <;> rfl
      rw [same, go] at skip
      cases skip
    · have same := last (.inl here) rfl
      exact absurd (todo ▸ Finset.mem_erase.mpr ⟨by simp [Submission.lastScoring], same⟩) gone
  · refine .scored wf shape (.inl here) (tested.active _ here rfl) td todo fun t ht => ?_
    obtain ⟨other, old⟩ := Finset.mem_erase.mp (running ▸ ht)
    exact ⟨old, other⟩

theorem tested (wf : sub.WellFormed) (hi : i < sub.numTds) (h : Reachable cfg id base sub l) :
    Tested sub i l := by
  induction h with
  | start => exact .start wf hi
  | next reach step ih => exact ih.step wf (shape wf reach) step

end Life

end TiojJudge.Judge
