import TiojJudge.Judge.Handover
import TiojJudge.Judge.Turns

/-!
# Nothing is left behind

`no_leftovers`: every file below `kBoxRoot` is in the directory of a submission
that is being judged, whatever the tasks write into their boxes.
-/

namespace TiojJudge.Judge
open TaskGraph Machine

variable {cfg : Config} {p p' : BoxState} {held : List Nat} {id : Int} {q : Path}

/-- Submissions come with new internal ids. -/
def freshBoxes (p : BoxState) : BoxLabel → Prop
  | .step l => freshId p.judge l
  | .write .. => True

instance (p : BoxState) : DecidablePred (freshBoxes p)
  | .step l => inferInstanceAs (Decidable (freshId p.judge l))
  | .write .. => inferInstanceAs (Decidable True)

theorem setupFiles_below {c : Ctx} {box : BoxFiles} {files : Files} {t : Task}
    (apart : ¬ submissionRunPath c.sub.submissionInternalId <+: q) :
    setupFiles cfg c box files t q = files q :=
  setupFiles_outside fun touches => apart touches.below

theorem finalizeFiles_below {c : Ctx} {files : Files} {t : Task} {outcome : Option TaskOutcome}
    (apart : ¬ submissionRunPath c.sub.submissionInternalId <+: q) :
    finalizeFiles cfg c files t outcome q = files q :=
  finalizeFiles_outside fun touches => apart touches.below

/-- The finalizer of a summary removes the directory. -/
theorem finalizeFiles_summary {c : Ctx} {files : Files} {outcome : Option TaskOutcome}
    (below : submissionRunPath c.sub.submissionInternalId <+: q) :
    finalizeFiles cfg c files .summary outcome q = none := by
  cases outcome <;> exact if_pos below

/-- Every file belongs to a submission of the list. -/
def Owned (p : BoxState) : Prop :=
  ∀ q, (p.files q).isSome = true → ∃ id ∈ p.judge.submissionList, submissionRunPath id <+: q

/-- The submissions that a step adds have no files, and the one that it takes away has none
left. -/
theorem Owned.step (h : Owned p) {k : Int}
    (list : ∀ id ∈ p.judge.submissionList, id ∉ p'.judge.submissionList → id = k ∧
      ∀ q, submissionRunPath k <+: q → p'.files q = none)
    (here : k ∈ p.judge.submissionList)
    (outside : ∀ q, ¬ submissionRunPath k <+: q → p'.files q = p.files q) : Owned p' := by
  intro q present
  by_cases below : submissionRunPath k <+: q
  · refine ⟨k, ?_, below⟩
    by_contra gone
    rw [(list k here gone).2 q below] at present
    cases present
  · rw [outside q below] at present
    obtain ⟨id, listed, under⟩ := h q present
    refine ⟨id, ?_, under⟩
    by_contra gone
    exact below ((list id listed gone).1 ▸ under)

/-- A finalizer wrote the files, in front of which a setup may have worked. -/
theorem Owned.settle {n : Node TaskInfo} {c : Ctx} {outcome : Option TaskOutcome} {s : State}
    (h : Owned p) (listed : n.data.submissionInternalId ∈ p.judge.submissionList)
    (same : ∀ id, id ∈ s.submissionList ↔ id ∈ p.judge.submissionList)
    (key : c.sub.submissionInternalId = n.data.submissionInternalId) {files : Files}
    (outside : ∀ q, ¬ submissionRunPath n.data.submissionInternalId <+: q → files q = p.files q)
    (task : ∀ q, n.data.task = .summary →
      submissionRunPath n.data.submissionInternalId <+: q → files q = none) :
    Owned ⟨s.settle n outcome c, files⟩ := by
  refine h.step ?_ listed outside
  intro id before after
  rw [settle_mem id outcome ((same _).mpr listed) key, same, not_and_not_right] at after
  obtain ⟨last, mine⟩ := after before
  exact ⟨mine, fun q below => task q last below⟩

theorem Owned.next {l : BoxLabel} {outputs outputs' : Files} (r : Refined cfg p.judge held)
    (h : Owned p) (step : BoxStep cfg p outputs l p' outputs') : Owned p' := by
  cases step with
  | @quiet l s quiet step =>
    intro q present
    obtain ⟨id, listed, below⟩ := h q present
    refine ⟨id, ?_, below⟩
    cases turn r step with
    | same list => exact (list id).mpr listed
    | push list => exact (list id).mpr (.inr listed)
    | dispatch found => simp [BoxState.actor, found] at quiet
    | result found handled => simp [BoxState.actor, State.taskOf, found, handled] at quiet
  | @launch n handle box entry c _ _ hn found ready =>
    have listed := r.node_listed hn
    obtain ⟨_, _, _, _, key, _⟩ := r.listed found
    refine h.step (fun id before after => ?_) listed fun q apart => setupFiles_below ?_
    · exact absurd ((start_mem listed).mpr before) after
    · rw [show (p.judge.ctx entry).sub = entry.sub from rfl, key]
      exact apart
  | @skip n handle box entry listSize c c' _ _ hn found ready done =>
    have listed := r.node_listed hn
    obtain ⟨_, _, _, _, key, _⟩ := r.listed found
    have same : c.sub.submissionInternalId = n.data.submissionInternalId := by
      rw [(setup_reports rfl ready).1]
      exact key
    refine h.settle listed (fun id => start_mem listed) ?_ (fun q apart => ?_) fun q last below => ?_
    · rw [(finalize_reports rfl done).1]
      exact same
    · rw [finalizeFiles_below (by rw [same]; exact apart), setupFiles_below]
      rw [show (p.judge.ctx entry).sub = entry.sub from rfl, key]
      exact apart
    · rw [last]
      exact finalizeFiles_summary (by rw [same]; exact below)
  | @result n handle o entry listSize c _ _ hn found done =>
    have listed := r.node_listed hn
    obtain ⟨_, _, _, _, key, _⟩ := r.listed found
    have key : (p.judge.ctx entry).sub.submissionInternalId = n.data.submissionInternalId := key
    refine h.settle (s := p.judge.returned handle) listed (fun _ => Iff.rfl) ?_ (fun q apart => ?_)
      fun q last below => ?_
    · rw [(finalize_reports rfl done).1]
      exact key
    · exact finalizeFiles_below (by rw [key]; exact apart)
    · rw [last]
      exact finalizeFiles_summary (by rw [key]; exact below)
  | @write n handle path file _ _ hn below =>
    have under : submissionRunPath n.data.submissionInternalId <+: path :=
      below_submissionRunPath.trans below
    refine h.step (fun id before after => absurd before after) (r.node_listed hn) fun q apart => ?_
    exact FileTree.put_outside under apart

/-- The scheduler of the boxes takes its own steps only. -/
theorem judge_reach {l : BoxLabel} (reach : (judge cfg).Reach freshId p.judge) (fresh : freshBoxes p l)
    (step : (boxes cfg).step p l = some p') : (judge cfg).Reach freshId p'.judge := by
  cases l with
  | step l =>
    simp only [boxes] at step
    split at step
    · obtain ⟨s, taken, rfl⟩ := Option.map_eq_some_iff.mp step
      exact reach.step fresh taken
    · cases step
  | write handle path file =>
    simp only [boxes] at step
    split at step
    · cases step
      exact reach
    · cases step

/-- What a submission leaves behind goes with it. -/
theorem no_leftovers (h : (boxes cfg).Reach freshBoxes p) (present : (p.files q).isSome = true) :
    ∃ id ∈ p.judge.submissionList, submissionRunPath id <+: q := by
  have owned : (judge cfg).Reach freshId p.judge ∧ Owned p := by
    apply h.invariant (I := fun p => (judge cfg).Reach freshId p.judge ∧ Owned p)
    · refine ⟨.init, fun q present => ?_⟩
      cases present
    · intro a l b _ owned fresh step
      obtain ⟨held, r⟩ := refined owned.1
      have files : BoxStep cfg a (fun _ => none) l b _ := boxes_cases step
      exact ⟨judge_reach owned.1 fresh step, owned.2.next r files⟩
  exact owned.2 q present

/-- Until the first output of a submission is in its place. -/
def firstOutputRun : List BoxLabel :=
  [.step (.push (stagesSubmission .normal) 0), .step .wake] ++ writeAlone 5 [] goodOutcome ++
    writeAlone 1 [(executeBoxOutput 1 0 0 true, .regular ['a'])] goodOutcome

theorem no_leftovers_output : ∃ p,
    (boxes (sampleConfig 1)).exec freshBoxes (boxes (sampleConfig 1)).init firstOutputRun = some p ∧
    ∃ id ∈ p.judge.submissionList, submissionRunPath id <+: executeBoxFinalOutput 1 0 0 := by
  have runs : ((boxes (sampleConfig 1)).exec freshBoxes (boxes (sampleConfig 1)).init
      firstOutputRun).map (fun p => (p.files (executeBoxFinalOutput 1 0 0)).isSome) = some true := by
    decide +kernel
  obtain ⟨p, hp, present⟩ := Option.map_eq_some_iff.mp runs
  exact ⟨p, hp, no_leftovers (reach_exec hp) present⟩

end TiojJudge.Judge
