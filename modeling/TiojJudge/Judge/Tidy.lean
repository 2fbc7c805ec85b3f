import TiojJudge.Judge.Supersede

/-!
# What the containers keep

`cancelled_list` and `cancelled_group` are about submissions in flight, and
`submission_id_map` has the newest one for each `submission_id`, as long as
every submission that finishes takes its own key out of the map.

* `State.inFlight`: the submission in `submission_list` under an internal id;
* `Newest`: the last one in flight of a `submission_id`;
* `takesOwnKey`: what the step that finishes a submission must find;
* `containers_tidy`: then nothing is left over in any reachable state.
-/

namespace TiojJudge.Judge
open Machine TaskGraph

def State.inFlight (s : State) (x : Int) : Option Submission :=
  (s.submissionList.lookup x).map SubmissionAndResult.sub

/-- The first was enqueued, and then the second. -/
def EnqueuedBefore (log : List Event) (x y : Int) : Prop :=
  ∃ older first newer next, [.enqueued x older first, .enqueued y newer next].Sublist log

/-- In flight under the `submission_id` `e`, after all others that are. -/
structure Newest (s : State) (e y : Int) : Prop where
  inFlight : ∃ sub, s.inFlight y = some sub ∧ sub.submissionId = e
  last : ∀ x sub, s.inFlight x = some sub → sub.submissionId = e → x ≠ y → EnqueuedBefore s.log x y

structure Tidy (s : State) : Prop where
  cancelled : ∀ x ∈ s.cancelledList, x ∈ s.submissionList
  groups : ∀ x ∈ s.cancelledGroup, x ∈ s.submissionList
  newest : ∀ e y, s.submissionIdMap.lookup e = some y → Newest s e y
  known : ∀ x sub, s.inFlight x = some sub → sub.submissionId ∈ s.submissionIdMap
  empty : s.submissionList = ∅ →
    s.cancelledList = ∅ ∧ s.cancelledGroup = ∅ ∧ s.submissionIdMap = ∅

/-- `submission_id_map.erase(x)` takes out the key of the submission `x`, when no other one in
flight has its `submission_id`; or no key, when a newer one has it. -/
def OwnKey (s : State) (x : Int) (sub : Submission) : Prop :=
  if x = sub.submissionId then
    ∀ y other, s.inFlight y = some other → y ≠ x → other.submissionId ≠ x
  else s.submissionIdMap.lookup sub.submissionId ≠ some x ∧ x ∉ s.submissionIdMap

def takesOwnKey (cfg : Config) (s : State) (l : Label) : Prop :=
  freshId s l ∧ ∀ x ∈ s.finishing cfg l, ∀ sub ∈ s.inFlight x, OwnKey s x sub

variable {cfg : Config} {s t : State} {x y : Int} {sub : Submission} {held : List Nat}

theorem inFlight_isSome : (s.inFlight x).isSome = true ↔ x ∈ s.submissionList := by
  rw [State.inFlight, Option.isSome_map, AList.lookup_isSome]

instance {P : Int → Submission → Prop} [∀ y other, Decidable (P y other)] :
    Decidable (∀ y other, s.inFlight y = some other → P y other) :=
  decidable_of_iff (∀ y ∈ s.submissionList.keys, ∀ other ∈ s.inFlight y, P y other) (by
    constructor
    · intro all y other flight
      have listed : y ∈ s.submissionList := inFlight_isSome.mp (Option.isSome_of_eq_some flight)
      exact all y (AList.mem_keys.mp listed) other flight
    · exact fun all y _ other flight => all y other flight)

instance : Decidable (OwnKey s x sub) := by
  unfold OwnKey
  infer_instance

instance : DecidableRel (takesOwnKey cfg) := fun s l => by
  unfold takesOwnKey
  infer_instance

theorem OwnKey.congr (same : ∀ x, t.inFlight x = s.inFlight x)
    (ids : t.submissionIdMap = s.submissionIdMap) (h : OwnKey s x sub) : OwnKey t x sub := by
  simp only [OwnKey, same, ids] at h ⊢
  exact h

theorem EnqueuedBefore.append {log new : List Event} (h : EnqueuedBefore log x y) :
    EnqueuedBefore (log ++ new) x y := by
  obtain ⟨older, first, newer, next, sublist⟩ := h
  exact ⟨older, first, newer, next, sublist.trans (List.sublist_append_left log new)⟩

/-! ## Submissions in flight -/

theorem Refined.inFlight (r : Refined cfg s held) (h : s.inFlight x = some sub) :
    sub.submissionInternalId = x := by
  obtain ⟨entry, listed, rfl⟩ := Option.map_eq_some_iff.mp h
  obtain ⟨_, _, _, _, key, _⟩ := r.listed listed
  exact key

/-- Groups are cancelled of submissions in flight. -/
theorem Refined.groups (r : Refined cfg s held) (h : x ∈ s.cancelledGroup) : x ∈ s.submissionList := by
  have some_ : (s.cancelledGroup.lookup x).isSome = true := AList.lookup_isSome.mpr h
  obtain ⟨sub, base, enq⟩ := enqueued_iff.mp (r.known.groups x some_)
  obtain ⟨l, reach, follows⟩ := r.lives x _ _ enq
  by_cases left : .summary ∈ l.todo
  · exact AList.lookup_isSome.mp (Option.isSome_of_eq_some (follows.listed left).1)
  · rw [(follows.gone left).2] at some_
    cases some_

/-- The map is right, and nobody else is cancelled. -/
structure Mapped (s : State) : Prop where
  cancelled : ∀ x ∈ s.cancelledList, (s.inFlight x).isSome = true
  newest : ∀ e y, s.submissionIdMap.lookup e = some y → Newest s e y
  known : ∀ x sub, s.inFlight x = some sub → sub.submissionId ∈ s.submissionIdMap

theorem Mapped.init : Mapped .init := by
  constructor
  · intro x h
    simp [State.init] at h
  · intro e y h
    simp [State.init] at h
  · intro x sub h
    simp [State.init, State.inFlight] at h

/-- Steps that neither push nor finish a submission. -/
theorem Mapped.write (m : Mapped s) (same : ∀ x, t.inFlight x = s.inFlight x)
    (cancelled : ∀ x ∈ t.cancelledList, x ∈ s.cancelledList ∨ (s.inFlight x).isSome = true)
    (ids : t.submissionIdMap = s.submissionIdMap) (log : ∃ new, t.log = s.log ++ new) : Mapped t := by
  obtain ⟨new, log⟩ := log
  constructor
  · intro x h
    rw [same]
    exact (cancelled x h).elim (m.cancelled x) id
  · intro e y h
    rw [ids] at h
    obtain ⟨here, last⟩ := m.newest e y h
    refine ⟨by rw [same]; exact here, ?_⟩
    intro x sub flight under other
    rw [same] at flight
    rw [log]
    exact (last x sub flight under other).append
  · intro x sub flight
    rw [same] at flight
    rw [ids]
    exact m.known x sub flight

theorem Mapped.same (m : Mapped s) (list : t.submissionList = s.submissionList)
    (cancelled : t.cancelledList = s.cancelledList) (ids : t.submissionIdMap = s.submissionIdMap)
    (log : ∃ new, t.log = s.log ++ new) : Mapped t := by
  apply m.write _ _ ids log
  · intro x
    rw [State.inFlight, list]
    rfl
  · intro x h
    exact .inl (cancelled ▸ h)

/-- A submission finishes. -/
theorem Mapped.finish (m : Mapped s) (flight : s.inFlight x = some sub)
    (own : OwnKey s x sub)
    (list : ∀ y, t.inFlight y = if y = x then none else s.inFlight y)
    (cancelled : ∀ y ∈ t.cancelledList, y ≠ x ∧ y ∈ s.cancelledList)
    (ids : t.submissionIdMap = s.submissionIdMap.erase x) (log : ∃ new, t.log = s.log ++ new) :
    Mapped t := by
  obtain ⟨new, log⟩ := log
  constructor
  · intro y h
    obtain ⟨other, before⟩ := cancelled y h
    rw [list, if_neg other]
    exact m.cancelled y before
  · intro e y h
    rw [ids, UMap.lookup_erase_eq] at h
    by_cases key : e = x
    · rw [if_pos key] at h
      cases h
    · rw [if_neg key] at h
      obtain ⟨⟨newest, here, under⟩, last⟩ := m.newest e y h
      have stays : y ≠ x := by
        rintro rfl
        obtain rfl := Option.some.inj (flight.symm.trans here)
        rw [OwnKey, if_neg fun same => key (under.symm.trans same.symm)] at own
        rw [under] at own
        exact own.1 h
      refine ⟨⟨newest, by rw [list, if_neg stays]; exact here, under⟩, ?_⟩
      intro z other flight' under' ne
      rw [list] at flight'
      by_cases gone : z = x
      · rw [if_pos gone] at flight'
        cases flight'
      · rw [if_neg gone] at flight'
        rw [log]
        exact (last z other flight' under' ne).append
  · intro y other flight'
    rw [list] at flight'
    by_cases gone : y = x
    · rw [if_pos gone] at flight'
      cases flight'
    · rw [if_neg gone] at flight'
      have known := m.known y other flight'
      rw [ids, AList.mem_erase]
      refine ⟨?_, known⟩
      intro same
      unfold OwnKey at own
      split at own
      · exact own y other flight' gone same
      · exact own.2 (same ▸ known)

/-- A submission is pushed. -/
theorem Mapped.push (m : Mapped s) (known : Known s) (fresh : ¬ Enqueued x s.log) :
    Mapped ((s.enqueue x sub).supersede sub.submissionId x) := by
  have notListed : x ∉ s.submissionList := fun h => fresh (known.list x (AList.lookup_isSome.mpr h))
  have list (y : Int) : ((s.enqueue x sub).supersede sub.submissionId x).inFlight y =
      if y = x then some sub else s.inFlight y := by
    simp only [State.inFlight, State.supersede, State.enqueue, notListed, if_false,
      UMap.lookup_insert_eq]
    split <;> rfl
  have ids (e : Int) : ((s.enqueue x sub).supersede sub.submissionId x).submissionIdMap.lookup e =
      if e = sub.submissionId then some x else s.submissionIdMap.lookup e :=
    UMap.lookup_insert_eq _ _ _ _
  have log : ∃ new, ((s.enqueue x sub).supersede sub.submissionId x).log = s.log ++ new := by
    rw [supersede_log, enqueue_log, List.append_assoc]
    exact ⟨_, rfl⟩
  constructor
  · intro y h
    rw [list]
    split
    · rfl
    · rcases mem_supersede_cancelled h with before | older
      · exact m.cancelled y before
      · obtain ⟨⟨newest, here, _⟩, _⟩ := m.newest _ y older
        exact Option.isSome_of_eq_some here
  · intro e y h
    rw [ids] at h
    by_cases key : e = sub.submissionId
    · rw [if_pos key] at h
      obtain rfl := Option.some.inj h
      refine ⟨⟨sub, by rw [list, if_pos rfl], key.symm⟩, ?_⟩
      intro z other flight _ ne
      rw [list, if_neg ne] at flight
      have before : Enqueued z s.log := known.list z (by
        obtain ⟨entry, listed, _⟩ := Option.map_eq_some_iff.mp flight
        exact Option.isSome_of_eq_some listed)
      obtain ⟨older, first, enq⟩ := enqueued_iff.mp before
      have pair : EnqueuedBefore (s.log ++ [.enqueued x sub s.taskCount]) z x := by
        refine ⟨older, first, sub, s.taskCount, ?_⟩
        exact List.Sublist.append (List.singleton_sublist.mpr enq) (List.Sublist.refl _)
      rw [supersede_log, enqueue_log]
      exact pair.append
    · rw [if_neg key] at h
      obtain ⟨⟨newest, here, under⟩, last⟩ := m.newest e y h
      have old : y ≠ x := by
        rintro rfl
        exact fresh (known.ids e y h)
      refine ⟨⟨newest, by rw [list, if_neg old]; exact here, under⟩, ?_⟩
      intro z other flight under' ne
      rw [list] at flight
      by_cases new : z = x
      · rw [if_pos new] at flight
        obtain rfl := Option.some.inj flight
        exact absurd under'.symm key
      · rw [if_neg new] at flight
        obtain ⟨added, log⟩ := log
        rw [log]
        exact (last z other flight under' ne).append
  · intro y other flight
    rw [list] at flight
    apply AList.lookup_isSome.mp
    rw [ids]
    split
    · rfl
    · rename_i key
      split at flight
      · exact absurd (congrArg Submission.submissionId (Option.some.inj flight)).symm key
      · exact AList.lookup_isSome.mpr (m.known y other flight)

/-! ## Every step -/

section Parts

variable {n : Node TaskInfo} {entry : SubmissionAndResult} {c : Ctx} {e : Event}

/-- Writing back what was called on a listed submission. -/
theorem Mapped.putCtx (m : Mapped s)
    (listed : s.submissionList.lookup n.data.submissionInternalId = some entry)
    (same : c.sub = entry.sub) (key : entry.sub.submissionInternalId = n.data.submissionInternalId) :
    Mapped ((s.emit e).putCtx n.data.submissionInternalId c) := by
  have here : (s.inFlight n.data.submissionInternalId).isSome = true := by
    rw [State.inFlight, listed]
    rfl
  apply m.write
  · intro x
    simp only [State.inFlight, State.putCtx, State.emit, UMap.lookup_insert_eq]
    split
    · rename_i at_key
      rw [at_key, listed, Option.map_some, Option.map_some, same]
    · rfl
  · intro x h
    simp only [State.putCtx, State.emit, same, key] at h
    split at h
    · rcases Finset.mem_insert.mp h with rfl | before
      · exact .inr here
      · exact .inl before
    · exact .inl (Finset.mem_of_mem_erase h)
  · rfl
  · exact ⟨[e] ++ c.log, by simp [State.putCtx, State.emit]⟩

theorem Mapped.settle {outcome : Option TaskOutcome} {listSize : Nat} (m : Mapped s)
    (listed : s.submissionList.lookup n.data.submissionInternalId = some entry)
    (key : entry.sub.submissionInternalId = n.data.submissionInternalId)
    (done : finalize cfg (s.ctx entry) listSize n.data.task outcome = .ok c)
    (own : n.data.task = .summary → OwnKey s n.data.submissionInternalId entry.sub) :
    Mapped (s.settle n outcome c) := by
  have same : c.sub = entry.sub := (finalize_frame done).sub
  by_cases last : n.data.task = .summary
  · have cleared : c.cancelled = false := by
      rw [last] at done
      cases outcome with
      | none => exact (finalizeSummary_spec done).2.2.2.2.1
      | some o => exact (finalizeSummary_spec done).2.2.2.2.1
    have flight : s.inFlight n.data.submissionInternalId = some entry.sub := by
      rw [State.inFlight, listed]
      rfl
    apply m.finish flight (own last)
    · intro y
      simp only [State.settle, last, if_true, State.removeSubmission, State.inFlight, State.putCtx,
        State.emit, same, key, UMap.lookup_erase_eq, UMap.lookup_insert_eq]
      split <;> rfl
    · intro y h
      simp only [State.settle, last, if_true, State.removeSubmission, State.putCtx, State.emit, cleared,
        Bool.false_eq_true, if_false, same, key] at h
      exact Finset.mem_erase.mp h
    · simp only [State.settle, last, if_true, State.removeSubmission, State.putCtx, State.emit, same,
        key]
    · exact ⟨_, by rw [settle_log, List.append_assoc]⟩
  · have written : Mapped ((s.emit (.finalizing n.id n.data.submissionInternalId n.data.task
        outcome)).putCtx n.data.submissionInternalId c) := m.putCtx listed same key
    simp only [State.settle, last, if_false]
    exact written.same rfl rfl rfl ⟨[], (List.append_nil _).symm⟩

theorem Mapped.start {files : BoxFiles} {launch : Bool} (m : Mapped s)
    (listed : s.submissionList.lookup n.data.submissionInternalId = some entry)
    (key : entry.sub.submissionInternalId = n.data.submissionInternalId)
    (ready : setup cfg (s.ctx entry) files n.data.task = .ok (launch, c)) : Mapped (s.start n c) := by
  have popped : Mapped { s with graph := s.graph.pop n.id } :=
    m.same rfl rfl rfl ⟨[], (List.append_nil _).symm⟩
  exact popped.putCtx listed (setup_frame ready).sub key

end Parts

theorem Mapped.step {l : Label} (m : Mapped s) (r : Refined cfg s held) (own : takesOwnKey cfg s l)
    (h : Step cfg s l t) : Mapped t := by
  have key {n : Node TaskInfo} {entry : SubmissionAndResult}
      (listed : s.submissionList.lookup n.data.submissionInternalId = some entry) :
      entry.sub.submissionInternalId = n.data.submissionInternalId :=
    r.inFlight (by rw [State.inFlight, listed]; rfl)
  cases h with
  | refused => exact m
  | push _ _ same =>
    obtain ⟨⟨range, fresh⟩, _⟩ := own
    rw [range] at same
    subst same
    exact m.push r.known fresh
  | wake | block | exit => exact m.same rfl rfl rfl ⟨[], (List.append_nil _).symm⟩
  | launch _ _ listed ready =>
    have started := m.start listed (key listed) ready
    exact started.same rfl rfl rfl ⟨_, launch_log _ _ _ _⟩
  | @skip n handle files entry c _ _ found listed skipped done =>
    have same : c.sub = entry.sub := (setup_frame skipped).sub
    have flights (x : Int) : (s.start n c).inFlight x = s.inFlight x := by
      simp only [State.inFlight, State.start, State.putCtx, State.emit, UMap.lookup_insert_eq]
      split
      · rename_i at_key
        rw [at_key, listed, Option.map_some, Option.map_some, same]
      · rfl
    have key' : c.sub.submissionInternalId = n.data.submissionInternalId := by
      rw [same]
      exact key listed
    rw [← start_ctx s n c] at done
    apply (m.start listed (key listed) skipped).settle (start_lookup s n c) key' done
    intro last
    have finishing : n.data.submissionInternalId ∈ s.finishing cfg (.dispatch n.id handle files) := by
      rw [last] at skipped
      simp [State.finishing, found, listed, last, skipped]
    have own := own.2 _ finishing entry.sub (by rw [State.inFlight, listed]; rfl)
    rw [← same] at own
    exact own.congr flights rfl
  | @result n handle o entry c _ handled found listed done =>
    have back : Mapped (s.returned handle) := m.same rfl rfl rfl ⟨[], (List.append_nil _).symm⟩
    have settled : Mapped ((s.returned handle).settle n (some o) c) := by
      apply back.settle listed (key listed) done
      intro last
      have finishing : n.data.submissionInternalId ∈ s.finishing cfg (.result handle o) := by
        simp [State.finishing, handled, found, last]
      exact own.2 _ finishing entry.sub (by rw [State.inFlight, listed]; rfl)
    exact settled.same rfl rfl rfl ⟨[], (List.append_nil _).symm⟩

theorem containers_tidy (h : (judge cfg).Reach (takesOwnKey cfg) s) : Tidy s := by
  have fresh : (judge cfg).Reach freshId s := h.weaken fun _ _ own => own.1
  obtain ⟨held, r⟩ := refined fresh
  have m : Mapped s := by
    apply h.invariant .init
    intro a l b reach m own step
    obtain ⟨_, r⟩ := refined (reach.weaken fun _ _ own => own.1)
    exact m.step r own (step_cases step)
  have cancelled : ∀ x ∈ s.cancelledList, x ∈ s.submissionList :=
    fun x h => inFlight_isSome.mp (m.cancelled x h)
  refine ⟨cancelled, fun x => r.groups, m.newest, m.known, fun none => ?_⟩
  have nobody (x : Int) : x ∉ s.submissionList := by
    rw [none]
    exact AList.notMem_empty x
  refine ⟨?_, ?_, ?_⟩
  · exact Finset.eq_empty_of_forall_notMem fun x h => nobody x (cancelled x h)
  · exact UMap.eq_empty fun x => AList.lookup_eq_none.mpr fun h => nobody x (r.groups h)
  · apply UMap.eq_empty
    intro e
    by_contra some_
    obtain ⟨y, found⟩ := Option.ne_none_iff_exists'.mp some_
    obtain ⟨⟨sub, here, _⟩, _⟩ := m.newest e y found
    exact nobody y (inFlight_isSome.mp (Option.isSome_of_eq_some here))

/-- Of two submissions with one `submission_id` the older finishes, and then the newer, whose
internal id it is. -/
def ownKeyRun : List Label :=
  [.push (sampleSubmission 6 7 []) 0, .push (sampleSubmission 7 7 []) 0, .wake,
    .dispatch 1 5 .empty, .dispatch 0 5 .empty] ++ runAlone 3 goodOutcome ++ [.dispatch 2 5 .empty]

theorem containers_tidy_to_end :
    ∃ s, (judge (sampleConfig 1)).exec (takesOwnKey (sampleConfig 1)) .init ownKeyRun = some s ∧
      Tidy s := by
  obtain ⟨s, hs⟩ := Option.isSome_iff_exists.mp
    (show ((judge (sampleConfig 1)).exec (takesOwnKey (sampleConfig 1)) .init
      ownKeyRun).isSome = true by decide +kernel)
  exact ⟨s, hs, containers_tidy (reach_exec hs)⟩

def foreverConfig : Config := { sampleConfig 1 with loop := true }

/-- A submission is judged, and then judged again. -/
def rejudgeRun : List Label :=
  [.push (sampleSubmission 5 100 []) 0, .wake] ++ runAlone 1 goodOutcome ++
    [.dispatch 0 5 .empty, .exit, .push (sampleSubmission 6 100 []) 0, .wake] ++
    runAlone 3 goodOutcome ++ [.dispatch 2 5 .empty, .exit]

/-- Nothing is in flight any more, but one is cancelled, and the map has an entry. -/
theorem entries_left_over :
    ∃ s, (judge foreverConfig).exec freshId .init rejudgeRun = some s ∧
      s.submissionList = ∅ ∧ 5 ∈ s.cancelledList ∧ s.submissionIdMap.lookup 100 = some 6 ∧
      ¬ Tidy s := by
  have run : ((judge foreverConfig).exec freshId .init rejudgeRun).map (fun s =>
      (s.submissionList.entries.isEmpty, decide (5 ∈ s.cancelledList),
        s.submissionIdMap.lookup 100)) = some (true, true, some 6) := by decide +kernel
  obtain ⟨s, hs, seen⟩ := Option.map_eq_some_iff.mp run
  simp only [Prod.mk.injEq, List.isEmpty_iff, decide_eq_true_eq] at seen
  obtain ⟨none, cancelled, entry⟩ := seen
  have empty : s.submissionList = ∅ := AList.ext none
  refine ⟨s, hs, empty, cancelled, entry, fun tidy => ?_⟩
  rw [(tidy.empty empty).1] at cancelled
  exact Finset.notMem_empty 5 cancelled

end TiojJudge.Judge
