import Mathlib.Algebra.BigOperators.Group.Multiset.Basic
import TiojJudge.Outbox.Popped

/-!
# Results are merged, not lost

`SendResult` pushes one result at a time under the key of its submission. While
one is pending the next is merged into it, and `CheckUniqueRequests` moves the
pending request to the queue.

* `movedBy`: what a step of `CheckUniqueRequests` moves;
* `results_conserved`: what is pending under a key and what was moved is what
  was pushed, each result as often.
-/

namespace TiojJudge.Outbox
open Machine

/-- The requests that `CheckUniqueRequests` moves to `request_queue` in this step. -/
def movedBy (s : State) : Label → List Request
  | .poll now _ =>
    if s.canSend then
      ((checkUniqueRequests s now).map fun t => t.requestQueue.drop s.requestQueue.length).getD []
    else []
  | _ => []

/-- The results in the body of a request. -/
def Request.data (req : Request) : Multiset TdData := req.results.getD []

/-- The results in the unique requests of key `k`. -/
def dataOf (k : Int) (reqs : List Request) : Multiset TdData :=
  ((reqs.filter fun req => req.isUnique && req.key == k).map Request.data).sum

/-- The results in the pending request of key `k`. -/
def pendingData (k : Int) (pending : UMap ℤ Request) : Multiset TdData :=
  ((pending.lookup k).map Request.data).getD 0

/-- No `force_pop` of key `k` is pushed, and its unique requests are those of `SendResult`. -/
def resultsOnly (k : Int) (s : State) : Label → Prop
  | .push req => req.key = k → req.pops = false ∧ (req.isUnique = true → req.results.isSome = true)
  | .handler => s.handler.head? = some .fetch → k ≠ kFetchKey
  | _ => True

instance (k : Int) (s : State) : DecidablePred (resultsOnly k s)
  | .push _ | .poll .. | .pingTimeout | .enterInner | .head _ | .innerDone | .send _ | .backup
  | .relock | .open | .fail | .close | .message _ | .handler => by
    unfold resultsOnly
    infer_instance

variable {k : Int} {s t : State} {req : Request}

@[simp] theorem dataOf_nil : dataOf k [] = 0 := rfl

@[simp] theorem dataOf_append (reqs more : List Request) :
    dataOf k (reqs ++ more) = dataOf k reqs + dataOf k more := by
  simp [dataOf]

theorem dataOf_single (req : Request) :
    dataOf k [req] = if req.isUnique = true ∧ req.key = k then req.data else 0 := by
  by_cases here : req.isUnique = true ∧ req.key = k <;> simp [dataOf, here]

/-- What waits under a key is a unique request of the key. -/
def Keyed (pending : UMap ℤ Request) : Prop :=
  ∀ k u, pending.lookup k = some u → u.isUnique = true ∧ u.key = k

theorem Keyed.erase {pending : UMap ℤ Request} (keyed : Keyed pending) (j : ℤ) :
    Keyed (pending.erase j) := by
  intro k u hu
  rw [UMap.lookup_erase_eq] at hu
  split at hu
  · cases hu
  · exact keyed k u hu

/-- Draining takes from what is pending what it moves. -/
theorem drain_conserves {ps : List (ℚ ×ₗ ℤ)} {pending pending' : UMap ℤ Request}
    {queue queue' : List Request} (keyed : Keyed pending)
    (h : drain ps pending queue = some (pending', queue')) :
    Keyed pending' ∧ ∃ moved, queue' = queue ++ moved ∧
      pendingData k pending' + dataOf k moved = pendingData k pending := by
  induction ps generalizing pending queue with
  | nil =>
    obtain ⟨rfl, rfl⟩ : pending = pending' ∧ queue = queue' := by simpa [drain] using h
    exact ⟨keyed, [], (List.append_nil _).symm, add_zero _⟩
  | cons p ps ih =>
    simp only [drain] at h
    split at h
    · cases h
    · rename_i req found
      obtain ⟨keyed', moved, rfl, same⟩ := ih (keyed.erase _) h
      obtain ⟨unique, key⟩ := keyed _ req found
      refine ⟨keyed', req :: moved, by simp, ?_⟩
      have first : dataOf k (req :: moved) = dataOf k [req] + dataOf k moved :=
        dataOf_append [req] moved
      have taken : pendingData k (pending.erase (ofLex p).2) + dataOf k [req] =
          pendingData k pending := by
        rw [dataOf_single]
        unfold pendingData
        rw [UMap.lookup_erase_eq]
        by_cases here : k = (ofLex p).2
        · subst here
          simp [unique, key, found]
        · have other : ¬ (ofLex p).2 = k := fun same => here same.symm
          simp [unique, key, here, other]
      rw [first, add_left_comm, same, add_comm, taken]

theorem pushRequest_keyed (keyed : Keyed s.uniqueRequests) :
    Keyed (pushRequest s req).uniqueRequests := by
  by_cases unique : req.isUnique = true
  · obtain ⟨_, new, isUnique, key, _, _, pending⟩ := pushRequest_unique (s := s) unique
    intro k u hu
    rw [pending] at hu
    split at hu
    · rename_i same
      cases hu
      exact ⟨isUnique, key.trans same.symm⟩
    · exact keyed k u hu
  · rcases pushRequest_other (s := s) (Bool.eq_false_iff.mpr unique) with same | ⟨_, erased⟩
    · rw [same]
      exact keyed
    · rw [erased]
      exact keyed.erase _

/-- A push adds its results to what is pending. -/
theorem pushRequest_conserves
    (only : req.key = k → req.pops = false ∧ (req.isUnique = true → req.results.isSome = true)) :
    pendingData k (pushRequest s req).uniqueRequests =
      pendingData k s.uniqueRequests + dataOf k [req] := by
  rw [dataOf_single]
  by_cases unique : req.isUnique = true
  · obtain ⟨_, new, _, _, _, results, pending⟩ := pushRequest_unique (s := s) unique
    unfold pendingData
    rw [pending]
    by_cases here : req.key = k
    · subst here
      obtain ⟨more, hmore⟩ := Option.isSome_iff_exists.mp ((only rfl).2 unique)
      have data : new.data = req.data + pendingData req.key s.uniqueRequests := by
        unfold Request.data pendingData
        rw [results, hmore]
        cases s.uniqueRequests.lookup req.key with
        | none => simp
        | some old =>
          simp [Request.data]
      rw [if_pos rfl, if_pos ⟨unique, rfl⟩, add_comm]
      exact data
    · rw [if_neg (Ne.symm here), if_neg fun h => here h.2, add_zero]
  · rw [if_neg fun h => unique h.1, add_zero]
    rcases pushRequest_other (s := s) (Bool.eq_false_iff.mpr unique) with same | ⟨pops, erased⟩
    · rw [same]
    · have other : k ≠ req.key := by
        rintro rfl
        rw [(only rfl).1] at pops
        cases pops
      unfold pendingData
      rw [erased, UMap.lookup_erase_eq, if_neg other]

/-- What is pending under `k` and what was moved is what was pushed. -/
structure Conserved (k : Int) (s : State) (moved : List Request) : Prop where
  keyed : Keyed s.uniqueRequests
  results : pendingData k s.uniqueRequests + dataOf k moved = dataOf k s.pushed

theorem Conserved.push {moved : List Request} (c : Conserved k s moved)
    (only : req.key = k → req.pops = false ∧ (req.isUnique = true → req.results.isSome = true))
    (pending : t.uniqueRequests = (s.push req).uniqueRequests)
    (pushed : t.pushed = (s.push req).pushed) : Conserved k t moved := by
  have same : t.uniqueRequests =
      (pushRequest s { req with serial := s.pushed.length }).uniqueRequests := pending
  refine ⟨same ▸ pushRequest_keyed c.keyed, ?_⟩
  have now : pendingData k (pushRequest s { req with serial := s.pushed.length }).uniqueRequests =
      pendingData k s.uniqueRequests + dataOf k [{ req with serial := s.pushed.length }] :=
    pushRequest_conserves only
  rw [same, now, pushed, push_frame.2.2, dataOf_append, ← c.results, add_right_comm]

theorem Conserved.drain {now : ℚ} {u : State} {moved : List Request} (c : Conserved k s moved)
    (h : checkUniqueRequests s now = some u) (pending : t.uniqueRequests = u.uniqueRequests)
    (pushed : t.pushed = s.pushed) :
    Conserved k t (moved ++ u.requestQueue.drop s.requestQueue.length) := by
  obtain ⟨⟨rest, queue⟩, hd, rfl⟩ := Option.map_eq_some_iff.mp h
  obtain ⟨keyed, more, rfl, same⟩ := drain_conserves (k := k) c.keyed hd
  have pending : t.uniqueRequests = rest := pending
  refine ⟨pending ▸ keyed, ?_⟩
  rw [pending, pushed, List.drop_left, dataOf_append, ← c.results, ← same, add_assoc,
    add_comm (dataOf k moved)]

theorem Conserved.step {l : Label} {moved : List Request} (c : Conserved k s moved)
    (h : step s l = some t) (only : resultsOnly k s l) : Conserved k t (moved ++ movedBy s l) := by
  have quiet (none : movedBy s l = []) : Conserved k t (moved ++ movedBy s l) := by
    rw [none, List.append_nil]
    rcases step_line h with ⟨_, pending, pushed⟩ | ⟨req, source, _, pending, pushed⟩ |
      ⟨now, _, u, rfl, can, drained, _, pending, pushed⟩ | ⟨_, _, pending, pushed⟩
    · exact ⟨pending ▸ c.keyed, pending ▸ pushed ▸ c.results⟩
    · apply c.push _ pending pushed
      rcases source with rfl | rfl | ⟨rfl, rfl, fetches⟩
      · exact only
      · intro _
        exact ⟨rfl, fun unique => by cases unique⟩
      · intro key
        exact absurd key.symm (only fetches)
    · have moves := c.drain drained pending pushed
      simp only [movedBy, can, drained, if_true, Option.map_some, Option.getD_some] at none
      rw [none, List.append_nil] at moves
      exact moves
    · exact ⟨pending ▸ c.keyed, pending ▸ pushed ▸ c.results⟩
  cases l with
  | poll now timeout =>
    by_cases can : s.canSend = true
    · simp only [Outbox.step, can, if_true] at h
      split at h
      · obtain ⟨u, drained, rfl⟩ := Option.map_eq_some_iff.mp h
        obtain ⟨_, _, _, _, pushed⟩ := checkUniqueRequests_frame drained
        simp only [movedBy, can, drained, if_true, Option.map_some, Option.getD_some]
        exact c.drain drained rfl pushed
      · cases h
    · apply quiet
      simp only [movedBy, can]
      rfl
  | _ => exact quiet rfl

/-- Merging loses no result and doubles none. -/
theorem results_conserved {moved : List Request}
    (h : (outbox.observed movedBy).Reach (fun p l => resultsOnly k p.1 l) (s, moved)) :
    pendingData k s.uniqueRequests + dataOf k moved = dataOf k s.pushed := by
  have conserved : Conserved k s moved := by
    apply h.observed_invariant
    · refine ⟨?_, rfl⟩
      intro k u hu
      cases hu
    · intro a os l b c only step
      exact c.step step only
  exact conserved.results

/-- Three results of submission 7: the third is merged into the second. -/
def threeResults : List Label :=
  connect ++ [.push (tdResultRequest 7 [⟨0, "AC", 1, 1, 1, none, none⟩]), .poll 10 false,
      .enterInner] ++ sendNext 10 ++
    [.push (tdResultRequest 7 [⟨1, "AC", 1, 1, 1, none, none⟩]),
      .push (tdResultRequest 7 [⟨2, "WA", 1, 1, 0, none, none⟩])]

theorem results_conserved_of_three :
    ∃ s moved, (outbox.observed movedBy).exec (fun p l => resultsOnly 7 p.1 l) (initial, [])
        threeResults = some (s, moved) ∧ dataOf 7 s.pushed ≠ dataOf 7 moved ∧
      pendingData 7 s.uniqueRequests + dataOf 7 moved = dataOf 7 s.pushed := by
  have run : ((outbox.observed movedBy).exec (fun p l => resultsOnly 7 p.1 l) (initial, [])
      threeResults).map (fun p => decide (dataOf 7 p.1.pushed ≠ dataOf 7 p.2)) = some true := by
    decide +kernel
  obtain ⟨⟨s, moved⟩, hs, seen⟩ := Option.map_eq_some_iff.mp run
  exact ⟨s, moved, hs, of_decide_eq_true seen, results_conserved (reach_exec hs)⟩

end TiojJudge.Outbox
