import TiojJudge.Outbox.Model

/-!
# Pending unique requests

`unsent_timestamps` and `unique_requests` describe the same pending requests,
one by time and one by key. A `force_pop` request takes the pending request of
its key out of both, but finds the pair through `unique_timestamp_map`; when
the loop has rewritten that entry since the pair was inserted, the pair stays.
-/

namespace TiojJudge.Outbox
open Machine

/-- One pair of `unsent_timestamps` for each key of `unique_requests`, and no
pair for another key. -/
def PairPerPending (s : State) : Prop :=
  (∀ k, k ∈ s.uniqueRequests → ∃! t : ℚ, toLex (t, k) ∈ s.unsentTimestamps) ∧
  ∀ (t : ℚ) (k : ℤ), toLex (t, k) ∈ s.unsentTimestamps → k ∈ s.uniqueRequests

/-- A pending request of key `k` whose pair is not the one
`unique_timestamp_map` leads to. -/
def stalePair (s : State) (k : Int) : Bool :=
  match s.uniqueTimestampMap.lookup k with
  | some t => (s.uniqueRequests.lookup k).isSome && !decide (toLex (t, k) ∈ s.unsentTimestamps)
  | none => false

/-- No `force_pop` request is pushed for a key whose pair is stale. -/
def popsFresh (s : State) : Label → Prop
  | .push req => req.isUnique = false → req.forcePop = true → stalePair s req.key = false
  | _ => True

instance (s : State) : DecidablePred (popsFresh s)
  | .push _ | .poll .. | .pingTimeout | .enterInner | .head _ | .innerDone | .send _ | .backup
  | .relock | .open | .fail | .close | .message _ | .handler => by
    unfold popsFresh
    infer_instance

/-! ## Pairs and pending requests as lists -/

/-- The pairs of `ps` are one for each key of `pending`. -/
structure PairsFor (ps : List (ℚ ×ₗ ℤ)) (pending : UMap ℤ Request) : Prop where
  known : ∀ p ∈ ps, (ofLex p).2 ∈ pending
  paired : ∀ k ∈ pending, ∃ p ∈ ps, (ofLex p).2 = k
  one : ∀ p ∈ ps, ∀ q ∈ ps, (ofLex p).2 = (ofLex q).2 → p = q

theorem pairPerPending_iff (s : State) :
    PairPerPending s ↔ PairsFor s.unsentTimestamps.elems s.uniqueRequests := by
  constructor
  · rintro ⟨unique, known⟩
    refine ⟨fun p hp => known (ofLex p).1 (ofLex p).2 hp, ?_, ?_⟩
    · intro k hk
      obtain ⟨t, ht, _⟩ := unique k hk
      exact ⟨toLex (t, k), ht, rfl⟩
    · intro p hp q hq same
      obtain ⟨t, _, only⟩ := unique (ofLex p).2 (known _ _ hp)
      have hpt : (ofLex p).1 = t := only _ hp
      have hqt : (ofLex q).1 = t := only _ (by rw [same]; exact hq)
      exact ofLex.injective (Prod.ext (hpt.trans hqt.symm) same)
  · intro h
    refine ⟨?_, fun t k ht => h.known _ ht⟩
    intro k hk
    obtain ⟨p, hp, rfl⟩ := h.paired k hk
    refine ⟨(ofLex p).1, hp, ?_⟩
    intro t ht
    exact congrArg (fun q => (ofLex q).1) (h.one _ ht _ hp rfl)

/-- Taking the first pair and its request leaves matching rests. -/
theorem PairsFor.tail {p : ℚ ×ₗ ℤ} {ps : List (ℚ ×ₗ ℤ)} {pending : UMap ℤ Request}
    (h : PairsFor (p :: ps) pending) (fresh : p ∉ ps) :
    PairsFor ps (pending.erase (ofLex p).2) := by
  refine ⟨?_, ?_, fun q hq r hr => h.one q (.tail _ hq) r (.tail _ hr)⟩
  · intro q hq
    refine AList.mem_erase.mpr ⟨?_, h.known q (.tail _ hq)⟩
    intro same
    exact fresh (h.one q (.tail _ hq) p (.head _) same ▸ hq)
  · intro k hk
    obtain ⟨hne, hk⟩ := AList.mem_erase.mp hk
    obtain ⟨q, hq, rfl⟩ := h.paired k hk
    rcases List.mem_cons.mp hq with rfl | hq
    · exact absurd rfl hne
    · exact ⟨q, hq, rfl⟩

/-- The lookups of the loop succeed, and the rest still matches. -/
theorem drain_matches {ps rest : List (ℚ ×ₗ ℤ)} {pending : UMap ℤ Request}
    (queue : List Request) (h : PairsFor (ps ++ rest) pending) (distinct : (ps ++ rest).Nodup) :
    ∃ pending' queue', drain ps pending queue = some (pending', queue') ∧
      PairsFor rest pending' := by
  induction ps generalizing pending queue with
  | nil => exact ⟨pending, queue, rfl, h⟩
  | cons p ps ih =>
    obtain ⟨fresh, distinct⟩ := List.nodup_cons.mp distinct
    obtain ⟨req, hreq⟩ := Option.isSome_iff_exists.mp
      (AList.lookup_isSome.mpr (h.known p (.head _)))
    simpa only [drain, hreq] using ih (queue ++ [req]) (h.tail fresh) distinct

theorem checkUniqueRequests_matches {s : State} (h : PairPerPending s) (ts : ℚ) :
    ∃ t, checkUniqueRequests s ts = some t ∧ PairPerPending t := by
  have split := List.takeWhile_append_dropWhile (p := due ts) (l := s.unsentTimestamps.elems)
  obtain ⟨pending, queue, hd, hp⟩ := drain_matches s.requestQueue
    (split.symm ▸ (pairPerPending_iff s).mp h) (split.symm ▸ s.unsentTimestamps.nodup)
  refine ⟨_, by simp only [checkUniqueRequests, hd, Option.map_some]; rfl, ?_⟩
  exact (pairPerPending_iff _).mpr hp

/-! ## What a step does to the two containers -/

/-- A new pair and a new pending request of one key. -/
theorem PairsFor.insert {u : OrdSet (ℚ ×ₗ ℤ)} {pending : UMap ℤ Request}
    (h : PairsFor u.elems pending) (t : ℚ) (req : Request) (new : req.key ∉ pending) :
    PairsFor (u.insert (toLex (t, req.key))).elems (pending.insert req.key req) := by
  have cases {p} (hp : p ∈ (u.insert (toLex (t, req.key))).elems) :
      p = toLex (t, req.key) ∨ p ∈ u.elems := OrdSet.mem_insert.mp hp
  refine ⟨?_, ?_, ?_⟩
  · intro p hp
    rcases cases hp with rfl | hp
    · exact (AList.mem_insert _).mpr (.inl rfl)
    · exact (AList.mem_insert _).mpr (.inr (h.known p hp))
  · intro k hk
    rcases (AList.mem_insert _).mp hk with rfl | hk
    · exact ⟨_, OrdSet.mem_insert.mpr (.inl rfl), rfl⟩
    · obtain ⟨p, hp, rfl⟩ := h.paired k hk
      exact ⟨p, OrdSet.mem_insert.mpr (.inr hp), rfl⟩
  · intro p hp q hq same
    rcases cases hp with rfl | hp <;> rcases cases hq with rfl | hq
    · rfl
    · have known := h.known q hq
      rw [← same] at known
      exact absurd known new
    · have known := h.known p hp
      rw [same] at known
      exact absurd known new
    · exact h.one p hp q hq same

/-- A pair and the pending request of its key go together. -/
theorem PairsFor.erase {u : OrdSet (ℚ ×ₗ ℤ)} {pending : UMap ℤ Request} {t : ℚ} {k : ℤ}
    (h : PairsFor u.elems pending) (current : k ∈ pending → toLex (t, k) ∈ u) :
    PairsFor (u.erase (toLex (t, k))).elems (pending.erase k) := by
  refine ⟨?_, ?_, ?_⟩
  · intro p hp
    obtain ⟨hp, hne⟩ := OrdSet.mem_erase.mp hp
    have known := h.known p hp
    refine AList.mem_erase.mpr ⟨fun same => hne ?_, known⟩
    exact h.one p hp _ (current (same ▸ known)) same
  · intro j hj
    obtain ⟨hne, hj⟩ := AList.mem_erase.mp hj
    obtain ⟨p, hp, rfl⟩ := h.paired j hj
    refine ⟨p, OrdSet.mem_erase.mpr ⟨hp, ?_⟩, rfl⟩
    rintro rfl
    exact hne rfl
  · intro p hp q hq
    exact h.one p (OrdSet.mem_erase.mp hp).1 q (OrdSet.mem_erase.mp hq).1

theorem PairsFor.replace {ps : List (ℚ ×ₗ ℤ)} {pending : UMap ℤ Request} (h : PairsFor ps pending)
    (k : ℤ) (req : Request) (known : k ∈ pending) : PairsFor ps (pending.insert k req) := by
  refine ⟨fun p hp => (AList.mem_insert _).mpr (.inr (h.known p hp)), ?_, h.one⟩
  intro j hj
  rcases (AList.mem_insert _).mp hj with rfl | hj
  · exact h.paired _ known
  · exact h.paired j hj

theorem pushRequest_matches {s : State} {req : Request} (h : PairPerPending s)
    (fresh : req.isUnique = false → req.forcePop = true → stalePair s req.key = false) :
    PairPerPending (pushRequest s req) := by
  rw [pairPerPending_iff] at h ⊢
  unfold pushRequest
  split
  · -- unique: replaced when one is pending, inserted otherwise
    split
    · rename_i old found
      exact h.replace _ _ (AList.lookup_isSome.mp (by simp [found]))
    · rename_i absent
      have new := AList.lookup_eq_none.mp absent
      split
      · exact h.insert _ req new
      · exact h.insert 0 req new
  · rename_i notUnique
    split
    · rename_i pops
      split
      · rename_i t found
        have fresh := fresh (by simpa using notUnique) pops
        simp only [stalePair, found, Bool.and_eq_false_iff, Bool.not_eq_false',
          decide_eq_true_eq] at fresh
        refine h.erase (t := t) fun pending => fresh.resolve_left ?_
        simp [AList.lookup_isSome.mpr pending]
      · exact h
    · split <;> exact h

theorem push_matches {s : State} {req : Request} (h : PairPerPending s)
    (fresh : req.isUnique = false → req.forcePop = true → stalePair s req.key = false) :
    PairPerPending (s.push req) :=
  @pushRequest_matches s { req with serial := s.pushed.length } h fresh

/-- A step leaves both containers alone, unless it pushes or drains. -/
theorem step_containers {s t : State} {l : Label} (h : step s l = some t) :
    (t.unsentTimestamps = s.unsentTimestamps ∧ t.uniqueRequests = s.uniqueRequests) ∨
    (∃ req, (l = .push req ∨ req = subscribeRequest ∨ req = fetchRequest) ∧
      t.unsentTimestamps = (s.push req).unsentTimestamps ∧
      t.uniqueRequests = (s.push req).uniqueRequests) ∨
    ∃ now u, checkUniqueRequests s now = some u ∧
      t.unsentTimestamps = u.unsentTimestamps ∧ t.uniqueRequests = u.uniqueRequests := by
  cases step_cases h with
  | push => exact .inr (.inl ⟨_, .inl rfl, rfl, rfl⟩)
  | subscribe => exact .inr (.inl ⟨_, .inr (.inl rfl), rfl, rfl⟩)
  | fetch => exact .inr (.inl ⟨_, .inr (.inr rfl), rfl, rfl⟩)
  | drain _ _ _ drained => exact .inr (.inr ⟨_, _, drained, rfl, rfl⟩)
  | _ => exact .inl ⟨rfl, rfl⟩

theorem step_matches {s t : State} {l : Label} (h : step s l = some t) (fresh : popsFresh s l)
    (pairs : PairPerPending s) : PairPerPending t := by
  rcases step_containers h with ⟨hu, hr⟩ | ⟨req, from_, hu, hr⟩ | ⟨now, u, hc, hu, hr⟩
  · simpa only [PairPerPending, hu, hr] using pairs
  · have kept : PairPerPending (s.push req) := by
      rcases from_ with rfl | rfl | rfl
      · exact push_matches pairs fresh
      · exact push_matches pairs (fun _ impossible => by cases impossible)
      · exact push_matches pairs (fun impossible => by cases impossible)
    simpa only [PairPerPending, hu, hr] using kept
  · obtain ⟨v, hv, kept⟩ := checkUniqueRequests_matches pairs now
    obtain rfl : v = u := Option.some.inj (hv.symm.trans hc)
    simpa only [PairPerPending, hu, hr] using kept

theorem initial_matches : PairPerPending initial :=
  ⟨fun k hk => absurd hk (AList.notMem_empty k), fun _ _ ht => absurd ht (OrdSet.notMem_empty _)⟩

/-- Without a `force_pop` for a stale pair the two containers agree after every
step, and every lookup of `CheckUniqueRequests` finds its request. -/
theorem pending_pairs_agree {s : State} (h : outbox.Reach popsFresh s) :
    PairPerPending s ∧ ∀ ts, checkUniqueRequests s ts ≠ none := by
  have pairs : PairPerPending s :=
    h.invariant initial_matches fun _ _ _ _ ih fresh hs => step_matches hs fresh ih
  refine ⟨pairs, fun ts => ?_⟩
  obtain ⟨t, ht, _⟩ := checkUniqueRequests_matches pairs ts
  simp [ht]

/-- Three pushes for submission 7 around two sends: the loop writes the time of
the first result while the pair of the second still carries 0, and the final
result then looks for a pair that is not there. -/
def staleRun : List Label :=
  [.push (tdResultRequest 7 []), .open, .handler, .handler, .poll 10 false, .enterInner,
   .head 10, .push (tdResultRequest 7 []), .send true, .backup, .relock,
   .head 10, .send true, .backup, .relock, .head 10, .push (submissionResultRequest 7)]

theorem pending_pairs_agree_until_final :
    ∃ s, outbox.exec popsFresh initial staleRun.dropLast = some s ∧
      PairPerPending s ∧ ∀ ts, checkUniqueRequests s ts ≠ none := by
  obtain ⟨s, hs⟩ := Option.isSome_iff_exists.mp
    (show (outbox.exec popsFresh initial staleRun.dropLast).isSome = true by decide +kernel)
  exact ⟨s, hs, pending_pairs_agree (reach_exec hs)⟩

/-- The pair of a popped request stays, and the next poll dereferences `end()`. -/
theorem pending_pairs_disagree :
    ∃ s, outbox.exec anyStep initial staleRun = some s ∧
      ¬ PairPerPending s ∧ checkUniqueRequests s 12 = none := by
  have run : ((outbox.exec anyStep initial staleRun).map fun s =>
      (s.uniqueRequests.keys, s.unsentTimestamps.elems, (checkUniqueRequests s 12).isNone)) =
      some ([], [toLex (0, 7)], true) := by decide +kernel
  obtain ⟨s, hs, seen⟩ := Option.map_eq_some_iff.mp run
  obtain ⟨keys, pairs, lookup⟩ : s.uniqueRequests.keys = [] ∧
      s.unsentTimestamps.elems = [toLex (0, 7)] ∧ checkUniqueRequests s 12 = none := by
    simpa using seen
  refine ⟨s, hs, ?_, lookup⟩
  rintro ⟨_, known⟩
  have pending := known 0 7 (by simp [OrdSet.mem_def, pairs])
  simp [AList.mem_keys, keys] at pending

/-- The condition leaves out only what breaks the agreement. -/
theorem stale_pop_breaks {s t : State} {l : Label} (pairs : PairPerPending s)
    (h : step s l = some t) (stale : ¬ popsFresh s l) : ¬ PairPerPending t := by
  cases step_cases h with
  | @push req =>
    obtain ⟨notUnique, pops, stale⟩ :
        req.isUnique = false ∧ req.forcePop = true ∧ stalePair s req.key = true := by
      simpa [popsFresh] using stale
    cases found : s.uniqueTimestampMap.lookup req.key with
    | none => simp [stalePair, found] at stale
    | some t =>
      simp only [stalePair, found, Bool.and_eq_true, Bool.not_eq_true', decide_eq_false_iff_not]
        at stale
      obtain ⟨u, hu, _⟩ := pairs.1 req.key (AList.lookup_isSome.mp stale.1)
      have stays : toLex (u, req.key) ∈ s.unsentTimestamps.erase (toLex (t, req.key)) := by
        refine OrdSet.mem_erase.mpr ⟨hu, ?_⟩
        intro same
        exact stale.2 (same ▸ hu)
      intro after
      have known := after.2 u req.key (by
        simpa [State.push, pushRequest, notUnique, pops, found] using stays)
      simp [State.push, pushRequest, notUnique, pops, found] at known
  | _ => exact absurd trivial stale

end TiojJudge.Outbox
