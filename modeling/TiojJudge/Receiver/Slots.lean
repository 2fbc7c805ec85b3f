import TiojJudge.Receiver.Model

/-!
# The slots of the queue

Everything in the queue was pushed by a receive, under a new internal id and
with `server_reporter`.

* `numbered`: the internal ids fit an `int`;
* `Sound`: what holds of the scheduler beside the receiving threads;
* `work_size`, `Sound.push_size`: a receive takes one slot, the end of a submission
  frees one;
* `Slots`: there are never more submissions than slots, whatever the internal ids.
-/

namespace TiojJudge.Receiver
open Machine

/-- `submission_internal_id_seq` stays below `2 ^ 31`. -/
def numbered (s : State) : Label → Prop
  | .push _ => s.submissionInternalIdSeq + 1 < 2 ^ 31
  | _ => True

instance (s : State) : DecidablePred (numbered s)
  | .lock _ | .work _ | .fetch | .announce | .test | .tryFetch | .push _ | .fail | .reset
  | .readQueue | .readVariable => by
    unfold numbered
    infer_instance

structure Sound (cfg : Config) (s : State) : Prop where
  refined : ∃ held, Judge.Refined cfg.judge s.judge held
  ids : ∀ id, Judge.Enqueued id s.judge.log → id ≤ s.submissionInternalIdSeq
  reporters : ∀ id sub base, .enqueued id sub base ∈ s.judge.log → sub.reporter = serverReporter

/-- The queue was tested, and the receive has not pushed. -/
def Phase.entering : Phase → Bool
  | .accepted _ | .announced _ | .fetching _ | .dealing _ => true
  | _ => false

variable {cfg : Config} {s t : State} {l : Label}

theorem Sound.init : Sound cfg .init where
  refined := ⟨[], .init⟩
  ids := by
    intro id h
    simp [State.init, Judge.State.init, Judge.Enqueued] at h
  reporters := by
    intro id sub base h
    simp [State.init, Judge.State.init] at h

theorem toInt32_of_lt {k : Nat} (h : k < 2 ^ 31) : Numerals.toInt32 (k : Int) = k := by
  rw [Numerals.toInt32, Int.bmod_eq_of_le] <;> omega

/-- The internal id of a receive is new. -/
theorem Sound.fresh {id : Int} {sub : Judge.Submission} {maxQueue : Nat} (sound : Sound cfg s)
    (fits : s.submissionInternalIdSeq + 1 < 2 ^ 31) :
    Judge.freshId s.judge (.push (s.received id sub) maxQueue) := by
  refine ⟨?_, fun enqueued => ?_⟩
  · have same := toInt32_of_lt fits
    simpa [State.received] using same
  · have small := sound.ids _ enqueued
    simp only [State.received] at small
    omega

theorem Sound.step (sound : Sound cfg s) (fits : numbered s l) (h : Step cfg s l t) :
    Sound cfg t := by
  have kept (judge : t.judge = s.judge)
      (seq : t.submissionInternalIdSeq = s.submissionInternalIdSeq) : Sound cfg t :=
    ⟨judge ▸ sound.refined, judge ▸ seq ▸ sound.ids, judge ▸ sound.reporters⟩
  cases h with
  | @work l u quiet worked =>
    obtain ⟨held, refined⟩ := sound.refined
    have step := Judge.step_cases worked
    have fresh : Judge.freshId s.judge l := by
      cases l with
      | push => cases quiet
      | _ => trivial
    have old {id : Int} {sub : Judge.Submission} {base : Nat} (h : .enqueued id sub base ∈ u.log) :
        .enqueued id sub base ∈ s.judge.log := by
      rcases Judge.step_enqueues step h with old | ⟨_, _, rfl, _⟩
      · exact old
      · cases quiet
    refine ⟨refined.step fresh step, fun id h => ?_, fun id sub base h => sound.reporters _ _ _ (old h)⟩
    obtain ⟨sub, base, h⟩ := Judge.enqueued_iff.mp h
    exact sound.ids id (Judge.enqueued_iff.mpr ⟨sub, base, old h⟩)
  | @push id sub u here pushed =>
    obtain ⟨held, refined⟩ := sound.refined
    have step := Judge.step_cases pushed
    obtain ⟨held', after⟩ := refined.step (sound.fresh fits) step
    refine ⟨⟨held', after⟩, fun k h => ?_, fun k sub' base h => ?_⟩
    · obtain ⟨sub', base, h⟩ := Judge.enqueued_iff.mp h
      rcases Judge.step_enqueues step h with old | ⟨_, _, same, rfl⟩
      · have small := sound.ids k (Judge.enqueued_iff.mpr ⟨sub', base, old⟩)
        simp only [Nat.cast_add, Nat.cast_one]
        omega
      · cases same
        exact (after.sound k _ _ h).2.symm.le
    · rcases Judge.step_enqueues step h with old | ⟨_, _, same, rfl⟩
      · exact sound.reporters _ _ _ old
      · cases same
        rfl
  | _ => exact kept rfl rfl

/-! ## The size -/

/-- A submission that leaves the list tells the reporter how long the list was. -/
theorem work_size {l : Judge.Label} {u : Judge.State} (sound : Sound cfg s) (quiet : l.isPush = false)
    (worked : (Judge.judge cfg.judge).step s.judge l = some u) :
    (u.queueSize = s.judge.queueSize ∧
      fetchesOf cfg.kMaxQueue (u.log.drop s.judge.log.length) = 0) ∨
    (s.judge.queueSize = u.queueSize + 1 ∧
      fetchesOf cfg.kMaxQueue (u.log.drop s.judge.log.length) =
        if s.judge.queueSize = cfg.kMaxQueue then 1 else 0) := by
  obtain ⟨held, refined⟩ := sound.refined
  cases Judge.step_size refined (Judge.step_cases worked) quiet with
  | kept log told size =>
    rw [log, List.drop_left, fetchesOf, told]
    exact .inl ⟨size, rfl⟩
  | popped log enq told size =>
    rw [log, List.drop_left, fetchesOf, told, sound.reporters _ _ _ enq]
    refine .inr ⟨size, ?_⟩
    simp [serverReporter, List.count_singleton]

theorem Sound.push_size {id : Int} {sub : Judge.Submission} {u : Judge.State} (sound : Sound cfg s)
    (fits : s.submissionInternalIdSeq + 1 < 2 ^ 31)
    (pushed : (Judge.judge cfg.judge).step s.judge (.push (s.received id sub) 0) = some u) :
    u.queueSize = s.judge.queueSize + 1 := by
  obtain ⟨held, refined⟩ := sound.refined
  obtain ⟨range, fresh⟩ : Judge.freshId s.judge (.push (s.received id sub) 0) := sound.fresh fits
  refine Judge.push_size (fun listed => ?_) pushed
  rw [range] at listed
  exact fresh (refined.known.list _ (AList.lookup_isSome.mpr listed))

/-- There are never more submissions than slots, and a receive that has not pushed has one. -/
structure Slots (cfg : Config) (s : State) : Prop where
  bound : s.judge.queueSize ≤ cfg.kMaxQueue
  room : s.receiver.entering = true → s.judge.queueSize < cfg.kMaxQueue

theorem Slots.init : Slots cfg .init := ⟨Nat.zero_le _, nofun⟩

theorem Slots.step (slots : Slots cfg s) (h : Step cfg s l t) : Slots cfg t := by
  have room {p : Phase} (here : s.receiver = p) (enters : p.entering = true) :
      s.judge.queueSize < cfg.kMaxQueue := slots.room (here ▸ enters)
  cases h with
  | work quiet worked =>
    have fewer := Judge.step_size_le (Judge.step_cases worked) quiet
    refine ⟨?_, fun enters => ?_⟩
    · have bound := slots.bound
      dsimp only
      omega
    · have free := slots.room enters
      dsimp only
      omega
  | fetch | rejected | readQueue | readVariable => exact ⟨slots.bound, slots.room⟩
  | accepted _ free => exact ⟨slots.bound, fun _ => free⟩
  | announce here | asks here | full here | asked here =>
    exact ⟨slots.bound, fun _ => room here rfl⟩
  | push here pushed =>
    have more := Judge.push_size_le (Judge.step_cases pushed)
    have free := room here rfl
    exact ⟨by dsimp only; omega, nofun⟩
  | fail here => exact ⟨slots.bound, nofun⟩
  | gaveUp here | done here | failed here => exact ⟨slots.bound, nofun⟩

end TiojJudge.Receiver
