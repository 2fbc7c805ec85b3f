import TiojJudge.Receiver.Slots

/-!
# Free slots are asked for

A receive asks for the next submission when a slot is left, and `ReportFinalized`
when the queue was full. Between the second test of a receive and its push, the
end of a submission frees a slot that neither asks for.

* `Asking`: notes on the last receive, of what it found and of what happened meanwhile;
* `Served`: a free slot has been asked for;
* `timely`: no receive ends in which a submission ended early, but for those that had room at
  their second test, or during which a request came from elsewhere;
* `slots_served`, `served_iff`: then, and only then, free slots are asked for.
-/

namespace TiojJudge.Receiver
open Machine

def Phase.deals : Phase → Bool
  | .dealing _ => true
  | _ => false

def Label.resets : Label → Bool
  | .reset => true
  | _ => false

structure Asking where
  /-- How many requests there were when the last receive began. -/
  began : Nat
  /-- A receive has completed with `PushSubmission`. -/
  pushed : Bool
  /-- The second test of the receive found `CurrentSubmissionQueueSize() + 1 < kMaxQueue`. -/
  room : Bool
  /-- A submission ended between the second test of the receive and its push. -/
  early : Bool
  /-- Since the receive began, a connection was made, or a notification or a frame that is no
  submission came in. -/
  elsewhere : Bool

def Asking.none : Asking := ⟨0, false, false, false, false⟩

def Asking.note (cfg : Config) (n : Asking) (s : State) (l : Label) (t : State) : Asking :=
  match l with
  | .lock _ => { n with began := s.fetches, room := false, elsewhere := false }
  | .test => { n with room := decide (s.judge.queueSize + 1 < cfg.kMaxQueue), early := false }
  | .work _ =>
    { n with early := n.early || s.receiver.deals && decide (t.judge.queueSize < s.judge.queueSize) }
  | .fetch => { n with elsewhere := true }
  | .reset => { n with pushed := n.pushed || s.receiver.pushed }
  | _ => n

/-- The receiver with these notes. -/
abbrev asking (cfg : Config) : Machine (State × Asking) Label :=
  (receiver cfg).noted .none (Asking.note cfg)

def Served (cfg : Config) (s : State) (n : Asking) : Prop :=
  s.receiver = .idle → n.pushed = true → s.judge.queueSize < cfg.kMaxQueue → n.began < s.fetches

/-- Nothing ended early in the receive, or it had room for another, or a request came from
elsewhere. -/
def OnTime (n : Asking) : Prop := n.early = false ∨ n.room = true ∨ n.elsewhere = true

/-- Every receive that ends with a push is on time. -/
def timely (p : State × Asking) (l : Label) : Prop :=
  numbered p.1 l ∧ (l.resets = true → p.1.receiver.pushed = true → OnTime p.2)

instance (n : Asking) : Decidable (OnTime n) := inferInstanceAs (Decidable (_ ∨ _ ∨ _))

instance : DecidableRel timely := fun _ _ => inferInstanceAs (Decidable (_ ∧ _))

/-- Until somebody asks, the size after the second test shows whether a submission ended. -/
structure Balanced (cfg : Config) (s : State) (n : Asking) : Prop where
  began : n.began ≤ s.fetches
  dealing : s.receiver.deals = true → n.began = s.fetches →
    (n.early = true ↔ s.judge.queueSize + 1 < cfg.kMaxQueue)
  pushed : s.receiver.pushed = true → n.began = s.fetches →
    (n.early = true ↔ s.judge.queueSize < cfg.kMaxQueue)

/-- What a request since the receive began comes from: the receive itself, someone elsewhere, or
the end of a submission when the queue is full again. -/
def Phase.Causes (n : Asking) (asked : Prop) : Phase → Prop
  | .accepted _ | .announced _ => asked → n.elsewhere = true
  | .fetching _ => n.room = true
  | .dealing _ => asked ↔ n.room = true ∨ n.elsewhere = true
  | .dealt _ true => (n.room = true ∨ n.elsewhere = true → asked) ∧
      (asked → n.early = false ∨ n.room = true ∨ n.elsewhere = true)
  | .dealt _ false | .failed _ | .idle => True

structure Asked (s : State) (n : Asking) : Prop where
  elsewhere : n.elsewhere = true → n.began < s.fetches
  causes : s.receiver.Causes n (n.began < s.fetches)

variable {cfg : Config} {s t : State} {n : Asking} {l : Label}

theorem Phase.entering_of_deals {p : Phase} (h : p.deals = true) : p.entering = true := by
  cases p with
  | dealing => rfl
  | _ => cases h

theorem Phase.not_pushed {p : Phase} (h : p.deals = true) : p.pushed = false := by
  cases p with
  | dealing => rfl
  | _ => cases h

theorem Balanced.init : Balanced cfg .init .none := ⟨Nat.le_refl _, nofun, nofun⟩

/-- Where a step of the scheduler frees a slot, it asks when the queue was full. -/
theorem Balanced.work {l : Judge.Label} {u : Judge.State} (b : Balanced cfg s n)
    (slots : Slots cfg s) (sound : Sound cfg s) (quiet : l.isPush = false)
    (worked : (Judge.judge cfg.judge).step s.judge l = some u) :
    let t := { s with
      judge := u
      fetches := s.fetches + fetchesOf cfg.kMaxQueue (u.log.drop s.judge.log.length) }
    Balanced cfg t (n.note cfg s (.work l) t) := by
  have began := b.began
  have bound := slots.bound
  have sizes := work_size sound quiet worked
  refine ⟨by dsimp only [Asking.note]; omega, fun deals asked => ?_, fun pushed asked => ?_⟩
  · have before := b.dealing deals
    have room := slots.room (Phase.entering_of_deals deals)
    simp only [Asking.note] at asked
    rcases sizes with ⟨size, told⟩ | ⟨size, told⟩
    · simp only [Asking.note, size, Nat.lt_irrefl, decide_false, Bool.and_false, Bool.or_false]
      exact before (by omega)
    · have shorter : u.queueSize < s.judge.queueSize := by omega
      have free : u.queueSize + 1 < cfg.kMaxQueue := by omega
      have deals : s.receiver.deals = true := deals
      simp [Asking.note, deals, shorter, free]
  · have before := b.pushed pushed
    have notDealing : s.receiver.deals = false := by
      by_contra deals
      rw [Bool.not_eq_false] at deals
      cases pushed.symm.trans (Phase.not_pushed deals)
    simp only [Asking.note, notDealing, Bool.false_and, Bool.or_false] at asked ⊢
    rcases sizes with ⟨size, told⟩ | ⟨size, told⟩
    · rw [size]
      exact before (by omega)
    · have notFull : s.judge.queueSize ≠ cfg.kMaxQueue := by
        intro full
        rw [if_pos full] at told
        omega
      rw [if_neg notFull] at told
      rw [before (by omega)]
      omega

theorem Balanced.step (b : Balanced cfg s n) (slots : Slots cfg s) (sound : Sound cfg s)
    (fits : numbered s l) (h : Step cfg s l t) : Balanced cfg t (n.note cfg s l t) := by
  have began := b.began
  cases h with
  | work quiet worked => exact b.work slots sound quiet worked
  | fetch =>
    refine ⟨Nat.le_succ_of_le began, fun _ asked => ?_, fun _ asked => ?_⟩
    · simp only [Asking.note, State.tryFetchSubmission] at asked
      omega
    · simp only [Asking.note, State.tryFetchSubmission] at asked
      omega
  | rejected idle =>
    refine ⟨Nat.le_refl _, fun deals => ?_, fun pushed => ?_⟩
    · rw [idle] at deals
      cases deals
    · rw [idle] at pushed
      cases pushed
  | accepted => exact ⟨Nat.le_refl _, nofun, nofun⟩
  | announce | fail | done | failed => exact ⟨began, nofun, nofun⟩
  | asks => exact ⟨began, nofun, nofun⟩
  | full here last =>
    have room := slots.room (by rw [here]; rfl)
    refine ⟨began, fun _ _ => ?_, nofun⟩
    simp only [Asking.note, Bool.false_eq_true, false_iff]
    omega
  | asked =>
    refine ⟨Nat.le_succ_of_le began, fun _ asked => ?_, nofun⟩
    simp only [Asking.note, State.tryFetchSubmission] at asked
    omega
  | gaveUp => exact ⟨Nat.le_succ_of_le began, nofun, nofun⟩
  | push here pushed =>
    have more := sound.push_size fits pushed
    have before := b.dealing (by rw [here]; rfl)
    refine ⟨began, nofun, fun _ asked => ?_⟩
    show n.early = true ↔ _
    rw [before asked, more]
  | readQueue | readVariable => exact ⟨began, b.dealing, b.pushed⟩

theorem Asked.init : Asked .init .none := ⟨nofun, trivial⟩

/-- The end of a submission asks when the queue is full, and it is full during a receive only after
the push, when nothing ended early. -/
theorem Asked.work {l : Judge.Label} {u : Judge.State} (k : Asked s n) (b : Balanced cfg s n)
    (slots : Slots cfg s) (sound : Sound cfg s) (quiet : l.isPush = false)
    (worked : (Judge.judge cfg.judge).step s.judge l = some u) :
    let t := { s with
      judge := u
      fetches := s.fetches + fetchesOf cfg.kMaxQueue (u.log.drop s.judge.log.length) }
    Asked t (n.note cfg s (.work l) t) := by
  have began := b.began
  have causes := k.causes
  have sizes := work_size sound quiet worked
  set told := fetchesOf cfg.kMaxQueue (u.log.drop s.judge.log.length) with htold
  have unheard (enters : s.receiver.entering = true) : told = 0 := by
    have room := slots.room enters
    rcases sizes with ⟨_, none⟩ | ⟨_, last⟩
    · exact none
    · rwa [if_neg room.ne] at last
  refine ⟨fun elsewhere => ?_, ?_⟩
  · have before := k.elsewhere elsewhere
    simp only [Asking.note]
    omega
  · simp only [Asking.note]
    cases here : s.receiver with
    | idle | failed => trivial
    | accepted | announced | fetching | dealing =>
      rw [here] at causes
      rw [unheard (by rw [here]; rfl), Nat.add_zero]
      exact causes
    | dealt id result =>
      cases result with
      | false => trivial
      | true =>
        rw [here] at causes
        obtain ⟨asks, cause⟩ := causes
        refine ⟨fun why => Nat.lt_add_right _ (asks why), fun asked => ?_⟩
        show (n.early || false && _) = false ∨ _
        rw [Bool.false_and, Bool.or_false]
        by_cases before : n.began < s.fetches
        · exact cause before
        · have full : s.judge.queueSize = cfg.kMaxQueue := by
            rcases sizes with ⟨_, none⟩ | ⟨_, last⟩
            · omega
            · by_contra other
              rw [if_neg other] at last
              omega
          have early := b.pushed (by rw [here]; rfl) (by omega)
          left
          rw [← Bool.not_eq_true, early]
          omega

theorem Asked.step (k : Asked s n) (b : Balanced cfg s n) (slots : Slots cfg s)
    (sound : Sound cfg s) (h : Step cfg s l t) : Asked t (n.note cfg s l t) := by
  have asked : n.began < s.tryFetchSubmission.fetches := Nat.lt_succ_of_le b.began
  have causes := k.causes
  cases h with
  | work quiet worked => exact k.work b slots sound quiet worked
  | fetch =>
    refine ⟨fun _ => asked, ?_⟩
    show s.receiver.Causes _ (n.began < s.tryFetchSubmission.fetches)
    cases here : s.receiver with
    | accepted | announced => exact fun _ => rfl
    | fetching =>
      rw [here] at causes
      exact causes
    | dealing => exact ⟨fun _ => .inr rfl, fun _ => asked⟩
    | dealt id result =>
      cases result with
      | true => exact ⟨fun _ => asked, fun _ => .inr (.inr rfl)⟩
      | false => trivial
    | idle | failed => trivial
  | rejected idle =>
    refine ⟨nofun, ?_⟩
    rw [idle]
    trivial
  | accepted => exact ⟨nofun, fun again => absurd again (Nat.lt_irrefl _)⟩
  | announce here =>
    rw [here] at causes
    exact ⟨k.elsewhere, causes⟩
  | asks here room => exact ⟨k.elsewhere, decide_eq_true room⟩
  | full here last =>
    rw [here] at causes
    refine ⟨k.elsewhere, fun again => .inr (causes again), fun why => ?_⟩
    rcases why with room | elsewhere
    · have room : s.judge.queueSize + 1 < cfg.kMaxQueue := of_decide_eq_true room
      omega
    · exact k.elsewhere elsewhere
  | asked here =>
    rw [here] at causes
    exact ⟨fun _ => asked, fun _ => .inl causes, fun _ => asked⟩
  | gaveUp => exact ⟨fun _ => asked, trivial⟩
  | push here =>
    rw [here] at causes
    exact ⟨k.elsewhere, causes.mpr, fun again => .inr (causes.mp again)⟩
  | fail | done | failed => exact ⟨k.elsewhere, trivial⟩
  | readQueue | readVariable => exact ⟨k.elsewhere, causes⟩

/-- The invariants, in any run whose internal ids are numbered. -/
structure Accounted (cfg : Config) (s : State) (n : Asking) : Prop where
  sound : Sound cfg s
  slots : Slots cfg s
  balanced : Balanced cfg s n
  asked : Asked s n

theorem Accounted.init : Accounted cfg .init .none :=
  ⟨.init, .init, .init, .init⟩

theorem Accounted.step (k : Accounted cfg s n) (fits : numbered s l) (h : Step cfg s l t) :
    Accounted cfg t (n.note cfg s l t) :=
  ⟨k.sound.step fits h, k.slots.step h, k.balanced.step k.slots k.sound fits h,
    k.asked.step k.balanced k.slots k.sound h⟩

theorem accounted (h : (asking cfg).Reach (fun p l => numbered p.1 l) (s, n)) : Accounted cfg s n := by
  apply h.noted_invariant .init
  intro a m l b k fits step
  exact k.step fits (step_cases step)

/-- A receive that ends with a push leaves no free slot that is not asked for exactly when it
is on time. -/
theorem served_iff (k : Accounted cfg s n) (pushed : s.receiver.pushed = true)
    (h : (receiver cfg).step s .reset = some t) :
    Served cfg t (n.note cfg s .reset t) ↔ OnTime n := by
  have began := k.balanced.began
  have early := k.balanced.pushed pushed
  have causes := k.asked.causes
  cases step_cases h with
  | failed here =>
    rw [here] at pushed
    cases pushed
  | done here =>
    rw [here] at causes
    obtain ⟨asks, cause⟩ := causes
    simp only [Served, Asking.note, pushed, Bool.or_true, forall_const, OnTime]
    constructor
    · intro served
      by_cases asked : n.began < s.fetches
      · exact cause asked
      · left
        rw [← Bool.not_eq_true, early (by omega)]
        exact fun free => asked (served free)
    · rintro (punctual | why) free
      · by_contra idle
        rw [← Bool.not_eq_true, early (by omega)] at punctual
        exact punctual free
      · exact asks why

theorem Served.step (served : Served cfg s n) (k : Accounted cfg s n) (ok : timely (s, n) l)
    (h : (receiver cfg).step s l = some t) : Served cfg t (n.note cfg s l t) := by
  have began := k.balanced.began
  have bound := k.slots.bound
  have changed := step_cases h
  cases changed with
  | work quiet worked =>
    intro idle pushed free
    have sizes := work_size k.sound quiet worked
    have before := served idle pushed
    simp only [Asking.note] at free ⊢
    rcases sizes with ⟨size, told⟩ | ⟨size, told⟩
    · have asked := before (by omega)
      omega
    · by_cases full : s.judge.queueSize = cfg.kMaxQueue
      · rw [if_pos full] at told
        omega
      · have asked := before (by omega)
        omega
  | fetch =>
    intro _ _ _
    simp only [Asking.note, State.tryFetchSubmission]
    omega
  | rejected _ full =>
    intro _ _ free
    omega
  | gaveUp =>
    intro _ _ _
    simp only [Asking.note, State.tryFetchSubmission]
    omega
  | done here =>
    have pushed : s.receiver.pushed = true := by
      rw [here]
      rfl
    exact (served_iff k pushed h).mpr (ok.2 rfl pushed)
  | readQueue | readVariable => exact served
  | _ => exact nofun

/-- In a run whose receives are on time, a free slot has been asked for since the last one. -/
theorem slots_served (h : (asking cfg).Reach timely (s, n)) : Served cfg s n := by
  have both : Accounted cfg s n ∧ Served cfg s n := by
    apply h.noted_invariant ⟨.init, nofun⟩
    rintro a m l b ⟨k, served⟩ ok step
    exact ⟨k.step ok.1 (step_cases step), served.step k ok step⟩
  exact both.2

/-- The submission that was received first is judged to its end. -/
def finishFirst : List Label :=
  [.work .wake] ++ (Judge.runAlone 1 Judge.goodOutcome).map .work ++
    [.work (.dispatch 0 5 .empty), .work .exit]

theorem slots_served_full :
    ∃ s n, (asking (sampleConfig 1)).exec timely (.init, .none) (receive 7 ++ finishFirst) =
        some (s, n) ∧
      s.receiver = .idle ∧ s.judge.queueSize = 0 ∧ n.began < s.fetches := by
  have run : ((asking (sampleConfig 1)).exec timely (.init, .none) (receive 7 ++ finishFirst)).map
      (fun p => decide (p.1.receiver = .idle ∧ p.2.pushed = true ∧ p.1.judge.queueSize = 0)) =
      some true := by decide +kernel
  obtain ⟨⟨s, n⟩, hs, seen⟩ := Option.map_eq_some_iff.mp run
  obtain ⟨idle, pushed, empty⟩ := of_decide_eq_true seen
  have served : Served (sampleConfig 1) s n := slots_served (reach_exec hs)
  refine ⟨s, n, hs, idle, empty, served idle pushed ?_⟩
  rw [empty]
  decide

/-- With two slots: one submission ends while the other is downloaded. -/
def lateRun : List Label :=
  [.lock 7, .announce, .test, .tryFetch, samplePush, .reset, .lock 8, .announce, .test] ++
    finishFirst ++ [samplePush, .reset]

theorem slot_not_served :
    ∃ s n, (asking (sampleConfig 2)).exec (fun p l => numbered p.1 l) (.init, .none) lateRun =
        some (s, n) ∧
      s.receiver = .idle ∧ n.pushed = true ∧ s.judge.queueSize = 1 ∧ ¬ n.began < s.fetches ∧
      ¬ Served (sampleConfig 2) s n := by
  have run : ((asking (sampleConfig 2)).exec (fun p l => numbered p.1 l) (.init, .none) lateRun).map
      (fun p => decide (p.1.receiver = .idle ∧ p.2.pushed = true ∧ p.1.judge.queueSize = 1 ∧
        ¬ p.2.began < p.1.fetches)) = some true := by decide +kernel
  obtain ⟨⟨s, n⟩, hs, seen⟩ := Option.map_eq_some_iff.mp run
  obtain ⟨idle, pushed, one, unasked⟩ := of_decide_eq_true seen
  refine ⟨s, n, hs, idle, pushed, one, unasked, fun served => unasked (served idle pushed ?_)⟩
  rw [one]
  decide

end TiojJudge.Receiver
