import TiojJudge.Receiver.Model

/-!
# What a report has

`GetReceivedSubmissionID` reads the queue and then `receiving_submission_id`,
while a submission goes from the variable to the queue.

* `State.live`: what is being dealt with, or in flight and not cancelled;
* `Call`: notes on the states between the two reads;
* `Report.Right`: what was live throughout is reported, and nothing else that never was;
* `Report.Clear`: no receive left the variable between the reads when it mattered,
  none had failed and was still in it, and it was set once;
* `reports_right`: these say the same of every report.
-/

namespace TiojJudge.Receiver
open Machine

/-- The id that `receiving_submission_id` is set for and that has not failed. -/
def Phase.underway : Phase → Option Int
  | .announced id | .fetching id | .dealing id | .dealt id true => some id
  | .idle | .accepted _ | .dealt _ false | .failed _ => none

/-- The id that it is still set for after the failure. -/
def Phase.lapsed : Phase → Option Int
  | .dealt id false => some id
  | _ => none

/-- The ids that are being dealt with, or in flight and not cancelled. -/
def State.live (s : State) : List Int :=
  s.judge.queuedSubmissionId ++ s.receiver.underway.toList

/-- The states since the first read of a report. -/
structure Call where
  /-- What the first read saw. -/
  queued : List Int
  /-- What was live in all of the states. -/
  always : List Int
  /-- What was live in one of them. -/
  ever : List Int
  /-- The id of a receive that was under way at the first read, and still is. -/
  begun : Option Int
  /-- Those that have been reset meanwhile, without a failure, and are live since. -/
  missed : List Int
  /-- The id of a receive that had failed before the first read, and is not reset. -/
  lapsed : Option Int
  deriving DecidableEq

def Call.first (s : State) : Call where
  queued := s.judge.queuedSubmissionId
  always := s.live
  ever := s.live
  begun := s.receiver.underway
  missed := []
  lapsed := s.receiver.lapsed

def Call.see (c : Call) (t : State) : Call :=
  { c with
    always := c.always.filter (· ∈ t.live)
    ever := c.ever ++ t.live
    missed := c.missed.filter (· ∈ t.live) }

def Call.next (c : Call) (t : State) : Label → Call
  | .fail => { c with begun := none }.see t
  | .reset => { c with begun := none, missed := c.begun.toList ++ c.missed, lapsed := none }.see t
  | _ => c.see t

structure Report where
  call : Call
  ids : List Int
  receiving : Int
  /-- `receiving_submission_id` was written before. -/
  written : Bool
  deriving DecidableEq

structure Readings where
  written : Bool
  call : Option Call
  reports : List Report

def Readings.none : Readings := ⟨false, .none, []⟩

/-- The report that the second read completes. -/
def Readings.report (n : Readings) (s : State) : List Report :=
  (s.ret.bind fun ret => n.call.map fun c =>
    ⟨c, s.receivedSubmissionId ret, s.receivingSubmissionId, n.written⟩).toList

def Readings.note (n : Readings) (s : State) (l : Label) (t : State) : Readings :=
  match l with
  | .readQueue => { n with call := some (.first t) }
  | .readVariable => { n with call := .none, reports := n.reports ++ n.report s }
  | .announce => { n with written := true, call := n.call.map fun c => c.next t l }
  | _ => { n with call := n.call.map fun c => c.next t l }

/-- The receiver with these notes. -/
abbrev read (cfg : Config) : Machine (State × Readings) Label := (receiver cfg).noted .none .note

def Report.Right (r : Report) : Prop :=
  (∀ x ∈ r.call.always, x ∈ r.ids) ∧ ∀ x ∈ r.ids, x ∈ r.call.ever

structure Report.Clear (r : Report) : Prop where
  written : r.written = true
  lapsed : ∀ x ∈ r.call.lapsed, x ∈ r.call.queued
  missed : ∀ x ∈ r.call.missed, x ∈ r.call.queued ∨ x = r.receiving

/-- No frame has the id that stands for none. -/
def named (_ : State) : Label → Prop
  | .lock id => id ≠ -1
  | _ => True

instance (s : State) : DecidablePred (named s)
  | .lock _ | .work _ | .fetch | .announce | .test | .tryFetch | .push _ | .fail | .reset
  | .readQueue | .readVariable => by
    unfold named
    infer_instance

/-! ## The variable -/

def Phase.id : Phase → Option Int
  | .idle => none
  | .accepted id | .announced id | .fetching id | .dealing id | .dealt id _ | .failed id => some id

/-- The variable is that of the receive, `-1` between two and zero before the first. -/
structure Marked (s : State) (written : Bool) : Prop where
  unset : written = false → s.receivingSubmissionId = 0 ∧ s.judge.queuedSubmissionId = [] ∧
    s.receiver.underway = none ∧ s.receiver.lapsed = none
  set : written = true →
    s.receivingSubmissionId = (s.receiver.underway.or s.receiver.lapsed).getD (-1)
  named : ∀ x ∈ s.receiver.id, x ≠ -1

/-- A step that leaves the receive and the variable, and adds nothing to the queue. -/
structure Still (s t : State) : Prop where
  underway : t.receiver.underway = s.receiver.underway
  lapsed : t.receiver.lapsed = s.receiver.lapsed
  pushed : t.receiver.pushed = s.receiver.pushed
  ids : ∀ x ∈ t.receiver.id, x ∈ s.receiver.id ∨ x ≠ -1
  receiving : t.receivingSubmissionId = s.receivingSubmissionId
  queue : t.judge.queuedSubmissionId ⊆ s.judge.queuedSubmissionId

/-- What a step is for the reports. -/
inductive Change (s : State) : Label → State → Prop where
  | still {l t} : Still s t → (∀ c : Call, c.next t l = c.see t) →
      (∀ n : Readings, (n.note s l t).written = n.written) → Change s l t
  | announce {id t} : s.receiver = .accepted id → t.receiver = .announced id →
      t.receivingSubmissionId = id → t.judge = s.judge → Change s .announce t
  | push {id sub t} : s.receiver = .dealing id → t.receiver = .dealt id true →
      t.receivingSubmissionId = s.receivingSubmissionId →
      t.judge.queuedSubmissionId ⊆ id :: s.judge.queuedSubmissionId → Change s (.push sub) t
  | fail {id t} : s.receiver = .dealing id → t.receiver = .dealt id false →
      t.receivingSubmissionId = s.receivingSubmissionId → t.judge = s.judge → Change s .fail t
  | reset {id result t} : s.receiver = .dealt id result →
      t.receiver = (if result then .idle else .failed id) →
      t.receivingSubmissionId = -1 → t.judge = s.judge → Change s .reset t

variable {cfg : Config} {s t : State} {c : Call} {n : Readings} {written : Bool}
  {l : Label}

/-- A step that adds nothing to the queue keeps no more live than was. -/
theorem Still.live (h : Still s t) : t.live ⊆ s.live := by
  intro x hx
  rw [State.live, List.mem_append] at hx ⊢
  rw [h.underway] at hx
  exact hx.imp_left fun queued => h.queue queued

theorem change (h : Step cfg s l t) (frame : named s l) : Change s l t := by
  have same (x : Int) (hx : x ∈ s.receiver.id) : x ∈ s.receiver.id ∨ x ≠ -1 := .inl hx
  have queue : s.judge.queuedSubmissionId ⊆ s.judge.queuedSubmissionId := List.Subset.refl _
  cases h with
  | work quiet worked =>
    have queue := Judge.step_queued (Judge.step_cases worked) quiet
    exact .still ⟨rfl, rfl, rfl, same, rfl, queue⟩ (fun _ => rfl) fun _ => rfl
  | fetch | rejected | readQueue | readVariable =>
    exact .still ⟨rfl, rfl, rfl, same, rfl, queue⟩ (fun _ => rfl) fun _ => rfl
  | accepted here =>
    refine .still ⟨by rw [here]; rfl, by rw [here]; rfl, by rw [here]; rfl, ?_, rfl, queue⟩ (fun _ => rfl) fun _ => rfl
    intro x hx
    cases hx
    exact .inr frame
  | asks here | full here | asked here =>
    refine .still ⟨by rw [here]; rfl, by rw [here]; rfl, by rw [here]; rfl, ?_, rfl, queue⟩ (fun _ => rfl) fun _ => rfl
    rw [here]
    exact fun x hx => .inl hx
  | gaveUp here =>
    refine .still ⟨by rw [here]; rfl, by rw [here]; rfl, by rw [here]; rfl, ?_, rfl, queue⟩ (fun _ => rfl) fun _ => rfl
    intro x hx
    cases hx
  | announce here => exact .announce here rfl rfl rfl
  | push here pushed => exact .push here rfl rfl (Judge.step_push_queued (Judge.step_cases pushed))
  | fail here => exact .fail here rfl rfl rfl
  | done here | failed here => exact .reset here rfl rfl rfl

theorem Phase.named_underway {p : Phase} {x : Int} (h : x ∈ p.underway) : x ∈ p.id := by
  cases p with
  | dealt id result =>
    cases result with
    | true => exact h
    | false => cases h
  | idle | accepted id | failed id => cases h
  | announced id | fetching id | dealing id => exact h

theorem Phase.named_lapsed {p : Phase} {x : Int} (h : x ∈ p.lapsed) : x ∈ p.id := by
  cases p with
  | dealt id result =>
    cases result with
    | true => cases h
    | false => exact h
  | _ => cases h

/-- A receive that has failed is not under way. -/
theorem Phase.not_underway {p : Phase} {x : Int} (h : x ∈ p.lapsed) : p.underway = none := by
  cases p with
  | dealt id result =>
    cases result with
    | true => cases h
    | false => rfl
  | _ => cases h

/-- The variable of a receive that is under way, or failed. -/
theorem Marked.value {x : Int} (m : Marked s written)
    (h : x ∈ s.receiver.underway ∨ x ∈ s.receiver.lapsed) :
    written = true ∧ s.receivingSubmissionId = x ∧ x ≠ -1 := by
  have set : written = true := by
    by_contra unset
    obtain ⟨_, _, underway, lapsed⟩ := m.unset (Bool.not_eq_true _ ▸ unset)
    rw [underway, lapsed] at h
    rcases h with h | h <;> cases h
  refine ⟨set, ?_⟩
  rw [m.set set]
  rcases h with h | h
  · exact ⟨by rw [h]; rfl, m.named x (Phase.named_underway h)⟩
  · exact ⟨by rw [Phase.not_underway h, h]; rfl, m.named x (Phase.named_lapsed h)⟩

theorem Marked.step (m : Marked s n.written) (h : Change s l t) :
    Marked t (n.note s l t).written := by
  cases h with
  | still same _ kept =>
    rw [kept]
    refine ⟨fun unset => ?_, fun set => ?_, fun x hx => ?_⟩
    · obtain ⟨zero, empty, none⟩ := m.unset unset
      rw [same.receiving, same.underway, same.lapsed]
      exact ⟨zero, List.eq_nil_of_subset_nil (empty ▸ same.queue), none⟩
    · rw [same.receiving, same.underway, same.lapsed]
      exact m.set set
    · exact (same.ids x hx).elim (m.named x) id
  | announce here there receiving =>
    refine ⟨nofun, fun _ => ?_, fun x hx => ?_⟩
    · rw [there, receiving]
      rfl
    · rw [there] at hx
      exact m.named x (by rw [here]; exact hx)
  | @push id _ _ here there receiving =>
    obtain ⟨set, value, other⟩ := m.value (.inl (by rw [here]; rfl) : id ∈ _ ∨ id ∈ _)
    refine ⟨fun unset => ?_, fun _ => ?_, fun x hx => ?_⟩
    · cases set.symm.trans unset
    · rw [there, receiving, value]
      rfl
    · rw [there] at hx
      cases hx
      exact other
  | @fail id _ here there receiving =>
    obtain ⟨set, value, other⟩ := m.value (.inl (by rw [here]; rfl) : id ∈ _ ∨ id ∈ _)
    refine ⟨fun unset => ?_, fun _ => ?_, fun x hx => ?_⟩
    · cases set.symm.trans unset
    · rw [there, receiving, value]
      rfl
    · rw [there] at hx
      cases hx
      exact other
  | @reset id result _ here there receiving =>
    have marked : id ∈ s.receiver.underway ∨ id ∈ s.receiver.lapsed := by
      rw [here]
      cases result with
      | true => exact .inl rfl
      | false => exact .inr rfl
    refine ⟨fun unset => ?_, fun _ => ?_, fun x hx => ?_⟩
    · cases (m.value marked).1.symm.trans unset
    · rw [receiving, there]
      cases result <;> rfl
    · rw [there] at hx
      cases result with
      | true => cases hx
      | false =>
        cases hx
        exact (m.value marked).2.2

/-! ## The call -/

/-- What is noted of a call, between the two reads. -/
structure Watched (s : State) (written : Bool) (c : Call) : Prop where
  alive : ∀ x ∈ c.always, x ∈ s.live
  held : ∀ x ∈ c.always, x ∈ c.queued ∨ x ∈ c.begun ∨ x ∈ c.missed
  begun : ∀ x ∈ c.begun, x ∈ s.receiver.underway ∧ x ∈ c.always ∧
    (s.receiver.pushed = false → s.judge.queuedSubmissionId ⊆ c.queued)
  missed : ∀ x ∈ c.missed, x ∈ c.always ∧ x ≠ -1
  lapsed : ∀ x ∈ c.lapsed, x ∈ s.receiver.lapsed ∧ s.judge.queuedSubmissionId ⊆ c.queued ∧
    c.ever ⊆ c.queued
  failed : ∀ x ∈ s.receiver.lapsed, x ∈ c.ever ∨ x ∈ c.lapsed
  seen : s.live ⊆ c.ever
  queued : c.queued ⊆ c.ever
  unset : written = false → c.ever = []

theorem mem_live {x : Int} : x ∈ s.live ↔ x ∈ s.judge.queuedSubmissionId ∨ x ∈ s.receiver.underway := by
  simp [State.live]

/-- The notes on the state after a step, when the rest of the notes is right. -/
theorem Watched.see (m : Marked t written)
    (held : ∀ x ∈ c.always, x ∈ t.live → x ∈ c.queued ∨ x ∈ c.begun ∨ x ∈ c.missed)
    (begun : ∀ x ∈ c.begun, x ∈ t.receiver.underway ∧ x ∈ c.always ∧
      (t.receiver.pushed = false → t.judge.queuedSubmissionId ⊆ c.queued))
    (missed : ∀ x ∈ c.missed, x ∈ c.always ∧ x ≠ -1)
    (lapsed : ∀ x ∈ c.lapsed, x ∈ t.receiver.lapsed ∧ t.judge.queuedSubmissionId ⊆ c.queued ∧
      c.ever ⊆ c.queued)
    (failed : ∀ x ∈ t.receiver.lapsed, x ∈ c.ever ∨ x ∈ c.lapsed)
    (queued : c.queued ⊆ c.ever) (unset : written = false → c.ever = []) :
    Watched t written (c.see t) where
  alive := fun x hx => by simpa using (List.mem_filter.mp hx).2
  held := by
    intro x hx
    obtain ⟨always, live⟩ := List.mem_filter.mp hx
    refine (held x always (by simpa using live)).imp_right fun h => h.imp_right fun h => ?_
    exact List.mem_filter.mpr ⟨h, live⟩
  begun := by
    intro x hx
    obtain ⟨underway, always, rest⟩ := begun x hx
    exact ⟨underway, List.mem_filter.mpr ⟨always, by simpa using mem_live.mpr (.inr underway)⟩, rest⟩
  missed := by
    intro x hx
    obtain ⟨hx, live⟩ := List.mem_filter.mp hx
    obtain ⟨always, other⟩ := missed x hx
    exact ⟨List.mem_filter.mpr ⟨always, live⟩, other⟩
  lapsed := by
    intro x hx
    obtain ⟨here, queue, ever⟩ := lapsed x hx
    refine ⟨here, queue, ?_⟩
    have live : t.live = t.judge.queuedSubmissionId := by
      rw [State.live, Phase.not_underway here, Option.toList_none, List.append_nil]
    exact List.append_subset.mpr ⟨ever, live ▸ queue⟩
  failed := fun x hx => (failed x hx).imp_left (List.mem_append_left _)
  seen := List.subset_append_right _ _
  queued := fun x hx => List.mem_append_left _ (queued hx)
  unset := by
    intro off
    obtain ⟨_, queue, underway, _⟩ := m.unset off
    show c.ever ++ t.live = []
    rw [unset off, State.live, queue, underway]
    rfl

theorem Watched.step (w : Watched s n.written c) (m : Marked s n.written) (h : Change s l t) :
    Watched t (n.note s l t).written (c.next t l) := by
  have marked := m.step h
  cases h with
  | still same next kept =>
    rw [next, kept] at *
    refine .see marked (fun x always _ => w.held x always) (fun x hx => ?_) w.missed (fun x hx => ?_)
      ?_ w.queued w.unset
    · obtain ⟨underway, always, queue⟩ := w.begun x hx
      rw [same.underway, same.pushed]
      exact ⟨underway, always, fun h => List.Subset.trans same.queue (queue h)⟩
    · obtain ⟨here, queue, ever⟩ := w.lapsed x hx
      rw [same.lapsed]
      exact ⟨here, List.Subset.trans same.queue queue, ever⟩
    · rw [same.lapsed]
      exact w.failed
  | announce here there =>
    -- no receive was under way, so none is noted
    have none : s.receiver.underway = none ∧ s.receiver.lapsed = none := by
      rw [here]
      exact ⟨rfl, rfl⟩
    refine .see marked (fun x always _ => w.held x always) (fun x hx => ?_) w.missed (fun x hx => ?_)
      (fun x hx => ?_) w.queued nofun
    · have underway := (w.begun x hx).1
      rw [none.1] at underway
      cases underway
    · have lapsed := (w.lapsed x hx).1
      rw [none.2] at lapsed
      cases lapsed
    · rw [there] at hx
      cases hx
  | push here there =>
    refine .see marked (fun x always _ => w.held x always) (fun x hx => ?_) w.missed (fun x hx => ?_)
      (fun x hx => ?_) w.queued w.unset
    · obtain ⟨underway, always, _⟩ := w.begun x hx
      rw [here] at underway
      rw [there]
      exact ⟨underway, always, nofun⟩
    · have lapsed := (w.lapsed x hx).1
      rw [here] at lapsed
      cases lapsed
    · rw [there] at hx
      cases hx
  | @fail id _ here there _ judge =>
    have queue : t.live = s.judge.queuedSubmissionId := by
      rw [State.live, there, judge]
      exact List.append_nil _
    refine .see marked (fun x always live => ?_) nofun w.missed (fun x hx => ?_) (fun x hx => ?_)
      w.queued w.unset
    · rcases w.held x always with queued | begun | missed
      · exact .inl queued
      · -- it is queued in its own right, and was so at the first read
        have unpushed : s.receiver.pushed = false := by
          rw [here]
          rfl
        rw [queue] at live
        exact .inl ((w.begun x begun).2.2 unpushed live)
      · exact .inr (.inr missed)
    · have lapsed := (w.lapsed x hx).1
      rw [here] at lapsed
      cases lapsed
    · rw [there] at hx
      cases hx
      refine .inl (w.seen (mem_live.mpr (.inr ?_)))
      rw [here]
      rfl
  | @reset _ result _ here there =>
    refine .see marked (fun x always _ => ?_) nofun (fun x hx => ?_) nofun (fun x hx => ?_)
      w.queued w.unset
    · rcases w.held x always with queued | begun | missed
      · exact .inl queued
      · exact .inr (.inr (List.mem_append_left _ (Option.mem_toList.mpr begun)))
      · exact .inr (.inr (List.mem_append_right _ missed))
    · rcases List.mem_append.mp hx with begun | missed
      · obtain ⟨underway, always, _⟩ := w.begun x (Option.mem_toList.mp begun)
        exact ⟨always, (m.value (.inl underway)).2.2⟩
      · exact w.missed x missed
    · rw [there] at hx
      cases result <;> cases hx

theorem Watched.first (m : Marked s written) : Watched s written (.first s) where
  alive := fun _ hx => hx
  held := fun x hx => (mem_live.mp hx).imp_right .inl
  begun := fun x hx => ⟨hx, mem_live.mpr (.inr hx), fun _ => List.Subset.refl _⟩
  missed := nofun
  lapsed := by
    intro x hx
    refine ⟨hx, List.Subset.refl _, fun y hy => (mem_live.mp hy).resolve_right fun underway => ?_⟩
    rw [Phase.not_underway hx] at underway
    cases underway
  failed := fun x hx => .inr hx
  seen := List.Subset.refl _
  queued := fun x hx => mem_live.mpr (.inl hx)
  unset := by
    intro off
    obtain ⟨_, queue, underway, _⟩ := m.unset off
    show s.live = []
    rw [State.live, queue, underway]
    rfl

theorem mem_receivedSubmissionId {x : Int} {ret : List Int} : x ∈ s.receivedSubmissionId ret ↔
    x ∈ ret ∨ x = s.receivingSubmissionId ∧ x ≠ -1 := by
  unfold State.receivedSubmissionId
  split
  · rename_i none
    refine ⟨.inl, fun h => h.resolve_right ?_⟩
    rintro ⟨rfl, other⟩
    exact other none
  · rename_i some
    rw [List.mem_append, List.mem_singleton]
    exact or_congr_right ⟨fun h => ⟨h, h ▸ some⟩, And.left⟩

/-- The report that the second read completes. -/
theorem Watched.right_iff (w : Watched s written c) (m : Marked s written) :
    let r : Report := ⟨c, s.receivedSubmissionId c.queued, s.receivingSubmissionId, written⟩
    r.Right ↔ r.Clear := by
  simp only [Report.Right, mem_receivedSubmissionId]
  constructor
  · rintro ⟨complete, sound⟩
    have set : written = true := by
      by_contra off
      rw [Bool.not_eq_true] at off
      obtain ⟨zero, _⟩ := m.unset off
      have reported := sound s.receivingSubmissionId (.inr ⟨rfl, by rw [zero]; decide⟩)
      rw [w.unset off] at reported
      cases reported
    refine ⟨set, fun x hx => ?_, fun x hx => ?_⟩
    · obtain ⟨lapsed, _, ever⟩ := w.lapsed x hx
      obtain ⟨_, value, other⟩ := m.value (.inr lapsed)
      exact ever (sound x (.inr ⟨value.symm, other⟩))
    · exact (complete x (w.missed x hx).1).imp_right And.left
  · rintro ⟨set, lapsed, missed⟩
    refine ⟨fun x always => ?_, fun x hx => ?_⟩
    · rcases w.held x always with queued | begun | hx
      · exact .inl queued
      · obtain ⟨_, value, other⟩ := m.value (.inl (w.begun x begun).1)
        exact .inr ⟨value.symm, other⟩
      · exact (missed x hx).imp_right fun same => ⟨same, (w.missed x hx).2⟩
    · rcases hx with queued | ⟨rfl, other⟩
      · exact w.queued queued
      · have value := m.set set
        cases underway : s.receiver.underway with
        | some y =>
          obtain ⟨_, same, _⟩ := m.value (.inl underway)
          rw [same]
          exact w.seen (mem_live.mpr (.inr underway))
        | none =>
          cases failed : s.receiver.lapsed with
          | some y =>
            obtain ⟨_, same, _⟩ := m.value (.inr failed)
            rw [same]
            exact (w.failed y failed).elim id fun h => w.queued (lapsed y h)
          | none =>
            rw [underway, failed] at value
            exact absurd value other

/-! ## Every run -/

structure Kept (s : State) (n : Readings) : Prop where
  marked : Marked s n.written
  ret : s.ret = n.call.map Call.queued
  watched : ∀ c ∈ n.call, Watched s n.written c
  reports : ∀ r ∈ n.reports, r.Right ↔ r.Clear

theorem Kept.init : Kept .init .none where
  marked := ⟨fun _ => ⟨rfl, rfl, rfl, rfl⟩, nofun, nofun⟩
  ret := rfl
  watched := nofun
  reports := nofun

@[simp] theorem next_queued (c : Call) (t : State) (l : Label) : (c.next t l).queued = c.queued := by
  cases l <;> rfl

theorem Kept.step (k : Kept s n) (h : Step cfg s l t) (frame : named s l) : Kept t (n.note s l t) := by
  have changed := change h frame
  have marked := k.marked.step changed
  -- a step of no reader
  have other (ret : t.ret = s.ret) (call : (n.note s l t).call = n.call.map fun c => c.next t l)
      (reports : (n.note s l t).reports = n.reports) : Kept t (n.note s l t) := by
    refine ⟨marked, ?_, ?_, reports ▸ k.reports⟩
    · rw [ret, call, k.ret, Option.map_map]
      simp [Function.comp_def]
    · rw [call]
      intro c hc
      obtain ⟨c, here, rfl⟩ := Option.map_eq_some_iff.mp hc
      exact (k.watched c here).step k.marked changed
  cases h with
  | readQueue =>
    refine ⟨marked, rfl, fun c hc => ?_, k.reports⟩
    cases hc
    exact .first marked
  | @readVariable ret here =>
    refine ⟨marked, rfl, nofun, fun r hr => ?_⟩
    rcases List.mem_append.mp hr with old | new
    · exact k.reports r old
    · cases call : n.call with
      | none => simp [Readings.report, call] at new
      | some c =>
        obtain rfl : ret = c.queued := by simpa [here, call] using k.ret
        obtain rfl : r = ⟨c, s.receivedSubmissionId c.queued, s.receivingSubmissionId, n.written⟩ := by
          simpa [Readings.report, here, call] using new
        exact (k.watched c call).right_iff k.marked
  | _ => exact other rfl rfl rfl

/-- A report is right exactly when it is clear. -/
theorem reports_right (h : (read cfg).Reach (fun p l => named p.1 l) (s, n)) :
    ∀ r ∈ n.reports, r.Right ↔ r.Clear := by
  have kept : Kept s n := by
    apply h.noted_invariant .init
    intro a m l b kept frame step
    exact kept.step (step_cases step) frame
  exact kept.reports

/-- A report while a submission is pushed, and not yet taken out of the variable. -/
def pushedRun : List Label :=
  [.lock 7, .announce, .test, .readQueue, samplePush, .readVariable, .reset]

theorem reports_right_pushed :
    ∃ s n, (read (sampleConfig 1)).exec (fun p l => named p.1 l)
        (.init, .none) pushedRun = some (s, n) ∧
      ∃ r ∈ n.reports, r.ids = [7] ∧ r.Right := by
  have run : ((read (sampleConfig 1)).exec (fun p l => named p.1 l)
      (.init, .none) pushedRun).map (fun p => p.2.reports) =
      some [⟨⟨[], [7], [7, 7, 7], some 7, [], none⟩, [7], 7, true⟩] := by decide +kernel
  obtain ⟨⟨s, n⟩, hs, reports⟩ := Option.map_eq_some_iff.mp run
  refine ⟨s, n, hs, _, by rw [reports]; exact List.mem_cons_self, rfl, ?_⟩
  apply (reports_right (reach_exec hs) _ (by rw [reports]; exact List.mem_cons_self)).mpr
  exact ⟨rfl, nofun, nofun⟩

/-- Before the first receive, the variable is zero. -/
def unsetRun : List Label := [.readQueue, .readVariable]

/-- The submission is pushed after the first read, and out of the variable before the second. -/
def missedRun : List Label :=
  [.lock 7, .announce, .test, .readQueue, samplePush, .reset, .readVariable]

/-- The receive has failed, and its id is still in the variable. -/
def failedRun : List Label := [.lock 7, .announce, .test, .fail, .readQueue, .readVariable]

instance : DecidablePred Report.Right := fun r => by
  unfold Report.Right
  infer_instance

/-- The run has a report that is not right. -/
def ReportsWrong (ls : List Label) : Prop :=
  ∃ s n, (read (sampleConfig 1)).exec (fun p l => named p.1 l) (.init, .none) ls = some (s, n) ∧
    ∃ r ∈ n.reports, ¬ r.Right

theorem reportsWrong_of_run {ls : List Label}
    (run : ((read (sampleConfig 1)).exec (fun p l => named p.1 l) (.init, .none) ls).map
      (fun p => decide (∃ r ∈ p.2.reports, ¬ r.Right)) = some true) : ReportsWrong ls := by
  obtain ⟨⟨s, n⟩, hs, wrong⟩ := Option.map_eq_some_iff.mp run
  exact ⟨s, n, hs, of_decide_eq_true wrong⟩

theorem reports_wrong : ReportsWrong unsetRun ∧ ReportsWrong missedRun ∧ ReportsWrong failedRun := by
  refine ⟨?_, ?_, ?_⟩
  · exact reportsWrong_of_run (by decide +kernel)
  · exact reportsWrong_of_run (by decide +kernel)
  · exact reportsWrong_of_run (by decide +kernel)

end TiojJudge.Receiver
