import TiojJudge.Receiver.Slots

/-!
# Many receiving threads

Each frame with a submission starts a thread that runs `OneSubmissionThread`. The
threads wait for `judge_mtx`; the one that has it makes the accesses of `receiver`,
and gives the mutex back at the end.

* `threads`: the machine of all threads, beside the scheduler;
* `Exclusive`: what a thread that is past its lock shows about `judge_mtx`;
* `threads_refines`: the threads together do what one receiver at a time does;
* `queue_bounded`: the bound of the queue, and what a full queue does to a frame.
-/

namespace TiojJudge.Receiver
open Machine

inductive Place where
  /-- For `judge_mtx`. -/
  | waiting
  /-- Past the lock; `idle` is before the first test. -/
  | inside (phase : Phase)
  /-- Before `judge_mtx` is given back. -/
  | leaving
  | ended
  deriving DecidableEq

structure Thread where
  id : Int
  place : Place

structure Threads where
  judge : Judge.State
  receivingSubmissionId : Int
  submissionInternalIdSeq : Nat
  fetches : Nat
  ret : Option (List Int)
  judgeMtx : Option Nat
  /-- All threads that were started, in order. -/
  threads : List Thread

def Threads.init : Threads := ⟨.init, 0, 0, 0, none, none, []⟩

namespace Threads

/-- What the code of a thread in this phase works on. -/
def view (s : Threads) (phase : Phase) : State :=
  ⟨s.judge, s.receivingSubmissionId, s.submissionInternalIdSeq, s.fetches, phase, s.ret⟩

def put (s : Threads) (t : State) : Threads :=
  { s with
    judge := t.judge
    receivingSubmissionId := t.receivingSubmissionId
    submissionInternalIdSeq := t.submissionInternalIdSeq
    fetches := t.fetches
    ret := t.ret }

def moveTo (s : Threads) (k : Nat) (thread : Thread) (place : Place) : Threads :=
  { s with threads := s.threads.set k { thread with place := place } }

end Threads

/-- The access is one of `OneSubmissionThread`, for a frame with this submission id. -/
def Label.isAccess (id : Int) : Label → Bool
  | .lock id' => id' = id
  | .announce | .test | .tryFetch | .push _ | .fail | .reset => true
  | .work _ | .fetch | .readQueue | .readVariable => false

/-- The thread has returned once it is through. -/
def Place.after : Phase → Place
  | .idle => .leaving
  | phase => .inside phase

inductive ThreadsLabel where
  | frame (id : Int)
  | lock (k : Nat)
  | access (k : Nat) (l : Label)
  | unlock (k : Nat)
  /-- The worker, the readers and frames that are no submission. -/
  | other (l : Label)

def threadsStep (cfg : Config) (s : Threads) : ThreadsLabel → Option Threads
  | .frame id => some { s with threads := s.threads ++ [⟨id, .waiting⟩] }
  | .lock k =>
    match s.threads[k]? with
    | some ⟨id, .waiting⟩ =>
      if s.judgeMtx = none then
        some ({ s with judgeMtx := some k }.moveTo k ⟨id, .waiting⟩ (.inside .idle))
      else none
    | _ => none
  | .access k l =>
    match s.threads[k]? with
    | some ⟨id, .inside phase⟩ =>
      if l.isAccess id then
        (step cfg (s.view phase) l).map fun t =>
          (s.put t).moveTo k ⟨id, .inside phase⟩ (.after t.receiver)
      else none
    | _ => none
  | .unlock k =>
    match s.threads[k]? with
    | some ⟨id, .leaving⟩ => some ({ s with judgeMtx := none }.moveTo k ⟨id, .leaving⟩ .ended)
    | _ => none
  | .other l =>
    match l with
    | .work _ | .fetch | .readQueue | .readVariable => (step cfg (s.view .idle) l).map s.put
    | _ => none

def threads (cfg : Config) : Machine Threads ThreadsLabel := ⟨.init, threadsStep cfg⟩

/-! ## What a step can do -/

inductive ThreadsStep (cfg : Config) (s : Threads) : ThreadsLabel → Threads → Prop where
  | frame {id} : ThreadsStep cfg s (.frame id) { s with threads := s.threads ++ [⟨id, .waiting⟩] }
  | lock {k id} : s.threads[k]? = some ⟨id, .waiting⟩ → s.judgeMtx = none →
      ThreadsStep cfg s (.lock k)
        ({ s with judgeMtx := some k }.moveTo k ⟨id, .waiting⟩ (.inside .idle))
  | access {k id phase l t} : s.threads[k]? = some ⟨id, .inside phase⟩ → l.isAccess id = true →
      step cfg (s.view phase) l = some t →
      ThreadsStep cfg s (.access k l) ((s.put t).moveTo k ⟨id, .inside phase⟩ (.after t.receiver))
  | unlock {k id} : s.threads[k]? = some ⟨id, .leaving⟩ →
      ThreadsStep cfg s (.unlock k) ({ s with judgeMtx := none }.moveTo k ⟨id, .leaving⟩ .ended)
  | other {l t} : (∀ id, l.isAccess id = false) → step cfg (s.view .idle) l = some t →
      ThreadsStep cfg s (.other l) (s.put t)

variable {cfg : Config} {s t : Threads}

theorem threads_cases {l : ThreadsLabel} (h : (threads cfg).step s l = some t) :
    ThreadsStep cfg s l t := by
  simp only [threads] at h
  cases l with
  | frame id =>
    cases h
    exact .frame
  | lock k =>
    simp only [threadsStep] at h
    split at h
    · rename_i id here
      obtain ⟨free, h⟩ := Option.ite_none_right_eq_some.mp h
      cases h
      exact .lock here free
    · cases h
  | access k l =>
    simp only [threadsStep] at h
    split at h
    · rename_i id phase here
      obtain ⟨own, h⟩ := Option.ite_none_right_eq_some.mp h
      obtain ⟨u, made, rfl⟩ := Option.map_eq_some_iff.mp h
      exact .access here own made
    · cases h
  | unlock k =>
    simp only [threadsStep] at h
    split at h
    · rename_i id here
      cases h
      exact .unlock here
    · cases h
  | other l =>
    simp only [threadsStep] at h
    split at h
    · obtain ⟨u, made, rfl⟩ := Option.map_eq_some_iff.mp h
      exact .other (fun _ => rfl) made
    · obtain ⟨u, made, rfl⟩ := Option.map_eq_some_iff.mp h
      exact .other (fun _ => rfl) made
    · obtain ⟨u, made, rfl⟩ := Option.map_eq_some_iff.mp h
      exact .other (fun _ => rfl) made
    · obtain ⟨u, made, rfl⟩ := Option.map_eq_some_iff.mp h
      exact .other (fun _ => rfl) made
    · cases h

/-! ## One thread at a time -/

def Place.holds : Place → Bool
  | .inside _ | .leaving => true
  | .waiting | .ended => false

/-- A thread past its lock has `judge_mtx`. -/
def Exclusive (s : Threads) : Prop :=
  ∀ k thread, s.threads[k]? = some thread → thread.place.holds = true → s.judgeMtx = some k

theorem Exclusive.init : Exclusive .init := by
  intro k thread here
  cases here

theorem moveTo_threads {s : Threads} {k j : Nat} {old thread : Thread} {place : Place}
    (here : (s.moveTo k old place).threads[j]? = some thread) :
    j = k ∧ thread = { old with place := place } ∨ j ≠ k ∧ s.threads[j]? = some thread := by
  simp only [Threads.moveTo] at here
  by_cases same : j = k
  · subst same
    rw [List.getElem?_set_self'] at here
    obtain ⟨_, _, rfl⟩ := Option.map_eq_some_iff.mp here
    exact .inl ⟨rfl, rfl⟩
  · rw [List.getElem?_set_ne (Ne.symm same)] at here
    exact .inr ⟨same, here⟩

theorem Exclusive.step {l : ThreadsLabel} (alone : Exclusive s) (h : ThreadsStep cfg s l t) :
    Exclusive t := by
  cases h with
  | frame =>
    intro k thread here holds
    rw [List.getElem?_append] at here
    split at here
    · exact alone k thread here holds
    · obtain rfl := List.mem_singleton.mp (List.mem_of_getElem? here)
      cases holds
  | lock here free =>
    intro j thread there holds
    rcases moveTo_threads there with ⟨rfl, rfl⟩ | ⟨other, there⟩
    · rfl
    · cases free.symm.trans (alone j thread there holds)
  | access here =>
    intro j thread there holds
    rcases moveTo_threads there with ⟨rfl, rfl⟩ | ⟨_, there⟩
    · exact alone _ _ here rfl
    · exact alone j thread there holds
  | unlock here =>
    intro j thread there holds
    rcases moveTo_threads there with ⟨rfl, rfl⟩ | ⟨other, there⟩
    · cases holds
    · exact absurd (Option.some.inj ((alone j thread there holds).symm.trans (alone _ _ here rfl)))
        other
  | other => exact alone

def Place.phase : Place → Phase
  | .inside phase => phase
  | _ => .idle

@[simp] theorem phase_after (phase : Phase) : (Place.after phase).phase = phase := by
  cases phase <;> rfl

/-- The phase of the thread that has `judge_mtx`. -/
def Threads.phase (s : Threads) : Phase :=
  ((s.judgeMtx.bind (s.threads[·]?)).map fun thread => thread.place.phase).getD .idle

/-- The threads as one receiver. -/
def Threads.seen (s : Threads) : State := s.view s.phase

theorem Exclusive.phase {k : Nat} {thread : Thread} (alone : Exclusive s)
    (here : s.threads[k]? = some thread) (holds : thread.place.holds = true) :
    s.phase = thread.place.phase := by
  rw [Threads.phase, alone _ _ here holds, Option.bind_some, here]
  rfl

/-- The worker and the readers do not look at the receiver. -/
theorem step_other {l : Label} {u : State} (phase : Phase) (other : ∀ id, l.isAccess id = false)
    (h : step cfg (s.view .idle) l = some u) :
    step cfg (s.view phase) l = some ((s.put u).view phase) := by
  cases l with
  | work l =>
    simp only [step, State.work, Option.ite_none_left_eq_some, Option.map_eq_some_iff] at h ⊢
    obtain ⟨quiet, v, worked, rfl⟩ := h
    exact ⟨quiet, v, worked, rfl⟩
  | fetch =>
    cases h
    rfl
  | readQueue =>
    simp only [step, Option.ite_none_right_eq_some] at h ⊢
    obtain ⟨free, h⟩ := h
    cases h
    exact ⟨free, rfl⟩
  | readVariable =>
    simp only [step, Option.ite_none_left_eq_some] at h ⊢
    obtain ⟨reading, h⟩ := h
    cases h
    exact ⟨reading, rfl⟩
  | lock id => simpa [Label.isAccess] using other id
  | _ => cases other 0

/-- A thread that is started has no part in the phase. -/
theorem phase_frame (id : Int) :
    { s with threads := s.threads ++ [⟨id, .waiting⟩] : Threads }.phase = s.phase := by
  simp only [Threads.phase]
  cases s.judgeMtx with
  | none => rfl
  | some k =>
    simp only [Option.bind_some, List.getElem?_append]
    by_cases started : k < s.threads.length
    · rw [if_pos started]
    · rw [if_neg started, List.getElem?_eq_none (Nat.le_of_not_lt started)]
      cases k - s.threads.length <;> rfl

/-- What is seen of a thread that moves, once it has `judge_mtx`. -/
theorem phase_moveTo {k : Nat} {old : Thread} (place : Place) (mine : s.judgeMtx = some k)
    (here : s.threads[k]? = some old) : (s.moveTo k old place).phase = place.phase := by
  have inside := (List.getElem?_eq_some_iff.mp here).1
  simp only [Threads.phase, Threads.moveTo, mine, Option.bind_some,
    List.getElem?_set_self inside, Option.map_some, Option.getD_some]

/-- A step of the threads is one of the receiver, or is not seen. -/
theorem ThreadsStep.refines {l : ThreadsLabel} (alone : Exclusive s) (h : ThreadsStep cfg s l t) :
    t.seen = s.seen ∨ ∃ l', (receiver cfg).step s.seen l' = some t.seen := by
  cases h with
  | @frame id =>
    left
    rw [Threads.seen, phase_frame]
    rfl
  | @lock k id here free =>
    left
    have before : s.phase = .idle := by rw [Threads.phase, free]; rfl
    have after := phase_moveTo (s := { s with judgeMtx := some k }) (.inside .idle) rfl here
    rw [Threads.seen, Threads.seen, after, before]
    rfl
  | @access k id phase l u here _ made =>
    right
    have after := phase_moveTo (s := s.put u) (.after u.receiver) (alone _ _ here rfl) here
    refine ⟨l, ?_⟩
    rw [Threads.seen, Threads.seen, alone.phase here rfl, after, phase_after]
    exact made
  | @unlock k id here =>
    left
    rw [Threads.seen, Threads.seen, alone.phase here rfl]
    rfl
  | @other l u other made =>
    exact .inr ⟨l, step_other s.phase other made⟩

theorem threads_refines (h : (threads cfg).Reach anyStep s) :
    Exclusive s ∧ (receiver cfg).Reach anyStep s.seen := by
  refine h.invariant (I := fun s => Exclusive s ∧ (receiver cfg).Reach anyStep s.seen)
    ⟨.init, .init⟩ fun a l b _ ih _ made => ?_
  have step := threads_cases made
  refine ⟨ih.1.step step, ?_⟩
  rcases step.refines ih.1 with same | ⟨l', seen⟩
  · rw [same]
    exact ih.2
  · exact ih.2.step trivial seen

/-! ## The bound -/

theorem slots (h : (threads cfg).Reach anyStep s) : Slots cfg s.seen :=
  (threads_refines h).2.invariant .init fun _ _ _ _ slots _ made => slots.step (step_cases made)

/-- Of the accesses of a thread only a push writes the list, and it comes after a test that
found room. -/
theorem access_list {id : Int} {phase : Phase} {l : Label} {u : State}
    (room : Slots cfg (s.view phase)) (full : cfg.kMaxQueue ≤ s.judge.queueSize)
    (own : l.isAccess id = true) (made : (receiver cfg).step (s.view phase) l = some u) :
    u.judge.submissionList = s.judge.submissionList := by
  cases step_cases made with
  | work | fetch | readQueue | readVariable => cases own
  | push here =>
    have free := room.room (by rw [here]; rfl)
    exact absurd free (Nat.not_lt.mpr full)
  | _ => rfl

/-- A thread that finds the queue full goes, and leaves everything as it was. -/
theorem full_leaves {k : Nat} {id : Int} (full : cfg.kMaxQueue ≤ s.judge.queueSize)
    (here : s.threads[k]? = some ⟨id, .inside .idle⟩)
    (made : (threads cfg).step s (.access k (.lock id)) = some t) :
    t = s.moveTo k ⟨id, .inside .idle⟩ .leaving := by
  simp only [threads, threadsStep, here, Label.isAccess, decide_true, if_true] at made
  obtain ⟨u, test, rfl⟩ := Option.map_eq_some_iff.mp made
  have tested : (receiver cfg).step (s.view .idle) (.lock id) = some u := test
  cases step_cases tested with
  | rejected => rfl
  | accepted _ room => exact absurd room (Nat.not_lt.mpr full)

/-- The queue is never longer than `kMaxQueue`. While it is full, a thread that tests it
goes, and no receiving thread writes the list. -/
theorem queue_bounded (h : (threads cfg).Reach anyStep s) :
    s.judge.queueSize ≤ cfg.kMaxQueue ∧
    (cfg.kMaxQueue ≤ s.judge.queueSize →
      (∀ k id t, s.threads[k]? = some ⟨id, .inside .idle⟩ →
        (threads cfg).step s (.access k (.lock id)) = some t →
        t = s.moveTo k ⟨id, .inside .idle⟩ .leaving) ∧
      ∀ l t, (∀ l', l ≠ .other l') → (threads cfg).step s l = some t →
        t.judge.submissionList = s.judge.submissionList) := by
  have alone := (threads_refines h).1
  have seen := slots h
  refine ⟨seen.bound, fun full => ⟨fun k id t => full_leaves full, fun l t thread made => ?_⟩⟩
  cases threads_cases made with
  | frame | lock | unlock => rfl
  | @access k id phase l u here own accessed =>
    rw [Threads.seen, alone.phase here rfl] at seen
    exact access_list seen full own accessed
  | other => exact absurd rfl (thread _)

/-- Two threads and one slot: the second waits until the first has pushed. -/
def twoThreads : List ThreadsLabel :=
  [.frame 5, .frame 6, .lock 0, .access 0 (.lock 5), .access 0 .announce, .access 0 .test,
    .access 0 samplePush, .access 0 .reset, .unlock 0, .lock 1]

theorem queue_bounded_twoThreads :
    ∃ s, exec (threads (sampleConfig 1)) anyStep .init twoThreads = some s ∧
      s.judge.queueSize = 1 ∧
      ∀ t, (threads (sampleConfig 1)).step s (.access 1 (.lock 6)) = some t →
        t.judge.submissionList = s.judge.submissionList := by
  have run : (exec (threads (sampleConfig 1)) anyStep .init twoThreads).map
      (fun s => s.judge.queueSize) = some 1 := by decide +kernel
  obtain ⟨s, hs, size⟩ := Option.map_eq_some_iff.mp run
  have full := (queue_bounded (reach_exec hs)).2 size.ge
  exact ⟨s, hs, size, fun t => full.2 _ t (by simp)⟩

end TiojJudge.Receiver
