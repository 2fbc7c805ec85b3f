import TiojJudge.TestdataStore.Sequence

/-!
# Copies of testdata

`SetupScoring` copies the input and the answer of a testdata under the
`td_file_lock` of its problem. `DealOneSubmission` has this lock while it
replaces files and links, and does not have it while it downloads and while it
writes the rows.

* `shared`: the machine of both threads, call by call;
* `Progress`: how far an update has come;
* `copies_right`: over every sequence of fresh updates, both copies are of the
  list that was in force when the lock was taken.
-/

namespace TiojJudge.TestdataStore

/-- Where `DealOneSubmission` is, with the calls that are left. -/
inductive Receiver where
  | idle
  | downloading (deal : Deal) (left locked : List Call) (rows : List (Int × Testdata))
  /-- With the lock of the problem. -/
  | updating (deal : Deal) (left : List Call) (rows : List (Int × Testdata))
  | recording (deal : Deal) (rows : List (Int × Testdata))

/-- Where `SetupScoring` is. The list is the one in force when it took the lock. -/
inductive Copier where
  | idle
  | locked (problem : Int) (order : Nat) (td : List TdItem)
  | halfway (problem : Int) (order : Nat) (td : List TdItem) (input : Option Content)

structure Copied where
  problem : Int
  order : Nat
  td : List TdItem
  input : Option Content
  answer : Option Content

structure Shared where
  disk : Disk
  past : List Deal
  receiver : Receiver
  copier : Copier
  copies : List Copied

/-- What is read through the link. -/
def Disk.read (s : Disk) (problem : Int) (order : Nat) (isInput : Bool) : Option Content :=
  (s.links.lookup ⟨problem, order, isInput⟩).bind s.files.lookup

/-- The problem whose lock the thread has. -/
def Receiver.holds : Receiver → Option Int
  | .updating deal .. => some deal.problem
  | .idle | .downloading .. | .recording .. => none

def Copier.holds : Copier → Option Int
  | .idle => none
  | .locked problem .. | .halfway problem .. => some problem

/-- The list whose files and links are there, unless the receiver has the lock. -/
def Shared.current (s : Shared) (problem : Int) : List TdItem :=
  match s.receiver with
  | .recording deal _ => inForce (s.past ++ [deal]) problem
  | .idle | .downloading .. | .updating .. => inForce s.past problem

/-- The calls under the lock. -/
def lockedCalls (s : Disk) (problem : Int) (td : List TdItem) : List Call :=
  renames (toDownload s problem td) ++ deletes (toDelete s problem td) ++
    relinks problem (toUpdatePosition s problem td) ++ unlinks problem td.length (s.origTdCount problem)

def newRows (problem : Int) (td : List TdItem) : List (Int × Testdata) :=
  (newMeta problem td).entries.map fun entry => (entry.1, entry.2)

inductive SharedLabel where
  | deal (deal : Deal)
  /-- The next call of the receiver, that succeeds. -/
  | call
  | lock
  | unlock
  | copyLock (problem : Int) (order : Nat)
  | copyInput
  /-- The lock is released after it. -/
  | copyAnswer

def Shared.step (s : Shared) : SharedLabel → Option Shared
  | .deal deal =>
    match s.receiver with
    | .idle =>
      let left := downloads (newMeta deal.problem deal.td) (toDownload s.disk deal.problem deal.td)
      let locked := lockedCalls s.disk deal.problem deal.td
      some { s with receiver := .downloading deal left locked (newRows deal.problem deal.td) }
    | _ => none
  | .call =>
    match s.receiver with
    | .downloading deal (c :: left) locked rows =>
      (c.run s.disk).map fun disk =>
        { s with disk := disk, receiver := .downloading deal left locked rows }
    | .updating deal (c :: left) rows =>
      (c.run s.disk).map fun disk => { s with disk := disk, receiver := .updating deal left rows }
    | .recording deal rows =>
      (Call.run s.disk (.updateTd rows)).map fun disk =>
        { s with disk := disk, past := s.past ++ [deal], receiver := .idle }
    | _ => none
  | .lock =>
    match s.receiver with
    | .downloading deal [] locked rows =>
      if s.copier.holds = some deal.problem then none
      else some { s with receiver := .updating deal locked rows }
    | _ => none
  | .unlock =>
    match s.receiver with
    | .updating deal [] rows => some { s with receiver := .recording deal rows }
    | _ => none
  | .copyLock problem order =>
    match s.copier with
    | .idle =>
      if s.receiver.holds = some problem then none
      else some { s with copier := .locked problem order (s.current problem) }
    | _ => none
  | .copyInput =>
    match s.copier with
    | .locked problem order td =>
      some { s with copier := .halfway problem order td (s.disk.read problem order true) }
    | _ => none
  | .copyAnswer =>
    match s.copier with
    | .halfway problem order td input => some { s with
        copier := .idle
        copies := s.copies ++ [⟨problem, order, td, input, s.disk.read problem order false⟩] }
    | _ => none

def shared : Machine Shared SharedLabel where
  init := ⟨.empty, [], .idle, .idle, []⟩
  step := Shared.step

/-- Updates come with fresh lists of distinct ids, each of one problem. -/
def freshDeals (owner : Int → Int) (s : Shared) : SharedLabel → Prop
  | .deal deal => freshUpdates owner (s.disk, s.past) deal
  | _ => True

instance {owner : Int → Int} (s : Shared) : DecidablePred (freshDeals owner s)
  | .deal _ | .call | .lock | .unlock | .copyLock .. | .copyInput | .copyAnswer => by
    unfold freshDeals
    infer_instance

variable {s t : Shared} {start disk : Disk} {past : List Deal} {deal : Deal} {owner : Int → Int}
  {problem : Int} {td : List TdItem} {done left : List Call} {r : Receiver}

/-! ## How far an update has come -/

theorem dealCalls_parts (s : Disk) (problem : Int) (td : List TdItem) : dealCalls s problem td =
    downloads (newMeta problem td) (toDownload s problem td) ++ lockedCalls s problem td ++
      [.updateTd (newRows problem td)] := by
  simp only [dealCalls, updates, lockedCalls, newRows, List.append_assoc]

structure Progress (owner : Int → Int) (past : List Deal) (start : Disk) (deal : Deal) (disk : Disk)
    (done left : List Call) : Prop where
  settled : ∀ problem, Settled owner start problem (inForce past problem)
  fresh : freshUpdates owner (start, past) deal
  calls : dealCalls start deal.problem deal.td = done ++ left
  performed : runAll done start = some disk

theorem Progress.next {c : Call} {disk' : Disk} (h : Progress owner past start deal disk done (c :: left))
    (run : c.run disk = some disk') : Progress owner past start deal disk' (done ++ [c]) left where
  settled := h.settled
  fresh := h.fresh
  calls := by
    rw [h.calls, List.append_assoc]
    rfl
  performed := by
    rw [runAll_append]
    exact ⟨disk, h.performed, by simp only [runAll, run, Option.bind_some]⟩

/-- The links and files of the problem are those of the list. -/
structure Served (s : Disk) (problem : Int) (td : List TdItem) : Prop where
  right : Right s problem td
  beyond : ∀ i, td.length ≤ i → ∀ side, s.links.lookup ⟨problem, i, side⟩ = none

theorem Settled.served (h : Settled owner disk problem td) : Served disk problem td :=
  ⟨h.right, h.beyond⟩

/-- What is at `i` in the list. -/
def contentAt (td : List TdItem) (i : Nat) : Option Content :=
  td[i]?.map fun item => .version item.updatedAt

theorem Served.read (h : Served disk problem td) (i : Nat) (side : Bool) :
    disk.read problem i side = contentAt td i := by
  unfold Disk.read contentAt
  cases here : td[i]? with
  | none =>
    rw [h.beyond i (List.getElem?_eq_none_iff.mp here) side]
    rfl
  | some item =>
    obtain ⟨link, file⟩ := h.right i item here side
    rw [link, Option.bind_some, file]
    rfl

theorem Served.frame (h : Served start problem td)
    (links : ∀ i side, disk.links.lookup ⟨problem, i, side⟩ = start.links.lookup ⟨problem, i, side⟩)
    (files : ∀ item ∈ td, ∀ side,
      disk.files.lookup ⟨item.id, side, false⟩ = start.files.lookup ⟨item.id, side, false⟩) :
    Served disk problem td := by
  constructor
  · intro i item here side
    rw [links, files item (List.mem_of_getElem? here)]
    exact h.right i item here side
  · intro i high side
    rw [links]
    exact h.beyond i high side

/-- Another problem does not see the update. -/
theorem Progress.apart (h : Progress owner past start deal disk done left) (ne : problem ≠ deal.problem) :
    Served disk problem (inForce past problem) := by
  have settled := h.settled problem
  have inside {c : Call} (here : c ∈ done) : c ∈ dealCalls start deal.problem deal.td := by
    rw [h.calls]
    exact List.mem_append_left _ here
  apply settled.served.frame
  · intro i side
    apply runAll_link h.performed
    intro c here
    apply Bool.eq_false_iff.mpr
    intro again
    exact ne (dealCalls_relinks (inside here) again)
  · intro item listed side
    apply runAll_file h.performed
    intro c here
    apply Bool.eq_false_iff.mpr
    intro again
    cases dealCalls_touches (inside here) again with
    | inl down =>
      obtain ⟨other, there, same, _⟩ := mem_toDownload.mp down
      apply ne
      calc problem = owner item.id := (settled.proper.owned item listed).symm
        _ = owner other.id := by rw [same]
        _ = deal.problem := h.fresh.1.owned other there
    | inr gone =>
      obtain ⟨i, at_i⟩ := List.mem_iff_getElem?.mp listed
      have mine : (start.origTd problem item.id).isSome = true := by
        rw [settled.rows i item at_i]
        rfl
      exact ne (origTd_unique mine (mem_toDelete.mp gone).1)

/-- Downloads only write temporary files. -/
theorem Progress.downloading (h : Progress owner past start deal disk done left)
    (only : ∀ c ∈ done, c ∈ downloads (newMeta deal.problem deal.td) (toDownload start deal.problem deal.td)) :
    Served disk deal.problem (inForce past deal.problem) := by
  apply (h.settled deal.problem).served.frame
  · intro i side
    apply runAll_link h.performed
    intro c here
    have download := List.mem_append_left (renames []) (only c here)
    exact files_relink (List.mem_append_left (deletes []) download)
  · intro item _ side
    apply runAll_file h.performed
    intro c here
    apply Bool.eq_false_iff.mpr
    intro again
    cases (downloads_touches (only c here) again).1

/-- Only the rows are missing. -/
theorem Progress.recorded {rows : List (Int × Testdata)}
    (h : Progress owner past start deal disk done [.updateTd rows]) :
    runAll (dealCalls start deal.problem deal.td) start =
      some { disk with rows := replaceRange disk.rows rows } := by
  rw [h.calls, runAll_append]
  exact ⟨disk, h.performed, rfl⟩

theorem Progress.settles {rows : List (Int × Testdata)}
    (h : Progress owner past start deal disk done [.updateTd rows]) :
    Settled owner { disk with rows := replaceRange disk.rows rows } deal.problem deal.td :=
  (h.settled deal.problem).dealt h.fresh.1 h.fresh.2 h.recorded

theorem Progress.recording {rows : List (Int × Testdata)}
    (h : Progress owner past start deal disk done [.updateTd rows]) :
    Served disk deal.problem deal.td :=
  h.settles.served.frame (fun _ _ => rfl) fun _ _ _ => rfl

theorem perform_of_runAll {n : Nat} (h : runAll done start = some disk) :
    perform (fun _ => false) n done start = (true, done, disk) := by
  induction done generalizing start n with
  | nil =>
    cases h
    rfl
  | cons c cs ih =>
    obtain ⟨next, run, rest⟩ := Option.bind_eq_some_iff.mp h
    simp only [perform, Bool.and_false, Bool.false_eq_true, if_false, run, ih rest]

theorem Progress.settles_apart {rows : List (Int × Testdata)}
    (h : Progress owner past start deal disk done [.updateTd rows]) (ne : problem ≠ deal.problem) :
    Settled owner { disk with rows := replaceRange disk.rows rows } problem (inForce past problem) :=
  (h.settled problem).apart h.fresh.1 ne (perform_of_runAll h.recorded)

/-! ## The threads -/

inductive Sound (owner : Int → Int) (disk : Disk) (past : List Deal) : Receiver → Prop where
  | idle : (∀ problem, Settled owner disk problem (inForce past problem)) → Sound owner disk past .idle
  | downloading {start deal done left locked rows} :
      Progress owner past start deal disk done (left ++ locked ++ [.updateTd rows]) →
      (∀ c ∈ done ++ left,
        c ∈ downloads (newMeta deal.problem deal.td) (toDownload start deal.problem deal.td)) →
      Sound owner disk past (.downloading deal left locked rows)
  | updating {start deal done left rows} :
      Progress owner past start deal disk done (left ++ [.updateTd rows]) →
      Sound owner disk past (.updating deal left rows)
  | recording {start deal done rows} :
      Progress owner past start deal disk done [.updateTd rows] →
      Sound owner disk past (.recording deal rows)

/-- A problem whose lock the receiver does not have is served. -/
theorem Sound.served (h : Sound owner s.disk s.past s.receiver) (free : s.receiver.holds ≠ some problem) :
    Served s.disk problem (s.current problem) := by
  unfold Shared.current
  cases hr : s.receiver with
  | idle =>
    rw [hr] at h
    cases h with
    | idle settled => exact (settled problem).served
  | downloading deal left locked rows =>
    rw [hr] at h
    cases h with
    | downloading progress only =>
      by_cases same : problem = deal.problem
      · subst same
        exact progress.downloading fun c here => only c (List.mem_append_left _ here)
      · exact progress.apart same
  | updating deal left rows =>
    rw [hr] at h free
    cases h with
    | updating progress =>
      apply progress.apart
      rintro rfl
      exact free rfl
  | recording deal rows =>
    rw [hr] at h
    cases h with
    | recording progress =>
      simp only [inForce_append]
      split
      · rename_i same
        subst same
        exact progress.recording
      · rename_i other
        exact progress.apart (Ne.symm other)

/-- The copier has the lock alone, and what it has read is of its list. -/
inductive CopierSound (s : Shared) : Copier → Prop where
  | idle : CopierSound s .idle
  | locked {problem order} : s.receiver.holds ≠ some problem →
      CopierSound s (.locked problem order (s.current problem))
  | halfway {problem order} : s.receiver.holds ≠ some problem →
      CopierSound s (.halfway problem order (s.current problem) (contentAt (s.current problem) order))

/-- Both copies are of the list that was in force. -/
def Copied.Right (c : Copied) : Prop :=
  c.input = contentAt c.td c.order ∧ c.answer = contentAt c.td c.order

structure AllSound (owner : Int → Int) (s : Shared) : Prop where
  receiver : Sound owner s.disk s.past s.receiver
  copier : CopierSound s s.copier
  copies : ∀ c ∈ s.copies, c.Right

/-- A step of the receiver that does not take the lock of the copier. -/
theorem CopierSound.kept {c : Copier} (h : CopierSound s c)
    (same : ∀ problem, c.holds = some problem → s.receiver.holds ≠ some problem →
      t.receiver.holds ≠ some problem ∧ t.current problem = s.current problem) : CopierSound t c := by
  cases h with
  | idle => exact .idle
  | locked free =>
    obtain ⟨free', current⟩ := same _ rfl free
    rw [← current]
    exact .locked free'
  | halfway free =>
    obtain ⟨free', current⟩ := same _ rfl free
    rw [← current]
    exact .halfway free'

theorem AllSound.init : AllSound owner shared.init :=
  ⟨.idle fun _ => settled_empty, .idle, fun _ here => absurd here List.not_mem_nil⟩

theorem AllSound.begin (h : AllSound owner s) (fresh : freshUpdates owner (s.disk, s.past) deal)
    (step : s.step (.deal deal) = some t) : AllSound owner t := by
  obtain ⟨receiver, copier, copies⟩ := h
  simp only [Shared.step] at step
  split at step
  · rename_i idle
    cases step
    rw [idle] at receiver
    cases receiver with
    | idle settled =>
      have progress : Progress owner s.past s.disk deal s.disk []
          (dealCalls s.disk deal.problem deal.td) := ⟨settled, fresh, rfl, rfl⟩
      rw [dealCalls_parts] at progress
      refine ⟨.downloading progress fun c here => here, ?_, copies⟩
      · apply copier.kept
        intro problem _ _
        exact ⟨by simp [Receiver.holds], by simp only [Shared.current, idle]⟩
  · cases step

theorem AllSound.call (h : AllSound owner s) (step : s.step .call = some t) : AllSound owner t := by
  obtain ⟨receiver, copier, copies⟩ := h
  simp only [Shared.step] at step
  split at step
  · rename_i deal c left locked rows here
    obtain ⟨disk, run, rfl⟩ := Option.map_eq_some_iff.mp step
    rw [here] at receiver
    cases receiver with
    | downloading progress only =>
      refine ⟨.downloading (progress.next run) ?_, ?_, copies⟩
      · rw [List.append_assoc]
        exact only
      · apply copier.kept
        intro problem _ _
        exact ⟨by simp [Receiver.holds], by simp only [Shared.current, here]⟩
  · rename_i deal c left rows here
    obtain ⟨disk, run, rfl⟩ := Option.map_eq_some_iff.mp step
    rw [here] at receiver
    cases receiver with
    | updating progress =>
      refine ⟨.updating (progress.next run), ?_, copies⟩
      apply copier.kept
      intro problem _ free
      rw [here] at free
      exact ⟨free, by simp only [Shared.current, here]⟩
  · rename_i deal rows here
    cases step
    rw [here] at receiver
    cases receiver with
    | recording progress =>
      refine ⟨.idle fun problem => ?_, ?_, copies⟩
      · simp only [inForce_append]
        split
        · rename_i same
          subst same
          exact progress.settles
        · rename_i other
          exact progress.settles_apart (Ne.symm other)
      · apply copier.kept
        intro problem _ _
        exact ⟨by simp [Receiver.holds], by simp only [Shared.current, here]⟩
  · cases step

theorem AllSound.lock (h : AllSound owner s) (step : s.step .lock = some t) : AllSound owner t := by
  obtain ⟨receiver, copier, copies⟩ := h
  simp only [Shared.step] at step
  split at step
  · rename_i deal locked rows here
    split at step
    · cases step
    · rename_i free
      cases step
      rw [here] at receiver
      cases receiver with
      | downloading progress only =>
        refine ⟨.updating progress, ?_, copies⟩
        apply copier.kept
        intro problem held _
        refine ⟨?_, by simp only [Shared.current, here]⟩
        intro again
        exact free (held.trans again.symm)
  · cases step

theorem AllSound.unlock (h : AllSound owner s) (step : s.step .unlock = some t) : AllSound owner t := by
  obtain ⟨receiver, copier, copies⟩ := h
  simp only [Shared.step] at step
  split at step
  · rename_i deal rows here
    cases step
    rw [here] at receiver
    cases receiver with
    | updating progress =>
      refine ⟨.recording progress, ?_, copies⟩
      apply copier.kept
      intro problem _ free
      rw [here] at free
      refine ⟨by simp [Receiver.holds], ?_⟩
      simp only [Shared.current, here, inForce_append]
      apply if_neg
      rintro rfl
      exact free rfl
  · cases step

theorem AllSound.copy {l : SharedLabel} (h : AllSound owner s) (step : s.step l = some t)
    (mine : (∃ problem order, l = .copyLock problem order) ∨ l = .copyInput ∨ l = .copyAnswer) :
    AllSound owner t := by
  obtain ⟨receiver, copier, copies⟩ := h
  rcases mine with ⟨problem, order, rfl⟩ | rfl | rfl
  all_goals
    simp only [Shared.step] at step
    split at step
  · split at step
    · cases step
    · rename_i free
      cases step
      exact ⟨receiver, .locked free, copies⟩
  · cases step
  · rename_i problem order td here
    cases step
    rw [here] at copier
    cases copier with
    | locked free =>
      refine ⟨receiver, ?_, copies⟩
      rw [(receiver.served free).read]
      exact .halfway free
  · cases step
  · rename_i problem order td input here
    cases step
    rw [here] at copier
    cases copier with
    | halfway free =>
      refine ⟨receiver, .idle, ?_⟩
      intro c listed
      cases List.mem_append.mp listed with
      | inl old => exact copies c old
      | inr new =>
        obtain rfl := List.mem_singleton.mp new
        exact ⟨rfl, (receiver.served free).read order false⟩
  · cases step

theorem AllSound.step {l : SharedLabel} (h : AllSound owner s) (cond : freshDeals owner s l)
    (step : s.step l = some t) : AllSound owner t := by
  cases l with
  | deal deal => exact h.begin cond step
  | call => exact h.call step
  | lock => exact h.lock step
  | unlock => exact h.unlock step
  | copyLock problem order => exact h.copy step (.inl ⟨problem, order, rfl⟩)
  | copyInput => exact h.copy step (.inr (.inl rfl))
  | copyAnswer => exact h.copy step (.inr (.inr rfl))

theorem copies_right (h : shared.Reach (freshDeals owner) s) : ∀ c ∈ s.copies, c.Right := by
  have all : AllSound owner s :=
    h.invariant .init fun _ _ _ _ sound cond step => sound.step cond step
  exact all.copies

/-- The testdata 5 is replaced by a newer one while it is copied. -/
def copiedWhileUpdated : List SharedLabel :=
  [.deal ⟨1, [plain 5 1]⟩] ++ List.replicate 3 .call ++ [.lock] ++ List.replicate 6 .call ++
    [.unlock, .call, .deal ⟨1, [plain 5 2]⟩, .copyLock 1 0, .call, .copyInput, .call, .call,
      .copyAnswer, .lock, .call]

theorem copies_right_updated : ∃ s, shared.exec (freshDeals fun _ => 1) shared.init
    copiedWhileUpdated = some s ∧ ∀ c ∈ s.copies, c.Right := by
  obtain ⟨s, hs⟩ := Option.isSome_iff_exists.mp (show (shared.exec (freshDeals fun _ => 1) shared.init
    copiedWhileUpdated).isSome = true by decide +kernel)
  exact ⟨s, hs, copies_right (Machine.reach_exec hs)⟩

end TiojJudge.TestdataStore
