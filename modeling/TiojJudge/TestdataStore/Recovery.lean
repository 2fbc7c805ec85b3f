import TiojJudge.TestdataStore.Update

/-!
# After an update that failed

The rows are written last, so those of an update that failed still describe the
disk before it.

* `Truthful`: every row of a problem is so on the disk;
* `Spared`: the update that failed did not come to the files and links which the
  next list of testdata has in common with the rows;
* `recovers_iff`: the next update that succeeds gets everything right if and only
  if they were spared.
-/

namespace TiojJudge.TestdataStore

variable {s t u : Disk} {cs done : List Call} {problem : Int} {td next : List TdItem}

/-- The rows of the problem describe the disk. -/
def Truthful (s : Disk) (problem : Int) : Prop :=
  ∀ id row, s.origTd problem id = some row → ∀ side,
    s.files.lookup ⟨id, side, false⟩ = some (.version row.timestamp) ∧
    s.links.lookup ⟨problem, row.order, side⟩ = some ⟨id, side, false⟩

/-- Of the calls performed, none changed the files of an item whose row has its `updated_at`, or
the links of one whose row has its position. -/
def Spared (s : Disk) (problem : Int) (done : List Call) (next : List TdItem) : Prop :=
  ∀ i item, next[i]? = some item → ∀ side,
    (Current s problem item → ∀ c ∈ done, c.touches ⟨item.id, side, false⟩ = false) ∧
    (InPlace s problem item i → ∀ c ∈ done, c.relinks ⟨problem, i, side⟩ = false)

instance : Decidable (Spared s problem done next) := by
  unfold Spared
  infer_instance

/-- Without a call that renames it, what waits does not get into the pool. -/
theorem pool_ne_of_touched {id : Int} {side : Bool} {content : Content}
    (h : runAll cs s = some t) (none : ∀ updatedAt, .download id side updatedAt ∉ cs)
    (waiting : s.files.lookup ⟨id, side, true⟩ ≠ some content ∨ .rename id side ∉ cs)
    (touched : s.files.lookup ⟨id, side, false⟩ ≠ some content ∨
      ∃ c ∈ cs, c.touches ⟨id, side, false⟩ = true) :
    t.files.lookup ⟨id, side, false⟩ ≠ some content := by
  induction cs generalizing s with
  | nil =>
    cases h
    rcases touched with already | ⟨_, here, _⟩
    · exact already
    · cases here
  | cons c cs ih =>
    obtain ⟨v, now, rest⟩ := Option.bind_eq_some_iff.mp h
    have none' : ∀ updatedAt, .download id side updatedAt ∉ cs := fun n hn => none n (.tail _ hn)
    by_cases renames : c = .rename id side
    · subst renames
      obtain ⟨moved, found, rfl⟩ := Option.map_eq_some_iff.mp now
      have differs : moved ≠ content := by
        rintro rfl
        exact waiting.elim (fun other => other found) fun other => other (.head _)
      apply ih rest none'
      · left
        simp
      · left
        simpa [UMap.lookup_insert_eq] using differs
    · have waits : v.files.lookup ⟨id, side, true⟩ = s.files.lookup ⟨id, side, true⟩ := by
        apply run_file now
        cases c with
        | download id' side' n =>
          apply beq_eq_false_iff_ne.mpr
          rintro ⟨⟩
          exact none n (.head _)
        | rename id' side' =>
          simp only [Call.touches, Bool.or_eq_false_iff, beq_eq_false_iff_ne]
          refine ⟨?_, by simp⟩
          rintro ⟨⟩
          exact renames rfl
        | removeFile => simp [Call.touches]
        | _ => rfl
      apply ih rest none'
      · rw [waits]
        exact waiting.imp_right fun other later => other (.tail _ later)
      · by_cases removes : c = .removeFile id side
        · subst removes
          cases now
          left
          simp
        · have same : c.touches ⟨id, side, false⟩ = false := by
            cases c with
            | rename id' side' =>
              simp only [Call.touches, Bool.or_eq_false_iff, beq_eq_false_iff_ne]
              refine ⟨by simp, ?_⟩
              rintro ⟨⟩
              exact renames rfl
            | removeFile id' side' =>
              apply beq_eq_false_iff_ne.mpr
              rintro ⟨⟩
              exact removes rfl
            | download => simp [Call.touches]
            | _ => rfl
          rw [run_file now same]
          apply touched.imp_right
          rintro ⟨d, hd, touches⟩
          refine ⟨d, ?_, touches⟩
          rcases List.mem_cons.mp hd with rfl | later
          · rw [same] at touches
            cases touches
          · exact later

/-- A link that is replaced does not lead where no call leads it. -/
theorem link_ne_of_relinked {path : LinkPath} {target : PoolPath} (h : runAll cs s = some t)
    (none : ∀ id, .createSymlink path id ∈ cs → ⟨id, path.isInput, false⟩ ≠ target)
    (relinked : s.links.lookup path ≠ some target ∨ ∃ c ∈ cs, c.relinks path = true) :
    t.links.lookup path ≠ some target := by
  induction cs generalizing s with
  | nil =>
    cases h
    rcases relinked with already | ⟨_, here, _⟩
    · exact already
    · cases here
  | cons c cs ih =>
    obtain ⟨v, now, rest⟩ := Option.bind_eq_some_iff.mp h
    apply ih rest fun id hid => none id (.tail _ hid)
    by_cases relinks : c.relinks path = true
    · left
      cases c <;> try cases relinks
      · obtain rfl := beq_iff_eq.mp relinks
        cases now
        simp
      · obtain rfl := beq_iff_eq.mp relinks
        simp only [Call.run] at now
        split at now
        · cases now
        · cases now
          simpa using none _ (.head _)
    · rw [run_link now (Bool.eq_false_iff.mpr relinks)]
      apply relinked.imp_right
      rintro ⟨d, hd, again⟩
      refine ⟨d, ?_, again⟩
      rcases List.mem_cons.mp hd with rfl | later
      · exact absurd again relinks
      · exact later

/-! ## The update that failed -/

/-- The calls of an update that can download or replace a link. -/
theorem updates_downloads {id : Int} {side : Bool} {n : Int} :
    .download id side n ∉ updates s problem td := by
  simp [updates, renames, deletes, relinks, unlinks]

theorem updates_renames {id : Int} {side : Bool} (h : .rename id side ∈ updates s problem td) :
    id ∈ toDownload s problem td := by
  simp only [updates, renames, deletes, relinks, unlinks, List.mem_append, List.mem_flatMap,
    List.mem_cons, Call.rename.injEq, reduceCtorEq, List.not_mem_nil, or_false, and_false,
    exists_false] at h
  obtain ⟨_, here, ⟨rfl, _⟩ | ⟨rfl, _⟩⟩ := h <;> exact here

theorem dealCalls_symlinks {path : LinkPath} {id : Int}
    (h : .createSymlink path id ∈ dealCalls s problem td) :
    (path.order, id) ∈ toUpdatePosition s problem td := by
  simp only [dealCalls, updates, downloads, renames, deletes, relinks, unlinks, List.mem_append,
    List.mem_flatMap, List.mem_cons, Call.createSymlink.injEq, reduceCtorEq, List.not_mem_nil,
    or_false, false_or, and_false, exists_false] at h
  obtain ⟨⟨order, id'⟩, here, ⟨rfl, rfl⟩ | ⟨rfl, rfl⟩⟩ := h <;> exact here

theorem failed_rows {rest : List Call} (calls : dealCalls s problem td = done ++ rest)
    (more : rest ≠ []) (h : runAll done s = some t) : t.rows = s.rows :=
  runAll_rows h fun _ => dealCalls_updateTd calls more

/-- Files that an update touches are not in the version of their row any more. -/
theorem touched_differs {rest : List Call} {item : TdItem} {side : Bool} {c : Call}
    (distinct : (td.map TdItem.id).Nodup) (calls : dealCalls s problem td = done ++ rest)
    (h : runAll done s = some t) (current : Current s problem item) (here : c ∈ done)
    (touches : c.touches ⟨item.id, side, false⟩ = true) :
    t.files.lookup ⟨item.id, side, false⟩ ≠ some (.version item.updatedAt) := by
  have later {d : Call} (down : d ∈ downloads (newMeta problem td) (toDownload s problem td))
      (touches : d.touches ⟨item.id, side, false⟩ = true) : False := by
    cases (downloads_touches down touches).1
  rcases List.append_eq_append_iff.mp calls with ⟨before, rfl, split⟩ | ⟨before, split, _⟩
  · obtain ⟨s₁, down, h⟩ := runAll_append.mp h
    have inside {d : Call} (hd : d ∈ before) : d ∈ updates s problem td :=
      split ▸ List.mem_append_left _ hd
    apply pool_ne_of_touched h fun n hn => updates_downloads (inside hn)
    · by_cases replaced : item.id ∈ toDownload s problem td
      · left
        obtain ⟨new, listed, same, differs⟩ := mem_toDownload.mp replaced
        obtain ⟨j, at_j⟩ := List.mem_iff_getElem?.mp listed
        obtain ⟨row, found, time⟩ := current
        rw [downloads_waiting down replaced side, ← same, newMeta_lookup distinct at_j]
        intro equal
        have equal : new.updatedAt = item.updatedAt := by simpa [TdItem.meta] using equal
        exact differs ⟨row, same ▸ found, time.trans equal.symm⟩
      · right
        exact fun renamed => replaced (updates_renames (inside renamed))
    · rcases List.mem_append.mp here with down' | here
      · exact (later down' touches).elim
      · exact .inr ⟨c, here, touches⟩
  · exact (later (split ▸ List.mem_append_left _ here) touches).elim

/-- Links that an update replaces do not lead where the row of their position says. -/
theorem relinked_differs {rest : List Call} {item : TdItem} {i : Nat} {side : Bool} {c : Call}
    (calls : dealCalls s problem td = done ++ rest) (h : runAll done s = some t)
    (inPlace : InPlace s problem item i) (here : c ∈ done)
    (relinks : c.relinks ⟨problem, i, side⟩ = true) :
    t.links.lookup ⟨problem, i, side⟩ ≠ some ⟨item.id, side, false⟩ := by
  apply link_ne_of_relinked h _ (.inr ⟨c, here, relinks⟩)
  intro id made same
  have made : .createSymlink ⟨problem, i, side⟩ id ∈ dealCalls s problem td :=
    calls ▸ List.mem_append_left _ made
  obtain ⟨new, _, rfl, moved⟩ := mem_toUpdatePosition.mp (dealCalls_symlinks made)
  obtain ⟨row, found, order⟩ := inPlace
  have same : new.id = item.id := by simpa using same
  exact moved ⟨row, same ▸ found, order⟩

/-- What the comparison takes from the rows is so after the failure if and only if it was
spared. -/
theorem trusted_iff_spared {rest : List Call} (truthful : Truthful s problem)
    (distinct : (td.map TdItem.id).Nodup) (calls : dealCalls s problem td = done ++ rest)
    (more : rest ≠ []) (h : runAll done s = some t) :
    Trusted t problem next ↔ Spared s problem done next := by
  have orig (id : Int) : t.origTd problem id = s.origTd problem id := by
    unfold Disk.origTd
    rw [failed_rows calls more h]
  have current (item : TdItem) : Current t problem item ↔ Current s problem item := by
    simp only [Current, orig]
  have inPlace (item : TdItem) (i : Nat) : InPlace t problem item i ↔ InPlace s problem item i := by
    simp only [InPlace, orig]
  simp only [Trusted, Spared, current, inPlace]
  constructor
  · intro trusted i item here side
    obtain ⟨file, link⟩ := trusted i item here side
    constructor
    · intro now c hc
      apply Bool.eq_false_iff.mpr
      exact fun touches => touched_differs distinct calls h now hc touches (file now)
    · intro now c hc
      apply Bool.eq_false_iff.mpr
      exact fun relinks => relinked_differs calls h now hc relinks (link now)
  · intro spared i item here side
    obtain ⟨file, link⟩ := spared i item here side
    constructor
    · intro now
      rw [runAll_file h (file now)]
      obtain ⟨row, found, time⟩ := now
      rw [← time]
      exact (truthful item.id row found side).1
    · intro now
      rw [runAll_link h (link now)]
      obtain ⟨row, found, rfl⟩ := now
      exact (truthful item.id row found side).2

/-! ## The next update that succeeds -/

/-- Calls for other problems, whether they succeed or not, none with testdata of this one. -/
inductive Elsewhere (problem : Int) (s : Disk) : Disk → Prop where
  | refl : Elsewhere problem s s
  | deal {t u fails q td ok done} : Elsewhere problem s t → problem ≠ q →
    (∀ id ∈ td.map TdItem.id, t.origTd problem id = none) →
    dealOneSubmission fails t q td = (ok, done, u) → Elsewhere problem s u

theorem Elsewhere.trusted (h : Elsewhere problem s t) :
    Trusted t problem next ↔ Trusted s problem next := by
  induction h with
  | refl => rfl
  | @deal t u fails q td ok done _ ne apart' dealt ih =>
    rw [← ih]
    obtain ⟨links, files, rows⟩ := apart dealt ne
    have orig (id : Int) : u.origTd problem id = t.origTd problem id := rows id (apart' id)
    have current (item : TdItem) : Current u problem item ↔ Current t problem item := by
      simp only [Current, orig]
    have inPlace (item : TdItem) (i : Nat) : InPlace u problem item i ↔ InPlace t problem item i := by
      simp only [InPlace, orig]
    have file {item : TdItem} (now : Current t problem item) (side : Bool) :
        u.files.lookup ⟨item.id, side, false⟩ = t.files.lookup ⟨item.id, side, false⟩ := by
      obtain ⟨row, found, _⟩ := now
      apply files item.id side
      · rw [found]
        rfl
      · intro listed
        rw [apart' item.id listed] at found
        cases found
    simp only [Trusted, current, inPlace]
    constructor
    · intro trusted i item here side
      obtain ⟨version, target⟩ := trusted i item here side
      refine ⟨fun now => ?_, fun now => ?_⟩
      · rw [← file now]
        exact version now
      · rw [← links _ rfl]
        exact target now
    · intro trusted i item here side
      obtain ⟨version, target⟩ := trusted i item here side
      refine ⟨fun now => ?_, fun now => ?_⟩
      · rw [file now]
        exact version now
      · rw [links _ rfl]
        exact target now

/-- After an update that failed with its first `n` calls performed, the next one that succeeds
gets everything right if and only if those calls spared what it trusts. -/
theorem recovers_iff {fails fails' : Nat → Bool} {n : Nat} {v : Disk} {done : List Call}
    (truthful : Truthful s problem) (distinct : (td.map TdItem.id).Nodup)
    (distinct' : (next.map TdItem.id).Nodup)
    (failed : dealOneSubmission fails s problem td = (false, (dealCalls s problem td).take n, t))
    (elsewhere : Elsewhere problem t u)
    (succeeded : dealOneSubmission fails' u problem next = (true, done, v)) :
    Right v problem next ↔ Spared s problem ((dealCalls s problem td).take n) next := by
  obtain ⟨rest, w, calls, all, _, more, rows, links, files⟩ := perform_done failed
  have same : Trusted t problem next ↔ Trusted w problem next := by
    simp only [Trusted, Current, InPlace, Disk.origTd, rows, links, files]
  rw [right_iff_trusted distinct' (perform_all succeeded), elsewhere.trusted, same]
  exact trusted_iff_spared truthful distinct calls (more rfl) all

instance : Decidable (Truthful s problem) :=
  decidable_of_iff (∀ id ∈ s.origIds problem, ∀ row ∈ s.origTd problem id, ∀ side,
      s.files.lookup ⟨id, side, false⟩ = some (.version row.timestamp) ∧
      s.links.lookup ⟨problem, row.order, side⟩ = some ⟨id, side, false⟩) (by
    constructor
    · intro h id row found
      apply h id _ row found
      simp only [Disk.origIds, List.mem_filter, found, Option.isSome_some, and_true]
      exact AList.mem_keys.mp (AList.lookup_isSome.mp (by rw [(Option.filter_eq_some_iff.mp found).1]; rfl))
    · exact fun h id _ row found => h id row found)

section Runs

def stored (s : Disk) (problem : Int) (td : List TdItem) : Disk :=
  (dealOneSubmission (fun _ => false) s problem td).2.2

def twoStored : Disk := stored .empty 1 [plain 5 1, plain 6 1]

/-- The second rename of a new version of 5 fails. -/
def halfRenamed : Disk :=
  (dealOneSubmission (· == 4) twoStored 1 [plain 5 2, plain 6 1]).2.2

/-- The same list again, after an update of another problem. -/
theorem recovers_iff_renamed :
    Right (stored (stored halfRenamed 2 [plain 7 1]) 1 [plain 5 2, plain 6 1]) 1
      [plain 5 2, plain 6 1] := by
  have failed : dealOneSubmission (· == 4) twoStored 1 [plain 5 2, plain 6 1] =
      (false, (dealCalls twoStored 1 [plain 5 2, plain 6 1]).take 4, halfRenamed) := by
    apply Prod.ext _ (Prod.ext _ rfl) <;> decide +kernel
  have other : dealOneSubmission (fun _ => false) halfRenamed 2 [plain 7 1] =
      (true, dealCalls halfRenamed 2 [plain 7 1], stored halfRenamed 2 [plain 7 1]) := by
    apply Prod.ext _ (Prod.ext _ rfl) <;> decide +kernel
  have again : dealOneSubmission (fun _ => false) (stored halfRenamed 2 [plain 7 1]) 1
      [plain 5 2, plain 6 1] =
        (true, dealCalls (stored halfRenamed 2 [plain 7 1]) 1 [plain 5 2, plain 6 1],
          stored (stored halfRenamed 2 [plain 7 1]) 1 [plain 5 2, plain 6 1]) := by
    apply Prod.ext _ (Prod.ext _ rfl) <;> decide +kernel
  have elsewhere : Elsewhere 1 halfRenamed (stored halfRenamed 2 [plain 7 1]) :=
    .deal .refl (by decide) (by decide +kernel) other
  apply (recovers_iff (by decide +kernel) (by decide) (by decide) failed elsewhere again).mpr
  decide +kernel

/-- The files of 5 are removed, then a link fails; the list that was in force finds its row. -/
theorem removed_before_failure :
    let failed := dealOneSubmission (· == 4) twoStored 1 [plain 6 1]
    let next := dealOneSubmission (fun _ => false) failed.2.2 1 [plain 5 1, plain 6 1]
    Truthful twoStored 1 ∧ failed.1 = false ∧ next.1 = true ∧
      ¬ Right next.2.2 1 [plain 5 1, plain 6 1] := by
  decide +kernel

end Runs

end TiojJudge.TestdataStore
