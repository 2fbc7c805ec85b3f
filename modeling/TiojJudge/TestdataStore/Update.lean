import Mathlib.Data.List.Nodup
import TiojJudge.TestdataStore.Model

/-!
# One update of the store

* `runAll`: calls that all succeed; `perform_done`: what a call of
  `DealOneSubmission` performed;
* `Call.touches`, `Call.relinks`: which files and links a call can change, with
  the frame lemmas for all others;
* `Right`: the links and files of a list of testdata are there;
* `Trusted`: what the comparison takes from the rows is so on the disk;
* `right_iff_trusted`: a call that succeeds gets everything right if and only if
  what it trusts is so.
-/

namespace TiojJudge.TestdataStore

def runAll : List Call → Disk → Option Disk
  | [], s => some s
  | c :: cs, s => (c.run s).bind (runAll cs)

variable {s t u : Disk} {cs ds : List Call} {problem : Int} {td : List TdItem}

theorem runAll_append : runAll (cs ++ ds) s = some t ↔
    ∃ u, runAll cs s = some u ∧ runAll ds u = some t := by
  induction cs generalizing s with
  | nil => simp [runAll]
  | cons c cs ih =>
    simp only [List.cons_append, runAll, Option.bind_eq_some_iff, ih]
    constructor
    · rintro ⟨v, first, u, rest, last⟩
      exact ⟨u, ⟨v, first, rest⟩, last⟩
    · rintro ⟨u, ⟨v, first, rest⟩, last⟩
      exact ⟨v, first, u, rest, last⟩

/-- The calls performed so far are some at the front; one that fails may leave a broken
download. -/
theorem perform_done {fails : Nat → Bool} {n : Nat} {ok : Bool} {done : List Call}
    (h : perform fails n cs s = (ok, done, t)) :
    ∃ rest u, cs = done ++ rest ∧ runAll done s = some u ∧ (ok = true → rest = [] ∧ t = u) ∧
      (ok = false → rest ≠ []) ∧ t.rows = u.rows ∧ t.links = u.links ∧
      ∀ id side, t.files.lookup ⟨id, side, false⟩ = u.files.lookup ⟨id, side, false⟩ := by
  induction cs generalizing s n ok done with
  | nil =>
    cases h
    exact ⟨[], _, rfl, rfl, fun _ => ⟨rfl, rfl⟩, nofun, rfl, rfl, fun _ _ => rfl⟩
  | cons c cs ih =>
    simp only [perform] at h
    split at h
    · cases h
      refine ⟨c :: cs, s, rfl, rfl, nofun, fun _ => List.cons_ne_nil _ _, ?_⟩
      cases c with
      | download id isInput updatedAt =>
        refine ⟨rfl, rfl, fun id' side => ?_⟩
        simp [Call.spoil]
      | _ => exact ⟨rfl, rfl, fun _ _ => rfl⟩
    · split at h
      · cases h
        exact ⟨c :: cs, _, rfl, rfl, nofun, fun _ => List.cons_ne_nil _ _, rfl, rfl, fun _ _ => rfl⟩
      · rename_i u now
        generalize later : perform fails (n + 1) cs u = out at h
        obtain ⟨ok', done', t'⟩ := out
        cases h
        obtain ⟨rest, v, rfl, all, finished⟩ := ih later
        exact ⟨rest, v, rfl, Option.bind_eq_some_iff.mpr ⟨u, now, all⟩, finished⟩

theorem perform_all {fails : Nat → Bool} {n : Nat} {done : List Call}
    (h : perform fails n cs s = (true, done, t)) : runAll cs s = some t := by
  obtain ⟨rest, u, rfl, all, finished, _⟩ := perform_done h
  obtain ⟨rfl, rfl⟩ := finished rfl
  rw [List.append_nil]
  exact all

/-! ## What a call changes -/

/-- The call can change what is at the path. -/
def Call.touches (path : PoolPath) : Call → Bool
  | .download id isInput _ => path == ⟨id, isInput, true⟩
  | .rename id isInput => path == ⟨id, isInput, true⟩ || path == ⟨id, isInput, false⟩
  | .removeFile id isInput => path == ⟨id, isInput, false⟩
  | _ => false

def Call.relinks (path : LinkPath) : Call → Bool
  | .removeLink p | .createSymlink p _ => path == p
  | _ => false

theorem run_file {c : Call} {path : PoolPath} (h : c.run s = some t) (other : c.touches path = false) :
    t.files.lookup path = s.files.lookup path := by
  cases c with
  | rename id isInput =>
    obtain ⟨content, _, rfl⟩ := Option.map_eq_some_iff.mp h
    simp only [Call.touches, Bool.or_eq_false_iff, beq_eq_false_iff_ne] at other
    simp only [UMap.lookup_insert_eq, UMap.lookup_erase_eq, other.1, other.2, if_false]
  | createSymlink p id =>
    simp only [Call.run] at h
    split at h
    · cases h
    · cases h
      rfl
  | download id isInput updatedAt =>
    cases h
    simp only [Call.touches, beq_eq_false_iff_ne] at other
    simp only [UMap.lookup_insert_eq, other, if_false]
  | removeFile id isInput =>
    cases h
    simp only [Call.touches, beq_eq_false_iff_ne] at other
    simp only [UMap.lookup_erase_eq, other, if_false]
  | createDirs | removeLink | updateTd =>
    cases h
    rfl

theorem run_link {c : Call} {path : LinkPath} (h : c.run s = some t) (other : c.relinks path = false) :
    t.links.lookup path = s.links.lookup path := by
  cases c with
  | rename id isInput =>
    obtain ⟨content, _, rfl⟩ := Option.map_eq_some_iff.mp h
    rfl
  | createSymlink p id =>
    simp only [Call.relinks, beq_eq_false_iff_ne] at other
    simp only [Call.run] at h
    split at h
    · cases h
    · cases h
      simp only [UMap.lookup_insert_eq, other, if_false]
  | removeLink p =>
    cases h
    simp only [Call.relinks, beq_eq_false_iff_ne] at other
    simp only [UMap.lookup_erase_eq, other, if_false]
  | download | removeFile | createDirs | updateTd =>
    cases h
    rfl

theorem runAll_file {path : PoolPath} (h : runAll cs s = some t)
    (other : ∀ c ∈ cs, c.touches path = false) : t.files.lookup path = s.files.lookup path := by
  induction cs generalizing s with
  | nil =>
    cases h
    rfl
  | cons c cs ih =>
    obtain ⟨u, first, rest⟩ := Option.bind_eq_some_iff.mp h
    rw [ih rest fun d hd => other d (.tail _ hd), run_file first (other c (.head _))]

theorem runAll_link {path : LinkPath} (h : runAll cs s = some t)
    (other : ∀ c ∈ cs, c.relinks path = false) : t.links.lookup path = s.links.lookup path := by
  induction cs generalizing s with
  | nil =>
    cases h
    rfl
  | cons c cs ih =>
    obtain ⟨u, first, rest⟩ := Option.bind_eq_some_iff.mp h
    rw [ih rest fun d hd => other d (.tail _ hd), run_link first (other c (.head _))]

/-! ## Comparison -/

/-- The row has the item's `updated_at`: its files are not downloaded. -/
def Current (s : Disk) (problem : Int) (item : TdItem) : Prop :=
  ∃ row, s.origTd problem item.id = some row ∧ row.timestamp = item.updatedAt

/-- The row has the item's position: its links are not replaced. -/
def InPlace (s : Disk) (problem : Int) (item : TdItem) (i : Nat) : Prop :=
  ∃ row, s.origTd problem item.id = some row ∧ row.order = i

theorem mem_toDownload {id : Int} : id ∈ toDownload s problem td ↔
    ∃ item ∈ td, item.id = id ∧ ¬ Current s problem item := by
  simp only [toDownload, List.mem_map, List.mem_filter]
  constructor
  · rintro ⟨item, ⟨here, differs⟩, rfl⟩
    refine ⟨item, here, rfl, ?_⟩
    rintro ⟨row, found, same⟩
    simp [found, same] at differs
  · rintro ⟨item, here, rfl, differs⟩
    refine ⟨item, ⟨here, ?_⟩, rfl⟩
    cases found : s.origTd problem item.id with
    | none => rfl
    | some row => exact bne_iff_ne.mpr fun same => differs ⟨row, found, same⟩

theorem mem_toUpdatePosition {i : Nat} {id : Int} : (i, id) ∈ toUpdatePosition s problem td ↔
    ∃ item, td[i]? = some item ∧ item.id = id ∧ ¬ InPlace s problem item i := by
  simp only [toUpdatePosition, List.mem_map, List.mem_filter, Prod.exists, Prod.mk.injEq,
    List.mk_mem_zipIdx_iff_getElem?]
  constructor
  · rintro ⟨item, j, ⟨here, differs⟩, rfl, rfl⟩
    refine ⟨item, here, rfl, ?_⟩
    rintro ⟨row, found, same⟩
    simp [found, same] at differs
  · rintro ⟨item, here, rfl, differs⟩
    refine ⟨item, i, ⟨here, ?_⟩, rfl, rfl⟩
    cases found : s.origTd problem item.id with
    | none => rfl
    | some row => exact bne_iff_ne.mpr fun same => differs ⟨row, found, same⟩

theorem insertMetas_lookup (entries : List (TdItem × Nat)) (metas : UMap Int Testdata) (id : Int) :
    (entries.foldl (insertMeta problem) metas).lookup id = (metas.lookup id).or
      ((entries.find? fun entry => entry.1.id == id).map fun entry => entry.1.meta problem entry.2) := by
  induction entries generalizing metas with
  | nil => simp
  | cons entry entries ih =>
    rw [List.foldl_cons, ih, insertMeta, List.find?_cons]
    by_cases here : entry.1.id = id
    · subst here
      cases old : metas.lookup entry.1.id with
      | none => simp [AList.lookup_eq_none.mp old]
      | some row =>
        have known : entry.1.id ∈ metas := AList.lookup_isSome.mp (by rw [old]; rfl)
        simp [known, old]
    · have other : (entry.1.id == id) = false := beq_eq_false_iff_ne.mpr here
      rw [other]
      split
      · rfl
      · rw [UMap.lookup_insert_eq, if_neg (Ne.symm here)]

/-- Ids stand at one position. -/
theorem same_position (distinct : (td.map TdItem.id).Nodup) {i j : Nat} {a b : TdItem}
    (ha : td[i]? = some a) (hb : td[j]? = some b) (same : a.id = b.id) : i = j ∧ a = b := by
  have bound : i < (td.map TdItem.id).length := by
    rw [List.length_map]
    exact (List.getElem?_eq_some_iff.mp ha).1
  have ids : (td.map TdItem.id)[i]? = (td.map TdItem.id)[j]? := by
    rw [List.getElem?_map, List.getElem?_map, ha, hb, Option.map_some, Option.map_some, same]
  obtain rfl := (List.getElem?_inj bound distinct).mp ids
  exact ⟨rfl, Option.some.inj (ha.symm.trans hb)⟩

theorem newMeta_lookup (distinct : (td.map TdItem.id).Nodup) {i : Nat} {item : TdItem}
    (here : td[i]? = some item) : (newMeta problem td).lookup item.id =
      some (item.meta problem i) := by
  have found : td.zipIdx.find? (fun entry => entry.1.id == item.id) = some (item, i) := by
    have some_ : (td.zipIdx.find? fun entry => entry.1.id == item.id).isSome = true := by
      rw [List.find?_isSome]
      exact ⟨(item, i), List.mk_mem_zipIdx_iff_getElem?.mpr here, beq_self_eq_true _⟩
    obtain ⟨⟨other, j⟩, first⟩ := Option.isSome_iff_exists.mp some_
    have same : other.id = item.id := by simpa using List.find?_some first
    have there := List.mk_mem_zipIdx_iff_getElem?.mp (List.mem_of_find?_eq_some first)
    obtain ⟨rfl, rfl⟩ := same_position distinct there here same
    exact first
  rw [newMeta, insertMetas_lookup, found]
  rfl

theorem newMeta_problem {id : Int} {row : Testdata} (h : (newMeta problem td).lookup id = some row) :
    row.problemId = problem := by
  rw [newMeta, insertMetas_lookup, AList.lookup_empty, Option.none_or] at h
  obtain ⟨entry, _, rfl⟩ := Option.map_eq_some_iff.mp h
  rfl

theorem mem_newMeta {id : Int} : id ∈ newMeta problem td ↔ id ∈ td.map TdItem.id := by
  rw [← AList.lookup_isSome, newMeta, insertMetas_lookup, AList.lookup_empty, Option.none_or,
    Option.isSome_map, List.find?_isSome, List.mem_map]
  constructor
  · rintro ⟨⟨item, i⟩, here, same⟩
    exact ⟨item, List.mem_of_getElem? (List.mk_mem_zipIdx_iff_getElem?.mp here), by simpa using same⟩
  · rintro ⟨item, here, rfl⟩
    obtain ⟨i, at_i⟩ := List.mem_iff_getElem?.mp here
    exact ⟨(item, i), List.mk_mem_zipIdx_iff_getElem?.mpr at_i, beq_self_eq_true _⟩

theorem mem_toDelete {id : Int} : id ∈ toDelete s problem td ↔
    (s.origTd problem id).isSome = true ∧ id ∉ td.map TdItem.id := by
  simp only [toDelete, Disk.origIds, List.mem_filter, decide_eq_true_eq, mem_newMeta]
  constructor
  · rintro ⟨⟨_, known⟩, gone⟩
    exact ⟨known, gone⟩
  · rintro ⟨known, gone⟩
    refine ⟨⟨?_, known⟩, gone⟩
    obtain ⟨row, found⟩ := Option.isSome_iff_exists.mp known
    exact AList.mem_keys.mp (AList.lookup_isSome.mp (by rw [(Option.filter_eq_some_iff.mp found).1]; rfl))

/-! ## The parts of an update -/

section Parts

variable {metas : UMap Int Testdata} {ids : List Int} {positions : List (Nat × Int)} {c : Call}
  {path : PoolPath} {link : LinkPath} {m n : Nat}

/-- Downloads, renames and deletes leave the links alone. -/
theorem files_relink {ids' ids'' : List Int}
    (h : c ∈ downloads metas ids ++ renames ids' ++ deletes ids'') : c.relinks link = false := by
  simp only [downloads, renames, deletes, List.mem_append, List.mem_flatMap, List.mem_cons,
    List.not_mem_nil, or_false] at h
  rcases h with (⟨_, _, rfl | rfl | rfl⟩ | ⟨_, _, rfl | rfl⟩) | ⟨_, _, rfl | rfl⟩ <;> rfl

theorem downloads_touches (h : c ∈ downloads metas ids) (touches : c.touches path = true) :
    path.isTemp = true ∧ path.id ∈ ids := by
  obtain ⟨id, here, h⟩ := List.mem_flatMap.mp h
  simp only [List.mem_cons, List.not_mem_nil, or_false] at h
  rcases h with rfl | rfl | rfl
  · cases touches
  all_goals
    obtain rfl := beq_iff_eq.mp touches
    exact ⟨rfl, here⟩

theorem renames_touches (h : c ∈ renames ids) (touches : c.touches path = true) : path.id ∈ ids := by
  obtain ⟨id, here, h⟩ := List.mem_flatMap.mp h
  simp only [List.mem_cons, List.not_mem_nil, or_false] at h
  rcases h with rfl | rfl
  all_goals
    simp only [Call.touches, Bool.or_eq_true, beq_iff_eq] at touches
    rcases touches with rfl | rfl <;> exact here

theorem deletes_touches (h : c ∈ deletes ids) (touches : c.touches path = true) :
    path.isTemp = false ∧ path.id ∈ ids := by
  obtain ⟨id, here, h⟩ := List.mem_flatMap.mp h
  simp only [List.mem_cons, List.not_mem_nil, or_false] at h
  rcases h with rfl | rfl
  all_goals
    obtain rfl := beq_iff_eq.mp touches
    exact ⟨rfl, here⟩

theorem relinks_touches (h : c ∈ relinks problem positions) : c.touches path = false := by
  obtain ⟨⟨order, id⟩, here, h⟩ := List.mem_flatMap.mp h
  simp only [List.mem_cons, List.not_mem_nil, or_false] at h
  rcases h with rfl | rfl | rfl | rfl <;> rfl

theorem relinks_relinks (h : c ∈ relinks problem positions) (again : c.relinks link = true) :
    link.problem = problem ∧ ∃ id, (link.order, id) ∈ positions := by
  obtain ⟨⟨order, id⟩, here, h⟩ := List.mem_flatMap.mp h
  simp only [List.mem_cons, List.not_mem_nil, or_false] at h
  rcases h with rfl | rfl | rfl | rfl
  all_goals
    obtain rfl := beq_iff_eq.mp again
    exact ⟨rfl, id, here⟩

theorem unlinks_touches (h : c ∈ unlinks problem m n) : c.touches path = false := by
  obtain ⟨order, _, h⟩ := List.mem_flatMap.mp h
  simp only [List.mem_cons, List.not_mem_nil, or_false] at h
  rcases h with rfl | rfl <;> rfl

theorem unlinks_relinks (h : c ∈ unlinks problem m n) (again : c.relinks link = true) :
    link.problem = problem ∧ m ≤ link.order ∧ link.order < n := by
  obtain ⟨order, here, h⟩ := List.mem_flatMap.mp h
  rw [List.mem_range'_1] at here
  simp only [List.mem_cons, List.not_mem_nil, or_false] at h
  rcases h with rfl | rfl
  all_goals
    obtain rfl := beq_iff_eq.mp again
    refine ⟨rfl, here.1, ?_⟩
    dsimp only
    omega

/-- What was downloaded waits to be renamed. -/
theorem downloads_waiting (h : runAll (downloads metas ids) s = some t) {id : Int} (here : id ∈ ids)
    (side : Bool) : t.files.lookup ⟨id, side, true⟩ =
      some (.version (((metas.lookup id).map Testdata.timestamp).getD 0)) := by
  induction ids generalizing s with
  | nil => cases here
  | cons first ids ih =>
    rw [downloads, List.flatMap_cons, ← downloads] at h
    obtain ⟨u, now, rest⟩ := runAll_append.mp h
    by_cases later : id ∈ ids
    · exact ih rest later
    · obtain rfl := (List.mem_cons.mp here).resolve_right later
      rw [runAll_file rest fun c hc => Bool.eq_false_iff.mpr fun touches =>
        later (downloads_touches hc touches).2]
      cases now
      cases side <;> simp

/-- What waited is in the pool. -/
theorem renames_done {version : Int → Content} (h : runAll (renames ids) s = some t)
    (distinct : ids.Nodup)
    (waiting : ∀ id ∈ ids, ∀ side, s.files.lookup ⟨id, side, true⟩ = some (version id)) :
    ∀ id ∈ ids, ∀ side, t.files.lookup ⟨id, side, false⟩ = some (version id) := by
  induction ids generalizing s with
  | nil => exact fun _ here => absurd here List.not_mem_nil
  | cons first ids ih =>
    rw [renames, List.flatMap_cons, ← renames] at h
    obtain ⟨u, now, rest⟩ := runAll_append.mp h
    obtain ⟨fresh, distinct⟩ := List.nodup_cons.mp distinct
    have others {path : PoolPath} (other : path.id ≠ first) :
        u.files.lookup path = s.files.lookup path := by
      apply runAll_file now
      intro c hc
      apply Bool.eq_false_iff.mpr
      intro touches
      have here : c ∈ renames [first] := by simpa [renames] using hc
      exact other (List.mem_singleton.mp (renames_touches here touches))
    have moved (side : Bool) : u.files.lookup ⟨first, side, false⟩ = some (version first) := by
      simp only [runAll, Call.run, waiting first (.head _) true, Option.map_some, Option.bind_some,
        UMap.lookup_insert_eq, UMap.lookup_erase_eq, PoolPath.mk.injEq, Bool.false_eq_true,
        Bool.true_eq_false, and_false, false_and, if_false, waiting first (.head _) false,
        Option.some.injEq] at now
      subst now
      cases side <;> simp
    intro id here side
    rcases List.mem_cons.mp here with rfl | later
    · rw [runAll_file rest fun c hc => Bool.eq_false_iff.mpr fun touches =>
        fresh (renames_touches hc touches)]
      exact moved side
    · apply ih rest distinct _ id later side
      intro id' here' side'
      rw [others fun same => fresh (same ▸ here')]
      exact waiting id' (.tail _ here') side'

/-- The links of the positions that changed are replaced. -/
theorem relinks_done (h : runAll (relinks problem positions) s = some t)
    (distinct : (positions.map Prod.fst).Nodup) {order : Nat} {id : Int}
    (here : (order, id) ∈ positions) (side : Bool) :
    t.links.lookup ⟨problem, order, side⟩ = some ⟨id, side, false⟩ := by
  induction positions generalizing s with
  | nil => cases here
  | cons first positions ih =>
    rw [relinks, List.flatMap_cons, ← relinks] at h
    obtain ⟨u, now, rest⟩ := runAll_append.mp h
    obtain ⟨fresh, distinct⟩ := List.nodup_cons.mp distinct
    rcases List.mem_cons.mp here with rfl | later
    · have kept : t.links.lookup ⟨problem, order, side⟩ = u.links.lookup ⟨problem, order, side⟩ := by
        apply runAll_link rest
        intro c hc
        apply Bool.eq_false_iff.mpr
        intro again
        obtain ⟨_, id', there⟩ := relinks_relinks hc again
        exact fresh (List.mem_map.mpr ⟨_, there, rfl⟩)
      rw [kept]
      simp only [runAll, Call.run, Option.bind_fun_some, Option.bind_some, AList.mem_erase,
        AList.mem_insert, LinkPath.mk.injEq, Bool.true_eq_false, Bool.false_eq_true, ne_eq, and_false,
        false_and, not_true_eq_false, or_self, if_false, Option.some.injEq] at now
      subst now
      cases side <;> simp
    · exact ih rest distinct later

/-- A link that is removed and not made again is not there. -/
theorem runAll_unlinked (h : runAll cs s = some t) (made : ∀ id, .createSymlink link id ∉ cs)
    (gone : s.links.lookup link = none ∨ .removeLink link ∈ cs) : t.links.lookup link = none := by
  induction cs generalizing s with
  | nil =>
    cases h
    exact gone.resolve_right List.not_mem_nil
  | cons c cs ih =>
    obtain ⟨u, now, rest⟩ := Option.bind_eq_some_iff.mp h
    apply ih rest fun id hid => made id (.tail _ hid)
    by_cases removes : c = .removeLink link
    · subst removes
      cases now
      exact .inl (AList.lookup_erase _ _)
    · rcases gone with none | later
      · by_cases relinks : c.relinks link = true
        · cases c <;> try cases relinks
          · obtain rfl := beq_iff_eq.mp relinks
            exact absurd rfl removes
          · obtain rfl := beq_iff_eq.mp relinks
            exact absurd (.head _) (made _)
        · rw [run_link now (Bool.eq_false_iff.mpr relinks)]
          exact .inl none
      · exact .inr ((List.mem_cons.mp later).resolve_left (Ne.symm removes))

theorem unlinks_done (h : runAll (unlinks problem m n) s = some t) {order : Nat} (low : m ≤ order)
    (high : order < n) (side : Bool) : t.links.lookup ⟨problem, order, side⟩ = none := by
  apply runAll_unlinked h
  · intro id made
    obtain ⟨i, _, here⟩ := List.mem_flatMap.mp made
    simp at here
  · refine .inr (List.mem_flatMap.mpr ⟨order, List.mem_range'_1.mpr ⟨low, by omega⟩, ?_⟩)
    cases side
    · exact .tail _ (.head _)
    · exact .head _

end Parts

/-! ## The whole update -/

/-- What an update that succeeds makes of the store. -/
structure Updated (s : Disk) (problem : Int) (td : List TdItem) (t : Disk) : Prop where
  replaced : ∀ item ∈ td, ¬ Current s problem item → ∀ side,
    t.files.lookup ⟨item.id, side, false⟩ = some (.version item.updatedAt)
  kept : ∀ id, id ∉ toDownload s problem td → id ∉ toDelete s problem td → ∀ side,
    t.files.lookup ⟨id, side, false⟩ = s.files.lookup ⟨id, side, false⟩
  linked : ∀ i item, td[i]? = some item → ¬ InPlace s problem item i → ∀ side,
    t.links.lookup ⟨problem, i, side⟩ = some ⟨item.id, side, false⟩
  inPlace : ∀ i item, td[i]? = some item → InPlace s problem item i → ∀ side,
    t.links.lookup ⟨problem, i, side⟩ = s.links.lookup ⟨problem, i, side⟩
  unlinked : ∀ i, td.length ≤ i → i < s.origTdCount problem → ∀ side,
    t.links.lookup ⟨problem, i, side⟩ = none
  beyond : ∀ i, td.length ≤ i → s.origTdCount problem ≤ i → ∀ side,
    t.links.lookup ⟨problem, i, side⟩ = s.links.lookup ⟨problem, i, side⟩
  other : ∀ path : LinkPath, path.problem ≠ problem → t.links.lookup path = s.links.lookup path
  rows : t.rows = replaceRange s.rows
    ((newMeta problem td).entries.map fun entry => (entry.1, entry.2))

theorem run_rows {c : Call} (h : c.run s = some t) (other : ∀ td, c ≠ .updateTd td) :
    t.rows = s.rows := by
  cases c with
  | rename id isInput =>
    obtain ⟨content, _, rfl⟩ := Option.map_eq_some_iff.mp h
    rfl
  | createSymlink p id =>
    simp only [Call.run] at h
    split at h
    · cases h
    · cases h
      rfl
  | updateTd td => exact absurd rfl (other td)
  | download | removeFile | createDirs | removeLink =>
    cases h
    rfl

theorem runAll_rows (h : runAll cs s = some t) (other : ∀ td, .updateTd td ∉ cs) : t.rows = s.rows := by
  induction cs generalizing s with
  | nil =>
    cases h
    rfl
  | cons c cs ih =>
    obtain ⟨u, first, rest⟩ := Option.bind_eq_some_iff.mp h
    rw [ih rest fun td hd => other td (.tail _ hd)]
    apply run_rows first
    rintro td rfl
    exact other td (.head _)

/-- A row that is written takes the place of the one with its key. -/
theorem replaceRange_lookup (metas : UMap Int Testdata) (rows : UMap Int Testdata) (id : Int) :
    (replaceRange rows (metas.entries.map fun entry => (entry.1, entry.2))).lookup id =
      (metas.lookup id).or (rows.lookup id) := by
  obtain ⟨entries, distinct⟩ := metas
  simp only [AList.lookup]
  induction entries generalizing rows with
  | nil => rfl
  | cons entry entries ih =>
    obtain ⟨fresh, distinct⟩ := List.nodupKeys_cons.mp distinct
    have rest := ih (rows.insert entry.1 entry.2) distinct
    rw [replaceRange, List.map_cons, List.foldl_cons, ← replaceRange]
    by_cases here : id = entry.1
    · subst here
      have absent : entries.dlookup entry.1 = none := List.dlookup_eq_none.mpr fresh
      rw [show _ = _ from rest, absent, List.dlookup_cons_eq, Option.none_or, Option.some_or]
      exact AList.lookup_insert rows
    · rw [show _ = _ from rest, List.dlookup_cons_ne _ _ here]
      congr 1
      exact AList.lookup_insert_ne here

/-- The rows are written last. -/
theorem dealCalls_updateTd {rest done : List Call} {rows : List (Int × Testdata)}
    (calls : dealCalls s problem td = done ++ rest) (more : rest ≠ []) : .updateTd rows ∉ done := by
  intro here
  have front : done <+: (dealCalls s problem td).dropLast := by
    rw [calls, List.dropLast_append_of_ne_nil more]
    exact List.prefix_append _ _
  have early := front.subset here
  rw [dealCalls, updates, ← List.append_assoc, List.dropLast_concat] at early
  simp [downloads, renames, deletes, relinks, unlinks] at early

theorem dealCalls_rows (h : runAll (dealCalls s problem td) s = some t) :
    t.rows = replaceRange s.rows
      ((newMeta problem td).entries.map fun entry => (entry.1, entry.2)) := by
  have split : dealCalls s problem td = (dealCalls s problem td).dropLast ++
      [.updateTd ((newMeta problem td).entries.map fun entry => (entry.1, entry.2))] := by
    rw [dealCalls, updates, ← List.append_assoc, List.dropLast_concat]
  have early (rows : List (Int × Testdata)) : .updateTd rows ∉ (dealCalls s problem td).dropLast :=
    dealCalls_updateTd split (List.cons_ne_nil _ _)
  rw [split] at h
  obtain ⟨u, first, last⟩ := runAll_append.mp h
  cases last
  rw [← runAll_rows first early]

theorem nodup_toDownload (distinct : (td.map TdItem.id).Nodup) : (toDownload s problem td).Nodup :=
  distinct.sublist (List.filter_sublist.map _)

theorem nodup_toUpdatePosition : ((toUpdatePosition s problem td).map Prod.fst).Nodup := by
  have positions : (td.zipIdx.map Prod.snd).Nodup := by
    rw [List.zipIdx_map_snd]
    exact List.nodup_range'
  unfold toUpdatePosition
  rw [List.map_map]
  exact positions.sublist (List.filter_sublist.map _)

theorem updated (distinct : (td.map TdItem.id).Nodup) (h : runAll (dealCalls s problem td) s = some t) :
    Updated s problem td t := by
  obtain ⟨s₁, down, rest⟩ := runAll_append.mp h
  obtain ⟨s₅, rest, last⟩ := runAll_append.mp rest
  obtain ⟨s₄, rest, un⟩ := runAll_append.mp rest
  obtain ⟨s₃, rest, re⟩ := runAll_append.mp rest
  obtain ⟨s₂, ren, del⟩ := runAll_append.mp rest
  have before : runAll (downloads (newMeta problem td) (toDownload s problem td) ++
      renames (toDownload s problem td) ++ deletes (toDelete s problem td)) s = some s₃ :=
    runAll_append.mpr ⟨s₂, runAll_append.mpr ⟨s₁, down, ren⟩, del⟩
  cases last
  -- the files are those after the renames, but for what is deleted
  have files {path : PoolPath} (stays : path.id ∉ toDelete s problem td) :
      s₅.files.lookup path = s₂.files.lookup path := by
    rw [runAll_file un fun c hc => unlinks_touches hc,
      runAll_file re fun c hc => relinks_touches hc,
      runAll_file del fun c hc => Bool.eq_false_iff.mpr fun touches =>
        stays (deletes_touches hc touches).2]
  have links (path : LinkPath) : s₃.links.lookup path = s.links.lookup path :=
    runAll_link before fun c hc => files_relink hc
  have unlinked {path : LinkPath}
      (other : path.problem ≠ problem ∨ path.order < td.length ∨ s.origTdCount problem ≤ path.order) :
      s₅.links.lookup path = s₄.links.lookup path := by
    apply runAll_link un
    intro c hc
    apply Bool.eq_false_iff.mpr
    intro relinks
    obtain ⟨same, low, high⟩ := unlinks_relinks hc relinks
    rcases other with other | other | other
    · exact other same
    · omega
    · omega
  have relinked {path : LinkPath} (other : path.problem ≠ problem ∨
      ∀ id, (path.order, id) ∉ toUpdatePosition s problem td) :
      s₄.links.lookup path = s.links.lookup path := by
    rw [← links]
    apply runAll_link re
    intro c hc
    apply Bool.eq_false_iff.mpr
    intro relinks
    obtain ⟨same, id, here⟩ := relinks_relinks hc relinks
    exact other.elim (fun other => other same) fun none => none id here
  have inside {i : Nat} {item : TdItem} (here : td[i]? = some item) : i < td.length :=
    (List.getElem?_eq_some_iff.mp here).1
  constructor
  · intro item here differs side
    obtain ⟨i, at_i⟩ := List.mem_iff_getElem?.mp here
    have down' : item.id ∈ toDownload s problem td := mem_toDownload.mpr ⟨item, here, rfl, differs⟩
    have stays : item.id ∉ toDelete s problem td := fun gone =>
      (mem_toDelete.mp gone).2 (List.mem_map_of_mem here)
    rw [show _ = _ from files stays, renames_done ren (nodup_toDownload distinct)
      (fun id hid side => downloads_waiting down hid side) item.id down' side,
      newMeta_lookup distinct at_i]
    rfl
  · intro id same stays side
    rw [show _ = _ from files stays,
      runAll_file ren fun c hc => Bool.eq_false_iff.mpr fun touches => same (renames_touches hc touches),
      runAll_file down fun c hc => Bool.eq_false_iff.mpr fun touches =>
        same (downloads_touches hc touches).2]
  · intro i item here moved side
    rw [show _ = _ from unlinked (.inr (.inl (inside here)))]
    exact relinks_done re nodup_toUpdatePosition (mem_toUpdatePosition.mpr ⟨item, here, rfl, moved⟩) side
  · intro i item here still side
    rw [show _ = _ from unlinked (.inr (.inl (inside here)))]
    apply relinked
    refine .inr fun id moved => ?_
    obtain ⟨item', here', _, moved⟩ := mem_toUpdatePosition.mp moved
    obtain rfl := Option.some.inj (here.symm.trans here')
    exact moved still
  · intro i low high side
    exact unlinks_done un low high side
  · intro i low high side
    rw [show _ = _ from unlinked (.inr (.inr high))]
    apply relinked
    refine .inr fun id moved => ?_
    obtain ⟨item, here, _⟩ := mem_toUpdatePosition.mp moved
    exact absurd (inside here) (Nat.not_lt.mpr low)
  · intro path other
    rw [show _ = _ from unlinked (.inl other)]
    exact relinked (.inl other)
  · exact dealCalls_rows h

instance {P : Nat → TdItem → Prop} [∀ i item, Decidable (P i item)] :
    Decidable (∀ i item, td[i]? = some item → P i item) :=
  decidable_of_iff (∀ entry ∈ td.zipIdx, P entry.2 entry.1) (by
    simp only [Prod.forall, List.mk_mem_zipIdx_iff_getElem?]
    exact forall_comm)

instance (item : TdItem) : Decidable (Current s problem item) :=
  decidable_of_iff (∃ row ∈ s.origTd problem item.id, row.timestamp = item.updatedAt) Iff.rfl

instance (item : TdItem) (i : Nat) : Decidable (InPlace s problem item i) :=
  decidable_of_iff (∃ row ∈ s.origTd problem item.id, row.order = i) Iff.rfl

theorem dealCalls_relinks {c : Call} {path : LinkPath} (h : c ∈ dealCalls s problem td)
    (relinks : c.relinks path = true) : path.problem = problem := by
  rw [dealCalls, updates, ← List.append_assoc, ← List.append_assoc, ← List.append_assoc,
    ← List.append_assoc] at h
  rcases List.mem_append.mp h with h | last
  · rcases List.mem_append.mp h with h | un
    · rcases List.mem_append.mp h with early | re
      · rw [files_relink early] at relinks
        cases relinks
      · exact (relinks_relinks re relinks).1
    · exact (unlinks_relinks un relinks).1
  · obtain rfl := List.mem_singleton.mp last
    cases relinks

theorem dealCalls_touches {c : Call} {path : PoolPath} (h : c ∈ dealCalls s problem td)
    (touches : c.touches path = true) :
    path.id ∈ toDownload s problem td ∨ path.id ∈ toDelete s problem td := by
  simp only [dealCalls, updates, List.mem_append] at h
  rcases h with down | (((ren | del) | re) | un) | last
  · exact .inl (downloads_touches down touches).2
  · exact .inl (renames_touches ren touches)
  · exact .inr (deletes_touches del touches).2
  · rw [relinks_touches re] at touches
    cases touches
  · rw [unlinks_touches un] at touches
    cases touches
  · obtain rfl := List.mem_singleton.mp last
    cases touches

/-- A row is of one problem. -/
theorem origTd_unique {other id : Int} (h : (s.origTd other id).isSome = true)
    (h' : (s.origTd problem id).isSome = true) : other = problem := by
  obtain ⟨row, found⟩ := Option.isSome_iff_exists.mp h
  obtain ⟨row', found'⟩ := Option.isSome_iff_exists.mp h'
  obtain ⟨here, rfl⟩ : s.rows.lookup id = some row ∧ row.problemId = other := by
    simpa [Disk.origTd, Option.filter_eq_some_iff] using found
  obtain ⟨here', rfl⟩ : s.rows.lookup id = some row' ∧ row'.problemId = problem := by
    simpa [Disk.origTd, Option.filter_eq_some_iff] using found'
  obtain rfl := Option.some.inj (here.symm.trans here')
  rfl

/-- The update leaves alone what is another problem's. -/
theorem apart {fails : Nat → Bool} {ok : Bool} {done : List Call} {other : Int}
    (h : dealOneSubmission fails s problem td = (ok, done, t)) (ne : other ≠ problem) :
    (∀ path : LinkPath, path.problem = other → t.links.lookup path = s.links.lookup path) ∧
    (∀ id side, (s.origTd other id).isSome = true → id ∉ td.map TdItem.id →
      t.files.lookup ⟨id, side, false⟩ = s.files.lookup ⟨id, side, false⟩) ∧
    ∀ id, (id ∈ td.map TdItem.id → s.origTd other id = none) →
      t.origTd other id = s.origTd other id := by
  obtain ⟨rest, u, calls, all, finished, failed, rows, links, files⟩ := perform_done h
  have performed {c : Call} (hc : c ∈ done) : c ∈ dealCalls s problem td :=
    calls ▸ List.mem_append_left _ hc
  refine ⟨fun path away => ?_, fun id side known absent => ?_, fun id absent => ?_⟩
  · rw [links]
    apply runAll_link all
    intro c hc
    apply Bool.eq_false_iff.mpr
    intro relinks
    exact ne (away.symm.trans (dealCalls_relinks (performed hc) relinks))
  · rw [files]
    apply runAll_file all
    intro c hc
    apply Bool.eq_false_iff.mpr
    intro touches
    rcases dealCalls_touches (performed hc) touches with listed | removed
    · obtain ⟨item, here, rfl, _⟩ := mem_toDownload.mp listed
      exact absent (List.mem_map_of_mem here)
    · exact ne (origTd_unique known (mem_toDelete.mp removed).1)
  · cases ok with
    | false =>
      rw [Disk.origTd, rows, runAll_rows all fun _ => dealCalls_updateTd calls (failed rfl)]
      rfl
    | true =>
      obtain ⟨rfl, rfl⟩ := finished rfl
      rw [List.append_nil] at calls
      rw [Disk.origTd, dealCalls_rows (calls ▸ all), replaceRange_lookup]
      cases new : (newMeta problem td).lookup id with
      | none => rfl
      | some row =>
        have listed := mem_newMeta.mp (AList.lookup_isSome.mp (by rw [new]; rfl))
        rw [absent listed, Option.some_or, Option.filter_some, newMeta_problem new]
        exact if_neg fun same => ne (beq_iff_eq.mp same).symm

/-- The links at all positions lead to the files of the testdata, in their versions. -/
def Right (s : Disk) (problem : Int) (td : List TdItem) : Prop :=
  ∀ i item, td[i]? = some item → ∀ side,
    s.links.lookup ⟨problem, i, side⟩ = some ⟨item.id, side, false⟩ ∧
    s.files.lookup ⟨item.id, side, false⟩ = some (.version item.updatedAt)

/-- What the comparison takes from the rows is so on the disk. -/
def Trusted (s : Disk) (problem : Int) (td : List TdItem) : Prop :=
  ∀ i item, td[i]? = some item → ∀ side,
    (Current s problem item →
      s.files.lookup ⟨item.id, side, false⟩ = some (.version item.updatedAt)) ∧
    (InPlace s problem item i →
      s.links.lookup ⟨problem, i, side⟩ = some ⟨item.id, side, false⟩)

instance : Decidable (Right s problem td) := by
  unfold Right
  infer_instance

theorem right_iff_trusted (distinct : (td.map TdItem.id).Nodup)
    (h : runAll (dealCalls s problem td) s = some t) : Right t problem td ↔ Trusted s problem td := by
  have up := updated distinct h
  have files {i : Nat} {item : TdItem} (here : td[i]? = some item) (side : Bool)
      (current : Current s problem item) : t.files.lookup ⟨item.id, side, false⟩ =
        s.files.lookup ⟨item.id, side, false⟩ := by
    apply up.kept
    · intro down
      obtain ⟨item', here', same, differs⟩ := mem_toDownload.mp down
      obtain ⟨j, at_j⟩ := List.mem_iff_getElem?.mp here'
      obtain ⟨_, rfl⟩ := same_position distinct at_j here same
      exact differs current
    · intro gone
      exact (mem_toDelete.mp gone).2 (List.mem_map_of_mem (List.mem_of_getElem? here))
  constructor
  · intro right i item here side
    obtain ⟨link, file⟩ := right i item here side
    refine ⟨fun current => ?_, fun still => ?_⟩
    · rw [← files here side current]
      exact file
    · rw [← up.inPlace i item here still]
      exact link
  · intro trusted i item here side
    obtain ⟨file, link⟩ := trusted i item here side
    constructor
    · by_cases still : InPlace s problem item i
      · rw [up.inPlace i item here still]
        exact link still
      · exact up.linked i item here still side
    · by_cases current : Current s problem item
      · rw [files here side current]
        exact file current
      · exact up.replaced item (List.mem_of_getElem? here) current side

end TiojJudge.TestdataStore
