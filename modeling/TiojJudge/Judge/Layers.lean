import TiojJudge.Arrangement
import TiojJudge.Judge.Testdata

/-!
# The layers of the testdata

When groups are skipped, `PushSubmission` puts each testdata into the first layer
that lacks one of its groups, found by `std::lower_bound`, and orders the testdata
by their layers.

* `insertTestdata`, `layering`: the loop, and the layers after some of its rounds;
* `layering_nested`: each layer holds the groups of the next one, after any number
  of rounds, so that `searchLayer_eq` the search finds the first layer;
* `pushOrder_layered`: the order that follows;
* `tdOrder_eq`, `taskOrder_layered`: it is the one of the plan, and of its tasks.
-/

namespace TiojJudge.Judge

/-- Each layer holds the groups of those after it. -/
def Nested (layers : List (Finset Int)) : Prop := layers.Pairwise fun layer next => next ⊆ layer

/-- `std::lower_bound` over `group_layers`. -/
def searchLayer (layers : List (Finset Int)) (groups : List Int) : Nat :=
  lowerBound (fun layer => groups.all (· ∈ layer)) layers

/-- The groups are inserted into the layer at `pos`, a new one at the end. -/
def insertGroups (layers : List (Finset Int)) (groups : List Int) (pos : Nat) :
    List (Finset Int) :=
  (if pos = layers.length then layers ++ [∅] else layers).modify pos (· ∪ groups.toFinset)

namespace Submission

variable (sub : Submission)

def groupsOf (td : Nat) : List Int := ((sub.testdata[td]?).map TestdataItem.tdGroups).getD []

/-- One round: `group_layers` and `td_layer`. -/
def insertTestdata (acc : List (Finset Int) × List Nat) (td : Nat) :
    List (Finset Int) × List Nat :=
  let groups := sub.groupsOf td
  let pos := searchLayer acc.1 groups
  (insertGroups acc.1 groups pos, acc.2.set td pos)

/-- The rounds for some testdata. -/
def layering (tds : List Nat) : List (Finset Int) × List Nat :=
  tds.foldl sub.insertTestdata ([], List.replicate sub.numTds 0)

/-- The testdata with more groups first. -/
def scanOrder : List Nat :=
  (List.range sub.numTds).insertionSort fun a b =>
    ((sub.testdata[b]?).map fun item => item.tdGroups.length).getD 0 ≤
      ((sub.testdata[a]?).map fun item => item.tdGroups.length).getD 0

/-- `td_layer[td]` after the loop. -/
def layerAt (td : Nat) : Nat := (sub.layering sub.scanOrder).2[td]?.getD 0

def invOrder : List Nat := (List.range sub.numTds).insertionSort fun a b => sub.layerAt a ≤ sub.layerAt b

/-- `td_order`, from the loops of `PushSubmission`. -/
def pushOrder : List Nat :=
  if sub.skipGroup then rankOf sub.invOrder else List.range sub.numTds

end Submission

/-! ## Nested layers -/

variable {layers : List (Finset Int)} {groups : List Int}

/-- A layer with all the groups of a later one has all of what the later one has. -/
theorem Nested.partitioned (nested : Nested layers) :
    Partitioned (fun layer => groups.all (· ∈ layer)) layers := by
  refine nested.imp fun inside all => ?_
  simp only [List.all_eq_true, decide_eq_true_eq] at all ⊢
  exact fun group mem => inside (all group mem)

theorem searchLayer_eq (nested : Nested layers) :
    searchLayer layers groups = Submission.layerOf layers groups :=
  lowerBound_eq_findIdx nested.partitioned

/-- The layers left of the one that is found hold all the groups. -/
theorem subset_of_lt_layerOf {i : Nat} (inside : i < layers.length)
    (earlier : i < Submission.layerOf layers groups) : groups.toFinset ⊆ layers[i] := by
  have all := List.not_of_lt_findIdx earlier
  simp only [Bool.not_eq_false', List.all_eq_true, decide_eq_true_eq] at all
  exact fun group mem => all group (List.mem_toFinset.mp mem)

theorem nested_append_empty (nested : Nested layers) : Nested (layers ++ [∅]) := by
  refine List.pairwise_append.mpr ⟨nested, List.pairwise_singleton _ _, ?_⟩
  rintro layer - last mem
  rw [List.mem_singleton.mp mem]
  exact Finset.empty_subset _

/-- Groups may be added to a layer when those left of it have them. -/
theorem Nested.modify {pos : Nat} {more : Finset Int} (nested : Nested layers)
    (held : ∀ i (h : i < layers.length), i < pos → more ⊆ layers[i]) :
    Nested (layers.modify pos (· ∪ more)) := by
  refine List.pairwise_iff_getElem.mpr fun i j hi hj less => ?_
  rw [List.length_modify] at hi hj
  have inside := List.pairwise_iff_getElem.mp nested i j hi hj less
  rw [List.getElem_modify, List.getElem_modify]
  split_ifs with at_j at_i at_i
  · omega
  · exact Finset.union_subset inside (held i hi (by omega))
  · exact inside.trans Finset.subset_union_left
  · exact inside

/-- One round keeps the layers nested. -/
theorem Nested.insertGroups (nested : Nested layers) :
    Nested (insertGroups layers groups (Submission.layerOf layers groups)) := by
  unfold Judge.insertGroups
  split_ifs with last
  · refine (nested_append_empty nested).modify fun i _ earlier => ?_
    rw [List.getElem_append_left (by omega)]
    exact subset_of_lt_layerOf _ earlier
  · exact nested.modify fun i inside earlier => subset_of_lt_layerOf inside earlier

namespace Submission

variable {sub : Submission}

/-! ## The loop -/

theorem layering_append (tds : List Nat) (td : Nat) :
    sub.layering (tds ++ [td]) = sub.insertTestdata (sub.layering tds) td := by
  rw [layering, List.foldl_append, List.foldl_cons, List.foldl_nil, ← layering]

theorem layering_nested (tds : List Nat) : Nested (sub.layering tds).1 := by
  induction tds using List.reverseRecOn with
  | nil => exact List.Pairwise.nil
  | append_singleton tds td ih =>
    rw [layering_append]
    show Nested (insertGroups _ _ (searchLayer _ _))
    rw [searchLayer_eq ih]
    exact ih.insertGroups

/-- With the first layer in linear order, the loop is the one of the plan. -/
theorem layering_eq (tds : List Nat) :
    sub.layering tds = tds.foldl sub.assignLayer ([], List.replicate sub.numTds 0) := by
  induction tds using List.reverseRecOn with
  | nil => rfl
  | append_singleton tds td ih =>
    rw [layering_append, List.foldl_append, List.foldl_cons, List.foldl_nil, ← ih]
    simp only [insertTestdata, assignLayer, searchLayer_eq (layering_nested tds), groupsOf,
      Judge.insertGroups]

theorem layering_length (tds : List Nat) : (sub.layering tds).2.length = sub.numTds := by
  induction tds using List.reverseRecOn with
  | nil => exact List.length_replicate
  | append_singleton tds td ih =>
    rw [layering_append, insertTestdata, List.length_set, ih]

/-- Later rounds are for other testdata. -/
theorem layering_later {td : Nat} (tds later : List Nat) (other : td ∉ later) :
    (sub.layering (tds ++ later)).2[td]? = (sub.layering tds).2[td]? := by
  induction later using List.reverseRecOn with
  | nil => rw [List.append_nil]
  | append_singleton later next ih =>
    rw [List.mem_append, not_or, List.mem_singleton] at other
    rw [← List.append_assoc, layering_append, insertTestdata,
      List.getElem?_set_ne (Ne.symm other.2), ih other.1]

theorem scanOrder_perm : sub.scanOrder.Perm (List.range sub.numTds) := List.perm_insertionSort _ _

/-- A testdata stays in the first layer that lacked one of its groups. -/
theorem layerAt_eq {done later : List Nat} {td : Nat} (scan : sub.scanOrder = done ++ td :: later) :
    sub.layerAt td = layerOf (sub.layering done).1 (sub.groupsOf td) := by
  have nodup := scanOrder_perm.nodup_iff.mpr (List.nodup_range (n := sub.numTds))
  have inside : td < sub.numTds := List.mem_range.mp (scanOrder_perm.mem_iff.mp (by rw [scan]; simp))
  rw [scan] at nodup
  have once : td ∉ later := (List.nodup_cons.mp (List.nodup_append.mp nodup).2.1).1
  rw [layerAt, scan, List.append_cons, layering_later _ _ once, layering_append, insertTestdata,
    List.getElem?_set_self (by rwa [layering_length]), Option.getD_some,
    searchLayer_eq (layering_nested done)]

/-! ## The order -/

theorem invOrder_perm : sub.invOrder.Perm (List.range sub.numTds) := List.perm_insertionSort _ _

theorem invOrder_sorted : sub.invOrder.Pairwise fun a b => sub.layerAt a ≤ sub.layerAt b :=
  have : Std.Total fun a b => sub.layerAt a ≤ sub.layerAt b := ⟨fun _ _ => le_total _ _⟩
  have : IsTrans Nat fun a b => sub.layerAt a ≤ sub.layerAt b := ⟨fun _ _ _ => le_trans⟩
  List.pairwise_insertionSort _ _

/-- The order of the plan is the one of the loops. -/
theorem tdOrder_eq : sub.tdOrder = sub.pushOrder := by
  unfold tdOrder pushOrder
  split_ifs with skips
  · rw [rankOf_eq invOrder_perm]
    simp only [invOrder, layerAt, layering_eq, scanOrder]
  · rfl

/-- The tasks of an earlier layer come first among those of their kind. -/
theorem taskOrder_layered {t t' : Task} {a b : Nat} (skips : sub.skipGroup = true)
    (ht : t.testdata = some a) (ht' : t'.testdata = some b) (ha : a < sub.numTds)
    (hb : b < sub.numTds) (earlier : sub.layerAt a < sub.layerAt b) :
    sub.taskOrder t < sub.taskOrder t' := by
  have order {t : Task} {a : Nat} (ht : t.testdata = some a) :
      sub.taskOrder t = ((rankOf sub.invOrder)[a]?.getD 0 : Nat) := by
    cases t with
    | compile | summary => cases ht
    | execute | scoring =>
      cases ht
      rw [taskOrder, tdOrder_eq, pushOrder, if_pos skips]
  rw [order ht, order ht']
  exact Int.ofNat_lt.mpr (rankOf_lt invOrder_perm invOrder_sorted ha hb earlier)

/-- The layers are nested after each round, each testdata is in the first one that lacked
one of its groups, and an earlier layer comes first. -/
theorem pushOrder_layered (skips : sub.skipGroup = true) :
    (∀ done later, sub.scanOrder = done ++ later →
      Nested (sub.layering done).1 ∧
      ∀ td, searchLayer (sub.layering done).1 (sub.groupsOf td) =
        layerOf (sub.layering done).1 (sub.groupsOf td)) ∧
    (∀ done td later, sub.scanOrder = done ++ td :: later →
      sub.layerAt td = layerOf (sub.layering done).1 (sub.groupsOf td)) ∧
    sub.pushOrder.Perm (List.range sub.numTds) ∧
    ∀ a b, a < sub.numTds → b < sub.numTds → sub.layerAt a < sub.layerAt b →
      sub.pushOrder[a]?.getD 0 < sub.pushOrder[b]?.getD 0 := by
  rw [pushOrder, if_pos skips]
  refine ⟨fun done _ _ => ?_, fun done td later => layerAt_eq, rankOf_perm invOrder_perm, ?_⟩
  · exact ⟨layering_nested done, fun td => searchLayer_eq (layering_nested done)⟩
  · exact fun a b ha hb => rankOf_lt invOrder_perm invOrder_sorted ha hb

theorem pushOrder_layered_sample :
    let sub := { sampleSubmission 1 1 [sampleItem false [0], sampleItem false [0, 1]] with
      skipGroup := true }
    sub.pushOrder.Perm (List.range 2) :=
  (pushOrder_layered rfl).2.2.1

end Submission
end TiojJudge.Judge
