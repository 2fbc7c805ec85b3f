import Mathlib.Data.List.Basic
import Mathlib.Data.List.Nodup

/-!
# Positions in a list

* `lowerBound`: the loop of `std::lower_bound`. It stops at the first element that
  is not before the value when the elements that are come first (`Partitioned`);
* `rankOf`: `rank[order[i]] = i` for each `i`. For an order of the first `n`
  numbers this is again one, and it ranks by position.
-/

namespace TiojJudge

section LowerBound

variable {α : Type*} (before : α → Bool) (xs : List α)

/-- `len` elements from `first` on are left; the middle one is compared. -/
def lowerBoundFrom (first len : Nat) : Nat :=
  if len = 0 then first
  else
    let half := len / 2
    if xs[first + half]?.any before then lowerBoundFrom (first + half + 1) (len - half - 1)
    else lowerBoundFrom first half
termination_by len

def lowerBound : Nat := lowerBoundFrom before xs 0 xs.length

/-- The elements that are before the value come first. -/
def Partitioned : Prop := xs.Pairwise fun x y => before y = true → before x = true

variable {before xs}

/-- An element that is compared is before the value exactly left of the end `k`,
so that `k` stays in the range that is left. -/
theorem lowerBoundFrom_eq {k first len : Nat}
    (border : ∀ i < xs.length, xs[i]?.any before = true ↔ i < k)
    (inside : first + len ≤ xs.length) (low : first ≤ k) (high : k ≤ first + len) :
    lowerBoundFrom before xs first len = k := by
  fun_induction lowerBoundFrom before xs first len with
  | case1 first => omega
  | case2 first len more half found ih =>
    have left := (border (first + half) (by omega)).mp found
    exact ih (by omega) (by omega) (by omega)
  | case3 first len more half missing ih =>
    have right := mt (border (first + half) (by omega)).mpr missing
    exact ih (by omega) low (by omega)

/-- The first element that is not before the value, in linear order. -/
theorem lowerBound_eq_findIdx (parted : Partitioned before xs) :
    lowerBound before xs = xs.findIdx fun x => !before x := by
  refine lowerBoundFrom_eq (fun i inside => ?_) (by omega) (Nat.zero_le _) ?_
  · rw [List.getElem?_eq_getElem inside, Option.any_some]
    constructor
    · intro found
      by_contra beyond
      have stop := List.findIdx_getElem (w := show xs.findIdx (fun x => !before x) < xs.length by omega)
      rcases Nat.eq_or_lt_of_le (Nat.not_lt.mp beyond) with same | earlier
      · simp only [same, found, Bool.not_true, Bool.false_eq_true] at stop
      · rw [List.pairwise_iff_getElem.mp parted _ _ _ inside earlier found] at stop
        cases stop
    · intro left
      simpa using List.not_of_lt_findIdx left
  · rw [Nat.zero_add]
    exact List.findIdx_le_length

end LowerBound

/-! ## Ranks -/

/-- `rank[order[i]] = i`, for each `i` in turn. -/
def rankOf (order : List Nat) : List Nat :=
  order.zipIdx.foldl (fun rank p => rank.set p.1 p.2) (List.replicate order.length 0)

variable {order : List Nat}

theorem foldl_ranks_length (ranked : List (Nat × Nat)) (rank : List Nat) :
    (ranked.foldl (fun rank p => rank.set p.1 p.2) rank).length = rank.length := by
  induction ranked generalizing rank with
  | nil => rfl
  | cons p rest ih => rw [List.foldl_cons, ih, List.length_set]

/-- What is set stays: no number comes twice. -/
theorem foldl_ranks (nodup : order.Nodup) (i : Nat) (rank : List Nat) {a : Nat}
    (inside : a < rank.length) :
    ((order.zipIdx i).foldl (fun rank p => rank.set p.1 p.2) rank)[a]? =
      if a ∈ order then some (i + order.idxOf a) else rank[a]? := by
  induction order generalizing i rank with
  | nil => rfl
  | cons b rest ih =>
    obtain ⟨new, nodup⟩ := List.nodup_cons.mp nodup
    rw [List.zipIdx_cons, List.foldl_cons, ih nodup _ _ (by rwa [List.length_set])]
    by_cases same : a = b
    · subst same
      rw [if_neg new, if_pos List.mem_cons_self, List.getElem?_set_self inside,
        List.idxOf_cons_self, Nat.add_zero]
    · rw [List.getElem?_set_ne (Ne.symm same), List.idxOf_cons_ne _ (Ne.symm same)]
      simp only [List.mem_cons, same, false_or, Nat.add_assoc, Nat.add_comm 1]

theorem rankOf_eq {n : Nat} (perm : order.Perm (List.range n)) :
    rankOf order = (List.range n).map order.idxOf := by
  have nodup := perm.nodup_iff.mpr List.nodup_range
  have length : order.length = n := by rw [perm.length_eq, List.length_range]
  refine List.ext_getElem? fun a => ?_
  by_cases inside : a < n
  · rw [rankOf, foldl_ranks nodup 0 _ (by rwa [List.length_replicate, length]),
      if_pos (perm.mem_iff.mpr (List.mem_range.mpr inside)), List.getElem?_map,
      List.getElem?_range inside, Nat.zero_add, Option.map_some]
  · rw [List.getElem?_eq_none, List.getElem?_eq_none]
    · simpa using inside
    · rw [rankOf, foldl_ranks_length, List.length_replicate, length]
      exact Nat.not_lt.mp inside

theorem rankOf_perm {n : Nat} (perm : order.Perm (List.range n)) :
    (rankOf order).Perm (List.range n) := by
  have nodup := perm.nodup_iff.mpr List.nodup_range
  have own : order.map order.idxOf = List.range n := by
    refine List.ext_getElem (by rw [List.length_map, perm.length_eq]) fun i h _ => ?_
    rw [List.length_map] at h
    rw [List.getElem_map, nodup.idxOf_getElem, List.getElem_range]
  rw [rankOf_eq perm]
  exact (perm.symm.map _).trans (List.Perm.of_eq own)

/-- What is sorted by `key` has ranks in the order of the keys. -/
theorem rankOf_lt {n : Nat} {key : Nat → Nat} (perm : order.Perm (List.range n))
    (sorted : order.Pairwise fun a b => key a ≤ key b) {a b : Nat} (ha : a < n) (hb : b < n)
    (less : key a < key b) : (rankOf order)[a]?.getD 0 < (rankOf order)[b]?.getD 0 := by
  have there {c : Nat} (hc : c < n) : order.idxOf c < order.length :=
    List.idxOf_lt_length_of_mem (perm.mem_iff.mpr (List.mem_range.mpr hc))
  rw [rankOf_eq perm]
  simp only [List.getElem?_map, List.getElem?_range ha, List.getElem?_range hb, Option.map_some,
    Option.getD_some]
  by_contra beyond
  rcases Nat.eq_or_lt_of_le (Nat.not_lt.mp beyond) with same | later
  · obtain rfl := (List.idxOf_inj (perm.mem_iff.mpr (List.mem_range.mpr hb))).mp same
    omega
  · have ordered := List.pairwise_iff_getElem.mp sorted _ _ (there hb) (there ha) later
    rw [List.getElem_idxOf, List.getElem_idxOf] at ordered
    omega

end TiojJudge
