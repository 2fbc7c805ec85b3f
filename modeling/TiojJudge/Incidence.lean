import Mathlib.Data.List.Basic

/-!
# Rows and columns

A relation between numbers with multiplicities, as the list of the columns of each
row, or as the list of the rows of each column.

* `columns`: goes over the rows, and notes each of them in its columns;
* `count_columns`: a row is in a column as often as the column is in the row;
* `noted_sorted`, `columns_columns`: columns are sorted, and those of the columns
  are the sorted rows again.
-/

namespace TiojJudge.Incidence

/-- Row `i` is noted in its columns. -/
def place (i : Nat) (cols : List (List Nat)) (row : List Nat) : List (List Nat) :=
  row.foldl (fun cols p => cols.modify p (· ++ [i])) cols

/-- The rows from number `i` on. -/
def placeAll : Nat → List (List Nat) → List (List Nat) → List (List Nat)
  | _, cols, [] => cols
  | i, cols, row :: rows => placeAll (i + 1) (place i cols row) rows

def columns (n : Nat) (rows : List (List Nat)) : List (List Nat) :=
  placeAll 0 (List.replicate n []) rows

/-- What the rows from number `i` on leave in column `p`. -/
def noted (p : Nat) : Nat → List (List Nat) → List Nat
  | _, [] => []
  | i, row :: rows => List.replicate (row.count p) i ++ noted p (i + 1) rows

variable {n m p i g : Nat} {row : List Nat} {rows cols : List (List Nat)}

/-! ## One column -/

theorem place_getElem? : (place i cols row)[p]? =
    (cols[p]?).map (· ++ List.replicate (row.count p) i) := by
  induction row generalizing cols with
  | nil => simp [place]
  | cons q row ih =>
    have rest : place i cols (q :: row) = place i (cols.modify q (· ++ [i])) row := rfl
    rw [rest, ih, List.getElem?_modify]
    by_cases here : q = p
    · subst here
      simp [List.replicate_succ, Option.map_map, Function.comp_def]
    · simp [here]

theorem placeAll_getElem? : (placeAll i cols rows)[p]? =
    (cols[p]?).map (· ++ noted p i rows) := by
  induction rows generalizing i cols with
  | nil => simp [placeAll, noted]
  | cons row rows ih =>
    rw [placeAll, ih, place_getElem?, Option.map_map]
    simp [noted, Function.comp_def]

theorem columns_getElem? (inside : p < n) : (columns n rows)[p]? = some (noted p 0 rows) := by
  simp [columns, placeAll_getElem?, inside]

theorem placeAll_length : (placeAll i cols rows).length = cols.length := by
  have place_length (i : Nat) (row : List Nat) (cols : List (List Nat)) :
      (place i cols row).length = cols.length := by
    induction row generalizing cols with
    | nil => rfl
    | cons q row ih => exact (ih _).trans (List.length_modify ..)
  induction rows generalizing i cols with
  | nil => rfl
  | cons row rows ih => rw [placeAll, ih, place_length]

@[simp] theorem columns_length : (columns n rows).length = n := by
  simp [columns, placeAll_length]

/-! ## What is in it -/

theorem count_noted : (noted p i rows).count g =
    if i ≤ g then ((rows[g - i]?).getD []).count p else 0 := by
  induction rows generalizing i with
  | nil => simp [noted]
  | cons row rows ih =>
    rw [noted, List.count_append, List.count_replicate, ih]
    rcases Nat.lt_trichotomy i g with less | rfl | more
    · have next : g - i = g - (i + 1) + 1 := by omega
      rw [if_neg (by simpa using Nat.ne_of_lt less), if_pos (by omega), if_pos (by omega), next]
      simp
    · rw [if_pos (by simp), if_neg (by omega)]
      simp
    · rw [if_neg (by simpa using Nat.ne_of_gt more), if_neg (by omega), if_neg (by omega)]

theorem mem_noted (h : g ∈ noted p i rows) : i ≤ g ∧ g < i + rows.length := by
  induction rows generalizing i with
  | nil => cases h
  | cons row rows ih =>
    rw [List.length_cons]
    rcases List.mem_append.mp h with here | later
    · obtain rfl := List.eq_of_mem_replicate here
      omega
    · have := ih later
      omega

theorem row_of_noted (h : g ∈ noted p i rows) : ∃ row, rows[g - i]? = some row ∧ p ∈ row := by
  have often := List.count_pos_iff.mpr h
  rw [count_noted] at often
  split at often
  · cases here : rows[g - i]? with
    | none => simp [here] at often
    | some row => exact ⟨row, rfl, List.count_pos_iff.mp (by simpa [here] using often)⟩
  · cases often

theorem noted_sorted : (noted p i rows).Pairwise (· ≤ ·) := by
  induction rows generalizing i with
  | nil => exact .nil
  | cons row rows ih =>
    refine List.pairwise_append.mpr ⟨List.pairwise_replicate.mpr (.inr (Nat.le_refl i)), ih, ?_⟩
    intro a ha b hb
    obtain rfl := List.eq_of_mem_replicate ha
    have := mem_noted hb
    omega

/-! ## Columns -/

/-- A row is in a column as often as the column is in the row. -/
theorem count_columns (inside : p < n) :
    (((columns n rows)[p]?).getD []).count g = ((rows[g]?).getD []).count p := by
  rw [columns_getElem? inside, Option.getD_some, count_noted]
  simp

/-- The rows come back sorted. -/
theorem columns_columns (sorted : ∀ row ∈ rows, row.Pairwise (· ≤ ·) ∧ ∀ p ∈ row, p < m) :
    columns rows.length (columns m rows) = rows := by
  apply List.ext_getElem?
  intro g
  by_cases inside : g < rows.length
  · rw [columns_getElem? inside, List.getElem?_eq_getElem inside, Option.some.injEq]
    obtain ⟨order, bound⟩ := sorted rows[g] (List.getElem_mem inside)
    refine List.Perm.eq_of_pairwise (fun a b _ _ => Nat.le_antisymm) noted_sorted order ?_
    apply List.perm_iff_count.mpr
    intro p
    rw [count_noted]
    by_cases small : p < m
    · simp [count_columns small, inside]
    · have absent : List.count p rows[g] = 0 :=
        List.count_eq_zero.mpr fun h => small (bound p h)
      have outside : (columns m rows)[p]? = none := by simp; omega
      simp [outside, absent]
  · rw [List.getElem?_eq_none (by simp; omega), List.getElem?_eq_none (by omega)]

end TiojJudge.Incidence
