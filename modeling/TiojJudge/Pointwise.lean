import Mathlib.Data.List.DropRight
import Mathlib.Data.List.Forall2
import Mathlib.Data.List.GetD

/-!
# Lists compared place by place

`pointwise same blank` compares the elements at each place; one that has no
partner must be blank.

* `pointwise_mono`: what a comparison accepts, a laxer one accepts;
* `pointwise_refl`: a list goes with itself;
* `pointwise_forall₂`: with nothing blank, a comparison of equally long lists;
* `pointwise_getD`: a missing element as a given one;
* `pointwise_rdropWhile`: equality up to empty elements at the end.
-/

namespace TiojJudge

variable {α β : Type*}

def pointwise (same : α → α → Bool) (blank : α → Bool) : List α → List α → Bool
  | [], bs => bs.all blank
  | as, [] => as.all blank
  | a :: as, b :: bs => same a b && pointwise same blank as bs

variable {same same' : α → α → Bool} {blank blank' : α → Bool} {as bs : List α}

@[simp]
theorem pointwise_nil_right : pointwise same blank as [] = as.all blank := by
  cases as <;> rfl

theorem pointwise_mono (hs : ∀ a ∈ as, ∀ b, same a b = true → same' a b = true)
    (hb : ∀ a, blank a = true → blank' a = true) (h : pointwise same blank as bs = true) :
    pointwise same' blank' as bs = true := by
  have all {cs : List α} (h : cs.all blank = true) : cs.all blank' = true :=
    List.all_eq_true.mpr fun c hc => hb c (List.all_eq_true.mp h c hc)
  induction as generalizing bs with
  | nil => exact all h
  | cons a as ih =>
    cases bs with
    | nil => exact all h
    | cons b bs =>
      obtain ⟨first, rest⟩ := Bool.and_eq_true_iff.mp h
      have first' := hs a (.head _) b first
      exact Bool.and_eq_true_iff.mpr ⟨first', ih (fun c hc => hs c (.tail _ hc)) rest⟩

theorem pointwise_refl : pointwise same blank as as = true ↔ ∀ a ∈ as, same a a = true := by
  induction as with
  | nil => simp [pointwise]
  | cons a as ih => simp [pointwise, ih]

theorem pointwise_map (f : β → α) (as bs : List β) :
    pointwise same blank (as.map f) (bs.map f) =
      pointwise (fun a b => same (f a) (f b)) (fun a => blank (f a)) as bs := by
  induction as generalizing bs with
  | nil => simp [pointwise, Function.comp_def]
  | cons a as ih =>
    cases bs with
    | nil => simp [pointwise, Function.comp_def]
    | cons b bs => simp [pointwise, ih]

theorem pointwise_forall₂ :
    pointwise same (fun _ => false) as bs = true ↔ List.Forall₂ (fun a b => same a b = true) as bs := by
  induction as generalizing bs with
  | nil => cases bs <;> simp [pointwise]
  | cons a as ih => cases bs <;> simp [pointwise, ih]

/-! ## Missing elements -/

theorem all_getD (d : α) : as.all blank = true ↔ ∀ i < as.length, blank (as.getD i d) = true := by
  induction as with
  | nil => simp
  | cons a as ih =>
    rw [List.all_cons, Bool.and_eq_true, ih, List.length_cons, Nat.forall_lt_succ_left]
    rfl

theorem pointwise_getD {d : α} (right : ∀ a, same a d = blank a) (left : ∀ b, same d b = blank b) :
    pointwise same blank as bs = true ↔
      ∀ i < max as.length bs.length, same (as.getD i d) (bs.getD i d) = true := by
  induction as generalizing bs with
  | nil =>
    rw [pointwise, all_getD d]
    simp [left]
  | cons a as ih =>
    cases bs with
    | nil =>
      rw [pointwise_nil_right, all_getD d]
      simp [right]
    | cons b bs =>
      rw [pointwise, Bool.and_eq_true, ih, List.length_cons, List.length_cons,
        Nat.succ_max_succ, Nat.forall_lt_succ_left]
      rfl

theorem rdropWhile_cons (p : α → Bool) (a : α) (as : List α) :
    (a :: as).rdropWhile p =
      if as.rdropWhile p = [] ∧ p a = true then [] else a :: as.rdropWhile p := by
  simp only [List.rdropWhile, List.reverse_cons, List.dropWhile_append, List.reverse_eq_nil_iff]
  cases rest : as.reverse.dropWhile p with
  | nil => cases first : p a <;> simp [first]
  | cons b bs => simp

/-- Equality, where empty elements at the end do not count. -/
theorem pointwise_rdropWhile [DecidableEq α] (e : α) :
    pointwise (fun a b => decide (a = b)) (fun a => decide (a = e)) as bs = true ↔
      as.rdropWhile (fun a => decide (a = e)) = bs.rdropWhile (fun a => decide (a = e)) := by
  have empty (cs : List α) : cs.all (fun a => decide (a = e)) = true ↔
      cs.rdropWhile (fun a => decide (a = e)) = [] := by
    rw [List.all_eq_true, List.rdropWhile_eq_nil_iff]
  induction as generalizing bs with
  | nil =>
    rw [pointwise, empty]
    exact eq_comm
  | cons a as ih =>
    cases bs with
    | nil =>
      rw [pointwise_nil_right, empty]
      rfl
    | cons b bs =>
      rw [pointwise, Bool.and_eq_true, decide_eq_true_eq, rdropWhile_cons, rdropWhile_cons]
      simp only [decide_eq_true_eq]
      refine (and_congr_right fun _ => ih).trans ?_
      split <;> split <;> grind

end TiojJudge
