import Mathlib.Data.List.AList
import Mathlib.Order.Lattice

/-!
# Standard containers

`UMap` is an unordered map with distinct keys (`AList`), `OrdSet` an ordered
set: its elements in increasing order, each once. `OrdMap` is an ordered map, as
its entries in the order of their keys. `total` sums a measure over a vector.
-/

namespace TiojJudge

abbrev UMap (κ β : Type*) := AList fun _ : κ => β

namespace UMap

variable {κ β : Type*} [DecidableEq κ]

theorem lookup_insert_eq (m : UMap κ β) (k j : κ) (b : β) :
    (AList.insert k b m).lookup j = if j = k then some b else m.lookup j := by
  by_cases h : j = k
  · subst h; simp
  · simp [h, AList.lookup_insert_ne]

theorem lookup_erase_eq (m : UMap κ β) (k j : κ) :
    (AList.erase k m).lookup j = if j = k then none else m.lookup j := by
  by_cases h : j = k
  · subst h; simp
  · simp [h, AList.lookup_erase_ne]

theorem eq_empty {m : UMap κ β} (none : ∀ k, m.lookup k = none) : m = ∅ := by
  apply AList.ext
  apply List.eq_nil_iff_forall_not_mem.mpr
  intro entry here
  have key : entry.1 ∈ m := List.mem_map_of_mem here
  exact AList.lookup_eq_none.mp (none entry.1) key

/-- The values in an unordered map, one for each key. -/
def values (m : UMap κ β) : List β := m.entries.map Sigma.snd

omit [DecidableEq κ] in
@[simp] theorem values_empty : values (∅ : UMap κ β) = [] := rfl

theorem values_insert (m : UMap κ β) (k : κ) (b : β) :
    values (AList.insert k b m) = b :: values (AList.erase k m) := rfl

theorem values_kerase (m : UMap κ β) (k : κ) :
    values (AList.erase k m) = (m.entries.kerase k).map Sigma.snd := rfl

/-- The value of `k` goes with `k`, once. -/
theorem values_erase {m : UMap κ β} {k : κ} {b : β} (h : m.lookup k = some b) :
    (values m).Perm (b :: values (AList.erase k m)) := by
  obtain ⟨b', before, after, absent, split, erased⟩ :=
    List.exists_of_kerase (AList.lookup_isSome.mp (Option.isSome_of_eq_some h))
  obtain rfl : b' = b := by
    have found : m.lookup k = some b' := by
      rw [AList.lookup, split, List.dlookup_append]
      simp [List.dlookup_eq_none.mpr absent]
    simpa [found] using h
  rw [values_kerase, erased, values, split, List.map_append, List.map_append, List.map_cons]
  exact List.perm_middle

theorem values_erase_of_notMem {m : UMap κ β} {k : κ} (h : k ∉ m) :
    values (AList.erase k m) = values m := by
  rw [values_kerase, List.kerase_of_notMem_keys h, values]

theorem values_erase_sublist (m : UMap κ β) (k : κ) :
    (values (AList.erase k m)).Sublist (values m) :=
  (List.kerase_sublist k m.entries).map _

/-- Many keys, one after the other. -/
theorem lookup_insert_all (f : κ → β) (ks : List κ) (m : UMap κ β) (j : κ) :
    (ks.foldl (fun m k => AList.insert k (f k) m) m).lookup j =
      if j ∈ ks then some (f j) else m.lookup j := by
  induction ks generalizing m with
  | nil => simp
  | cons k ks ih =>
    rw [List.foldl_cons, ih, lookup_insert_eq]
    by_cases later : j ∈ ks
    · simp [later]
    · by_cases same : j = k <;> simp [later, same]

theorem length_insert_le (m : UMap κ β) (k : κ) (b : β) :
    (AList.insert k b m).entries.length ≤ m.entries.length + 1 := by
  rw [AList.entries_insert, List.length_cons]
  exact Nat.succ_le_succ (List.kerase_sublist k m.entries).length_le

theorem length_erase_le (m : UMap κ β) (k : κ) :
    (AList.erase k m).entries.length ≤ m.entries.length :=
  (List.kerase_sublist k m.entries).length_le

theorem length_insert_all (f : κ → β) (ks : List κ) (m : UMap κ β) :
    (ks.foldl (fun m k => AList.insert k (f k) m) m).entries.length ≤
      m.entries.length + ks.length := by
  induction ks generalizing m with
  | nil => simp
  | cons k ks ih =>
    rw [List.foldl_cons, List.length_cons]
    have rest := ih (AList.insert k (f k) m)
    have first := length_insert_le m k (f k)
    omega

theorem length_erase {m : UMap κ β} {k : κ} {b : β} (h : m.lookup k = some b) :
    m.entries.length = (AList.erase k m).entries.length + 1 := by
  have same := (values_erase h).length_eq
  simpa [values] using same

/-- A key that is there is only written. -/
theorem length_insert {m : UMap κ β} {k : κ} {b : β} (h : m.lookup k = some b) (b' : β) :
    (AList.insert k b' m).entries.length = m.entries.length := by
  have erased := length_erase h
  rw [AList.entries_insert, List.length_cons]
  exact erased.symm

end UMap

structure OrdSet (α : Type*) [LinearOrder α] where
  elems : List α
  sorted : elems.Pairwise (· < ·)
  deriving DecidableEq

namespace OrdSet

variable {α : Type*} [LinearOrder α]

instance : Membership α (OrdSet α) := ⟨fun s a => a ∈ s.elems⟩

theorem mem_def {s : OrdSet α} {a : α} : a ∈ s ↔ a ∈ s.elems := Iff.rfl

instance (s : OrdSet α) (a : α) : Decidable (a ∈ s) := inferInstanceAs (Decidable (a ∈ s.elems))

def empty : OrdSet α := ⟨[], .nil⟩

instance : EmptyCollection (OrdSet α) := ⟨empty⟩

@[simp] theorem elems_empty : (∅ : OrdSet α).elems = [] := rfl

@[simp] theorem notMem_empty (a : α) : a ∉ (∅ : OrdSet α) := List.not_mem_nil

theorem ext_elems {s t : OrdSet α} (same : s.elems = t.elems) : s = t := by
  cases s
  cases t
  congr

theorem nodup (s : OrdSet α) : s.elems.Nodup :=
  s.sorted.imp fun h => ne_of_lt h

def insertList (a : α) : List α → List α
  | [] => [a]
  | b :: bs => if a < b then a :: b :: bs else if a = b then b :: bs else b :: insertList a bs

theorem mem_insertList {a x : α} {l : List α} : x ∈ insertList a l ↔ x = a ∨ x ∈ l := by
  induction l with
  | nil => simp [insertList]
  | cons b bs ih =>
    unfold insertList
    split
    · simp
    · split
      · rename_i h; subst h; simp
      · simp only [List.mem_cons, ih]
        exact or_left_comm

theorem sorted_insertList {a : α} {l : List α} (h : l.Pairwise (· < ·)) :
    (insertList a l).Pairwise (· < ·) := by
  induction l with
  | nil => simp [insertList]
  | cons b bs ih =>
    obtain ⟨hb, hbs⟩ := List.pairwise_cons.mp h
    unfold insertList
    split
    · rename_i hab
      refine List.pairwise_cons.mpr ⟨?_, h⟩
      intro x hx
      rcases List.mem_cons.mp hx with rfl | hx
      · exact hab
      · exact hab.trans (hb x hx)
    · split
      · exact h
      · rename_i hlt hne
        have hba : b < a := lt_of_le_of_ne (not_lt.mp hlt) (Ne.symm hne)
        refine List.pairwise_cons.mpr ⟨?_, ih hbs⟩
        intro x hx
        rcases mem_insertList.mp hx with rfl | hx
        · exact hba
        · exact hb x hx

def insert (s : OrdSet α) (a : α) : OrdSet α := ⟨insertList a s.elems, sorted_insertList s.sorted⟩

@[simp] theorem mem_insert {s : OrdSet α} {a x : α} : x ∈ s.insert a ↔ x = a ∨ x ∈ s :=
  mem_insertList

def erase (s : OrdSet α) (a : α) : OrdSet α :=
  ⟨s.elems.filter (· ≠ a), s.sorted.sublist List.filter_sublist⟩

@[simp] theorem mem_erase {s : OrdSet α} {a x : α} : x ∈ s.erase a ↔ x ∈ s ∧ x ≠ a := by
  simp [mem_def, erase, List.mem_filter]

/-- What is left when the elements at the front that satisfy `p` are taken. -/
def dropWhile (s : OrdSet α) (p : α → Bool) : OrdSet α :=
  ⟨s.elems.dropWhile p, s.sorted.sublist (List.dropWhile_sublist p)⟩

end OrdSet

structure OrdMap (κ β : Type*) [LinearOrder κ] where
  entries : List (κ × β)
  sorted : (entries.map Prod.fst).Pairwise (· < ·)

namespace OrdMap

variable {κ β : Type*} [LinearOrder κ]

def keys (m : OrdMap κ β) : List κ := m.entries.map Prod.fst

instance : EmptyCollection (OrdMap κ β) := ⟨⟨[], .nil⟩⟩

@[simp] theorem entries_empty : (∅ : OrdMap κ β).entries = [] := rfl

theorem mem_keys {m : OrdMap κ β} {k : κ} : k ∈ m.keys ↔ ∃ b, (k, b) ∈ m.entries := by
  simp [keys]

def insertList (k : κ) (b : β) : List (κ × β) → List (κ × β)
  | [] => [(k, b)]
  | e :: es =>
    if k < e.1 then (k, b) :: e :: es
    else if k = e.1 then (k, b) :: es
    else e :: insertList k b es

theorem mem_insertList {k x : κ} {b : β} {es : List (κ × β)} :
    x ∈ (insertList k b es).map Prod.fst ↔ x = k ∨ x ∈ es.map Prod.fst := by
  induction es with
  | nil => simp [insertList]
  | cons e es ih =>
    unfold insertList
    split
    · simp
    · split
      · rename_i same
        simp [same]
      · simp only [List.map_cons, List.mem_cons, ih]
        exact or_left_comm

theorem sorted_insertList {k : κ} {b : β} {es : List (κ × β)}
    (h : (es.map Prod.fst).Pairwise (· < ·)) :
    ((insertList k b es).map Prod.fst).Pairwise (· < ·) := by
  induction es with
  | nil => simp [insertList]
  | cons e es ih =>
    obtain ⟨first, rest⟩ := List.pairwise_cons.mp h
    unfold insertList
    split
    · rename_i less
      refine List.pairwise_cons.mpr ⟨fun x hx => ?_, h⟩
      rcases List.mem_cons.mp hx with rfl | hx
      · exact less
      · exact less.trans (first x hx)
    · split
      · rename_i same
        exact List.pairwise_cons.mpr ⟨fun x hx => same ▸ first x hx, rest⟩
      · rename_i notLess other
        refine List.pairwise_cons.mpr ⟨fun x hx => ?_, ih rest⟩
        rcases mem_insertList.mp hx with rfl | hx
        · exact lt_of_le_of_ne (not_lt.mp notLess) (Ne.symm other)
        · exact first x hx

/-- `m[k] = b`. -/
def insert (m : OrdMap κ β) (k : κ) (b : β) : OrdMap κ β :=
  ⟨insertList k b m.entries, sorted_insertList m.sorted⟩

@[simp] theorem mem_keys_insert {m : OrdMap κ β} {k x : κ} {b : β} :
    x ∈ (m.insert k b).keys ↔ x = k ∨ x ∈ m.keys :=
  mem_insertList

theorem insert_perm {m : OrdMap κ β} {k : κ} (b : β) (absent : k ∉ m.keys) :
    (m.insert k b).entries.Perm ((k, b) :: m.entries) := by
  change (insertList k b m.entries).Perm _
  unfold keys at absent
  generalize m.entries = es at absent
  induction es with
  | nil => exact .refl _
  | cons e es ih =>
    simp only [List.map_cons, List.mem_cons, not_or] at absent
    unfold insertList
    rw [if_neg absent.1]
    split
    · exact .refl _
    · exact ((ih absent.2).cons e).trans (.swap _ _ _)

def erase (m : OrdMap κ β) (k : κ) : OrdMap κ β where
  entries := m.entries.filter fun e => e.1 ≠ k
  sorted := m.sorted.sublist (List.filter_sublist.map _)

@[simp] theorem mem_keys_erase {m : OrdMap κ β} {k x : κ} :
    x ∈ (m.erase k).keys ↔ x ∈ m.keys ∧ x ≠ k := by
  simp [mem_keys, erase]

theorem erase_all (ks : List κ) (m : OrdMap κ β) :
    (ks.foldl erase m).entries = m.entries.filter fun e => e.1 ∉ ks := by
  induction ks generalizing m with
  | nil => simp
  | cons k ks ih =>
    rw [List.foldl_cons, ih, erase, List.filter_filter]
    refine List.filter_congr fun e _ => ?_
    by_cases same : e.1 = k <;> simp [same]

end OrdMap

section Total

variable {α : Type*} {f : α → Nat} {xs : List α} {a b : α} {k : Nat}

def total (f : α → Nat) : List α → Nat
  | [] => 0
  | x :: xs => f x + total f xs

/-- One element is replaced. -/
theorem total_set (h : xs[k]? = some a) : total f (xs.set k b) + f a = total f xs + f b := by
  induction xs generalizing k with
  | nil => cases h
  | cons x xs ih =>
    cases k with
    | zero =>
      obtain rfl := Option.some.inj h
      simp only [List.set_cons_zero, total]
      omega
    | succ k =>
      have rest := ih h
      simp only [List.set_cons_succ, total] at rest ⊢
      omega

end Total

end TiojJudge
