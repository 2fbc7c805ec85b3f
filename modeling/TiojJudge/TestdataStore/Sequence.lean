import TiojJudge.TestdataStore.Update

/-!
# Updates one after another

Rows are replaced and never deleted, files and links are removed.

* `inForce`: the list of the problem's last update;
* `Fresh`: the rows of removed testdata do not match what comes back;
* `Settled`: links, files and rows of a problem agree with its list in force;
* `in_force_right`: over every sequence of fresh updates the list in force is
  right, and the problem has no link behind it.
-/

namespace TiojJudge.TestdataStore

variable {s t : Disk} {past : List Deal} {deal : Deal} {problem : Int} {owner : Int → Int}
  {td : List TdItem}

def inForce (past : List Deal) (problem : Int) : List TdItem :=
  ((past.reverse.find? fun deal => deal.problem == problem).map Deal.td).getD []

theorem inForce_append : inForce (past ++ [deal]) problem =
    if deal.problem = problem then deal.td else inForce past problem := by
  rw [inForce, List.reverse_append, List.reverse_singleton, List.singleton_append, List.find?_cons]
  by_cases same : deal.problem = problem
  · rw [if_pos same, beq_iff_eq.mpr same]
    rfl
  · rw [if_neg same, beq_eq_false_iff_ne.mpr same]
    rfl

/-- The store with its updates so far. -/
def ledger : Machine (Disk × List Deal) Deal := store.observed fun _ deal => [deal]

/-- The ids of a list are distinct, and each belongs to the problem. -/
structure Deal.Proper (owner : Int → Int) (deal : Deal) : Prop where
  distinct : (deal.td.map TdItem.id).Nodup
  owned : ∀ item ∈ deal.td, owner item.id = deal.problem

/-- An id that the list in force does not have comes with another `updated_at` and another
position than its row, where it has one. -/
def Fresh (p : Disk × List Deal) (deal : Deal) : Prop :=
  ∀ i item, deal.td[i]? = some item → item.id ∉ (inForce p.2 deal.problem).map TdItem.id →
    ¬ Current p.1 deal.problem item ∧ ¬ InPlace p.1 deal.problem item i

instance : Decidable (deal.Proper owner) :=
  decidable_of_iff ((deal.td.map TdItem.id).Nodup ∧ ∀ item ∈ deal.td, owner item.id = deal.problem)
    ⟨fun ⟨distinct, owned⟩ => ⟨distinct, owned⟩, fun h => ⟨h.distinct, h.owned⟩⟩

instance {p : Disk × List Deal} : Decidable (Fresh p deal) := by
  unfold Fresh
  infer_instance

/-! ## Agreement -/

/-- Links, files and rows agree with the list in force. -/
structure Settled (owner : Int → Int) (s : Disk) (problem : Int) (td : List TdItem) : Prop where
  right : Right s problem td
  beyond : ∀ i, td.length ≤ i → ∀ side, s.links.lookup ⟨problem, i, side⟩ = none
  rows : ∀ i (item : TdItem), td[i]? = some item → s.origTd problem item.id = some (item.meta problem i)
  proper : Deal.Proper owner ⟨problem, td⟩

theorem settled_empty : Settled owner .empty problem [] where
  right _ _ here := nomatch here
  beyond _ _ _ := rfl
  rows _ _ here := nomatch here
  proper := ⟨List.nodup_nil, fun _ here => absurd here List.not_mem_nil⟩

/-- The positions of the rows are below the count. -/
theorem order_lt_origTdCount {id : Int} {row : Testdata} (h : s.origTd problem id = some row) :
    row.order < s.origTdCount problem := by
  have known : id ∈ s.origIds problem := by
    simp only [Disk.origIds, List.mem_filter, h, Option.isSome_some, and_true]
    exact AList.mem_keys.mp (AList.lookup_isSome.mp (by rw [(Option.filter_eq_some_iff.mp h).1]; rfl))
  have grows (ids : List Int) (count : Nat) : count ≤ ids.foldl
      (fun count id => max count ((s.origTd problem id).elim 0 fun row => row.order + 1)) count := by
    induction ids generalizing count with
    | nil => exact le_rfl
    | cons id ids ih => exact (Nat.le_max_left _ _).trans (ih _)
  have counted (ids : List Int) (count : Nat) (here : id ∈ ids) : row.order < ids.foldl
      (fun count id => max count ((s.origTd problem id).elim 0 fun row => row.order + 1)) count := by
    induction ids generalizing count with
    | nil => cases here
    | cons first ids ih =>
      rw [List.foldl_cons]
      rcases List.mem_cons.mp here with rfl | later
      · apply Nat.lt_of_lt_of_le _ (grows ids _)
        rw [h]
        exact Nat.lt_of_lt_of_le (Nat.lt_succ_self _) (Nat.le_max_right _ _)
      · exact ih _ later
  exact counted _ _ known

theorem Settled.length_le (h : Settled owner s problem td) : td.length ≤ s.origTdCount problem := by
  cases last : td.getLast? with
  | none =>
    rw [List.getLast?_eq_none_iff.mp last]
    exact Nat.zero_le _
  | some item =>
    rw [List.getLast?_eq_getElem?] at last
    have bound : (item.meta problem (td.length - 1)).order < s.origTdCount problem :=
      order_lt_origTdCount (h.rows _ item last)
    simp only [TdItem.meta] at bound
    omega

/-- What the rows of the list in force say is so. -/
theorem Settled.trusted (h : Settled owner s deal.problem (inForce past deal.problem))
    (fresh : Fresh (s, past) deal) : Trusted s deal.problem deal.td := by
  intro i item here side
  by_cases old : item.id ∈ (inForce past deal.problem).map TdItem.id
  · obtain ⟨before, listed, same⟩ := List.mem_map.mp old
    obtain ⟨j, at_j⟩ := List.mem_iff_getElem?.mp listed
    obtain ⟨link, file⟩ := h.right j before at_j side
    have row := h.rows j before at_j
    rw [same] at link file row
    constructor
    · rintro ⟨row', found, time⟩
      obtain rfl := Option.some.inj (row.symm.trans found)
      rw [← time]
      exact file
    · rintro ⟨row', found, rfl⟩
      obtain rfl := Option.some.inj (row.symm.trans found)
      exact link
  · obtain ⟨notCurrent, notInPlace⟩ := fresh i item here old
    exact ⟨fun current => absurd current notCurrent, fun still => absurd still notInPlace⟩

/-! ## One update -/

/-- The update settles the list it was called with. -/
theorem Settled.dealt (h : Settled owner s deal.problem (inForce past deal.problem))
    (proper : deal.Proper owner) (fresh : Fresh (s, past) deal)
    (all : runAll (dealCalls s deal.problem deal.td) s = some t) :
    Settled owner t deal.problem deal.td := by
  have up := updated proper.distinct all
  constructor
  · exact (right_iff_trusted proper.distinct all).mpr (h.trusted fresh)
  · intro i high side
    by_cases counted : i < s.origTdCount deal.problem
    · exact up.unlinked i high counted side
    · rw [up.beyond i high (Nat.le_of_not_lt counted) side]
      exact h.beyond i (h.length_le.trans (Nat.le_of_not_lt counted)) side
  · intro i item here
    rw [Disk.origTd, up.rows, replaceRange_lookup, newMeta_lookup proper.distinct here, Option.some_or,
      Option.filter_some]
    exact if_pos (beq_self_eq_true deal.problem)
  · exact proper

/-- The update of another problem leaves it settled. -/
theorem Settled.apart (h : Settled owner s problem td) (proper : deal.Proper owner)
    (ne : problem ≠ deal.problem) {fails : Nat → Bool} {ok : Bool} {done : List Call}
    (dealt : dealOneSubmission fails s deal.problem deal.td = (ok, done, t)) :
    Settled owner t problem td := by
  obtain ⟨links, files, rows⟩ := TestdataStore.apart dealt ne
  have absent {item : TdItem} (here : item ∈ td) : item.id ∉ deal.td.map TdItem.id := by
    intro listed
    obtain ⟨other, there, same⟩ := List.mem_map.mp listed
    apply ne
    calc problem = owner item.id := (h.proper.owned item here).symm
      _ = owner other.id := by rw [same]
      _ = deal.problem := proper.owned other there
  constructor
  · intro i item here side
    obtain ⟨link, file⟩ := h.right i item here side
    have gone := absent (List.mem_of_getElem? here)
    constructor
    · rw [links _ rfl]
      exact link
    · rw [files item.id side (by rw [h.rows i item here]; rfl) gone]
      exact file
  · intro i high side
    rw [links _ rfl]
    exact h.beyond i high side
  · intro i item here
    rw [rows item.id fun listed => absurd listed (absent (List.mem_of_getElem? here))]
    exact h.rows i item here
  · exact h.proper

/-! ## Every sequence -/

/-- Updates with fresh lists of distinct ids, each of one problem. -/
def freshUpdates (owner : Int → Int) (p : Disk × List Deal) (deal : Deal) : Prop :=
  deal.Proper owner ∧ Fresh p deal

instance : DecidableRel (freshUpdates owner) := fun _ _ => inferInstanceAs (Decidable (_ ∧ _))

theorem ledger_settled (h : ledger.Reach (freshUpdates owner) (s, past)) (problem : Int) :
    Settled owner s problem (inForce past problem) := by
  apply Machine.Reach.observed_invariant
    (I := fun s past => ∀ problem, Settled owner s problem (inForce past problem)) h
  · exact fun _ => settled_empty
  · rintro s past deal t ih ⟨proper, fresh⟩ step problem
    simp only [store] at step
    generalize dealt : dealOneSubmission (fun _ => false) s deal.problem deal.td = out at step
    obtain ⟨ok, done, u⟩ := out
    cases ok with
    | false => cases step
    | true =>
      cases step
      rw [inForce_append]
      split
      · rename_i same
        subst same
        exact (ih deal.problem).dealt proper fresh (perform_all dealt)
      · rename_i other
        exact (ih problem).apart proper (Ne.symm other) dealt

theorem in_force_right (h : ledger.Reach (freshUpdates owner) (s, past)) (problem : Int) :
    Right s problem (inForce past problem) ∧
      ∀ i, (inForce past problem).length ≤ i → ∀ side, s.links.lookup ⟨problem, i, side⟩ = none :=
  ⟨(ledger_settled h problem).right, (ledger_settled h problem).beyond⟩

/-- 5 is removed and comes back changed, in another place. -/
theorem in_force_right_returned : ∃ s past,
    inForce past 1 = [plain 6 1, plain 5 2] ∧ Right s 1 (inForce past 1) := by
  let deals : List Deal := [⟨1, [plain 5 1, plain 6 1]⟩, ⟨2, [plain 7 1]⟩, ⟨1, [plain 6 1]⟩,
    ⟨1, [plain 6 1, plain 5 2]⟩]
  let owner : Int → Int := fun id => if id = 7 then 2 else 1
  have computed : (ledger.exec (freshUpdates owner) ledger.init deals).map (fun p =>
      decide (inForce p.2 1 = [plain 6 1, plain 5 2])) = some true := by decide +kernel
  obtain ⟨⟨s, past⟩, run, shown⟩ := Option.map_eq_some_iff.mp computed
  exact ⟨s, past, of_decide_eq_true shown, (in_force_right (Machine.reach_exec run) 1).1⟩

/-- 5 is removed and comes back as it was: its row is still there, its files and links are
not. -/
theorem removed_then_returned : ∃ s past,
    ledger.Reach (fun _ deal => deal.Proper fun _ => 1) (s, past) ∧
      inForce past 1 = [plain 5 1] ∧ ¬ Right s 1 (inForce past 1) := by
  have computed : (ledger.exec (fun _ deal => deal.Proper fun _ => 1) ledger.init
      [⟨1, [plain 5 1]⟩, ⟨1, [plain 6 1]⟩, ⟨1, [plain 5 1]⟩]).map (fun p =>
        decide (inForce p.2 1 = [plain 5 1] ∧ ¬ Right p.1 1 (inForce p.2 1))) = some true := by
    decide +kernel
  obtain ⟨⟨s, past⟩, run, shown⟩ := Option.map_eq_some_iff.mp computed
  exact ⟨s, past, Machine.reach_exec run, of_decide_eq_true shown⟩

end TiojJudge.TestdataStore
