import Mathlib.Data.List.Nodup
import Mathlib.Data.List.Perm.Basic
import Mathlib.Algebra.BigOperators.Group.List.Basic
import Mathlib.Algebra.Order.Ring.Int

/-!
# Dependency graphs with a ready queue

Nodes count their unfinished predecessors (`indeg`) and list their successors
(`edges`, with multiplicity). Finishing a node takes it out of the graph and
lowers the count of each successor; a count that reaches zero puts its node
into the queue.

* `Graph.Inv g held`: the counts are right, edges stay inside the graph, and a
  node of count zero is either queued or held by whoever took it off the queue;
* `Inv.insertAll`, `Inv.pop`, `Inv.finish`: the three operations keep it;
* `sum_outEdges`: nodes made from a list of links have the right counts;
* `Ranked`, `exists_ready`: when edges go up in some rank, a graph that is not
  empty has a node of count zero.
-/

namespace TiojJudge.TaskGraph

structure Node (α : Type*) where
  id : Nat
  data : α
  indeg : Int
  edges : List Nat

structure Graph (α : Type*) where
  nodes : List (Node α)
  queue : List Nat

variable {α : Type*}

namespace Graph

def empty : Graph α := ⟨[], []⟩

def find (g : Graph α) (i : Nat) : Option (Node α) := g.nodes.find? fun n => n.id == i

def insert (g : Graph α) (n : Node α) : Graph α where
  nodes := g.nodes ++ [n]
  queue := if n.indeg = 0 then g.queue ++ [n.id] else g.queue

/-- The top of the queue is taken off it. -/
def pop (g : Graph α) (i : Nat) : Graph α := { g with queue := g.queue.erase i }

@[simp] theorem pop_nodes (g : Graph α) (i : Nat) : (g.pop i).nodes = g.nodes := rfl

/-- One more predecessor of node `i` is finished. -/
def decrement (g : Graph α) (i : Nat) : Graph α where
  nodes := g.nodes.map fun n => if n.id = i then { n with indeg := n.indeg - 1 } else n
  queue := if g.nodes.any (fun n => n.id == i && n.indeg == 1) then g.queue ++ [i] else g.queue

def remove (g : Graph α) (n : Node α) : Graph α :=
  let g := n.edges.foldl decrement g
  { g with nodes := g.nodes.filter fun m => m.id != n.id }

end Graph

/-- The number of edges from `ns` to node `i`. -/
def inCount (ns : List (Node α)) (i : Nat) : Nat := (ns.map fun n => n.edges.count i).sum

@[simp] theorem inCount_nil (i : Nat) : inCount ([] : List (Node α)) i = 0 := rfl

@[simp] theorem inCount_cons (n : Node α) (ns : List (Node α)) (i : Nat) :
    inCount (n :: ns) i = n.edges.count i + inCount ns i := by
  simp [inCount]

@[simp] theorem inCount_append (ns ms : List (Node α)) (i : Nat) :
    inCount (ns ++ ms) i = inCount ns i + inCount ms i := by
  simp [inCount]

theorem inCount_perm {ns ms : List (Node α)} (h : ns.Perm ms) (i : Nat) :
    inCount ns i = inCount ms i :=
  (h.map _).sum_eq

theorem inCount_pos {ns : List (Node α)} {i : Nat} :
    0 < inCount ns i ↔ ∃ n ∈ ns, i ∈ n.edges := by
  induction ns with
  | nil => simp
  | cons n ns ih =>
    rw [inCount_cons, Nat.add_pos_iff_pos_or_pos, ih, List.count_pos_iff]
    simp

theorem count_le_inCount {ns : List (Node α)} {n : Node α} (h : n ∈ ns) (i : Nat) :
    n.edges.count i ≤ inCount ns i := by
  induction ns with
  | nil => cases h
  | cons m ns ih =>
    rcases List.mem_cons.mp h with rfl | h
    · simp
    · have := ih h
      simp only [inCount_cons]
      omega

/-- Edges do not depend on the counts. -/
theorem inCount_map {ns : List (Node α)} {f : Node α → Node α} (h : ∀ n, (f n).edges = n.edges)
    (i : Nat) : inCount (ns.map f) i = inCount ns i := by
  simp [inCount, Function.comp_def, h]

/-! ## The invariant -/

structure Graph.Inv (g : Graph α) (held : List Nat) : Prop where
  distinct : (g.nodes.map Node.id).Nodup
  closed : ∀ n ∈ g.nodes, ∀ e ∈ n.edges, ∃ m ∈ g.nodes, m.id = e
  indeg : ∀ n ∈ g.nodes, n.indeg = inCount g.nodes n.id
  ready : ∀ n ∈ g.nodes, g.queue.count n.id + held.count n.id = if n.indeg = 0 then 1 else 0
  known : ∀ i, i ∈ g.queue ∨ i ∈ held → ∃ n ∈ g.nodes, n.id = i

theorem eq_of_id {ns : List (Node α)} (distinct : (ns.map Node.id).Nodup) {m n : Node α}
    (hm : m ∈ ns) (hn : n ∈ ns) (same : m.id = n.id) : m = n :=
  List.inj_on_of_nodup_map distinct hm hn same

namespace Graph

theorem find_mem {g : Graph α} {i : Nat} {n : Node α} (h : g.find i = some n) :
    n ∈ g.nodes ∧ n.id = i :=
  ⟨List.mem_of_find?_eq_some h, by simpa using List.find?_some h⟩

theorem find_eq {g : Graph α} (distinct : (g.nodes.map Node.id).Nodup) {n : Node α}
    (h : n ∈ g.nodes) : g.find n.id = some n := by
  cases found : g.find n.id with
  | none => simpa using List.find?_eq_none.mp found n h
  | some m =>
    obtain ⟨hm, same⟩ := find_mem found
    rw [eq_of_id distinct hm h same]

theorem Inv.empty : (Graph.empty : Graph α).Inv [] := by
  constructor <;> simp [Graph.empty]

/-- Who holds the nodes matters only up to their number. -/
theorem Inv.perm {g : Graph α} {held held' : List Nat} (h : g.Inv held) (p : held.Perm held') :
    g.Inv held' :=
  { h with
    ready := fun n hn => by rw [← p.count_eq]; exact h.ready n hn
    known := fun i hi => h.known i (hi.imp_right p.mem_iff.mpr) }

/-- A node taken off the queue is held. -/
theorem Inv.pop {g : Graph α} {held : List Nat} {i : Nat} (h : g.Inv held) (hi : i ∈ g.queue) :
    (g.pop i).Inv (i :: held) := by
  refine { h with ready := ?_, known := ?_ }
  · intro n hn
    have counted := h.ready n hn
    have positive := List.count_pos_iff.mpr hi
    simp only [Graph.pop, List.count_erase, List.count_cons]
    by_cases same : n.id = i
    · subst same
      simp only [beq_self_eq_true, if_true]
      omega
    · simp only [beq_iff_eq, Ne.symm same, if_false]
      omega
  · rintro j (hj | hj)
    · exact h.known j (.inl (List.mem_of_mem_erase hj))
    · rcases List.mem_cons.mp hj with rfl | hj
      · exact h.known j (.inl hi)
      · exact h.known j (.inr hj)

/-! ## Insertion -/

theorem insertAll_eq (ns : List (Node α)) (g : Graph α) :
    ns.foldl Graph.insert g =
      ⟨g.nodes ++ ns, g.queue ++ (ns.filter fun n => n.indeg == 0).map Node.id⟩ := by
  induction ns generalizing g with
  | nil => simp
  | cons n ns ih =>
    rw [List.foldl_cons, ih]
    by_cases h : n.indeg = 0 <;> simp [Graph.insert, h]

/-- The new nodes of count zero are queued, each once. -/
theorem queued_count {ns : List (Node α)} (distinct : (ns.map Node.id).Nodup) {n : Node α}
    (hn : n ∈ ns) : ((ns.filter fun n => n.indeg == 0).map Node.id).count n.id =
      if n.indeg = 0 then 1 else 0 := by
  split
  · rename_i zero
    exact List.count_eq_one_of_mem (distinct.sublist (List.filter_sublist.map Node.id))
      (List.mem_map_of_mem (List.mem_filter.mpr ⟨hn, by simpa using zero⟩))
  · rename_i positive
    refine List.count_eq_zero.mpr fun hm => positive ?_
    obtain ⟨m, hm, same⟩ := List.mem_map.mp hm
    obtain ⟨hm, zero⟩ := List.mem_filter.mp hm
    obtain rfl := eq_of_id distinct hm hn same
    simpa using zero

/-- Nodes that are linked among themselves, each with its count, and have ids
of their own join a graph. -/
theorem Inv.insertAll {g : Graph α} {held : List Nat} {ns : List (Node α)} (h : g.Inv held)
    (distinct : (ns.map Node.id).Nodup) (fresh : ∀ n ∈ ns, ∀ m ∈ g.nodes, m.id ≠ n.id)
    (closed : ∀ n ∈ ns, ∀ e ∈ n.edges, ∃ m ∈ ns, m.id = e)
    (indeg : ∀ n ∈ ns, n.indeg = inCount ns n.id) :
    (ns.foldl Graph.insert g).Inv held := by
  rw [insertAll_eq]
  have old_new {n : Node α} (hn : n ∈ ns) : inCount g.nodes n.id = 0 := by
    by_contra pointed
    obtain ⟨m, hm, hme⟩ := inCount_pos.mp (Nat.pos_of_ne_zero pointed)
    obtain ⟨k, hk, same⟩ := h.closed m hm _ hme
    exact fresh n hn k hk same
  have new_old {n : Node α} (hn : n ∈ g.nodes) : inCount ns n.id = 0 := by
    by_contra pointed
    obtain ⟨m, hm, hme⟩ := inCount_pos.mp (Nat.pos_of_ne_zero pointed)
    obtain ⟨k, hk, same⟩ := closed m hm _ hme
    exact fresh k hk n hn same.symm
  have unknown {n : Node α} (hn : n ∈ ns) : n.id ∉ g.queue ∧ n.id ∉ held := by
    constructor <;> intro hq
    · obtain ⟨m, hm, same⟩ := h.known _ (.inl hq)
      exact fresh n hn m hm same
    · obtain ⟨m, hm, same⟩ := h.known _ (.inr hq)
      exact fresh n hn m hm same
  constructor
  · rw [List.map_append]
    refine List.nodup_append.mpr ⟨h.distinct, distinct, ?_⟩
    intro a ha b hb same
    obtain ⟨m, hm, rfl⟩ := List.mem_map.mp ha
    obtain ⟨n, hn, rfl⟩ := List.mem_map.mp hb
    exact fresh n hn m hm same
  · intro n hn e he
    rcases List.mem_append.mp hn with hn | hn
    · obtain ⟨m, hm, same⟩ := h.closed n hn e he
      exact ⟨m, List.mem_append_left _ hm, same⟩
    · obtain ⟨m, hm, same⟩ := closed n hn e he
      exact ⟨m, List.mem_append_right _ hm, same⟩
  · intro n hn
    rcases List.mem_append.mp hn with hn | hn
    · simp [new_old hn, h.indeg n hn]
    · simp [old_new hn, indeg n hn]
  · intro n hn
    simp only [List.count_append]
    rcases List.mem_append.mp hn with old | new
    · have notQueued : ((ns.filter fun n => n.indeg == 0).map Node.id).count n.id = 0 := by
        refine List.count_eq_zero.mpr fun hm => ?_
        obtain ⟨m, hm, same⟩ := List.mem_map.mp hm
        exact fresh m (List.mem_filter.mp hm).1 n old same.symm
      have counted := h.ready n old
      omega
    · obtain ⟨hq, hh⟩ := unknown new
      rw [List.count_eq_zero.mpr hq, List.count_eq_zero.mpr hh, queued_count distinct new]
      omega
  · rintro i (hi | hi)
    · rcases List.mem_append.mp hi with hi | hi
      · obtain ⟨n, hn, same⟩ := h.known i (.inl hi)
        exact ⟨n, List.mem_append_left _ hn, same⟩
      · obtain ⟨n, hn, same⟩ := List.mem_map.mp hi
        exact ⟨n, List.mem_append_right _ (List.mem_filter.mp hn).1, same⟩
    · obtain ⟨n, hn, same⟩ := h.known i (.inr hi)
      exact ⟨n, List.mem_append_left _ hn, same⟩

/-! ## Removal -/

/-- A node with `k` predecessors fewer to wait for. -/
def lower (es : List Nat) (n : Node α) : Node α := { n with indeg := n.indeg - es.count n.id }

theorem decrementAll_nodes (es : List Nat) (g : Graph α) :
    (es.foldl Graph.decrement g).nodes = g.nodes.map (lower es) := by
  induction es generalizing g with
  | nil =>
    have same : (lower [] : Node α → Node α) = id := by
      funext n
      simp [lower]
    simp [same]
  | cons e es ih =>
    rw [List.foldl_cons, ih]
    simp only [Graph.decrement, List.map_map]
    refine List.map_congr_left fun n _ => ?_
    by_cases same : n.id = e
    · subst same
      simp only [Function.comp_apply, if_true, lower, List.count_cons_self]
      congr 1
      omega
    · simp only [Function.comp_apply, same, if_false, lower, List.count_cons_of_ne (Ne.symm same)]

/-- Exactly the nodes whose count reaches zero are queued, once. -/
theorem decrementAll_queue (es : List Nat) (g : Graph α) (distinct : (g.nodes.map Node.id).Nodup)
    {n : Node α} (hn : n ∈ g.nodes) (enough : (es.count n.id : Int) ≤ n.indeg) :
    (es.foldl Graph.decrement g).queue.count n.id =
      g.queue.count n.id + if n.indeg ≠ 0 ∧ n.indeg = es.count n.id then 1 else 0 := by
  induction es generalizing g n with
  | nil => simp
  | cons e es ih =>
    rw [List.foldl_cons]
    by_cases same : n.id = e
    · subst same
      rw [List.count_cons_self] at enough
      push_cast at enough
      have reaches : (g.nodes.any fun m => m.id == n.id && m.indeg == 1) = true ↔ n.indeg = 1 := by
        simp only [List.any_eq_true, Bool.and_eq_true, beq_iff_eq]
        constructor
        · rintro ⟨m, hm, sameId, one⟩
          exact eq_of_id distinct hm hn sameId ▸ one
        · exact fun one => ⟨n, hn, rfl, one⟩
      have kept := ih (g.decrement n.id) (n := { n with indeg := n.indeg - 1 })
        (by simpa [Graph.decrement, Function.comp_def, apply_ite Node.id] using distinct)
        (List.mem_map.mpr ⟨n, hn, by simp⟩) (by simp only; omega)
      simp only at kept
      rw [kept]
      simp only [Graph.decrement, List.count_cons_self]
      by_cases one : n.indeg = 1
      · simp only [reaches.mpr one, if_true, List.count_append, List.count_singleton_self]
        split <;> split <;> omega
      · have notReached := mt reaches.mp one
        simp only [notReached, if_false, Bool.false_eq_true]
        split <;> split <;> omega
    · have kept := ih (g.decrement e) (n := n)
        (by simpa [Graph.decrement, Function.comp_def, apply_ite Node.id] using distinct)
        (List.mem_map.mpr ⟨n, hn, by simp [same]⟩)
        (by simpa [List.count_cons_of_ne (Ne.symm same)] using enough)
      rw [kept, List.count_cons_of_ne (Ne.symm same)]
      congr 1
      simp only [Graph.decrement]
      split
      · simp [List.count_append, Ne.symm same]
      · rfl

theorem decrementAll_known (es : List Nat) (g : Graph α) (i : Nat)
    (hi : i ∈ (es.foldl Graph.decrement g).queue) : i ∈ g.queue ∨ ∃ n ∈ g.nodes, n.id = i := by
  induction es generalizing g with
  | nil => exact .inl hi
  | cons e es ih =>
    rcases ih (g.decrement e) hi with hq | ⟨n, hn, rfl⟩
    · simp only [Graph.decrement] at hq
      split at hq
      · rename_i any
        rcases List.mem_append.mp hq with hq | hq
        · exact .inl hq
        · obtain rfl := List.mem_singleton.mp hq
          obtain ⟨m, hm, same⟩ := List.any_eq_true.mp any
          exact .inr ⟨m, hm, by simpa using (Bool.and_eq_true_iff.mp same).1⟩
      · exact .inl hq
    · obtain ⟨m, hm, rfl⟩ := List.mem_map.mp hn
      exact .inr ⟨m, hm, by split <;> rfl⟩

theorem remove_nodes (g : Graph α) (n : Node α) :
    (g.remove n).nodes = (g.nodes.filter fun m => m.id != n.id).map (lower n.edges) := by
  simp only [Graph.remove, decrementAll_nodes, List.filter_map]
  rfl

/-- The removed node and the others. -/
theorem remove_perm {g : Graph α} (distinct : (g.nodes.map Node.id).Nodup) {n : Node α}
    (hn : n ∈ g.nodes) : g.nodes.Perm (n :: g.nodes.filter fun m => m.id != n.id) := by
  refine (List.filter_append_perm (fun m => m.id == n.id) g.nodes).symm.trans ?_
  have alone : g.nodes.filter (fun m => m.id == n.id) = [n] := by
    have nodup := (List.Nodup.of_map _ distinct)
    refine List.perm_singleton.mp ((List.perm_ext_iff_of_nodup (nodup.filter _)
      (List.nodup_singleton n)).mpr fun m => ?_)
    simp only [List.mem_filter, beq_iff_eq, List.mem_singleton]
    exact ⟨fun ⟨hm, same⟩ => eq_of_id distinct hm hn same, fun h => by subst h; exact ⟨hn, rfl⟩⟩
  rw [alone]
  exact .refl _

theorem remove_length {g : Graph α} (distinct : (g.nodes.map Node.id).Nodup) {n : Node α}
    (hn : n ∈ g.nodes) : (g.remove n).nodes.length + 1 = g.nodes.length := by
  rw [remove_nodes, List.length_map, (remove_perm distinct hn).length_eq, List.length_cons]

/-- Apart from the removed node the edges are the same. -/
theorem inCount_remove {g : Graph α} (distinct : (g.nodes.map Node.id).Nodup) {n : Node α}
    (hn : n ∈ g.nodes) (i : Nat) :
    inCount (g.remove n).nodes i + n.edges.count i = inCount g.nodes i := by
  rw [remove_nodes, inCount_map (f := lower n.edges) fun _ => rfl]
  rw [inCount_perm (remove_perm distinct hn), inCount_cons, Nat.add_comm]

/-- The finished node was the first holder's; the others keep theirs. -/
theorem Inv.finish {g : Graph α} {held : List Nat} {n : Node α} (hn : n ∈ g.nodes)
    (h : g.Inv (n.id :: held)) : (g.remove n).Inv held := by
  obtain ⟨zero, notQueued, notHeld⟩ :
      n.indeg = 0 ∧ g.queue.count n.id = 0 ∧ held.count n.id = 0 := by
    have counted := h.ready n hn
    rw [List.count_cons_self] at counted
    split at counted <;> rename_i zero
    · exact ⟨zero, by omega, by omega⟩
    · omega
  have noEdge : inCount g.nodes n.id = 0 := by
    have := h.indeg n hn
    omega
  have mem {m : Node α} : m ∈ (g.remove n).nodes ↔
      ∃ k ∈ g.nodes, k.id ≠ n.id ∧ lower n.edges k = m := by
    simp only [remove_nodes, List.mem_map, List.mem_filter, bne_iff_ne, and_assoc]
  have edges (k : Node α) (hk : k ∈ g.nodes) : (n.edges.count k.id : Int) ≤ k.indeg := by
    rw [h.indeg k hk]
    exact_mod_cast count_le_inCount hn k.id
  constructor
  · have ids : (g.remove n).nodes.map Node.id =
        (g.nodes.filter fun m => m.id != n.id).map Node.id := by
      rw [remove_nodes, List.map_map]
      rfl
    rw [ids]
    exact h.distinct.sublist (List.filter_sublist.map Node.id)
  · intro m hm e he
    obtain ⟨k, hk, _, rfl⟩ := mem.mp hm
    obtain ⟨j, hj, rfl⟩ := h.closed k hk e he
    have other : j.id ≠ n.id := by
      intro same
      have := inCount_pos.mpr ⟨k, hk, same ▸ he⟩
      omega
    exact ⟨lower n.edges j, mem.mpr ⟨j, hj, other, rfl⟩, rfl⟩
  · intro m hm
    obtain ⟨k, hk, _, rfl⟩ := mem.mp hm
    have counted := inCount_remove h.distinct hn k.id
    have before := h.indeg k hk
    simp only [lower]
    omega
  · intro m hm
    obtain ⟨k, hk, other, rfl⟩ := mem.mp hm
    have queued := decrementAll_queue n.edges g h.distinct hk (edges k hk)
    have counted := h.ready k hk
    rw [List.count_cons_of_ne (Ne.symm other)] at counted
    have enough := edges k hk
    show (n.edges.foldl decrement g).queue.count k.id + held.count k.id =
      if k.indeg - n.edges.count k.id = 0 then 1 else 0
    rw [queued]
    split at counted <;> split <;> split <;> omega
  · intro i hi
    have old : (∃ m ∈ g.nodes, m.id = i) ∧ i ≠ n.id := by
      rcases hi with hi | hi
      · refine ⟨?_, ?_⟩
        · rcases decrementAll_known _ _ _ hi with hq | known
          · exact h.known i (.inl hq)
          · exact known
        · rintro rfl
          have queued := decrementAll_queue n.edges g h.distinct hn (edges n hn)
          have := List.count_pos_iff.mpr hi
          simp only [Graph.remove, zero] at queued this
          simp only [ne_eq, not_true_eq_false, false_and, if_false] at queued
          omega
      · refine ⟨h.known i (.inr (List.mem_cons_of_mem _ hi)), ?_⟩
        rintro rfl
        have := List.count_pos_iff.mpr hi
        omega
    obtain ⟨⟨m, hm, rfl⟩, other⟩ := old
    exact ⟨lower n.edges m, mem.mpr ⟨m, hm, other, rfl⟩, rfl⟩

end Graph

/-! ## Nodes made from links -/

section Links

variable {κ : Type*} [DecidableEq κ]

/-- The links out of `k`, as edges. -/
def outEdges (links : List (κ × κ)) (ident : κ → Nat) (k : κ) : List Nat :=
  (links.filter fun l => l.1 = k).map fun l => ident l.2

theorem sum_map_single {keys : List κ} (nodup : keys.Nodup) {k : κ} (hk : k ∈ keys) (c : Nat) :
    (keys.map fun k' => if k = k' then c else 0).sum = c := by
  induction keys with
  | nil => cases hk
  | cons k' keys ih =>
    obtain ⟨notIn, nodup⟩ := List.nodup_cons.mp nodup
    by_cases same : k = k'
    · subst same
      have others : ∀ k' ∈ keys, (if k = k' then c else 0) = 0 := by
        intro k' hk'
        exact if_neg (ne_of_mem_of_not_mem hk' notIn).symm
      simp [List.map_congr_left others]
    · have hk : k ∈ keys := (List.mem_cons.mp hk).resolve_left same
      simp [same, ih nodup hk]

/-- Each link is counted once, at its source. -/
theorem sum_outEdges {links : List (κ × κ)} {ident : κ → Nat} {keys : List κ} {t : κ}
    (nodup : keys.Nodup) (sources : ∀ l ∈ links, l.1 ∈ keys)
    (inj : ∀ l ∈ links, ident l.2 = ident t → l.2 = t) :
    (keys.map fun k => (outEdges links ident k).count (ident t)).sum =
      links.countP fun l => l.2 = t := by
  induction links with
  | nil => simp [outEdges]
  | cons l links ih =>
    have rest := ih (fun l hl => sources l (List.mem_cons_of_mem _ hl))
      (fun l hl => inj l (List.mem_cons_of_mem _ hl))
    have one (k : κ) : (outEdges (l :: links) ident k).count (ident t) =
        (if l.1 = k then if l.2 = t then 1 else 0 else 0) +
          (outEdges links ident k).count (ident t) := by
      have target : ident l.2 = ident t ↔ l.2 = t :=
        ⟨inj l List.mem_cons_self, fun h => h ▸ rfl⟩
      by_cases source : l.1 = k
      · simp [outEdges, source, List.count_cons, target, Nat.add_comm]
      · simp [outEdges, source]
    simp only [one, List.sum_map_add, rest, sum_map_single nodup (sources l List.mem_cons_self),
      List.countP_cons, decide_eq_true_eq]
    omega

end Links

namespace Graph

/-! ## Progress -/

/-- Every edge goes up in rank. -/
def Ranked (g : Graph α) (rank : α → Nat) : Prop :=
  ∀ n ∈ g.nodes, ∀ m ∈ g.nodes, m.id ∈ n.edges → rank n.data < rank m.data

theorem exists_ready {g : Graph α} {held : List Nat} {rank : α → Nat} (h : g.Inv held)
    (ranked : g.Ranked rank) (nonempty : g.nodes ≠ []) : ∃ n ∈ g.nodes, n.indeg = 0 := by
  obtain ⟨n, hn⟩ := List.exists_mem_of_ne_nil _ nonempty
  -- strong induction on the rank: a node of positive count has a predecessor below it
  induction hr : rank n.data using Nat.strongRecOn generalizing n with
  | ind r ih =>
    by_cases zero : n.indeg = 0
    · exact ⟨n, hn, zero⟩
    · have positive : 0 < inCount g.nodes n.id := by
        have := h.indeg n hn
        omega
      obtain ⟨m, hm, edge⟩ := inCount_pos.mp positive
      exact ih _ (hr ▸ ranked m hm n hn edge) m hm rfl

/-- Where the predecessors of a kind of node are of that kind, one of the kind is queued or held. -/
theorem exists_ready_among {g : Graph α} {held : List Nat} {rank : α → Nat} (kind : α → Prop)
    (h : g.Inv held) (ranked : g.Ranked rank)
    (closed : ∀ n ∈ g.nodes, ∀ m ∈ g.nodes, m.id ∈ n.edges → kind m.data → kind n.data)
    {n : Node α} (hn : n ∈ g.nodes) (here : kind n.data) :
    ∃ m ∈ g.nodes, kind m.data ∧ (m.id ∈ g.queue ∨ m.id ∈ held) := by
  induction hr : rank n.data using Nat.strongRecOn generalizing n with
  | ind r ih =>
    have counted := h.ready n hn
    by_cases zero : n.indeg = 0
    · rw [if_pos zero] at counted
      refine ⟨n, hn, here, ?_⟩
      rw [← List.count_pos_iff, ← List.count_pos_iff]
      omega
    · have positive : 0 < inCount g.nodes n.id := by
        have := h.indeg n hn
        omega
      obtain ⟨m, hm, edge⟩ := inCount_pos.mp positive
      exact ih _ (hr ▸ ranked m hm n hn edge) hm (closed m hm n hn edge here) rfl

theorem nodes_eq_nil {g : Graph α} {rank : α → Nat} (h : g.Inv []) (ranked : g.Ranked rank)
    (idle : g.queue = []) : g.nodes = [] := by
  by_contra nonempty
  obtain ⟨n, hn, zero⟩ := exists_ready h ranked nonempty
  have counted := h.ready n hn
  simp [idle, zero] at counted

end Graph

end TiojJudge.TaskGraph
