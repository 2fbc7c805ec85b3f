import Mathlib.Data.List.Basic

/-!
# Machines driven by labels

A machine takes a step when the environment picks a label; a label whose step
is not possible gives `none`. A condition `P` on a state and a label restricts
the runs that are looked at:

* `Run m P s ls t`: the labels `ls` lead from `s` to `t`, each step meeting `P`;
* `Reach m P s`: such a run leads from the initial state to `s`;
* `Run.invariant`, `Reach.invariant`: what every step keeps, every run keeps;
* `exec`, `run_exec`: a run computed from its labels;
* `observed`: the machine with a record of what its steps show;
* `noted`: the machine with notes, which each step brings up to date.
-/

namespace TiojJudge

structure Machine (S L : Type*) where
  init : S
  step : S → L → Option S

variable {S L : Type*}

namespace Machine

inductive Run (m : Machine S L) (P : S → L → Prop) (s : S) : List L → S → Prop where
  | nil : Run m P s [] s
  | snoc {ls t l u} : Run m P s ls t → P t l → m.step t l = some u → Run m P s (ls ++ [l]) u

def Reach (m : Machine S L) (P : S → L → Prop) (s : S) : Prop :=
  ∃ ls, Run m P m.init ls s

/-- The condition that excludes no step. -/
def anyStep : S → L → Prop := fun _ _ => True

instance : DecidableRel (anyStep : S → L → Prop) := fun _ _ => isTrue trivial

variable {m : Machine S L} {P Q : S → L → Prop} {s t u : S}

theorem Reach.init : Reach m P m.init := ⟨[], .nil⟩

theorem Reach.step {l : L} (h : Reach m P s) (hp : P s l) (hs : m.step s l = some t) :
    Reach m P t := by
  obtain ⟨ls, h⟩ := h
  exact ⟨ls ++ [l], .snoc h hp hs⟩

theorem Run.trans {ls ls' : List L} (h : Run m P s ls t) (h' : Run m P t ls' u) :
    Run m P s (ls ++ ls') u := by
  induction h' with
  | nil => simpa using h
  | snoc _ hp hs ih => simpa only [List.append_assoc] using Run.snoc ih hp hs

theorem Reach.run {ls : List L} (h : Reach m P s) (h' : Run m P s ls t) : Reach m P t := by
  obtain ⟨ks, h⟩ := h
  exact ⟨ks ++ ls, h.trans h'⟩

theorem Run.weaken {ls : List L} (hpq : ∀ a l, P a l → Q a l) (h : Run m P s ls t) :
    Run m Q s ls t := by
  induction h with
  | nil => exact .nil
  | snoc _ hp hs ih => exact .snoc ih (hpq _ _ hp) hs

theorem Reach.weaken (hpq : ∀ a l, P a l → Q a l) (h : Reach m P s) : Reach m Q s := by
  obtain ⟨ls, h⟩ := h
  exact ⟨ls, h.weaken hpq⟩

/-- The labels determine the run. -/
theorem Run.unique {ls : List L} (h : Run m P s ls t) (h' : Run m Q s ls u) : t = u := by
  induction h generalizing u with
  | nil =>
    generalize none : ([] : List L) = labels at h'
    cases h' with
    | nil => rfl
    | snoc => simp at none
  | @snoc ls a l b _ _ hs ih =>
    generalize same : ls ++ [l] = labels at h'
    cases h' with
    | nil => simp at same
    | @snoc ls' a' l' _ run' _ hs' =>
      obtain ⟨rfl, last⟩ := List.append_inj' same rfl
      obtain rfl := List.singleton_inj.mp last
      obtain rfl := ih run'
      exact Option.some.inj (hs.symm.trans hs')

theorem Run.split {ls ls' : List L} (h : Run m P s (ls ++ ls') u) :
    ∃ t, Run m P s ls t ∧ Run m P t ls' u := by
  generalize all : ls ++ ls' = labels at h
  induction h generalizing ls' with
  | nil =>
    obtain ⟨rfl, rfl⟩ := List.append_eq_nil_iff.mp all
    exact ⟨s, .nil, .nil⟩
  | @snoc ks a l b run hp hs ih =>
    rcases List.eq_nil_or_concat ls' with rfl | ⟨ls', l', rfl⟩
    · rw [List.append_nil] at all
      exact ⟨b, all ▸ .snoc run hp hs, .nil⟩
    · rw [List.concat_eq_append, ← List.append_assoc] at all
      obtain ⟨front, last⟩ := List.append_inj' all rfl
      obtain rfl := List.singleton_inj.mp last
      obtain ⟨t, first, rest⟩ := ih front
      rw [List.concat_eq_append]
      exact ⟨t, first, .snoc rest hp hs⟩

/-- What each step keeps, in the states reached so far, holds at the end of a run. -/
theorem Run.invariant {I : S → Prop} {ls : List L} (h : Run m P s ls t) (start : I s)
    (keep : ∀ a l b, I a → P a l → m.step a l = some b → I b) : I t := by
  induction h with
  | nil => exact start
  | snoc _ hp hs ih => exact keep _ _ _ ih hp hs

theorem Reach.invariant {I : S → Prop} (h : Reach m P s) (start : I m.init)
    (keep : ∀ a l b, Reach m P a → I a → P a l → m.step a l = some b → I b) : I s := by
  obtain ⟨ls, h⟩ := h
  have both : Reach m P s ∧ I s :=
    h.invariant (I := fun a => Reach m P a ∧ I a) ⟨.init, start⟩
      fun a l b ⟨ha, ia⟩ hp hs => ⟨ha.step hp hs, keep a l b ha ia hp hs⟩
  exact both.2

/-- The state the labels lead to, when every step is possible and meets `P`. -/
def exec (m : Machine S L) (P : S → L → Prop) [∀ s l, Decidable (P s l)] :
    S → List L → Option S
  | s, [] => some s
  | s, l :: ls => if P s l then (m.step s l).bind fun t => exec m P t ls else none

theorem run_exec [∀ s l, Decidable (P s l)] {ls : List L} (h : exec m P s ls = some t) :
    Run m P s ls t := by
  induction ls generalizing s with
  | nil =>
    obtain rfl : s = t := by simpa [exec] using h
    exact .nil
  | cons l ls ih =>
    obtain ⟨hp, a, hs, ha⟩ : P s l ∧ ∃ a, m.step s l = some a ∧ exec m P a ls = some t := by
      simpa [exec, Option.bind_eq_some_iff] using h
    have first : Run m P s [l] a := .snoc .nil hp hs
    exact first.trans (ih ha)

theorem reach_exec [∀ s l, Decidable (P s l)] {ls : List L}
    (h : exec m P m.init ls = some s) : Reach m P s :=
  ⟨ls, run_exec h⟩

/-! ## Observations -/

variable {O : Type*}

/-- The machine with everything that `out` shows of its steps, in order. -/
def observed (m : Machine S L) (out : S → L → List O) : Machine (S × List O) L where
  init := (m.init, [])
  step p l := (m.step p.1 l).map fun t => (t, p.2 ++ out p.1 l)

variable {out : S → L → List O} {os os' : List O}

theorem observed_step {l : L} : (m.observed out).step (s, os) l = some (t, os') ↔
    m.step s l = some t ∧ os' = os ++ out s l := by
  simp only [observed, Option.map_eq_some_iff, Prod.mk.injEq]
  constructor
  · rintro ⟨u, step, rfl, rfl⟩
    exact ⟨step, rfl⟩
  · rintro ⟨step, rfl⟩
    exact ⟨t, step, rfl, rfl⟩

/-- What the steps keep together with what they show. -/
theorem Reach.observed_invariant {P : S × List O → L → Prop} {I : S → List O → Prop}
    (h : (m.observed out).Reach P (s, os)) (start : I m.init [])
    (keep : ∀ a os l b, I a os → P (a, os) l → m.step a l = some b → I b (os ++ out a l)) :
    I s os := by
  apply Reach.invariant (I := fun p : S × List O => I p.1 p.2) h start
  rintro ⟨a, os⟩ l ⟨b, os'⟩ _ ih hp hs
  obtain ⟨step, rfl⟩ := observed_step.mp hs
  exact keep a os l b ih hp step

/-! ## Notes -/

variable {N : Type*} {start : N} {note : N → S → L → S → N} {n n' : N}

/-- The machine with notes that it does not read. -/
def noted (m : Machine S L) (start : N) (note : N → S → L → S → N) : Machine (S × N) L where
  init := (m.init, start)
  step p l := (m.step p.1 l).map fun t => (t, note p.2 p.1 l t)

theorem noted_step {l : L} : (m.noted start note).step (s, n) l = some (t, n') ↔
    m.step s l = some t ∧ n' = note n s l t := by
  simp only [noted, Option.map_eq_some_iff, Prod.mk.injEq]
  constructor
  · rintro ⟨u, step, rfl, rfl⟩
    exact ⟨step, rfl⟩
  · rintro ⟨step, rfl⟩
    exact ⟨t, step, rfl, rfl⟩

/-- What the steps keep together with the notes. -/
theorem Reach.noted_invariant {P : S × N → L → Prop} {I : S → N → Prop}
    (h : (m.noted start note).Reach P (s, n)) (first : I m.init start)
    (keep : ∀ a n l b, I a n → P (a, n) l → m.step a l = some b → I b (note n a l b)) : I s n := by
  apply Reach.invariant (I := fun p : S × N => I p.1 p.2) h first
  rintro ⟨a, n⟩ l ⟨b, n'⟩ _ ih hp hs
  obtain ⟨step, rfl⟩ := noted_step.mp hs
  exact keep a n l b ih hp step

end Machine

end TiojJudge
