import Mathlib.Data.List.Basic

/-!
# Events and what came before them

`Timely P log` says that each event of `log` had the past it needs: `P past e`
for the events `past` in front of it.
-/

namespace TiojJudge

variable {ε : Type*} {P Q : List ε → ε → Prop} {log new : List ε}

def Timely (P : List ε → ε → Prop) (log : List ε) : Prop :=
  ∀ past e future, log = past ++ e :: future → P past e

namespace Timely

theorem nil : Timely P [] := by
  intro past e future h
  simp at h

theorem append (h : Timely P log)
    (hnew : ∀ past e future, new = past ++ e :: future → P (log ++ past) e) :
    Timely P (log ++ new) := by
  intro past e future split
  rcases List.append_eq_append_iff.mp split with ⟨more, rfl, hnew'⟩ | ⟨more, hlog, rest⟩
  · exact hnew more e future hnew'
  · cases more with
    | nil =>
      obtain rfl : log = past := by simpa using hlog
      simpa using hnew [] e future (by simpa using rest.symm)
    | cons a more =>
      obtain ⟨rfl, _⟩ := List.cons.inj rest
      exact h past e more hlog

theorem init (h : Timely P (log ++ new)) : Timely P log := by
  rintro past e future rfl
  exact h past e (future ++ new) (by simp)

theorem snoc_iff {e : ε} : Timely P (log ++ [e]) ↔ Timely P log ∧ P log e := by
  refine ⟨fun h => ⟨h.init, h log e [] rfl⟩, fun ⟨h, he⟩ => h.append fun past e' future split => ?_⟩
  cases past with
  | nil =>
    obtain ⟨rfl, _⟩ := List.cons.inj split
    simpa using he
  | cons a past => simp at split

theorem snoc {e : ε} (h : Timely P log) (he : P log e) : Timely P (log ++ [e]) :=
  snoc_iff.mpr ⟨h, he⟩

/-- Events that need no past. -/
theorem append_free (h : Timely P log) (free : ∀ e ∈ new, ∀ past, P past e) :
    Timely P (log ++ new) :=
  h.append fun past e future split => free e (by simp [split]) _

theorem append_free_iff (free : ∀ e ∈ new, ∀ past, P past e) :
    Timely P (log ++ new) ↔ Timely P log :=
  ⟨init, fun h => h.append_free free⟩

/-- What holds in the part of the log that concerns an event holds in the log. -/
theorem of_filter {q : ε → Bool} (h : Timely P (log.filter q))
    (more : ∀ past e, P (past.filter q) e → P past e) (other : ∀ past e, q e = false → P past e) :
    Timely P log := by
  intro past e future split
  cases he : q e with
  | false => exact other past e he
  | true =>
    refine more past e (h (past.filter q) e (future.filter q) ?_)
    simp [split, he]

/-- The log and the part of it that concerns an event, for a condition that looks at
no other part. -/
theorem filter_iff {q : ε → Bool} (same : ∀ past e, P (past.filter q) e ↔ P past e)
    (other : ∀ past e, q e = false → P past e) : Timely P (log.filter q) ↔ Timely P log := by
  refine ⟨fun h => h.of_filter (fun past e => (same past e).mp) other, fun h past e future split => ?_⟩
  obtain ⟨before, after, rfl, rfl, rest⟩ := List.filter_eq_append_iff.mp split
  obtain ⟨skipped, after, rfl, none, _, rfl⟩ := List.filter_eq_cons_iff.mp rest
  have whole := h (before ++ skipped) e after (by simp)
  rw [← same, List.filter_append, List.filter_eq_nil_iff.mpr none, List.append_nil] at whole
  exact whole

end Timely

end TiojJudge
