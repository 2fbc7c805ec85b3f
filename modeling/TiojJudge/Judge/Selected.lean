import TiojJudge.Judge.Refinement

/-!
# What is selected from the log

The log has what the scheduler notes of its tasks, and what is reported of the
submissions. A function of events selects from it the entries of one kind.

* `OfReports`: a function that selects reports only;
* `OfTasks`: one that selects launches and ends of tasks only;
* `setup_selects`, `finalize_selects`: one that passes over what a call tells;
* `selects_about`: one that passes over the events of other submissions.
-/

namespace TiojJudge.Judge

variable {β : Type*} {f : Event → Option β}

/-- The task is launched, or it ends. -/
def Event.ofTask : Event → Bool
  | .launched .. | .finalizing .. => true
  | _ => false

class OfReports (f : Event → Option β) : Prop where
  notes : ∀ e, e.source = none → f e = none

class OfTasks (f : Event → Option β) : Prop where
  others : ∀ e, e.ofTask = false → f e = none

/-- `f` passes over dispatches and cancellations. -/
class Selection (f : Event → Option β) : Prop where
  dispatching : ∀ tid id t, f (.dispatching tid id t) = none
  superseded : ∀ id, f (.superseded id) = none

instance [OfReports f] : Selection f where
  dispatching _ _ _ := OfReports.notes _ rfl
  superseded _ := OfReports.notes _ rfl

instance [OfTasks f] : Selection f where
  dispatching _ _ _ := OfTasks.others _ rfl
  superseded _ := OfTasks.others _ rfl

section Cons

variable (tid : Nat) (id : Int) (t : Task) (log : List Event)

@[simp] theorem selects_dispatching [Selection f] :
    (Event.dispatching tid id t :: log).filterMap f = log.filterMap f :=
  List.filterMap_cons_none (Selection.dispatching _ _ _)

@[simp] theorem selects_superseded [Selection f] :
    (Event.superseded id :: log).filterMap f = log.filterMap f :=
  List.filterMap_cons_none (Selection.superseded _)

@[simp] theorem selects_launched [OfReports f] (handle : Int) :
    (Event.launched tid id t handle :: log).filterMap f = log.filterMap f :=
  List.filterMap_cons_none (OfReports.notes _ rfl)

@[simp] theorem selects_finalizing [OfReports f] (outcome : Option TaskOutcome) :
    (Event.finalizing tid id t outcome :: log).filterMap f = log.filterMap f :=
  List.filterMap_cons_none (OfReports.notes _ rfl)

end Cons

section Calls

variable {cfg : Config} {c c' : Ctx} {t : Task} {listSize : Nat}

theorem setup_selects {files : BoxFiles} {launch : Bool} (told : ∀ e, c.Tells t e → f e = none)
    (empty : c.log = []) (h : setup cfg c files t = .ok (launch, c')) : c'.log.filterMap f = [] :=
  List.filterMap_eq_nil_iff.mpr fun e he => told e (setup_events empty h he)

theorem finalize_selects {outcome : Option TaskOutcome} (told : ∀ e, c.Tells t e → f e = none)
    (other : t ≠ .summary) (empty : c.log = [])
    (h : finalize cfg c listSize t outcome = .ok c') : c'.log.filterMap f = [] :=
  List.filterMap_eq_nil_iff.mpr fun e he => told e (finalize_events other empty h he)

end Calls

theorem Reports.selects [OfTasks f] {id : Int} {es : List Event} (h : Reports id es) :
    es.filterMap f = [] := by
  refine List.filterMap_eq_nil_iff.mpr fun e he => OfTasks.others e ?_
  obtain ⟨_, source, _⟩ := h e he
  cases e <;> first | rfl | cases source

theorem selects_about {id : Int} (others : ∀ e, e.about id = false → f e = none)
    (log : List Event) : (log.filter (Event.about id)).filterMap f = log.filterMap f := by
  refine List.filterMap_filter.trans (List.filterMap_congr fun e _ => ?_)
  by_cases about : e.about id = true
  · rw [if_pos about]
  · rw [if_neg about, others e (Bool.eq_false_iff.mpr about)]

end TiojJudge.Judge
