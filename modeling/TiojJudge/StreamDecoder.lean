import Mathlib.Data.List.Infix
import Mathlib.Data.Prod.Lex

/-!
# Streaming decoders

A decoder takes its input and gives its output in pieces, and keeps a state between
two calls. A call takes some of the input it is offered; after an error the decoder
is left undefined.

* `feed`: the calls until the input is taken;
* `feedAll`: one piece of input after another;
* `Restarts`: a frame is decoded in whatever pieces it comes, and the decoder is fresh after it;
* `Whole`, `Restarts.feed_whole`: pieces that are whole frames leave the decoder fresh;
* `strict`, `strict_restarts`, `whole_of_strict`: the decoder that takes nothing but them;
* `ofPush`: a decoder that takes its input one by one, and stops a call where a frame ends.
-/

namespace TiojJudge

structure StreamDecoder (σ α β : Type*) where
  init : σ
  /-- The state, how much of the input was taken, and the output. -/
  call : σ → List α → Option (σ × Nat × List β)
  /-- How much output the state holds back. -/
  pending : σ → Nat
  progress : ∀ {s input t out}, input ≠ [] → call s input = some (t, 0, out) → pending t < pending s

namespace StreamDecoder

variable {σ α β : Type*} (d : StreamDecoder σ α β)

/-- The state is `none` after an error. -/
def feed (s : σ) (input : List α) : Option σ × List β :=
  if _some : input = [] then (some s, [])
  else
    match _called : d.call s input with
    | none => (none, [])
    | some (t, taken, out) =>
      let rest := feed t (input.drop taken)
      (rest.1, out ++ rest.2)
termination_by (input.length, d.pending s)
decreasing_by
  cases taken with
  | zero => exact Prod.Lex.right _ (d.progress _some _called)
  | succ n =>
    apply Prod.Lex.left
    rw [List.length_drop]
    exact Nat.sub_lt (List.length_pos_of_ne_nil _some) n.succ_pos

def feedAll : σ → List (List α) → Option σ × List β
  | s, [] => (some s, [])
  | s, piece :: pieces =>
    match d.feed s piece with
    | (none, out) => (none, out)
    | (some t, out) =>
      let rest := feedAll t pieces
      (rest.1, out ++ rest.2)

variable {d} {s t : σ} {input : List α} {out : List β} {pieces more : List (List α)}

@[simp] theorem feed_nil : d.feed s [] = (some s, []) := by
  rw [feed]
  rfl

/-- A call, and those for the input that it leaves. -/
theorem feed_call {taken : Nat} (called : d.call s input = some (t, taken, out)) (some : input ≠ []) :
    d.feed s input =
      ((d.feed t (input.drop taken)).1, out ++ (d.feed t (input.drop taken)).2) := by
  rw [feed, dif_neg some]
  split
  · rename_i failed
    rw [called] at failed
    cases failed
  · rename_i again
    rw [called] at again
    cases again
    rfl

/-- A call that takes all of the input is the only one. -/
theorem feed_once (called : d.call s input = some (t, input.length, out)) (some : input ≠ []) :
    d.feed s input = (.some t, out) := by
  rw [feed_call called some, List.drop_length]
  simp

theorem feed_fails (called : d.call s input = none) (some : input ≠ []) :
    d.feed s input = (none, []) := by
  rw [feed, dif_neg some]
  split
  · rfl
  · rename_i again
    rw [called] at again
    cases again

theorem feedAll_append (fed : d.feedAll s pieces = (some t, out)) : d.feedAll s (pieces ++ more) =
    ((d.feedAll t more).1, out ++ (d.feedAll t more).2) := by
  induction pieces generalizing s out with
  | nil =>
    cases fed
    rfl
  | cons piece pieces ih =>
    simp only [feedAll, List.cons_append] at fed ⊢
    split at fed
    · cases fed
    · simp only [Prod.mk.injEq] at fed
      obtain ⟨last, rfl⟩ := fed
      rw [ih (Prod.ext last rfl), List.append_assoc]

/-- After an error nothing more is taken. -/
theorem feedAll_stops (failed : (d.feedAll s pieces).1 = none) :
    (d.feedAll s (pieces ++ more)).1 = none := by
  induction pieces generalizing s with
  | nil => cases failed
  | cons piece pieces ih =>
    simp only [feedAll, List.cons_append] at failed ⊢
    split at failed
    · rfl
    · exact ih failed

theorem feedAll_one {piece : List α} : (d.feedAll s [piece]).1 = (d.feed s piece).1 := by
  simp only [feedAll]
  split
  · rename_i failed
    rw [failed]
  · rename_i fed
    rw [fed]

/-- Empty pieces leave the decoder as it is. -/
theorem feedAll_empty (empty : pieces.flatten = []) : d.feedAll s pieces = (some s, []) := by
  induction pieces with
  | nil => rfl
  | cons piece pieces ih =>
    obtain ⟨rfl, rest⟩ := List.append_eq_nil_iff.mp empty
    simp [feedAll, ih rest]

/-! ## Whole frames -/

/-- In a fresh state the decoder takes the frame, in whatever pieces, and is fresh after it. -/
structure Restarts (d : StreamDecoder σ α β) (frame : List α) (output : List β) (fresh : σ → Prop) :
    Prop where
  init : fresh d.init
  whole : ∀ {s}, fresh s → ∀ pieces : List (List α), pieces.flatten = frame →
    ∃ t, d.feedAll s pieces = (some t, output) ∧ fresh t

/-- The pieces are runs that make up the frame, and nothing behind them. -/
def Whole (frame : List α) (pieces : List (List α)) : Prop :=
  ∃ (runs : List (List (List α))) (rest : List (List α)), pieces = runs.flatten ++ rest ∧
    (∀ run ∈ runs, run.flatten = frame) ∧ rest.flatten = []

variable {frame : List α} {output : List β} {fresh : σ → Prop}

theorem Restarts.feed_whole (h : d.Restarts frame output fresh) (here : fresh s)
    (whole : Whole frame pieces) : ∃ t, (d.feedAll s pieces).1 = some t ∧ fresh t := by
  obtain ⟨runs, rest, rfl, frames, empty⟩ := whole
  induction runs generalizing s with
  | nil => exact ⟨s, congrArg Prod.fst (feedAll_empty empty), here⟩
  | cons run runs ih =>
    obtain ⟨t, fed, new⟩ := h.whole here run (frames run (.head _))
    obtain ⟨u, fed', new'⟩ := ih new fun next hn => frames next (.tail _ hn)
    rw [List.flatten_cons, List.append_assoc, feedAll_append fed]
    exact ⟨u, fed', new'⟩

section Strict

variable [DecidableEq α] (frame output)

/-- The decoder of one frame, which refuses a piece that goes beyond its end. The state is how
much of the frame it has. -/
def strict : StreamDecoder Nat α β where
  init := 0
  call s input :=
    if input <+: frame.drop s then
      if s + input.length = frame.length then some (0, input.length, output)
      else some (s + input.length, input.length, [])
    else none
  pending _ := 0
  progress := by
    intro s input t out some called
    have pos := List.length_pos_of_ne_nil some
    split at called
    · split at called <;>
      · simp only [Option.some.injEq, Prod.mk.injEq] at called
        omega
    · cases called

variable {frame output} {k : Nat}

theorem strict_last {piece : List α} (fits : piece <+: frame.drop k)
    (last : k + piece.length = frame.length) (some : piece ≠ []) :
    (strict frame output).feed k piece = (.some 0, output) :=
  feed_once (by simp [strict, fits, last]) some

theorem strict_inner {piece : List α} (fits : piece <+: frame.drop k)
    (inner : k + piece.length ≠ frame.length) (some : piece ≠ []) :
    (strict frame output).feed k piece = (.some (k + piece.length), []) :=
  feed_once (by simp [strict, fits, inner]) some

theorem strict_rest (inside : k < frame.length) (flat : pieces.flatten = frame.drop k) :
    (strict frame output).feedAll k pieces = (some 0, output) := by
  induction pieces generalizing k with
  | nil =>
    have none := congrArg List.length flat
    rw [List.flatten_nil, List.length_nil, List.length_drop] at none
    omega
  | cons piece pieces ih =>
    rw [List.flatten_cons] at flat
    by_cases empty : piece = []
    · subst empty
      simp [feedAll, ih inside flat]
    · have fits : piece <+: frame.drop k := ⟨_, flat⟩
      have rest : pieces.flatten = frame.drop (k + piece.length) := by
        rw [← List.drop_drop, ← flat, List.drop_left]
      by_cases last : k + piece.length = frame.length
      · rw [last, List.drop_length] at rest
        simp [feedAll, strict_last fits last empty, feedAll_empty rest]
      · have short := fits.length_le
        rw [List.length_drop] at short
        simp [feedAll, strict_inner fits last empty, ih (k := k + piece.length) (by omega) rest]

theorem strict_restarts (some : frame ≠ []) :
    (strict frame output).Restarts frame output (· = 0) where
  init := rfl
  whole := by
    rintro s rfl pieces flat
    exact ⟨0, strict_rest (List.length_pos_of_ne_nil some) flat, rfl⟩

/-- A piece that the decoder takes goes on with its frame. -/
theorem strict_feed {piece : List α} {j : Nat} (inside : j < frame.length)
    (fed : ((strict frame output).feed j piece).1 = some k) :
    piece <+: frame.drop j ∧ (j + piece.length = frame.length ∧ k = 0 ∨
      j + piece.length < frame.length ∧ k = j + piece.length) := by
  by_cases empty : piece = []
  · subst empty
    rw [feed_nil] at fed
    cases fed
    exact ⟨List.nil_prefix, .inr ⟨inside, rfl⟩⟩
  · by_cases fits : piece <+: frame.drop j
    · refine ⟨fits, ?_⟩
      have short := fits.length_le
      rw [List.length_drop] at short
      by_cases last : j + piece.length = frame.length
      · rw [strict_last fits last empty] at fed
        exact .inl ⟨last, (Option.some.inj fed).symm⟩
      · rw [strict_inner fits last empty] at fed
        exact .inr ⟨by omega, (Option.some.inj fed).symm⟩
    · rw [feed_fails (by simp [strict, fits]) empty] at fed
      cases fed

/-- Pieces that the decoder takes are whole frames, and the part of the next one that it has. -/
theorem strict_taken (some : frame ≠ []) (fed : ((strict frame output).feedAll 0 pieces).1 = .some k) :
    k < frame.length ∧ ∃ (runs : List (List (List α))) (rest : List (List α)),
      pieces = runs.flatten ++ rest ∧ (∀ run ∈ runs, run.flatten = frame) ∧
      rest.flatten = frame.take k := by
  induction pieces using List.reverseRecOn generalizing k with
  | nil =>
    cases fed
    exact ⟨List.length_pos_of_ne_nil some, [], [], rfl, nofun, rfl⟩
  | append_singleton pieces piece ih =>
    cases before : (strict frame output).feedAll 0 pieces with
    | mk state out =>
      cases state with
      | none =>
        rw [feedAll_stops (congrArg Prod.fst before)] at fed
        cases fed
      | some j =>
        obtain ⟨inside, runs, rest, rfl, frames, flat⟩ := ih (congrArg Prod.fst before)
        rw [feedAll_append before, feedAll_one] at fed
        obtain ⟨fits, next⟩ := strict_feed inside fed
        have more : (rest ++ [piece]).flatten = frame.take j ++ piece := by simp [flat]
        have short := fits.length_le
        rw [List.length_drop] at short
        rcases next with ⟨last, rfl⟩ | ⟨inner, rfl⟩
        · refine ⟨by omega, runs ++ [rest ++ [piece]], [], by simp, fun run hr => ?_, rfl⟩
          rcases List.mem_append.mp hr with old | new
          · exact frames run old
          · obtain rfl := List.mem_singleton.mp new
            have all : piece = frame.drop j := fits.eq_of_length (by rw [List.length_drop]; omega)
            rw [more, all, List.take_append_drop]
        · refine ⟨inner, runs, rest ++ [piece], by simp, frames, ?_⟩
          rw [more, List.prefix_iff_eq_take.mp fits, List.take_add, List.length_take]
          congr 2
          rw [List.length_drop]
          omega

/-- A decoder that has part of a frame refuses a whole one. -/
theorem whole_of_strict (some : frame ≠ [])
    (fed : ((strict frame output).feedAll 0 (pieces ++ [frame])).1 ≠ none) : Whole frame pieces := by
  cases before : (strict frame output).feedAll 0 pieces with
  | mk state out =>
    cases state with
    | none => exact absurd (feedAll_stops (congrArg Prod.fst before)) fed
    | some j =>
      obtain ⟨inside, runs, rest, rfl, frames, flat⟩ := strict_taken some (congrArg Prod.fst before)
      obtain ⟨k, fed⟩ := Option.ne_none_iff_exists'.mp fed
      rw [feedAll_append before, feedAll_one] at fed
      have short := (strict_feed inside fed).1.length_le
      rw [List.length_drop] at short
      obtain rfl : j = 0 := by omega
      exact ⟨runs, rest, rfl, frames, flat⟩

end Strict

/-! ## One by one -/

section Push

variable {push : σ → α → Option (σ × List β)} {ended : σ → Bool} {init : σ}

variable (push) in
def pushAll : σ → List α → Option (σ × List β)
  | s, [] => some (s, [])
  | s, a :: input =>
    (push s a).bind fun r => (pushAll r.1 input).map fun rest => (rest.1, r.2 ++ rest.2)

variable (push ended) in
/-- As far as to the end of a frame. -/
def pushFrame : σ → List α → Option (σ × Nat × List β)
  | s, [] => some (s, 0, [])
  | s, a :: input =>
    (push s a).bind fun r =>
      if ended r.1 then some (r.1, 1, r.2)
      else (pushFrame r.1 input).map fun rest => (rest.1, rest.2.1 + 1, r.2 ++ rest.2.2)

theorem pushFrame_pos {taken : Nat} (some : input ≠ [])
    (called : pushFrame push ended s input = .some (t, taken, out)) : 0 < taken := by
  cases input with
  | nil => exact absurd rfl some
  | cons a input =>
    obtain ⟨r, -, rest⟩ := Option.bind_eq_some_iff.mp called
    split at rest
    · cases rest
      exact Nat.one_pos
    · obtain ⟨_, _, same⟩ := Option.map_eq_some_iff.mp rest
      cases same
      exact Nat.succ_pos _

variable (push ended) in
def ofPush (init : σ) : StreamDecoder σ α β where
  init := init
  call := pushFrame push ended
  pending _ := 0
  progress := fun some called => absurd (pushFrame_pos some called) (lt_irrefl 0)

theorem pushAll_append {more : List α} : pushAll push s (input ++ more) =
    (pushAll push s input).bind fun r =>
      (pushAll push r.1 more).map fun rest => (rest.1, r.2 ++ rest.2) := by
  induction input generalizing s with
  | nil => simp [pushAll]
  | cons a input ih =>
    simp only [List.cons_append, pushAll]
    cases push s a with
    | none => rfl
    | some r =>
      simp only [Option.bind_some, ih]
      cases pushAll push r.1 input with
      | none => rfl
      | some u =>
        simp only [Option.map_some, Option.bind_some, Option.map_map]
        cases pushAll push u.1 more <;> simp

variable (ended) in
/-- A call does the first part of it all. -/
theorem pushFrame_of_pushAll (pushed : pushAll push s input = some (t, out)) :
    ∃ u taken first rest, pushFrame push ended s input = some (u, taken, first) ∧
      pushAll push u (input.drop taken) = some (t, rest) ∧ out = first ++ rest := by
  induction input generalizing s out with
  | nil =>
    cases pushed
    exact ⟨_, 0, [], [], rfl, rfl, rfl⟩
  | cons a input ih =>
    obtain ⟨⟨u, here⟩, one, pushed⟩ := Option.bind_eq_some_iff.mp pushed
    obtain ⟨⟨v, later⟩, tail, same⟩ := Option.map_eq_some_iff.mp pushed
    obtain ⟨rfl, rfl⟩ := Prod.mk.inj same
    by_cases ends : ended u = true
    · exact ⟨u, 1, here, later, by simp [pushFrame, one, ends], tail, rfl⟩
    · obtain ⟨w, taken, first, rest, called, left, rfl⟩ := ih tail
      refine ⟨w, taken + 1, here ++ first, rest, ?_, left, (List.append_assoc ..).symm⟩
      simp [pushFrame, one, ends, called]

theorem feed_ofPush (pushed : pushAll push s input = some (t, out)) :
    (ofPush push ended init).feed s input = (some t, out) := by
  induction size : input.length using Nat.strong_induction_on generalizing s input out with
  | _ n ih =>
    subst size
    by_cases empty : input = []
    · subst empty
      cases pushed
      exact feed_nil
    · obtain ⟨u, taken, first, rest, called, left, rfl⟩ :=
        pushFrame_of_pushAll ended pushed
      have pos := pushFrame_pos empty called
      have shorter : (input.drop taken).length < input.length := by
        have some := List.length_pos_of_ne_nil empty
        rw [List.length_drop]
        omega
      rw [feed_call (d := ofPush push ended init) called empty, ih _ shorter left rfl]

theorem feedAll_ofPush (pushed : pushAll push s pieces.flatten = some (t, out)) :
    (ofPush push ended init).feedAll s pieces = (some t, out) := by
  induction pieces generalizing s out with
  | nil =>
    cases pushed
    rfl
  | cons piece pieces ih =>
    rw [List.flatten_cons, pushAll_append] at pushed
    obtain ⟨⟨u, first⟩, head, pushed⟩ := Option.bind_eq_some_iff.mp pushed
    obtain ⟨⟨v, rest⟩, tail, same⟩ := Option.map_eq_some_iff.mp pushed
    obtain ⟨rfl, rfl⟩ := Prod.mk.inj same
    simp only [feedAll, feed_ofPush head, ih tail]

end Push

end StreamDecoder

end TiojJudge
