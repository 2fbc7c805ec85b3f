import Mathlib.Data.List.Infix

/-!
# Pipes

What was written to a pipe, in order, and how much of it has been read. What is
in the pipe is the rest.

* `push`, `pull`: what a writer and a reader do;
* `Sent`: a writer has put the first elements of its data behind what was there before;
* `Received`: a reader has the first elements from a place on;
* `Received.exact`, `Sent.exact`: what was received is what was sent.
-/

namespace TiojJudge

structure Pipe (α : Type*) where
  written : List α
  taken : Nat
  le : taken ≤ written.length

namespace Pipe

variable {α : Type*}

def empty : Pipe α := ⟨[], 0, Nat.le_refl 0⟩

def push (p : Pipe α) (xs : List α) : Pipe α where
  written := p.written ++ xs
  taken := p.taken
  le := by
    rw [List.length_append]
    exact Nat.le_add_right_of_le p.le

/-- The next `k` elements, once they are there. -/
def pull (p : Pipe α) (k : Nat) : Option (List α × Pipe α) :=
  if _there : p.taken + k ≤ p.written.length then
    some ((p.written.drop p.taken).take k, ⟨p.written, p.taken + k, _there⟩)
  else none

variable {p p' : Pipe α} {before data xs buf bytes : List α} {start n k : Nat}

@[simp] theorem written_empty : (empty : Pipe α).written = [] := rfl

@[simp] theorem taken_empty : (empty : Pipe α).taken = 0 := rfl

@[simp] theorem written_push : (p.push xs).written = p.written ++ xs := rfl

@[simp] theorem taken_push : (p.push xs).taken = p.taken := rfl

theorem pull_eq (pulled : p.pull k = some (bytes, p')) :
    p'.written = p.written ∧ p'.taken = p.taken + k ∧ p.taken + k ≤ p.written.length ∧
      bytes = (p.written.drop p.taken).take k := by
  unfold pull at pulled
  split at pulled
  · cases pulled
    exact ⟨rfl, rfl, ‹_›, rfl⟩
  · cases pulled

theorem pull_there (there : p.taken + k ≤ p.written.length) :
    ∃ p', p.pull k = some ((p.written.drop p.taken).take k, p') := ⟨_, dif_pos there⟩

/-- The first `n` elements of the data stand in the pipe after `before`. -/
def Sent (p : Pipe α) (before data : List α) (n : Nat) : Prop :=
  p.written = before ++ data.take n

/-- All that was taken since `start` are the first `n` elements of the buffer. -/
def Received (p : Pipe α) (start : Nat) (buf : List α) (n : Nat) : Prop :=
  p.taken = start + n ∧ buf.take n = (p.written.drop start).take n

theorem Sent.push (sent : p.Sent before data n) :
    (p.push ((data.drop n).take k)).Sent before data (n + k) := by
  have sent : p.written = before ++ data.take n := sent
  rw [Sent, written_push, sent, List.append_assoc, List.take_add]

theorem Received.push (received : p.Received start buf n) : (p.push xs).Received start buf n := by
  obtain ⟨taken, same⟩ := received
  refine ⟨taken, same.trans ?_⟩
  have there : n ≤ (p.written.drop start).length := by
    have le := p.le
    rw [List.length_drop]
    omega
  have reached : start ≤ p.written.length := by
    have le := p.le
    omega
  rw [written_push, List.drop_append_of_le_length reached, List.take_append_of_le_length there]

theorem Received.pull {buf' : List α} (received : p.Received start buf n)
    (pulled : p.pull k = some (bytes, p')) (stored : buf'.take (n + k) = buf.take n ++ bytes) :
    p'.Received start buf' (n + k) := by
  obtain ⟨taken, same⟩ := received
  obtain ⟨written, next, -, rfl⟩ := pull_eq pulled
  refine ⟨by omega, ?_⟩
  rw [stored, written, List.take_add, same, List.drop_drop, taken]

theorem Received.there (received : p.Received start buf n) : start + n ≤ p.written.length :=
  received.1 ▸ p.le

/-- What is received is a part of anything that begins with what was written. -/
theorem Received.exact (received : p.Received start buf buf.length) (wire : p.written <+: data) :
    buf = (data.drop start).take buf.length := by
  have there := received.there
  obtain ⟨taken, same⟩ := received
  obtain ⟨rest, rfl⟩ := wire
  have length : buf.length ≤ (p.written.drop start).length := by
    rw [List.length_drop]
    omega
  rw [List.drop_append_of_le_length (by omega), List.take_append_of_le_length length, ← same,
    List.take_length]

/-- Who received all that was sent after `before` has received just that. -/
theorem Sent.exact (sent : p.Sent before data n) (length : buf.length = data.length)
    (received : p.Received before.length buf buf.length) : buf = data := by
  have sent : p.written = before ++ data.take n := sent
  have wire : p.written <+: before ++ data := by
    rw [sent, List.prefix_append_right_inj]
    exact List.take_prefix n data
  rw [received.exact wire, List.drop_left, length, List.take_length]

end Pipe

end TiojJudge
