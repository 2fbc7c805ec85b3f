import Mathlib.Data.Nat.Digits.Defs

/-!
# Readers of a buffer

A reader takes a value from a buffer at a place and gives the place behind the
value; it gives `none` when it would read past the end, or refuses what is
there.

* `Reads r bs a`: wherever a buffer holds `bs`, the reader takes `a` from it and
  stops behind it;
* `Reads.bind`, `Reads.many`: readers one after another;
* `toBytes`, `ofBytes_toBytes`: numbers as bytes, the low one first.
-/

namespace TiojJudge

universe u v

def Reader (β : Type u) (α : Type v) := List β → Nat → Option (α × Nat)

namespace Reader

variable {β : Type u} {α γ : Type v}

instance : Monad (Reader β) where
  pure a _ cur := some (a, cur)
  bind r f buf cur := (r buf cur).bind fun (a, next) => f a buf next

/-- The next `n` elements. -/
def take (n : Nat) : Reader β (List β) := fun buf cur =>
  if cur + n ≤ buf.length then some ((buf.drop cur).take n, cur + n) else none

def ofOption (a : Option α) : Reader β α := fun _ cur => a.map fun a => (a, cur)

def many (r : Reader β α) : Nat → Reader β (List α)
  | 0 => pure []
  | n + 1 => do
    let a ← r
    let as ← many r n
    pure (a :: as)

/-- Wherever `bs` stands, the reader takes `a` from it, no more and no less. -/
def Reads (r : Reader β α) (bs : List β) (a : α) : Prop :=
  ∀ before after, r (before ++ bs ++ after) before.length = some (a, before.length + bs.length)

variable {r : Reader β α} {bs cs : List β} {a : α}

theorem Reads.pure : Reads (pure a : Reader β α) [] a := fun _ _ => rfl

theorem Reads.bind {f : α → Reader β γ} {c : γ} (h : Reads r bs a) (h' : Reads (f a) cs c) :
    Reads (r >>= f) (bs ++ cs) c := by
  intro before after
  have first := h before (cs ++ after)
  have second := h' (before ++ bs) after
  simp only [List.append_assoc, List.length_append] at first second ⊢
  change (r _ _).bind _ = _
  rw [first, Option.bind_some]
  dsimp only
  rw [second, Nat.add_assoc]

theorem Reads.take : Reads (Reader.take bs.length) bs bs := by
  intro before after
  rw [Reader.take, if_pos (by simp), List.append_assoc, List.drop_left, List.take_left]

theorem Reads.ofOption : Reads (Reader.ofOption (some a) : Reader β α) [] a := fun _ _ => rfl

theorem Reads.many {as : List α} {write : α → List β} (h : ∀ a ∈ as, Reads r (write a) a) :
    Reads (Reader.many r as.length) (as.flatMap write) as := by
  induction as with
  | nil => exact Reads.pure
  | cons a as ih =>
    have rest : Reads (Reader.many r as.length) (as.flatMap write) as :=
      ih fun b hb => h b (.tail _ hb)
    have both : Reads (Reader.many r as.length >>= fun as => Pure.pure (a :: as))
        (as.flatMap write ++ []) (a :: as) := Reads.bind rest Reads.pure
    rw [List.append_nil] at both
    rw [List.flatMap_cons]
    exact Reads.bind (h a (.head _)) both

/-- The whole buffer is read. -/
theorem Reads.whole (h : Reads r bs a) : r bs 0 = some (a, bs.length) := by
  have all := h [] []
  rwa [List.nil_append, List.append_nil, List.length_nil, Nat.zero_add] at all

end Reader

/-! ## Bytes of a number -/

/-- The low `n` bytes, the lowest first. -/
def toBytes : Nat → Nat → List UInt8
  | 0, _ => []
  | n + 1, x => UInt8.ofNat x :: toBytes n (x / 256)

def ofBytes (bs : List UInt8) : Nat := Nat.ofDigits 256 (bs.map UInt8.toNat)

@[simp]
theorem length_toBytes (n x : Nat) : (toBytes n x).length = n := by
  induction n generalizing x with
  | zero => rfl
  | succ n ih => rw [toBytes, List.length_cons, ih]

theorem ofBytes_toBytes {n x : Nat} (h : x < 256 ^ n) : ofBytes (toBytes n x) = x := by
  induction n generalizing x with
  | zero =>
    obtain rfl : x = 0 := by omega
    rfl
  | succ n ih =>
    have high : x / 256 < 256 ^ n := Nat.div_lt_of_lt_mul (by rwa [Nat.mul_comm, ← Nat.pow_succ])
    calc ofBytes (toBytes (n + 1) x) = x % 256 + 256 * ofBytes (toBytes n (x / 256)) := rfl
      _ = x % 256 + 256 * (x / 256) := by rw [ih high]
      _ = x := Nat.mod_add_div x 256

end TiojJudge
