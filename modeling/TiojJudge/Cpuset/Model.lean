import Mathlib.Data.Finset.Range
import TiojJudge.Numerals

/-!
# CpusetParse

The parser of `cpuset.cpp`, for the option `pinned_cpus`. A string is the list of
its characters before the NUL, and a pointer into it is what stands from there on,
so that of two pointers the one with less behind it is the later.
-/

namespace TiojJudge.Cpuset

open Numerals

def cpuSetsize : Nat := 1024

/-- What stands behind the first separator; `none` is a null pointer. -/
def nexttoken (q : List Char) (sep : Char) : Option (List Char) :=
  match q.dropWhile (· ≠ sep) with
  | [] => none
  | _ :: rest => some rest

/-- `strtoul` of a string that begins with a digit, with its value unless it sets `errno`. -/
def strtoul (str : List Char) : Option Nat × List Char :=
  let value := digitsValue 10 (str.takeWhile Char.isDigit)
  (if value < 2 ^ 64 then some value else none, str.dropWhile Char.isDigit)

def nextnumber (str : List Char) : Option (UInt32 × List Char) :=
  match str with
  | [] => none
  | c :: _ =>
    if !c.isDigit then none
    else
      match strtoul str with
      | (none, _) => none
      | (some value, stop) => some (UInt32.ofNat value, stop)

/-- `c1 != NULL && (c2 == NULL || c1 < c2)`. -/
def within (c1 c2 : Option (List Char)) : Option (List Char) :=
  c1.filter fun c1 => c2.all fun c2 => c2.length < c1.length

/-- A range with its stride. -/
structure Item where
  a : UInt32
  b : UInt32
  s : UInt32
  positive : s ≠ 0

/-- The body of the loop, until the range is known; with the `end` that it leaves. -/
def parseItem (p : List Char) : Option (Item × List Char) :=
  match nextnumber p with
  | none => none
  | some (a, stop) =>
    let c2 := nexttoken stop ','
    match within (nexttoken stop '-') c2 with
    | none => some (⟨a, a, 1, by decide⟩, stop)
    | some c1 =>
      match nextnumber c1 with
      | none => none
      | some (b, stop) =>
        match within (nexttoken stop ':') c2 with
        | none => some (⟨a, b, 1, by decide⟩, stop)
        | some c1 =>
          match nextnumber c1 with
          | none => none
          | some (s, stop) => if _zero : s = 0 then none else some (⟨a, b, s, _zero⟩, stop)

/-- The loop over a range. It ends, because a step that wraps around makes `a` smaller. -/
def strideLoop (ncpu : Fin (cpuSetsize + 1)) (i : Item) (a : UInt32) (set : Finset Nat) :
    Finset Nat :=
  if _inside : a ≤ i.b ∧ a.toNat < ncpu then strideLoop ncpu i (a + i.s) (insert a.toNat set)
  else set
termination_by
  if a.toNat < ncpu then (if i.s.toNat < 2 ^ 31 then ncpu - a.toNat else a.toNat + 1) else 0
decreasing_by
  have few : (ncpu : Nat) < 1024 + 1 := ncpu.isLt
  have below := _inside.2
  have positive : i.s.toNat ≠ 0 := fun zero => i.positive (UInt32.toNat_inj.mp zero)
  have stride := i.s.toNat_lt
  have next : (a + i.s).toNat = (a.toNat + i.s.toNat) % 2 ^ 32 := UInt32.toNat_add a i.s
  split_ifs <;> omega

theorem nexttoken_shorter {p q : List Char} {sep : Char} (found : nexttoken p sep = some q) :
    q.length < p.length := by
  have shorter := (List.dropWhile_sublist (fun c => decide (c ≠ sep)) (l := p)).length_le
  unfold nexttoken at found
  split at found
  · cases found
  · rename_i c rest left
    cases found
    rw [left, List.length_cons] at shorter
    omega

/-- The loop over the items, from `p` on, and whether the string is accepted. -/
def parseLoop (ncpu : Fin (cpuSetsize + 1)) (p : List Char) (set : Finset Nat) :
    Bool × Finset Nat :=
  match parseItem p with
  | none => (false, set)
  | some (i, stop) =>
    if !(i.a ≤ i.b) then (false, set)
    else
      let set := strideLoop ncpu i i.a set
      match _more : nexttoken p ',' with
      | some q => parseLoop ncpu q set
      -- `end && *end`, after the loop
      | none => (stop.isEmpty, set)
termination_by p.length
decreasing_by exact nexttoken_shorter _more

def cpusetParse (ncpu : Fin (cpuSetsize + 1)) (str : List Char) : Bool × Finset Nat :=
  if str = "all".toList then (true, Finset.range ncpu)
  else if str = "none".toList then (true, ∅)
  else parseLoop ncpu str ∅

end TiojJudge.Cpuset
