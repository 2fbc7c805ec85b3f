import Mathlib.Data.Rat.Defs
import TiojJudge.Containers
import TiojJudge.Numerals

/-!
# JSON values

Values of `nlohmann::json`, and what is read from them. `none` is an exception of the
library. An object is the list of its members; of two under one key the first counts.

* `field`, `fieldAs`, `value`, `elements`, `items`: access to the parts of a value;
* `getInt`, `getLong`, `getBool`, `getString`, `getList`: conversions of it.
-/

namespace TiojJudge

open Numerals (toInt32 toInt64)

inductive JsonTree where
  | null
  | bool (b : Bool)
  | int (n : Int)
  | float (q : ℚ)
  | str (s : String)
  | arr (elements : List JsonTree)
  | obj (members : List (String × JsonTree))

namespace JsonTree

variable {α β : Type*}

/-! ## Parts -/

/-- `json[key]`, which makes null an object and a key that is not there a member that is null. -/
def field (key : String) : JsonTree → Option JsonTree
  | .null => some .null
  | .obj members => some ((members.lookup key).getD .null)
  | .bool _ | .int _ | .float _ | .str _ | .arr _ => none

/-- `json[key].get<T>()` -/
def fieldAs (get : JsonTree → Option α) (key : String) (v : JsonTree) : Option α :=
  (v.field key).bind get

/-- `json.value(key, default)` -/
def value (get : JsonTree → Option α) (key : String) (default : α) : JsonTree → Option α
  | .obj members =>
    match members.lookup key with
    | some v => get v
    | none => some default
  | .null | .bool _ | .int _ | .float _ | .str _ | .arr _ => none

/-- `json[i]` for each `i` below `json.size()`. -/
def elements : JsonTree → Option (List JsonTree)
  | .null | .obj [] => some []
  | .arr es => some es
  -- there is an `i`, and only an array has a member under a number
  | .bool _ | .int _ | .float _ | .str _ | .obj (_ :: _) => none

/-- Each of them, converted. -/
def getEach (get : JsonTree → Option α) (v : JsonTree) : Option (List α) :=
  v.elements.bind (·.mapM get)

/-- What a `for` goes over. -/
def items : JsonTree → List JsonTree
  | .null => []
  | .arr es => es
  | .obj members => members.map Prod.snd
  | .bool b => [.bool b]
  | .int n => [.int n]
  | .float q => [.float q]
  | .str s => [.str s]

/-- `json.empty()` -/
def isEmpty : JsonTree → Bool
  | .null | .arr [] | .obj [] => true
  | _ => false

/-! ## Conversions -/

section Conversions

-- How a floating number is converted to an integer.
variable (truncate : ℚ → Int)

/-- `get<int>` -/
def getInt : JsonTree → Option Int
  | .bool b => some b.toInt
  | .int n => some (toInt32 n)
  | .float q => some (toInt32 (truncate q))
  | .null | .str _ | .arr _ | .obj _ => none

/-- `get<long>`; unlike `get<int>` it takes no boolean. -/
def getLong : JsonTree → Option Int
  | .int n => some (toInt64 n)
  | .float q => some (toInt64 (truncate q))
  | .null | .bool _ | .str _ | .arr _ | .obj _ => none

/-- Integers that `get<int>` and `get<long>` give. -/
def FitsInt (n : Int) : Prop := toInt32 n = n
def FitsLong (n : Int) : Prop := toInt64 n = n

def getBool : JsonTree → Option Bool
  | .bool b => some b
  | _ => none

def getString : JsonTree → Option String
  | .str s => some s
  | _ => none

/-- `get<std::vector<T>>` -/
def getList (get : JsonTree → Option α) : JsonTree → Option (List α)
  | .arr es => es.mapM get
  | _ => none

/-- `get<std::set<T>>` -/
def getSet [LinearOrder α] (get : JsonTree → Option α) (v : JsonTree) : Option (OrdSet α) :=
  (v.getList get).map fun xs => xs.foldl .insert ∅

end Conversions

/-! ## Numbers -/

section Numbers

variable {truncate : ℚ → Int} {v : JsonTree} {m n : Int}

theorem fitsInt_zero : FitsInt 0 := rfl

theorem fitsLong_zero : FitsLong 0 := rfl

theorem fitsInt_of_lt (low : -2 ^ 31 ≤ n) (high : n < 2 ^ 31) : FitsInt n := by
  apply Int.bmod_eq_of_le <;> omega

theorem getInt_fits (h : v.getInt truncate = some n) : FitsInt n := by
  cases v with
  | bool b =>
    obtain rfl := Option.some.inj h
    cases b <;> rfl
  | int | float =>
    obtain rfl := Option.some.inj h
    exact Int.bmod_bmod ..
  | null | str | arr | obj => cases h

theorem getLong_fits (h : v.getLong truncate = some n) : FitsLong n := by
  cases v with
  | int | float =>
    obtain rfl := Option.some.inj h
    exact Int.bmod_bmod ..
  | bool | null | str | arr | obj => cases h

theorem getInt_int (fits : FitsInt n) : getInt truncate (.int n) = some n := congrArg some fits

theorem getLong_int (fits : FitsLong n) : getLong truncate (.int n) = some n := congrArg some fits

theorem FitsLong.max (hm : FitsLong m) (hn : FitsLong n) : FitsLong (max m n) := by
  rcases max_choice m n with same | same <;> rwa [same]

theorem FitsLong.min (hm : FitsLong m) (hn : FitsLong n) : FitsLong (min m n) := by
  rcases min_choice m n with same | same <;> rwa [same]

theorem fieldAs_fits {key : String} (h : v.fieldAs (getInt truncate) key = some n) : FitsInt n := by
  obtain ⟨_, _, here⟩ := Option.bind_eq_some_iff.mp h
  exact getInt_fits here

theorem value_fits {key : String} {default : Int} (hd : FitsInt default)
    (h : v.value (getInt truncate) key default = some n) : FitsInt n := by
  cases v with
  | obj members =>
    simp only [value] at h
    split at h
    · exact getInt_fits h
    · exact Option.some.inj h ▸ hd
  | null | bool | int | float | str | arr => cases h

theorem fieldAs_fits_long {key : String} (h : v.fieldAs (getLong truncate) key = some n) :
    FitsLong n := by
  obtain ⟨_, _, here⟩ := Option.bind_eq_some_iff.mp h
  exact getLong_fits here

end Numbers

/-! ## Reading what was written -/

variable {truncate : ℚ → Int} {get : JsonTree → Option α} {put : α → JsonTree}

/-- Every element is read from one of the list. -/
theorem mem_mapM {get : α → Option β} {xs : List α} {ys : List β} (h : xs.mapM get = some ys) :
    ∀ y ∈ ys, ∃ x ∈ xs, get x = some y := by
  induction xs generalizing ys with
  | nil =>
    obtain rfl : ys = [] := by simpa using h
    simp
  | cons x xs ih =>
    simp only [List.mapM_cons, Option.bind_eq_bind, Option.bind_eq_some_iff, Option.pure_def,
      Option.some.injEq] at h
    obtain ⟨y, here, rest, others, rfl⟩ := h
    intro z hz
    rcases List.mem_cons.mp hz with rfl | hz
    · exact ⟨x, List.mem_cons_self, here⟩
    · obtain ⟨w, hw, same⟩ := ih others z hz
      exact ⟨w, List.mem_cons_of_mem x hw, same⟩

theorem mem_getEach {get : JsonTree → Option α} {v : JsonTree} {key : String} {xs : List α}
    (h : v.fieldAs (getEach get) key = some xs) : ∀ x ∈ xs, ∃ w, get w = some x := by
  obtain ⟨_, _, h⟩ := Option.bind_eq_some_iff.mp h
  obtain ⟨_, _, h⟩ := Option.bind_eq_some_iff.mp h
  intro x hx
  obtain ⟨w, _, here⟩ := mem_mapM h x hx
  exact ⟨w, here⟩

theorem mapM_map {f : α → β} {get : JsonTree → Option β} {xs : List α}
    (same : ∀ x ∈ xs, get (put x) = some (f x)) : (xs.map put).mapM get = some (xs.map f) := by
  induction xs with
  | nil => rfl
  | cons x xs ih =>
    have rest := ih fun y hy => same y (List.mem_cons_of_mem x hy)
    simp [same x List.mem_cons_self, rest]

theorem getList_put {xs : List α} (same : ∀ x ∈ xs, get (put x) = some x) :
    (arr (xs.map put)).getList get = some xs := by
  have whole := mapM_map (f := id) same
  rwa [List.map_id] at whole

section Sets

variable [LinearOrder α]

theorem insertList_last {a : α} {l : List α} (last : ∀ b ∈ l, b < a) :
    OrdSet.insertList a l = l ++ [a] := by
  induction l with
  | nil => rfl
  | cons b l ih =>
    have less := last b List.mem_cons_self
    rw [OrdSet.insertList, if_neg (lt_asymm less), if_neg (ne_of_gt less),
      ih fun c hc => last c (List.mem_cons_of_mem b hc)]
    rfl

theorem foldl_insert {s : OrdSet α} {xs : List α} (sorted : (s.elems ++ xs).Pairwise (· < ·)) :
    (xs.foldl .insert s).elems = s.elems ++ xs := by
  induction xs generalizing s with
  | nil => simp
  | cons x xs ih =>
    have before : ∀ b ∈ s.elems, b < x := fun b hb =>
      (List.pairwise_append.mp sorted).2.2 b hb x List.mem_cons_self
    have added : (s.insert x).elems = s.elems ++ [x] := insertList_last before
    rw [List.foldl_cons, ih, added, List.append_assoc]
    · rfl
    · rwa [added, List.append_assoc]

theorem getSet_put {s : OrdSet α} (same : ∀ x ∈ s.elems, get (put x) = some x) :
    (arr (s.elems.map put)).getSet get = some s := by
  have sorted : ((∅ : OrdSet α).elems ++ s.elems).Pairwise (· < ·) := s.sorted
  have elems : (s.elems.foldl OrdSet.insert ∅).elems = s.elems := foldl_insert sorted
  rw [getSet, getList_put same, Option.map_some, OrdSet.ext_elems elems]

end Sets

end JsonTree

end TiojJudge
