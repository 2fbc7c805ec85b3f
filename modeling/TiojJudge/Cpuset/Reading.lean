import TiojJudge.Cpuset.Model

/-!
# What CpusetParse takes from a string

A string is read item by item, between the commas. `reading` takes the numbers of an
item as they stand there, with what is skipped between them and left behind them.

* `parseItem_reading`: the parser sees one item at a time, and narrows its numbers;
* `mem_strideLoop`: the CPUs that the loop over a range reaches;
* `parseLoop_spec`: what is accepted, and the set.
-/

namespace TiojJudge.Cpuset

open Numerals

/-- The number at the start. -/
def number (str : List Char) : Option (Nat × List Char) :=
  let digits := str.takeWhile Char.isDigit
  if digits = [] then none else some (digitsValue 10 digits, str.dropWhile Char.isDigit)

structure Reading where
  n : Nat
  m : Nat
  s : Nat
  /-- What stands between a number and the separator behind it. -/
  skipped : List Char
  /-- What stands behind the last number. -/
  rest : List Char

/-- The numbers of an item: at its start, behind its first `-`, behind the next `:`. -/
def reading (item : List Char) : Option Reading :=
  match number item with
  | none => none
  | some (n, rest) =>
    match nexttoken rest '-' with
    | none => some ⟨n, n, 1, [], rest⟩
    | some after =>
      match number after with
      | none => none
      | some (m, rest') =>
        match nexttoken rest' ':' with
        | none => some ⟨n, m, 1, rest.takeWhile (· ≠ '-'), rest'⟩
        | some after' =>
          match number after' with
          | none => none
          | some (s, rest'') =>
            some ⟨n, m, s, rest.takeWhile (· ≠ '-') ++ rest'.takeWhile (· ≠ ':'), rest''⟩

/-- The readings of all items. -/
def readings (str : List Char) : Option (List Reading) :=
  match reading (str.takeWhile (· ≠ ',')) with
  | none => none
  | some r =>
    match _more : nexttoken str ',' with
    | none => some [r]
    | some q => (readings q).map fun rs => r :: rs
termination_by str.length
decreasing_by exact nexttoken_shorter _more

/-- The loop from `a` to `b` reaches `c`: going up, or going down if each step wraps around. -/
def Reaches (ncpu a b s c : Nat) : Prop :=
  if s ≤ 2 ^ 32 - cpuSetsize then c < ncpu ∧ c ≤ b ∧ ∃ k, c = a + k * s
  else a < ncpu ∧ a ≤ b ∧ ∃ k, c + k * (2 ^ 32 - s) = a

namespace Reading

/-- The numbers in 32 bits; `strtoul` refuses what is not below 2^64. -/
def narrow (r : Reading) : Option Item :=
  if _small : r.n < 2 ^ 64 ∧ r.m < 2 ^ 64 ∧ r.s < 2 ^ 64 ∧ UInt32.ofNat r.s ≠ 0 then
    some ⟨.ofNat r.n, .ofNat r.m, .ofNat r.s, _small.2.2.2⟩
  else none

/-- The numbers pass the tests of the code. -/
def Fits (r : Reading) : Prop :=
  r.n < 2 ^ 64 ∧ r.m < 2 ^ 64 ∧ r.s < 2 ^ 64 ∧ r.s % 2 ^ 32 ≠ 0 ∧ r.n % 2 ^ 32 ≤ r.m % 2 ^ 32

instance : DecidablePred Fits := fun _ => inferInstanceAs (Decidable (_ ∧ _ ∧ _ ∧ _ ∧ _))

/-- The CPUs of the range, with its numbers in 32 bits. -/
def Visits (ncpu : Nat) (r : Reading) (c : Nat) : Prop :=
  Reaches ncpu (r.n % 2 ^ 32) (r.m % 2 ^ 32) (r.s % 2 ^ 32) c

end Reading

/-! ## Separators -/

section Separators

variable {sep : Char} {item tail p q : List Char}

/-- The end of an item: a comma, and what stands behind it, or the end of the string. -/
inductive Tail : List Char → Option (List Char) → Prop where
  | last : Tail [] none
  | more (q : List Char) : Tail (',' :: q) (some q)

theorem nexttoken_append_of_notMem (tail : List Char) (none : sep ∉ item) :
    nexttoken (item ++ tail) sep = nexttoken tail sep := by
  have skip : ∀ c ∈ item, decide (c ≠ sep) = true := by
    intro c mem
    simpa using ne_of_mem_of_not_mem mem none
  rw [nexttoken, List.dropWhile_append_of_pos skip]
  rfl

theorem nexttoken_append_of_mem (tail : List Char) (mem : sep ∈ item) :
    ∃ q, nexttoken item sep = some q ∧ nexttoken (item ++ tail) sep = some (q ++ tail) := by
  obtain ⟨front, back, rfl, first⟩ := List.eq_append_cons_of_mem mem
  have here (more : List Char) : nexttoken (front ++ sep :: more) sep = some more := by
    rw [nexttoken_append_of_notMem _ first]
    simp [nexttoken]
  exact ⟨back, here back, by rw [List.append_assoc]; exact here (back ++ tail)⟩

theorem nexttoken_eq_none : nexttoken p sep = none ↔ sep ∉ p := by
  constructor
  · intro null mem
    obtain ⟨q, found, -⟩ := nexttoken_append_of_mem [] mem
    rw [null] at found
    cases found
  · intro none
    have empty := nexttoken_append_of_notMem [] none
    rw [List.append_nil] at empty
    exact empty

theorem Tail.nexttoken {next : Option (List Char)} (end_ : Tail tail next) (plain : ',' ∉ item) :
    Cpuset.nexttoken (item ++ tail) ',' = next := by
  rw [nexttoken_append_of_notMem tail plain]
  cases end_ with
  | last => rfl
  | more => rfl

/-- A separator counts if it stands in the item. -/
theorem within_item {next : Option (List Char)} (end_ : Tail tail next) :
    within (nexttoken (item ++ tail) sep) next = (nexttoken item sep).map (· ++ tail) := by
  by_cases mem : sep ∈ item
  · obtain ⟨q, here, found⟩ := nexttoken_append_of_mem tail mem
    rw [here, found]
    cases end_ with
    | last => rfl
    | more q' =>
      simp [within, Option.filter]
      omega
  · rw [nexttoken_eq_none.mpr mem, nexttoken_append_of_notMem tail mem]
    cases end_ with
    | last => rfl
    | more q' =>
      cases found : Cpuset.nexttoken (',' :: q') sep with
      | none => rfl
      | some q =>
        have shorter := nexttoken_shorter found
        rw [List.length_cons] at shorter
        have early : ¬ q'.length < q.length := by omega
        simp [within, Option.filter, early]

/-- Every string is an item and its end. -/
theorem item_tail (p : List Char) :
    ∃ tail, p = p.takeWhile (· ≠ ',') ++ tail ∧ ',' ∉ p.takeWhile (· ≠ ',') ∧
      Tail tail (nexttoken p ',') := by
  have plain : ',' ∉ p.takeWhile (· ≠ ',') := fun mem => by simpa using List.mem_takeWhile_imp mem
  refine ⟨p.dropWhile (· ≠ ','), List.takeWhile_append_dropWhile.symm, plain, ?_⟩
  unfold nexttoken
  split
  · rename_i empty
    rw [empty]
    exact .last
  · rename_i c rest left
    have comma : c = ',' := by
      have head := List.head?_dropWhile_not (fun c => decide (c ≠ ',')) p
      rw [left] at head
      simpa using head
    rw [left, comma]
    exact .more rest

end Separators

/-! ## One item -/

section Items

variable {item tail rest : List Char} {next : Option (List Char)} {n : Nat}

theorem Tail.digits (end_ : Tail tail next) (item : List Char) :
    (item ++ tail).takeWhile Char.isDigit = item.takeWhile Char.isDigit ∧
      (item ++ tail).dropWhile Char.isDigit = item.dropWhile Char.isDigit ++ tail := by
  apply takeWhile_stop
  cases end_ with
  | last => simp
  | more =>
    rintro c ⟨⟩
    rfl

theorem nextnumber_eq (str : List Char) :
    nextnumber str = (number str).bind fun (n, rest) =>
      if n < 2 ^ 64 then some (UInt32.ofNat n, rest) else none := by
  cases str with
  | nil => rfl
  | cons c cs =>
    unfold nextnumber number strtoul
    by_cases digit : c.isDigit = true
    · simp only [digit, Bool.not_true, Bool.false_eq_true, if_false, List.takeWhile_cons, if_true,
        reduceCtorEq, Option.bind_some]
      split
      · rename_i large
        split at large
        · cases large
        · rename_i bound
          rw [if_neg bound]
      · rename_i small
        split at small
        · rename_i bound
          cases small
          rw [if_pos bound]
        · cases small
    · simp [digit]

theorem nextnumber_append (end_ : Tail tail next) (item : List Char) :
    nextnumber (item ++ tail) = (number item).bind fun (n, rest) =>
      if n < 2 ^ 64 then some (UInt32.ofNat n, rest ++ tail) else none := by
  obtain ⟨digits, rest⟩ := end_.digits item
  rw [nextnumber_eq, number, digits, rest, number]
  dsimp only
  split <;> rfl

theorem nextnumber_small (end_ : Tail tail next) (found : number item = some (n, rest))
    (small : n < 2 ^ 64) : nextnumber (item ++ tail) = some (UInt32.ofNat n, rest ++ tail) := by
  rw [nextnumber_append end_, found, Option.bind_some]
  exact if_pos small

theorem nextnumber_large (end_ : Tail tail next) (found : number item = some (n, rest))
    (large : ¬ n < 2 ^ 64) : nextnumber (item ++ tail) = none := by
  rw [nextnumber_append end_, found, Option.bind_some]
  exact if_neg large

theorem nextnumber_missing (end_ : Tail tail next) (missing : number item = none) :
    nextnumber (item ++ tail) = none := by
  rw [nextnumber_append end_, missing, Option.bind_none]

theorem number_rest (found : number item = some (n, rest)) : rest <:+ item := by
  unfold number at found
  dsimp only at found
  split at found
  · cases found
  · cases found
    exact List.dropWhile_suffix _

theorem narrow_large {r : Reading} (large : ¬ (r.n < 2 ^ 64 ∧ r.m < 2 ^ 64 ∧ r.s < 2 ^ 64)) :
    r.narrow = none := by
  apply dif_neg
  rintro ⟨n, m, s, -⟩
  exact large ⟨n, m, s⟩

/-- The item alone decides, and the numbers of its reading are narrowed. -/
theorem parseItem_reading (end_ : Tail tail next) (plain : ',' ∉ item) :
    parseItem (item ++ tail) = (reading item).bind fun r =>
      r.narrow.map fun i => (i, r.rest ++ tail) := by
  cases first : number item with
  | none => simp [parseItem, reading, first, nextnumber_missing end_ first]
  | some found =>
    obtain ⟨n, rest⟩ := found
    by_cases small : n < 2 ^ 64
    · have comma : nexttoken (rest ++ tail) ',' = next :=
        end_.nexttoken fun mem => plain ((number_rest first).subset mem)
      simp only [parseItem, reading, first, nextnumber_small end_ first small, comma,
        within_item end_]
      cases dash : nexttoken rest '-' with
      | none => simpa [Reading.narrow] using small
      | some after =>
        dsimp only [Option.map_some]
        cases second : number after with
        | none => simp [nextnumber_missing end_ second]
        | some found =>
          obtain ⟨m, rest'⟩ := found
          dsimp only
          by_cases small' : m < 2 ^ 64
          · rw [nextnumber_small end_ second small']
            dsimp only
            rw [within_item end_]
            cases colon : nexttoken rest' ':' with
            | none => simpa [Reading.narrow] using ⟨small, small'⟩
            | some after' =>
              dsimp only [Option.map_some]
              cases third : number after' with
              | none => simp [nextnumber_missing end_ third]
              | some found =>
                obtain ⟨s, rest''⟩ := found
                dsimp only
                by_cases small'' : s < 2 ^ 64
                · rw [nextnumber_small end_ third small'']
                  by_cases zero : UInt32.ofNat s = 0
                  · simp [Reading.narrow, zero]
                  · simpa [Reading.narrow, zero] using ⟨small, small', small''⟩
                · rw [nextnumber_large end_ third small'', Option.bind_some,
                    narrow_large fun h => small'' h.2.2, Option.map_none]
          · rw [nextnumber_large end_ second small']
            dsimp only
            repeat' split
            · rw [Option.bind_some, narrow_large fun h => small' h.2.1, Option.map_none]
            · rfl
            · rw [Option.bind_some, narrow_large fun h => small' h.2.1, Option.map_none]
    · rw [parseItem, nextnumber_large end_ first small, reading, first]
      dsimp only
      repeat' split
      · rw [Option.bind_some, narrow_large fun h => small h.1, Option.map_none]
      · rfl
      · rw [Option.bind_some, narrow_large fun h => small h.1, Option.map_none]
      · rfl
      · rw [Option.bind_some, narrow_large fun h => small h.1, Option.map_none]

end Items

/-! ## One range -/

section Ranges

variable {ncpu a b s c : Nat}

theorem Reaches.inside (h : Reaches ncpu a b s c) : a ≤ b ∧ a < ncpu := by
  unfold Reaches at h
  split at h
  · obtain ⟨few, le, k, rfl⟩ := h
    have first := Nat.le_add_right a (k * s)
    exact ⟨first.trans le, first.trans_lt few⟩
  · exact ⟨h.2.1, h.1⟩

theorem reaches_step (few : ncpu ≤ cpuSetsize) (le : a ≤ b) (below : a < ncpu) (positive : 0 < s)
    (stride : s < 2 ^ 32) :
    Reaches ncpu a b s c ↔ c = a ∨ Reaches ncpu ((a + s) % 2 ^ 32) b s c := by
  have few : ncpu ≤ 1024 := few
  by_cases up : s ≤ 2 ^ 32 - cpuSetsize
  · have up' : s ≤ 2 ^ 32 - 1024 := up
    have next : (a + s) % 2 ^ 32 = a + s := Nat.mod_eq_of_lt (by omega)
    simp only [Reaches, if_pos up, next]
    constructor
    · rintro ⟨inside, last, k, rfl⟩
      cases k with
      | zero => exact .inl (by omega)
      | succ k => exact .inr ⟨inside, last, k, by rw [Nat.succ_mul]; omega⟩
    · rintro (rfl | ⟨inside, last, k, rfl⟩)
      · exact ⟨below, le, 0, by omega⟩
      · exact ⟨inside, last, k + 1, by rw [Nat.succ_mul]; omega⟩
  · have down : ¬ s ≤ 2 ^ 32 - 1024 := up
    by_cases wraps : 2 ^ 32 - s ≤ a
    · have next : (a + s) % 2 ^ 32 = a - (2 ^ 32 - s) := by omega
      simp only [Reaches, if_neg up, next]
      constructor
      · rintro ⟨-, -, k, reached⟩
        cases k with
        | zero => exact .inl (by omega)
        | succ k =>
          rw [Nat.succ_mul] at reached
          exact .inr ⟨by omega, by omega, k, by omega⟩
      · rintro (rfl | ⟨-, -, k, reached⟩)
        · exact ⟨below, le, 0, by omega⟩
        · exact ⟨below, le, k + 1, by rw [Nat.succ_mul]; omega⟩
    · -- The next number is beyond all CPUs.
      have next : (a + s) % 2 ^ 32 = a + s := Nat.mod_eq_of_lt (by omega)
      simp only [Reaches, if_neg up, next]
      constructor
      · rintro ⟨-, -, k, reached⟩
        cases k with
        | zero => exact .inl (by omega)
        | succ k =>
          rw [Nat.succ_mul] at reached
          omega
      · rintro (rfl | ⟨beyond, -⟩)
        · exact ⟨below, le, 0, by omega⟩
        · omega

theorem mem_strideLoop (ncpu : Fin (cpuSetsize + 1)) (i : Item) (a : UInt32) (set : Finset Nat) :
    c ∈ strideLoop ncpu i a set ↔
      c ∈ set ∨ Reaches ncpu a.toNat i.b.toNat i.s.toNat c := by
  have positive : 0 < i.s.toNat :=
    Nat.pos_of_ne_zero fun zero => i.positive (UInt32.toNat_inj.mp zero)
  fun_induction strideLoop ncpu i a set with
  | case1 a set inside ih =>
    have step := reaches_step (c := c) (Nat.le_of_lt_succ ncpu.isLt)
      (UInt32.le_iff_toNat_le.mp inside.1) inside.2 positive i.s.toNat_lt
    refine ih.trans ?_
    rw [step, Finset.mem_insert, UInt32.toNat_add, or_assoc, or_left_comm]
  | case2 a set outside =>
    constructor
    · exact .inl
    · rintro (mem | reached)
      · exact mem
      · obtain ⟨le, below⟩ := reached.inside
        exact absurd ⟨UInt32.le_iff_toNat_le.mpr le, below⟩ outside

end Ranges

/-! ## The whole string -/

section Strings

variable {ncpu : Fin (cpuSetsize + 1)} {p q : List Char} {r : Reading} {rs : List Reading}
  {i : Item} {set : Finset Nat} {c : Nat}

/-- The code gets through the string with these readings. -/
def Accepted (rs : List Reading) : Prop :=
  (∀ r ∈ rs, r.Fits) ∧ ∀ r ∈ rs.getLast?, r.rest = []

theorem accepted_singleton : Accepted [r] ↔ r.Fits ∧ r.rest = [] := by simp [Accepted]

theorem accepted_cons (more : rs ≠ []) : Accepted (r :: rs) ↔ r.Fits ∧ Accepted rs := by
  obtain ⟨r', rs', rfl⟩ := List.exists_cons_of_ne_nil more
  simp [Accepted, List.getLast?_cons_cons, and_assoc]

theorem narrow_eq (narrowed : r.narrow = some i) :
    i.a.toNat = r.n % 2 ^ 32 ∧ i.b.toNat = r.m % 2 ^ 32 ∧ i.s.toNat = r.s % 2 ^ 32 := by
  unfold Reading.narrow at narrowed
  split at narrowed
  · cases narrowed
    exact ⟨UInt32.toNat_ofNat', UInt32.toNat_ofNat', UInt32.toNat_ofNat'⟩
  · cases narrowed

theorem fits_iff : r.Fits ↔ ∃ i, r.narrow = some i ∧ i.a ≤ i.b := by
  constructor
  · rintro ⟨n, m, s, positive, le⟩
    have nonzero : UInt32.ofNat r.s ≠ 0 := fun zero => positive (by
      have value := congrArg UInt32.toNat zero
      rwa [UInt32.toNat_ofNat'] at value)
    have narrowed : r.narrow = some ⟨.ofNat r.n, .ofNat r.m, .ofNat r.s, nonzero⟩ :=
      dif_pos ⟨n, m, s, nonzero⟩
    obtain ⟨first, last, -⟩ := narrow_eq narrowed
    exact ⟨_, narrowed, UInt32.le_iff_toNat_le.mpr (first ▸ last ▸ le)⟩
  · rintro ⟨i, narrowed, le⟩
    obtain ⟨first, last, stride⟩ := narrow_eq narrowed
    have le := UInt32.le_iff_toNat_le.mp le
    rw [first, last] at le
    have positive : r.s % 2 ^ 32 ≠ 0 := by
      rw [← stride]
      exact fun zero => i.positive (UInt32.toNat_inj.mp zero)
    unfold Reading.narrow at narrowed
    split at narrowed
    · rename_i small
      exact ⟨small.1, small.2.1, small.2.2.1, positive, le⟩
    · cases narrowed

theorem visits_iff (narrowed : r.narrow = some i) :
    r.Visits ncpu c ↔ Reaches ncpu i.a.toNat i.b.toNat i.s.toNat c := by
  obtain ⟨first, last, stride⟩ := narrow_eq narrowed
  rw [Reading.Visits, first, last, stride]

theorem readings_none (unread : reading (p.takeWhile (· ≠ ',')) = none) : readings p = none := by
  rw [readings, unread]

theorem readings_last (read : reading (p.takeWhile (· ≠ ',')) = some r)
    (last : nexttoken p ',' = none) : readings p = some [r] := by
  rw [readings, read]
  dsimp only
  split
  · rfl
  · rename_i more
    rw [last] at more
    cases more

theorem readings_more (read : reading (p.takeWhile (· ≠ ',')) = some r)
    (more : nexttoken p ',' = some q) : readings p = (readings q).map fun rs => r :: rs := by
  rw [readings, read]
  dsimp only
  split
  · rename_i last
    rw [more] at last
    cases last
  · rename_i q' more'
    rw [more] at more'
    rw [Option.some.inj more']

theorem readings_nonempty (found : readings p = some rs) : rs ≠ [] := by
  rintro rfl
  cases read : reading (p.takeWhile (· ≠ ',')) with
  | none => cases (readings_none read).symm.trans found
  | some r =>
    cases more : nexttoken p ',' with
    | none => cases (readings_last read more).symm.trans found
    | some q =>
      rw [readings_more read more] at found
      obtain ⟨rs, -, same⟩ := Option.map_eq_some_iff.mp found
      cases same

/-- The item at `p`, as it is parsed. -/
theorem parseItem_eq (p : List Char) :
    ∃ tail, Cpuset.Tail tail (nexttoken p ',') ∧
      parseItem p = (reading (p.takeWhile (· ≠ ','))).bind fun r =>
        r.narrow.map fun i => (i, r.rest ++ tail) := by
  obtain ⟨tail, split, plain, end_⟩ := item_tail p
  refine ⟨tail, end_, ?_⟩
  conv_lhs => rw [split]
  exact parseItem_reading end_ plain

theorem parseItem_some {stop : List Char} (parsed : parseItem p = some (i, stop)) :
    ∃ r tail, reading (p.takeWhile (· ≠ ',')) = some r ∧ r.narrow = some i ∧
      stop = r.rest ++ tail ∧ Cpuset.Tail tail (nexttoken p ',') := by
  obtain ⟨tail, end_, same⟩ := parseItem_eq p
  rw [same, Option.bind_eq_some_iff] at parsed
  obtain ⟨r, read, parsed⟩ := parsed
  obtain ⟨i', narrowed, rest⟩ := Option.map_eq_some_iff.mp parsed
  cases rest
  exact ⟨r, tail, read, narrowed, rfl, end_⟩

theorem parseItem_fits (read : reading (p.takeWhile (· ≠ ',')) = some r) (fits : r.Fits) :
    ∃ i stop, parseItem p = some (i, stop) ∧ i.a ≤ i.b := by
  obtain ⟨i, narrowed, order⟩ := fits_iff.mp fits
  obtain ⟨tail, -, same⟩ := parseItem_eq p
  rw [read, Option.bind_some, narrowed] at same
  exact ⟨i, _, same, order⟩

/-- An item that is not parsed, or whose bounds are in the wrong order. -/
theorem not_accepted (unfit : ∀ r, reading (p.takeWhile (· ≠ ',')) = some r → ¬ r.Fits)
    (found : readings p = some rs) : ¬ Accepted rs := by
  rintro ⟨fits, -⟩
  cases read : reading (p.takeWhile (· ≠ ',')) with
  | none => cases (readings_none read).symm.trans found
  | some r =>
    have mem : r ∈ rs := by
      cases more : nexttoken p ',' with
      | none =>
        cases (readings_last read more).symm.trans found
        exact .head _
      | some q =>
        rw [readings_more read more] at found
        obtain ⟨rs', -, same⟩ := Option.map_eq_some_iff.mp found
        cases same
        exact .head _
    exact unfit r read (fits r mem)

theorem parseLoop_spec (ncpu : Fin (cpuSetsize + 1)) (p : List Char) (set : Finset Nat) :
    ((parseLoop ncpu p set).1 = true ↔ ∃ rs, readings p = some rs ∧ Accepted rs) ∧
    ∀ rs, readings p = some rs → Accepted rs →
      ∀ c, c ∈ (parseLoop ncpu p set).2 ↔ c ∈ set ∨ ∃ r ∈ rs, r.Visits ncpu c := by
  have rejected {p : List Char} {set : Finset Nat}
      (unfit : ∀ r, reading (p.takeWhile (· ≠ ',')) = some r → ¬ r.Fits) :
      (false = true ↔ ∃ rs, readings p = some rs ∧ Accepted rs) ∧
      ∀ rs, readings p = some rs → Accepted rs →
        ∀ c, c ∈ set ↔ c ∈ set ∨ ∃ r ∈ rs, r.Visits ncpu c := by
    refine ⟨⟨by simp, ?_⟩, fun rs found accepted => absurd accepted (not_accepted unfit found)⟩
    rintro ⟨rs, found, accepted⟩
    exact absurd accepted (not_accepted unfit found)
  fun_induction parseLoop ncpu p set with
  | case1 p set unparsed =>
    apply rejected
    intro r read fits
    obtain ⟨i, stop, parsed, -⟩ := parseItem_fits read fits
    cases unparsed.symm.trans parsed
  | case2 p set i stop parsed order =>
    apply rejected
    intro r read fits
    obtain ⟨i', stop', parsed', order'⟩ := parseItem_fits read fits
    cases parsed.symm.trans parsed'
    simp [order'] at order
  | case3 p set i stop parsed order set' q more ih =>
    obtain ⟨r, tail, read, narrowed, -, -⟩ := parseItem_some parsed
    have fits : r.Fits := fits_iff.mpr ⟨i, narrowed, by simpa using order⟩
    have all := readings_more read more
    constructor
    · rw [ih.1]
      constructor
      · rintro ⟨rs, found, accepted⟩
        refine ⟨r :: rs, by rw [all, found]; rfl, ?_⟩
        exact (accepted_cons (readings_nonempty found)).mpr ⟨fits, accepted⟩
      · rintro ⟨rs, found, accepted⟩
        obtain ⟨rs', found', rfl⟩ := Option.map_eq_some_iff.mp (all.symm.trans found)
        exact ⟨rs', found', ((accepted_cons (readings_nonempty found')).mp accepted).2⟩
    · intro rs found accepted c
      obtain ⟨rs', found', rfl⟩ := Option.map_eq_some_iff.mp (all.symm.trans found)
      have rest := ((accepted_cons (readings_nonempty found')).mp accepted).2
      rw [ih.2 rs' found' rest c, mem_strideLoop, ← visits_iff narrowed, or_assoc]
      simp
  | case4 p set i stop parsed order set' last =>
    obtain ⟨r, tail, read, narrowed, rfl, end_⟩ := parseItem_some parsed
    have fits : r.Fits := fits_iff.mpr ⟨i, narrowed, by simpa using order⟩
    have all := readings_last read last
    rw [last] at end_
    cases end_
    rw [List.append_nil, all]
    constructor
    · simp [accepted_singleton, fits]
    · rintro rs ⟨⟩ - c
      rw [mem_strideLoop, ← visits_iff narrowed]
      simp

end Strings

end TiojJudge.Cpuset
