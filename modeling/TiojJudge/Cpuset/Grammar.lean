import TiojJudge.Cpuset.Reading

/-!
# Lists of CPUs

What `pinned_cpus` is to be: `all`, `none`, or a list of CPUs and ranges of CPUs with
natural numbers of any size, separated by commas.

* `ItemText`, `ListText`: the grammar;
* `listText_iff`: a list is written when all of its items are read to their ends;
* `correct_ordinary`: lists with numbers of 32 bits are parsed as they are meant;
* `correct_iff`: when a string is.
-/

namespace TiojJudge.Cpuset

open Numerals

/-- The CPUs from `n` to `m`, each `s`-th. -/
structure Span where
  n : Nat
  m : Nat
  s : Nat

def Span.Valid (i : Span) : Prop := i.n ≤ i.m ∧ 0 < i.s

def Span.Has (i : Span) (c : Nat) : Prop := ∃ k, c = i.n + k * i.s ∧ c ≤ i.m

def Digits (ds : List Char) : Prop := ds ≠ [] ∧ ∀ c ∈ ds, c.isDigit = true

/-- `N`, `N-M` or `N-M:S`. -/
inductive ItemText : List Char → Span → Prop where
  | single {ds} : Digits ds → ItemText ds ⟨digitsValue 10 ds, digitsValue 10 ds, 1⟩
  | range {ds es} : Digits ds → Digits es →
    ItemText (ds ++ '-' :: es) ⟨digitsValue 10 ds, digitsValue 10 es, 1⟩
  | stride {ds es fs} : Digits ds → Digits es → Digits fs →
    ItemText (ds ++ '-' :: (es ++ ':' :: fs))
      ⟨digitsValue 10 ds, digitsValue 10 es, digitsValue 10 fs⟩

inductive ListText : List Char → List Span → Prop where
  | last {item i} : ItemText item i → ListText item [i]
  | more {item i rest is} : ItemText item i → ListText rest is →
    ListText (item ++ ',' :: rest) (i :: is)

def WellFormed (str : List Char) : Prop :=
  str = "all".toList ∨ str = "none".toList ∨
    ∃ spans, ListText str spans ∧ ∀ i ∈ spans, i.Valid

/-- The string means this set. -/
def Denotes (ncpu : Nat) (str : List Char) (set : Finset Nat) : Prop :=
  (str = "all".toList ∧ ∀ c, c ∈ set ↔ c < ncpu) ∨ (str = "none".toList ∧ set = ∅) ∨
    ∃ spans, ListText str spans ∧ (∀ i ∈ spans, i.Valid) ∧
      ∀ c, c ∈ set ↔ c < ncpu ∧ ∃ i ∈ spans, i.Has c

/-- The string is accepted if and only if it is well-formed, and then with the set that it means. -/
def Correct (ncpu : Fin (cpuSetsize + 1)) (str : List Char) : Prop :=
  ((cpusetParse ncpu str).1 = true ↔ WellFormed str) ∧
    ((cpusetParse ncpu str).1 = true → Denotes ncpu str (cpusetParse ncpu str).2)

namespace Reading

def span (r : Reading) : Span := ⟨r.n, r.m, r.s⟩

/-- The item is read to its end, and nothing is skipped. -/
def Plain (r : Reading) : Prop := r.skipped = [] ∧ r.rest = []

end Reading

/-! ## The grammar -/

section Grammar

variable {p q item rest ds : List Char} {sep : Char} {n : Nat} {i : Span} {spans : List Span}
  {r : Reading} {rs : List Reading}

theorem number_digits (rest : List Char) (digits : Digits ds)
    (stop : ∀ c ∈ rest.head?, c.isDigit = false) :
    number (ds ++ rest) = some (digitsValue 10 ds, rest) := by
  obtain ⟨front, back⟩ := takeWhile_whole digits.2 stop
  rw [number, front, back]
  exact if_neg digits.1

theorem number_whole (digits : Digits ds) : number ds = some (digitsValue 10 ds, []) := by
  have whole := number_digits [] digits (by simp)
  rwa [List.append_nil] at whole

theorem number_some (found : number item = some (n, rest)) :
    ∃ ds, Digits ds ∧ item = ds ++ rest ∧ n = digitsValue 10 ds := by
  unfold number at found
  dsimp only at found
  split at found
  · cases found
  · rename_i nonempty
    cases found
    exact ⟨_, ⟨nonempty, fun c mem => List.mem_takeWhile_imp mem⟩,
      List.takeWhile_append_dropWhile.symm, rfl⟩

@[simp] theorem nexttoken_nil : nexttoken [] sep = none := rfl

@[simp] theorem nexttoken_cons_self : nexttoken (sep :: p) sep = some p := by simp [nexttoken]

theorem nexttoken_first (found : nexttoken p sep = some q) (first : p.takeWhile (· ≠ sep) = []) :
    p = sep :: q := by
  have split := List.takeWhile_append_dropWhile (p := fun c => decide (c ≠ sep)) (l := p)
  rw [first, List.nil_append] at split
  unfold nexttoken at found
  rw [split] at found
  cases p with
  | nil => cases found
  | cons c cs =>
    have same : c = sep := by simpa using first
    rw [same, Option.some.inj found]

theorem itemText_reading (written : ItemText item i) :
    ∃ r, reading item = some r ∧ r.Plain ∧ r.span = i := by
  have stop (c : Char) (other : c.isDigit = false) (cs : List Char) :
      ∀ d ∈ (c :: cs).head?, d.isDigit = false := by
    rintro d ⟨⟩
    exact other
  cases written with
  | single ds =>
    exact ⟨_, by rw [reading, number_whole ds]; rfl, ⟨rfl, rfl⟩, rfl⟩
  | @range ds es first last =>
    refine ⟨⟨digitsValue 10 ds, digitsValue 10 es, 1, [], []⟩, ?_, ⟨rfl, rfl⟩, rfl⟩
    rw [reading, number_digits _ first (stop '-' rfl es)]
    simp [number_whole last]
  | @stride ds es fs first last step =>
    refine ⟨⟨digitsValue 10 ds, digitsValue 10 es, digitsValue 10 fs, [], []⟩, ?_, ⟨rfl, rfl⟩, rfl⟩
    rw [reading, number_digits _ first (stop '-' rfl _)]
    simp [number_digits _ last (stop ':' rfl fs), number_whole step]

theorem reading_itemText (read : reading item = some r) (plain : r.Plain) :
    ItemText item r.span := by
  obtain ⟨skipped, left⟩ := plain
  unfold reading at read
  split at read
  · cases read
  · rename_i n rest first
    obtain ⟨ds, digits, rfl, rfl⟩ := number_some first
    split at read
    · cases read
      dsimp only at left
      rw [left, List.append_nil]
      exact .single digits
    · rename_i after dash
      split at read
      · cases read
      · rename_i m rest' second
        obtain ⟨es, digits', rfl, rfl⟩ := number_some second
        split at read
        · cases read
          dsimp only at left skipped
          rw [nexttoken_first dash skipped, left, List.append_nil]
          exact .range digits digits'
        · rename_i after' colon
          split at read
          · cases read
          · rename_i s rest'' third
            obtain ⟨fs, digits'', rfl, rfl⟩ := number_some third
            cases read
            obtain ⟨front, back⟩ := List.append_eq_nil_iff.mp skipped
            dsimp only at left
            rw [nexttoken_first dash front, nexttoken_first colon back, left, List.append_nil]
            exact .stride digits digits' digits''

theorem ItemText.plain (written : ItemText item i) : ',' ∉ item := by
  have digits {ds : List Char} (h : Digits ds) : ',' ∉ ds := fun mem => by cases h.2 ',' mem
  cases written with
  | single first => exact digits first
  | range first last => simp [digits first, digits last]
  | stride first last step => simp [digits first, digits last, digits step]

theorem takeWhile_item {tail : List Char} {next : Option (List Char)} (end_ : Tail tail next)
    (plain : ',' ∉ item) : (item ++ tail).takeWhile (· ≠ ',') = item := by
  have keep : ∀ c ∈ item, decide (c ≠ ',') = true := by
    intro c mem
    simpa using ne_of_mem_of_not_mem mem plain
  apply (takeWhile_whole keep ?_).1
  cases end_ with
  | last => simp
  | more =>
    rintro c ⟨⟩
    rfl

theorem listText_readings (written : ListText p spans) :
    ∃ rs, readings p = some rs ∧ (∀ r ∈ rs, r.Plain) ∧ rs.map Reading.span = spans := by
  induction written with
  | @last item i written =>
    obtain ⟨r, read, plain, rfl⟩ := itemText_reading written
    have whole : item.takeWhile (· ≠ ',') = item := by
      simpa using takeWhile_item .last written.plain
    rw [← whole] at read
    refine ⟨[r], readings_last read (nexttoken_eq_none.mpr written.plain), ?_, rfl⟩
    simpa using plain
  | @more item i rest is written _ ih =>
    obtain ⟨r, read, plain, rfl⟩ := itemText_reading written
    obtain ⟨rs, found, plains, rfl⟩ := ih
    rw [← takeWhile_item (.more rest) written.plain] at read
    have next : nexttoken (item ++ ',' :: rest) ',' = some rest :=
      (Tail.more rest).nexttoken written.plain
    refine ⟨r :: rs, ?_, ?_, rfl⟩
    · rw [readings_more read next, found]
      rfl
    · simpa using ⟨plain, plains⟩

theorem readings_listText (found : readings p = some rs) (plain : ∀ r ∈ rs, r.Plain) :
    ListText p (rs.map Reading.span) := by
  induction rs generalizing p with
  | nil => exact absurd rfl (readings_nonempty found)
  | cons r rs ih =>
    obtain ⟨tail, split, -, end_⟩ := item_tail p
    cases read : reading (p.takeWhile (· ≠ ',')) with
    | none => cases (readings_none read).symm.trans found
    | some r' =>
      cases next : nexttoken p ',' with
      | none =>
        cases (readings_last read next).symm.trans found
        rw [next] at end_
        cases end_
        rw [split, List.append_nil]
        exact .last (reading_itemText read (plain r (.head _)))
      | some q =>
        obtain ⟨rs', found', same⟩ :=
          Option.map_eq_some_iff.mp ((readings_more read next).symm.trans found)
        cases same
        rw [next] at end_
        cases end_
        rw [split]
        exact .more (reading_itemText read (plain r (.head _)))
          (ih found' fun r mem => plain r (.tail _ mem))

theorem listText_iff : ListText p spans ↔
    ∃ rs, readings p = some rs ∧ (∀ r ∈ rs, r.Plain) ∧ rs.map Reading.span = spans := by
  constructor
  · exact listText_readings
  · rintro ⟨rs, found, plain, rfl⟩
    exact readings_listText found plain

end Grammar

/-! ## When it is parsed as it is meant -/

/-- Each CPU is in one of the ranges in 32 bits just when it is in one of them. -/
def SameCpus (ncpu : Nat) (rs : List Reading) : Prop :=
  ∀ c < ncpu, (∃ r ∈ rs, r.Visits ncpu c) ↔ ∃ r ∈ rs, r.span.Has c

/-- Every item is read to its end, and its range is one. -/
def Proper (rs : List Reading) : Prop := ∀ r ∈ rs, r.Plain ∧ r.span.Valid

/-- A string where a number is missing, or where something stands behind the last one, is
refused and should be. For others, the tests of the numbers in 32 bits and the ranges they
give have to come out as with the numbers themselves. -/
def Harmless (ncpu : Nat) (str : List Char) : Prop :=
  str = "all".toList ∨ str = "none".toList ∨
    ∀ rs, readings str = some rs → (∀ r ∈ rs.getLast?, r.rest = []) →
      if ∀ r ∈ rs, r.Fits then Proper rs ∧ SameCpus ncpu rs else ¬ Proper rs

section Correct

variable {ncpu : Fin (cpuSetsize + 1)} {str : List Char} {rs : List Reading} {c : Nat}

theorem Reaches.lt {n a b s : Nat} (h : Reaches n a b s c) : c < n := by
  unfold Reaches at h
  split at h
  · exact h.1
  · obtain ⟨below, -, k, reached⟩ := h
    omega

theorem Proper.last (proper : Proper rs) : ∀ r ∈ rs.getLast?, r.rest = [] :=
  fun r mem => (proper r (List.mem_of_getLast? mem)).1.2

theorem proper_list (found : readings str = some rs) :
    (∃ spans, ListText str spans ∧ ∀ i ∈ spans, i.Valid) ↔ Proper rs := by
  constructor
  · rintro ⟨spans, written, valid⟩
    obtain ⟨rs', found', plain, rfl⟩ := listText_iff.mp written
    cases found.symm.trans found'
    exact fun r mem => ⟨plain r mem, valid _ (List.mem_map_of_mem mem)⟩
  · intro proper
    refine ⟨_, readings_listText found fun r mem => (proper r mem).1, ?_⟩
    simpa using fun r mem => (proper r mem).2

theorem correct_word (word : str = "all".toList ∨ str = "none".toList) : Correct ncpu str := by
  rcases word with rfl | rfl
  · have parsed : cpusetParse ncpu "all".toList = (true, Finset.range ncpu) := if_pos rfl
    rw [Correct, parsed]
    exact ⟨iff_of_true rfl (.inl rfl), fun _ => .inl ⟨rfl, fun c => Finset.mem_range⟩⟩
  · have parsed : cpusetParse ncpu "none".toList = (true, ∅) := rfl
    rw [Correct, parsed]
    exact ⟨iff_of_true rfl (.inr (.inl rfl)), fun _ => .inr (.inl ⟨rfl, rfl⟩)⟩

theorem wellFormed_iff (list : ¬ (str = "all".toList ∨ str = "none".toList)) :
    WellFormed str ↔ ∃ spans, ListText str spans ∧ ∀ i ∈ spans, i.Valid := by
  obtain ⟨notAll, notNone⟩ := not_or.mp list
  simp only [WellFormed, notAll, notNone, false_or]

theorem denotes_iff {set : Finset Nat} (list : ¬ (str = "all".toList ∨ str = "none".toList))
    (found : readings str = some rs) : Denotes ncpu str set ↔
      Proper rs ∧ ∀ c, c ∈ set ↔ c < ncpu ∧ ∃ r ∈ rs, r.span.Has c := by
  obtain ⟨notAll, notNone⟩ := not_or.mp list
  simp only [Denotes, notAll, notNone, false_and, false_or]
  constructor
  · rintro ⟨spans, written, valid, means⟩
    refine ⟨(proper_list found).mp ⟨spans, written, valid⟩, fun c => (means c).trans ?_⟩
    obtain ⟨rs', found', -, rfl⟩ := listText_iff.mp written
    cases found.symm.trans found'
    simp
  · rintro ⟨proper, means⟩
    refine ⟨_, readings_listText found fun r mem => (proper r mem).1, ?_, fun c => ?_⟩
    · simpa using fun r mem => (proper r mem).2
    · rw [means c]
      simp

theorem sameCpus_iff : SameCpus ncpu rs ↔
    ∀ c, (∃ r ∈ rs, r.Visits ncpu c) ↔ c < ncpu ∧ ∃ r ∈ rs, r.span.Has c := by
  constructor
  · intro same c
    constructor
    · rintro ⟨r, mem, visits⟩
      have below := visits.lt
      exact ⟨below, (same c below).mp ⟨r, mem, visits⟩⟩
    · rintro ⟨below, has⟩
      exact (same c below).mpr has
  · intro same c below
    rw [same c, and_iff_right below]

/-- The property without the two words, over the readings. -/
theorem correct_list (list : ¬ (str = "all".toList ∨ str = "none".toList)) :
    Correct ncpu str ↔ ∀ rs, readings str = some rs →
      (Accepted rs ↔ Proper rs) ∧ (Accepted rs → SameCpus ncpu rs) := by
  have parsed : cpusetParse ncpu str = parseLoop ncpu str ∅ := by
    obtain ⟨notAll, notNone⟩ := not_or.mp list
    rw [cpusetParse, if_neg notAll, if_neg notNone]
  obtain ⟨accepts, members⟩ := parseLoop_spec ncpu str ∅
  rw [Correct, parsed, accepts, wellFormed_iff list]
  cases found : readings str with
  | none =>
    have unwritten : ¬ ∃ spans, ListText str spans ∧ ∀ i ∈ spans, i.Valid := by
      rintro ⟨spans, written, -⟩
      obtain ⟨rs, found', -⟩ := listText_iff.mp written
      cases found.symm.trans found'
    simp [unwritten]
  | some rs =>
    simp only [Option.some.injEq, exists_eq_left', forall_eq', proper_list found]
    refine and_congr_right fun accepted => forall_congr' fun through => ?_
    rw [denotes_iff list found, sameCpus_iff, and_iff_right (accepted.mp through)]
    refine forall_congr' fun c => ?_
    rw [members rs found through c]
    simp

theorem correct_of_harmless (harmless : Harmless ncpu str) : Correct ncpu str := by
  by_cases word : str = "all".toList ∨ str = "none".toList
  · exact correct_word word
  · rw [Harmless, ← or_assoc, or_iff_right word] at harmless
    refine (correct_list word).mpr fun rs found => ?_
    constructor
    · constructor
      · rintro ⟨fits, last⟩
        have both := harmless rs found last
        rw [if_pos fits] at both
        exact both.1
      · intro proper
        have both := harmless rs found proper.last
        split at both
        · exact ⟨‹_›, proper.last⟩
        · exact absurd proper both
    · rintro ⟨fits, last⟩
      have both := harmless rs found last
      rw [if_pos fits] at both
      exact both.2

theorem harmless_of_correct (correct : Correct ncpu str) : Harmless ncpu str := by
  by_cases word : str = "all".toList ∨ str = "none".toList
  · exact word.elim .inl fun none => .inr (.inl none)
  · refine .inr (.inr fun rs found last => ?_)
    obtain ⟨accepted, same⟩ := (correct_list word).mp correct rs found
    split
    · rename_i fits
      exact ⟨accepted.mp ⟨fits, last⟩, same ⟨fits, last⟩⟩
    · rename_i unfit
      exact fun proper => unfit (accepted.mpr proper).1

/-- Nothing is skipped or left, and the numbers are those of 32 bits. -/
theorem correct_ordinary (ordinary : ∀ rs, readings str = some rs → ∀ r ∈ rs,
    r.Plain ∧ r.n < 2 ^ 32 ∧ r.m < 2 ^ 32 ∧ r.s ≤ 2 ^ 32 - cpuSetsize) : Correct ncpu str := by
  refine correct_of_harmless (.inr (.inr fun rs found last => ?_))
  have fits : ∀ r ∈ rs, r.Fits ↔ r.span.Valid := by
    intro r mem
    obtain ⟨-, n, m, s⟩ := ordinary rs found r mem
    have s : r.s ≤ 2 ^ 32 - 1024 := s
    simp only [Reading.Fits, Span.Valid, Reading.span]
    omega
  have visits : ∀ r ∈ rs, ∀ c < (ncpu : Nat), r.Visits ncpu c ↔ r.span.Has c := by
    intro r mem c below
    obtain ⟨-, n, m, s⟩ := ordinary rs found r mem
    have stride : r.s % 2 ^ 32 = r.s := Nat.mod_eq_of_lt (by
      have s : r.s ≤ 2 ^ 32 - 1024 := s
      omega)
    rw [Reading.Visits, Reaches, stride, Nat.mod_eq_of_lt n, Nat.mod_eq_of_lt m, if_pos s,
      and_iff_right below]
    constructor
    · rintro ⟨le, k, reached⟩
      exact ⟨k, reached, le⟩
    · rintro ⟨k, reached, le⟩
      exact ⟨le, k, reached⟩
  split
  · rename_i fit
    refine ⟨fun r mem => ⟨(ordinary rs found r mem).1, (fits r mem).mp (fit r mem)⟩, ?_⟩
    intro c below
    exact exists_congr fun r => and_congr_right fun mem => visits r mem c below
  · rename_i unfit
    exact fun proper => unfit fun r mem => (fits r mem).mpr (proper r mem).2

theorem correct_iff (ncpu : Fin (cpuSetsize + 1)) (str : List Char) :
    Correct ncpu str ↔ Harmless ncpu str :=
  ⟨harmless_of_correct, correct_of_harmless⟩

/-- What stands behind the number of an item that is not the last one is never looked at. -/
theorem garbage_accepted : ¬ Correct 4 "1x,2".toList := by
  intro correct
  have front : reading ("1x,2".toList.takeWhile (· ≠ ',')) = some ⟨1, 1, 1, [], ['x']⟩ := rfl
  have back : readings ['2'] = some [⟨2, 2, 1, [], []⟩] := readings_last rfl rfl
  have found : readings "1x,2".toList = some [⟨1, 1, 1, [], ['x']⟩, ⟨2, 2, 1, [], []⟩] := by
    rw [readings_more (q := ['2']) front rfl, back]
    rfl
  have accepted : Accepted [⟨1, 1, 1, [], ['x']⟩, ⟨2, 2, 1, [], []⟩] := by
    rw [accepted_cons (by simp), accepted_singleton]
    exact ⟨by decide, by decide, rfl⟩
  have list : ¬ ("1x,2".toList = "all".toList ∨ "1x,2".toList = "none".toList) := by decide
  have proper := ((correct_list list).mp correct _ found).1.mp accepted
  cases (proper _ (.head _)).1.2

end Correct

end TiojJudge.Cpuset
