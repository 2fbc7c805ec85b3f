import TiojJudge.DefaultScoring.Lines

/-!
# The modes from strict to lax

* `words_stripTail`: whitespace behind a line is not in its words;
* `Harmless`: a word that every tolerance accepts for itself;
* `check_self`: a word goes with itself if and only if it is harmless;
* `nested_iff`: each mode accepts what the stricter ones do, and every file for
  itself, if and only if the answer has harmless words only;
* `main_self`: with which arguments the program accepts the answer for itself.
-/

namespace TiojJudge.DefaultScoring

variable {s t w : List Char} {ans usr : List Char} {subtype : Subtype} {threshold : LongDouble}

/-! ## Strict to line to white-diff -/

theorem words_append (white : ∀ c ∈ w, wordWhites c = true) : words (s ++ w) = words s := by
  have none : w.takeWhile (!wordWhites ·) = [] ∧ w.dropWhile (!wordWhites ·) = w := by
    cases w with
    | nil => exact ⟨rfl, rfl⟩
    | cons c w => simp [white c (.head _)]
  fun_induction words s with
  | case1 s h =>
    apply words_nil
    rw [List.dropWhile_append, h]
    exact List.dropWhile_eq_nil_iff.mpr white
  | case2 s a s' h ih =>
    have split : (s ++ w).dropWhile wordWhites = a :: (s' ++ w) := by
      rw [List.dropWhile_append, h]
      rfl
    have word : (s' ++ w).takeWhile (!wordWhites ·) = s'.takeWhile (!wordWhites ·) := by
      rw [List.takeWhile_append, none.1, List.append_nil]
      split
      · rename_i all
        exact ((List.takeWhile_prefix _).eq_of_length all).symm
      · rfl
    have rest : (s' ++ w).dropWhile (!wordWhites ·) = s'.dropWhile (!wordWhites ·) ++ w := by
      rw [List.dropWhile_append, none.2]
      split
      · rename_i all
        rw [List.isEmpty_iff.mp all, List.nil_append]
      · rfl
    rw [words_cons split, word, rest, ih]

theorem wordWhites_of_lineWhites {c : Char} (h : lineWhites c = true) : wordWhites c = true := by
  rw [wordWhites, h, Bool.true_or, Bool.true_or]

theorem words_stripTail (s : List Char) : words (stripTail s) = words s := by
  have split : stripTail s ++ s.rtakeWhile lineWhites = s := List.rdropWhile_append_rtakeWhile
  conv => rhs; rw [← split]
  exact (words_append fun c hc => wordWhites_of_lineWhites (List.mem_rtakeWhile_imp hc)).symm

/-- A mode on two files. -/
def accepts (s : Settings) (type : Mode) (ans usr : List Char) : Bool :=
  (compare { s with type } ans usr).isOk

variable {set : Settings}

theorem accepts_strict : accepts set .strict ans usr = true ↔ ans = usr :=
  strictCompare_ok kBufSize 0 rfl nofun

theorem accepts_line : accepts set .line ans usr =
    pointwise sameStripped (·.all lineWhites) (ans.splitOn '\n') (usr.splitOn '\n') :=
  lineCompare_ok 1

theorem accepts_white : accepts set .whiteDiff ans usr =
    pointwise (sameWords (· == ·)) (·.all wordWhites) (ans.splitOn '\n') (usr.splitOn '\n') :=
  wordCompare_ok 1

theorem accepts_float (known : set.subtype ≠ .other) : accepts set .floatDiff ans usr =
    pointwise (sameWords (check set.subtype set.threshold)) (·.all wordWhites) (ans.splitOn '\n')
      (usr.splitOn '\n') := by
  rw [accepts, compare]
  dsimp only
  rw [if_neg known]
  exact wordCompare_ok 1

theorem line_of_strict (h : accepts set .strict ans usr = true) : accepts set .line ans usr = true := by
  obtain rfl := accepts_strict.mp h
  rw [accepts_line]
  exact pointwise_refl.mpr fun _ _ => decide_eq_true rfl

theorem white_of_line (h : accepts set .line ans usr = true) :
    accepts set .whiteDiff ans usr = true := by
  rw [accepts_line] at h
  rw [accepts_white]
  apply pointwise_mono _ _ h
  · intro s _ t same
    have same : stripTail s = stripTail t := of_decide_eq_true same
    rw [sameWords, ← words_stripTail s, same, words_stripTail]
    exact pointwise_refl.mpr fun _ _ => beq_self_eq_true _
  · intro s blank
    rw [List.all_eq_true] at blank ⊢
    exact fun c hc => wordWhites_of_lineWhites (blank c hc)

/-! ## White-diff to float-diff -/

/-- The word is not read as a number, or not compared as one, or it is finite, and not 0 under
an infinite relative threshold. -/
def Harmless (subtype : Subtype) (threshold : LongDouble) (word : List Char) : Prop :=
  ∀ x, Numerals.stold word = some x → marked word = true →
    ∃ a, x = .fin a ∧ ¬ (subtype = .relative ∧ threshold = .inf false ∧ a = 0)

/-- The words of a file. -/
def fileWords (content : List Char) : List (List Char) := (content.splitOn '\n').flatMap words

open LongDouble

/-- A number is close to itself. -/
theorem close_self (known : subtype ≠ .other) (bound : le (.fin 0) threshold = true) (x : LongDouble) :
    close subtype threshold x x = true ↔
      ∃ a, x = .fin a ∧ ¬ (subtype = .relative ∧ threshold = .inf false ∧ a = 0) := by
  rw [close, fabs_sub_self]
  cases x with
  | fin a =>
    simp only [isFinite, if_true, LongDouble.fin.injEq, exists_eq_left']
    cases subtype with
    | absolute => simp [tolerance, bound]
    | relative =>
      have product := zero_le_mul bound (abs_nonneg a)
      simpa [tolerance, fabs] using product
    | absoluteRelative =>
      obtain ⟨b, greater, pos⟩ := max_one_fabs a
      have product := (zero_le_mul bound pos.le).mpr fun h => pos.ne' h.2
      simp [tolerance, greater, product]
    | other => exact absurd rfl known
  | inf _ | nan => simp [isFinite, le]

theorem check_self (known : subtype ≠ .other) (bound : le (.fin 0) threshold = true) :
    check subtype threshold w w = true ↔ Harmless subtype threshold w := by
  rw [check, Harmless]
  cases value : Numerals.stold w with
  | none => simp
  | some x =>
    cases number : marked w with
    | false => simp
    | true => simpa using close_self known bound x

/-- A float-diff accepts a file for itself where it accepts its words for themselves. -/
theorem float_words : accepts set .floatDiff ans ans = true ↔
    set.subtype ≠ .other ∧ ∀ w ∈ fileWords ans, check set.subtype set.threshold w w = true := by
  by_cases known : set.subtype = .other
  · simp [accepts, compare, known, Except.isOk, Except.toBool]
  · simp only [accepts_float known, pointwise_refl, sameWords, fileWords, List.mem_flatMap]
    constructor
    · rintro all
      exact ⟨known, fun w ⟨line, hl, hw⟩ => all line hl w hw⟩
    · exact fun all line hl w hw => all.2 w ⟨line, hl, hw⟩

/-- A float-diff accepts a file for itself if and only if its words are harmless. -/
theorem float_self (known : set.subtype ≠ .other) (bound : le (.fin 0) set.threshold = true) :
    accepts set .floatDiff ans ans = true ↔
      ∀ w ∈ fileWords ans, Harmless set.subtype set.threshold w := by
  rw [float_words]
  simp only [check_self known bound]
  exact and_iff_right known

theorem float_of_white (known : set.subtype ≠ .other) (bound : le (.fin 0) set.threshold = true)
    (harmless : ∀ w ∈ fileWords ans, Harmless set.subtype set.threshold w)
    (h : accepts set .whiteDiff ans usr = true) : accepts set .floatDiff ans usr = true := by
  rw [accepts_white] at h
  rw [accepts_float known]
  apply pointwise_mono _ (fun _ blank => blank) h
  intro s hs t same
  apply pointwise_mono _ (fun _ never => never) same
  intro w hw v equal
  obtain rfl := beq_iff_eq.mp equal
  exact (check_self known bound).mpr (harmless w (List.mem_flatMap.mpr ⟨s, hs, hw⟩))

/-! ## All modes -/

/-- Each mode accepts what a stricter one does, and the answer for itself. -/
structure Nested (set : Settings) (ans usr : List Char) : Prop where
  strict_line : accepts set .strict ans usr = true → accepts set .line ans usr = true
  line_white : accepts set .line ans usr = true → accepts set .whiteDiff ans usr = true
  white_float : accepts set .whiteDiff ans usr = true → accepts set .floatDiff ans usr = true
  itself : ∀ type, type ≠ .other → accepts set type ans ans = true

theorem nested_iff (known : set.subtype ≠ .other) (bound : le (.fin 0) set.threshold = true) :
    Nested set ans usr ↔ ∀ w ∈ fileWords ans, Harmless set.subtype set.threshold w := by
  constructor
  · intro nested
    exact (float_self known bound).mp (nested.itself .floatDiff (by decide))
  · intro harmless
    have strict : accepts set .strict ans ans = true := accepts_strict.mpr rfl
    have line := line_of_strict strict
    have white := white_of_line line
    constructor
    · exact line_of_strict
    · exact white_of_line
    · exact float_of_white known bound harmless
    · intro type other
      cases type with
      | strict => exact strict
      | line => exact line
      | whiteDiff => exact white
      | floatDiff => exact float_of_white known bound harmless white
      | other => exact absurd rfl other

theorem nested_iff_decimals : Nested {} "1.5 2e3\n".toList "1.5  2e3".toList := by
  apply (nested_iff (by decide) (by decide +kernel)).mpr
  have finite : ∀ w ∈ fileWords "1.5 2e3\n".toList, (Numerals.stold w).all isFinite = true := by
    decide +kernel
  intro w hw x value _
  have here := finite w hw
  rw [value] at here
  cases x with
  | fin a => exact ⟨a, rfl, nofun⟩
  | inf _ | nan => cases here

/-- A file with the word `inf`. -/
theorem float_rejects_inf : ¬ Nested {} "inf\n".toList "inf\n".toList := by
  intro nested
  have accepted := nested.itself .floatDiff (by decide)
  have rejected : accepts {} .floatDiff "inf\n".toList "inf\n".toList = false := by decide +kernel
  rw [rejected] at accepted
  cases accepted

/-! ## The program -/

/-- A threshold is the default one, or one that was read and narrowed. -/
theorem parseArgs_threshold (args : List String) (h : ∃ x, set.threshold = narrow x) :
    ∃ x, (parseArgs set args).threshold = narrow x := by
  fun_induction parseArgs set args with
  | case1 | case3 | case4 => exact h
  | case5 s subtype value args set threshold value_eq ih => exact ih ⟨threshold, rfl⟩
  | case2 | case6 | case7 => rename_i ih; exact ih h

/-- `main` accepts in its mode, and a message is written only for what it rejects. -/
theorem main_eq (args : List String) (ans usr : List Char) :
    (main args ans (some usr)).1 = accepts (parseArgs {} args) (parseArgs {} args).type ans usr ∧
      ((main args ans (some usr)).2.isSome = true ↔
        (parseArgs {} args).verbose = true ∧ (main args ans (some usr)).1 = false) := by
  have same : compare (parseArgs {} args) ans usr =
      compare { parseArgs {} args with type := (parseArgs {} args).type } ans usr := rfl
  rw [accepts, ← same, main]
  cases compare (parseArgs {} args) ans usr with
  | ok => exact ⟨rfl, by simp⟩
  | error =>
    refine ⟨rfl, ?_⟩
    cases (parseArgs {} args).verbose <;> simp

/-- The answer is accepted for itself with all arguments that name a type, and in a float-diff
with a subtype under which its words are. -/
theorem main_self (args : List String) (ans : List Char) :
    (main args ans (some ans)).1 = true ↔
      (parseArgs {} args).type ≠ .other ∧
      ((parseArgs {} args).type = .floatDiff → (parseArgs {} args).subtype ≠ .other ∧
        ∀ w ∈ fileWords ans,
          check (parseArgs {} args).subtype (parseArgs {} args).threshold w w = true) := by
  rw [(main_eq args ans ans).1]
  have strict : accepts (parseArgs {} args) .strict ans ans = true := accepts_strict.mpr rfl
  have line := line_of_strict strict
  have white := white_of_line line
  cases type : (parseArgs {} args).type with
  | strict => simpa using strict
  | line => simpa using line
  | whiteDiff => simpa using white
  | floatDiff => simpa using float_words
  | other => simp [accepts, compare, Except.isOk, Except.toBool]

end TiojJudge.DefaultScoring
