import TiojJudge.DefaultScoring.Lines

/-!
# The comparisons without their loops

* `lineCompare_iff`: the same lines up to whitespace at their ends and empty lines
  behind the last;
* `wordCompare_iff`: words that go together on every line, where a missing line has none;
* `strictCompare_iff`: the same bytes.
-/

namespace TiojJudge.DefaultScoring

variable {s t w : List Char} {func : List Char → List Char → Bool}

/-! ## Lines -/

/-- The lines of a file without the whitespace at their ends, and without the empty ones
behind the last. -/
def strippedLines (content : List Char) : List (List Char) :=
  ((content.splitOn '\n').map stripTail).rdropWhile fun line => decide (line = [])

theorem blank_stripTail (s : List Char) : s.all lineWhites = decide (stripTail s = []) := by
  rw [Bool.eq_iff_iff, decide_eq_true_eq, stripTail, List.rdropWhile_eq_nil_iff, List.all_eq_true]

theorem lineCompare_iff (ans usr : List Char) :
    (lineCompare true true (.ofFile ans) (.ofFile usr) 1).isOk = true ↔
      strippedLines ans = strippedLines usr := by
  have stripped : (fun s : List Char => s.all lineWhites) = fun s => decide (stripTail s = []) :=
    funext blank_stripTail
  rw [lineCompare_ok, stripped, strippedLines, strippedLines, ← pointwise_rdropWhile, pointwise_map]
  rfl

/-! ## Words -/

/-- The longest runs of other characters than whitespace. -/
def runs (s : List Char) : List (List Char) := (s.splitOnP wordWhites).filter fun w => decide (w ≠ [])

theorem runs_white {c : Char} (white : wordWhites c = true) : runs (c :: s) = runs s := by
  rw [runs, List.splitOnP_cons_eq_if_modifyHead, if_pos white]
  rfl

theorem runs_whites (white : ∀ c ∈ w, wordWhites c = true) : runs (w ++ s) = runs s := by
  induction w with
  | nil => rfl
  | cons c w ih => rw [List.cons_append, runs_white (white c (.head _)), ih fun d hd => white d (.tail _ hd)]

theorem runs_word (some : w ≠ []) (free : ∀ c ∈ w, wordWhites c = false) : runs w = [w] := by
  rw [runs, List.splitOnP_eq_singleton free]
  simp [some]

theorem runs_first {c : Char} (some : w ≠ []) (free : ∀ c ∈ w, wordWhites c = false)
    (white : wordWhites c = true) : runs (w ++ c :: s) = w :: runs s := by
  rw [runs, List.splitOnP_append_cons_of_forall_mem free c white]
  simp [some, runs]

/-- The words that the two cursors find. -/
theorem words_runs (s : List Char) : words s = runs s := by
  fun_induction words s with
  | case1 s h =>
    have white : ∀ c ∈ s, wordWhites c = true := List.dropWhile_eq_nil_iff.mp h
    have none := runs_whites (s := []) white
    rw [List.append_nil] at none
    exact none.symm
  | case2 s a s' h ih =>
    have whites : ∀ c ∈ s.takeWhile wordWhites, wordWhites c = true :=
      fun c hc => List.mem_takeWhile_imp hc
    have first : wordWhites a = false := by
      have stopped := List.head?_dropWhile_not wordWhites s
      rw [h] at stopped
      simpa using stopped
    have free : ∀ c ∈ a :: s'.takeWhile (!wordWhites ·), wordWhites c = false := by
      intro c hc
      cases hc with
      | head => exact first
      | tail _ hc => simpa using List.mem_takeWhile_imp hc
    have whole := List.takeWhile_append_dropWhile (p := wordWhites) (l := s)
    have word := List.takeWhile_append_dropWhile (p := (!wordWhites ·)) (l := s')
    rw [ih, ← whole, runs_whites whites, h]
    cases rest : s'.dropWhile (!wordWhites ·) with
    | nil =>
      rw [rest, List.append_nil] at word
      conv => rhs; rw [← word]
      exact (runs_word (List.cons_ne_nil _ _) free).symm
    | cons c rest' =>
      have white : wordWhites c = true := by
        have stopped := List.head?_dropWhile_not (!wordWhites ·) s'
        rw [rest] at stopped
        simpa using stopped
      rw [rest] at word
      conv => rhs; rw [← word]
      rw [runs_white white]
      exact (runs_first (List.cons_ne_nil _ _) free white).symm

theorem runs_eq_nil : runs s = [] ↔ ∀ c ∈ s, wordWhites c = true := by
  rw [← words_runs]
  constructor
  · intro none
    cases found : s.dropWhile wordWhites with
    | nil => exact List.dropWhile_eq_nil_iff.mp found
    | cons a t =>
      rw [words_cons found] at none
      cases none
  · exact fun white => words_nil (List.dropWhile_eq_nil_iff.mpr white)

/-- The words on a line of a file, of which there are none behind the last line. -/
def lineRuns (content : List Char) (i : Nat) : List (List Char) :=
  runs ((content.splitOn '\n').getD i [])

/-- Two lines, one of which may be missing. -/
theorem sameWords_iff : sameWords func s t = true ↔
    List.Forall₂ (fun a u => func a u = true) (runs s) (runs t) := by
  rw [sameWords, words_runs, words_runs, pointwise_forall₂]

theorem sameWords_blank (s : List Char) :
    sameWords func s [] = s.all wordWhites ∧ sameWords func [] s = s.all wordWhites := by
  have none : runs [] = [] := rfl
  have blank : s.all wordWhites = true ↔ runs s = [] := List.all_eq_true.trans runs_eq_nil.symm
  constructor
  · rw [Bool.eq_iff_iff, blank, sameWords_iff, none, List.forall₂_nil_right_iff]
  · rw [Bool.eq_iff_iff, blank, sameWords_iff, none, List.forall₂_nil_left_iff]

theorem wordCompare_iff (func : List Char → List Char → Bool) (ans usr : List Char) :
    (wordCompare func (.ofFile ans) (.ofFile usr) 1).isOk = true ↔
      ∀ i < max (ans.splitOn '\n').length (usr.splitOn '\n').length,
        List.Forall₂ (fun a u => func a u = true) (lineRuns ans i) (lineRuns usr i) := by
  rw [wordCompare_ok, pointwise_getD (fun s => (sameWords_blank s).1) fun s => (sameWords_blank s).2]
  exact forall₂_congr fun i _ => sameWords_iff

/-! ## Bytes -/

theorem strictCompare_iff (size : { n : Nat // 0 < n }) (ans usr : List Char) :
    (strictCompare size (.ofFile ans) (.ofFile usr) 0).isOk = true ↔ ans = usr :=
  strictCompare_ok size 0 rfl nofun

end TiojJudge.DefaultScoring
