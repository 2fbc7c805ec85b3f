import TiojJudge.Pointwise
import TiojJudge.DefaultScoring.Model

/-!
# What the loops compare

* `Ifstream.lines`: the lines still to come, split at newlines;
* `lineCompare_ok`, `wordCompare_ok`: the loops accept what agrees line by line;
* `lineWords_ok`: two lines agree word by word;
* `strictCompare_ok`: the loop over buffers accepts equal files.
-/

namespace TiojJudge.DefaultScoring

variable {f ans usr : Ifstream} {func : List Char → List Char → Bool} {s t : List Char}

/-- The lines that `getline` will give. -/
def Ifstream.lines (f : Ifstream) : List (List Char) := if f.eof then [] else f.rest.splitOn '\n'

theorem lines_eof (h : f.eof = true) : f.lines = [] := if_pos h

theorem lines_getline (h : f.eof = false) : f.lines = f.getline.1 :: f.getline.2.lines := by
  have free : ∀ c ∈ f.rest.takeWhile (· ≠ '\n'), (c == '\n') = false := by
    intro c hc
    simpa using List.mem_takeWhile_imp hc
  have whole := List.takeWhile_append_dropWhile (p := (· ≠ '\n')) (l := f.rest)
  rw [Ifstream.lines, h, if_neg Bool.false_ne_true, Ifstream.getline]
  split
  · rename_i found
    rw [found, List.append_nil] at whole
    conv => lhs; rw [← whole]
    exact List.splitOnP_eq_singleton free
  · rename_i c rest found
    have newline : (c == '\n') = true := by
      have stopped := List.head?_dropWhile_not (· ≠ '\n') f.rest
      rw [found] at stopped
      simpa using stopped
    rw [found] at whole
    conv => lhs; rw [← whole]
    exact List.splitOnP_append_cons_of_forall_mem free c newline rest

/-- No line behind the end of the other file has anything else. -/
theorem tailLines_ok (whites : Char → Bool) (count line userLines : Nat) :
    (tailLines whites count ans usr line userLines).isOk =
      (ans.lines.all (·.all whites) && usr.lines.all (·.all whites)) := by
  fun_induction tailLines with
  | case1 ans usr line ha blank ih => rw [ih, lines_getline ha, List.all_cons, blank, Bool.true_and]
  | case2 ans usr line ha blank =>
    rw [lines_getline ha, List.all_cons, Bool.eq_false_iff.mpr blank]
    rfl
  | case3 ans usr line ha hu blank ih => rw [ih, lines_getline hu, List.all_cons, blank, Bool.true_and]
  | case4 ans usr line ha hu blank =>
    rw [lines_getline hu, List.all_cons, Bool.eq_false_iff.mpr blank]
    exact (Bool.and_false _).symm
  | case5 ans usr line ha hu =>
    rw [lines_eof (Bool.eq_true_of_not_eq_false ha), lines_eof (Bool.eq_true_of_not_eq_false hu)]
    rfl

/-- The rest of the longer file. -/
theorem tail_pointwise {same : List Char → List Char → Bool} {whites : Char → Bool}
    {count line userLines : Nat} (differ : ans.eof ≠ usr.eof) :
    (tailLines whites count ans usr line userLines).isOk =
      pointwise same (·.all whites) ans.lines usr.lines := by
  rw [tailLines_ok]
  cases ha : ans.eof with
  | true => rw [lines_eof ha, List.all_nil, Bool.true_and, pointwise]
  | false =>
    have hu : usr.eof = true := by
      rw [ha] at differ
      exact (Bool.eq_true_of_not_eq_false fun h => differ h.symm)
    rw [lines_eof hu, List.all_nil, Bool.and_true, pointwise_nil_right]

/-- Trailing whitespace of a line does not count. -/
def sameStripped (s t : List Char) : Bool := decide (stripTail s = stripTail t)

theorem lineCompare_ok (line : Nat) : (lineCompare true true ans usr line).isOk =
    pointwise sameStripped (·.all lineWhites) ans.lines usr.lines := by
  fun_induction lineCompare true true ans usr line with
  | case1 ans usr line same h =>
    rw [lines_eof h, lines_eof (same ▸ h)]
    rfl
  | case2 ans usr line same h s t equal ih =>
    have ha : ans.eof = false := Bool.eq_false_iff.mpr h
    have hu : usr.eof = false := same ▸ ha
    have stripped : sameStripped ans.getline.1 usr.getline.1 = true := decide_eq_true equal
    rw [ih, lines_getline ha, lines_getline hu, pointwise, stripped, Bool.true_and]
  | case3 ans usr line same h s t differ =>
    have ha : ans.eof = false := Bool.eq_false_iff.mpr h
    have hu : usr.eof = false := same ▸ ha
    have stripped : sameStripped ans.getline.1 usr.getline.1 = false := decide_eq_false differ
    rw [lines_getline ha, lines_getline hu, pointwise, stripped]
    rfl
  | case4 ans usr line differ => exact tail_pointwise differ
  | case5 => contradiction

/-! ## Words -/

/-- The words of a line. -/
def words (s : List Char) : List (List Char) :=
  match _h : s.dropWhile wordWhites with
  | [] => []
  | a :: s' => (a :: s'.takeWhile (!wordWhites ·)) :: words (s'.dropWhile (!wordWhites ·))
termination_by s.length
decreasing_by
  have first := (List.dropWhile_sublist wordWhites (l := s)).length_le
  have rest := (List.dropWhile_sublist (!wordWhites ·) (l := s')).length_le
  rw [_h, List.length_cons] at first
  omega

theorem words_nil (h : s.dropWhile wordWhites = []) : words s = [] := by
  unfold words
  split
  · rfl
  · rename_i found
    rw [h] at found
    cases found

theorem words_cons {a : Char} (h : s.dropWhile wordWhites = a :: t) :
    words s = (a :: t.takeWhile (!wordWhites ·)) :: words (t.dropWhile (!wordWhites ·)) := by
  rw [words]
  split
  · rename_i found
    rw [h] at found
    cases found
  · rename_i found
    rw [h] at found
    cases found
    rfl

/-- Lines whose words go together, place by place. -/
def sameWords (func : List Char → List Char → Bool) (s t : List Char) : Bool :=
  pointwise func (fun _ => false) (words s) (words t)

theorem lineWords_ok (line word : Nat) : (lineWords func line word s t).isOk = sameWords func s t := by
  unfold sameWords
  fun_induction lineWords func line word s t with
  | case1 word s t hs ht =>
    rw [words_nil hs, words_nil ht]
    rfl
  | case2 word s t b t' hs ht =>
    rw [words_nil hs, words_cons ht]
    rfl
  | case3 word s t a s' hs ht =>
    rw [words_cons hs, words_nil ht]
    rfl
  | case4 word s t a s' b t' hs ht w w' same ih =>
    rw [ih, words_cons hs, words_cons ht, pointwise, same, Bool.true_and]
  | case5 word s t a s' b t' hs ht w w' differ =>
    rw [words_cons hs, words_cons ht, pointwise, Bool.eq_false_iff.mpr differ]
    rfl

theorem wordCompare_ok (line : Nat) : (wordCompare func ans usr line).isOk =
    pointwise (sameWords func) (·.all wordWhites) ans.lines usr.lines := by
  fun_induction wordCompare func ans usr line with
  | case1 ans usr line same h =>
    rw [lines_eof h, lines_eof (same ▸ h)]
    rfl
  | case2 ans usr line same h message rejected =>
    have ha : ans.eof = false := Bool.eq_false_iff.mpr h
    have hu : usr.eof = false := same ▸ ha
    have words : (lineWords func line 1 ans.getline.1 usr.getline.1).isOk =
        sameWords func ans.getline.1 usr.getline.1 := lineWords_ok line 1
    rw [lines_getline ha, lines_getline hu, pointwise, ← words, rejected]
    rfl
  | case3 ans usr line same h _ accepted ih =>
    have ha : ans.eof = false := Bool.eq_false_iff.mpr h
    have hu : usr.eof = false := same ▸ ha
    have words : (lineWords func line 1 ans.getline.1 usr.getline.1).isOk =
        sameWords func ans.getline.1 usr.getline.1 := lineWords_ok line 1
    rw [ih, lines_getline ha, lines_getline hu, pointwise, ← words, accepted]
    rfl
  | case4 ans usr line differ => exact tail_pointwise differ

/-! ## Bytes -/

theorem read_rest (f : Ifstream) (size : Nat) :
    (f.read size).1 ++ (f.read size).2.rest = f.rest ∧
      ((f.read size).2.eof = true → (f.read size).2.rest = []) := by
  unfold Ifstream.read
  split
  · exact ⟨List.append_nil _, fun _ => rfl⟩
  · exact ⟨List.take_append_drop _ _, nofun⟩

theorem read_congr {size : Nat} (same : ans.rest = usr.rest) : ans.read size = usr.read size := by
  rw [Ifstream.read, Ifstream.read, same]

theorem strictCompare_ok (size : { n : Nat // 0 < n }) (pos : Nat) (same : ans.eof = usr.eof)
    (ended : ans.eof = true → ans.rest = usr.rest) :
    (strictCompare size ans usr pos).isOk = true ↔ ans.rest = usr.rest := by
  fun_induction strictCompare size ans usr pos with
  | case1 ans usr pos h => exact ⟨fun _ => ended h, fun _ => rfl⟩
  | case2 ans usr pos h buf1 ans' ha buf2 usr' hu differ =>
    refine ⟨nofun, fun equal => ?_⟩
    rw [read_congr equal, hu] at ha
    cases ha
    exact differ.elim (fun ne => absurd rfl ne) fun ne => absurd rfl ne
  | case3 ans usr pos h buf1 ans' ha buf2 usr' hu _ differ =>
    refine ⟨nofun, fun equal => ?_⟩
    rw [read_congr equal, hu] at ha
    cases ha
    exact absurd rfl differ
  | case4 ans usr pos h buf1 ans' ha buf2 usr' hu sizes bytes ih =>
    obtain ⟨ans_split, ans_end⟩ := read_rest ans size
    obtain ⟨usr_split, usr_end⟩ := read_rest usr size
    rw [ha] at ans_split ans_end
    rw [hu] at usr_split usr_end
    simp only [ha, hu] at ih ⊢
    obtain ⟨eofs, _⟩ := not_or.mp sizes
    have eofs : ans'.eof = usr'.eof := not_not.mp eofs
    have bytes : buf1 = buf2 := not_not.mp bytes
    subst bytes
    rw [ih eofs fun h => (ans_end h).trans (usr_end (eofs ▸ h)).symm, ← ans_split, ← usr_split]
    exact (List.append_cancel_left_eq _ _ _).symm.to_iff

end TiojJudge.DefaultScoring
