import TiojJudge.DefaultScoring.Model

/-!
# Words read as numbers

`stold` reads the longest numeral at the start of a word and leaves the rest.

* `unread`: what it leaves;
* `Literal`: a word that is a numeral to its end, with a finite value;
* `stold_mark`: a `#` and what follows it do not change what is read;
* `check_sound_iff`: the words for which a float-diff accepts others than
  literals within the tolerance.
-/

namespace TiojJudge.DefaultScoring

open Numerals LongDouble

/-! ## What is left unread -/

/-- Behind the digits of a numeral; the letter of an exponent without digits is left. -/
def scanEnd (isDigit isExponent : Char → Bool) (text : List Char) : List Char :=
  let text := (scanFraction isDigit (text.dropWhile isDigit)).2
  let (exponent, rest) := scanExponent isExponent text
  if exponent.any (fun e => e.2.isEmpty) then text else rest

/-- Behind `nan`, which may have letters and digits in brackets. -/
def nanEnd (text : List Char) : List Char :=
  let rest := text.tail.dropWhile fun c => c.isAlphanum || c = '_'
  if text.head? = some '(' ∧ rest.head? = some ')' then rest.tail else text

/-- What `stold` leaves of a text that it reads a number from. -/
def unread (text : List Char) : List Char :=
  let text := (takeSign (skipSpace text)).2
  if startsWithLower "infinity" text then text.drop 8
  else if startsWithLower "inf" text then text.drop 3
  else if startsWithLower "nan" text then nanEnd (text.drop 3)
  else
    let hex := scan isHexDigit (fun c => c = 'p' || c = 'P') (text.drop 2)
    if startsWithLower "0x" text ∧ (hex.whole ≠ [] ∨ hex.fraction ≠ []) then
      scanEnd isHexDigit (fun c => c = 'p' || c = 'P') (text.drop 2)
    else scanEnd Char.isDigit (fun c => c = 'e' || c = 'E') text

structure Literal (word : List Char) (x : ℚ) : Prop where
  value : stold word = some (.fin x)
  whole : unread word = []

/-! ## Behind a mark that no numeral has -/

variable {l t : List Char} {p isDigit isExponent : Char → Bool}

theorem takeWhile_mark (stop : p '#' = false) (l t : List Char) :
    (l ++ '#' :: t).takeWhile p = l.takeWhile p :=
  (takeWhile_stop l (by rintro c ⟨⟩; exact stop)).1

theorem dropWhile_mark (stop : p '#' = false) (l t : List Char) :
    (l ++ '#' :: t).dropWhile p = l.dropWhile p ++ '#' :: t :=
  (takeWhile_stop l (by rintro c ⟨⟩; exact stop)).2

theorem takeSign_mark (l t : List Char) :
    takeSign (l ++ '#' :: t) = ((takeSign l).1, (takeSign l).2 ++ '#' :: t) := by
  cases l with
  | nil => rfl
  | cons c l =>
    rw [List.cons_append, takeSign, takeSign]
    split
    · rfl
    · split <;> rfl

theorem scanFraction_mark (stop : isDigit '#' = false) (l t : List Char) :
    scanFraction isDigit (l ++ '#' :: t) =
      ((scanFraction isDigit l).1, (scanFraction isDigit l).2 ++ '#' :: t) := by
  cases l with
  | nil => rfl
  | cons c l =>
    unfold scanFraction
    by_cases point : c = '.'
    · simp [point, takeWhile_mark stop, dropWhile_mark stop]
    · simp [point]

theorem scanExponent_mark (stop : isExponent '#' = false) (l t : List Char) :
    scanExponent isExponent (l ++ '#' :: t) =
      ((scanExponent isExponent l).1, (scanExponent isExponent l).2 ++ '#' :: t) := by
  have digit : Char.isDigit '#' = false := by decide
  cases l with
  | nil => simp [scanExponent, stop]
  | cons c l =>
    unfold scanExponent
    cases letter : isExponent c with
    | true => simp [letter, takeSign_mark, takeWhile_mark digit, dropWhile_mark digit]
    | false => simp [letter]

theorem scan_mark (digit : isDigit '#' = false) (letter : isExponent '#' = false) (l t : List Char) :
    scan isDigit isExponent (l ++ '#' :: t) =
      { scan isDigit isExponent l with rest := (scan isDigit isExponent l).rest ++ '#' :: t } := by
  simp only [scan, takeWhile_mark digit, dropWhile_mark digit, scanFraction_mark digit,
    scanExponent_mark letter]
  split <;> rfl

theorem scanEnd_mark (digit : isDigit '#' = false) (letter : isExponent '#' = false)
    (l t : List Char) :
    scanEnd isDigit isExponent (l ++ '#' :: t) = scanEnd isDigit isExponent l ++ '#' :: t := by
  simp only [scanEnd, dropWhile_mark digit, scanFraction_mark digit, scanExponent_mark letter]
  split <;> rfl

theorem nanEnd_mark (l t : List Char) : nanEnd (l ++ '#' :: t) ≠ [] := by
  unfold nanEnd
  cases l with
  | nil => simp
  | cons c l =>
    dsimp only
    split
    · rename_i brackets
      obtain ⟨-, closed⟩ := brackets
      rw [List.cons_append, List.tail_cons, dropWhile_mark (by decide)] at closed ⊢
      cases rest : l.dropWhile fun c => c.isAlphanum || c = '_' with
      | nil =>
        rw [rest] at closed
        cases closed
      | cons d rest' => simp
    · exact List.cons_ne_nil _ _

theorem startsWithLower_mark {word : String} (free : '#' ∉ word.toList) (l t : List Char) :
    startsWithLower word (l ++ '#' :: t) = startsWithLower word l := by
  have lower : Char.toLower '#' = '#' := by decide
  unfold startsWithLower
  generalize word.toList = ws at free
  induction l generalizing ws with
  | nil =>
    cases ws with
    | nil => rfl
    | cons w ws =>
      have other : w ≠ '#' := fun same => free (same ▸ .head _)
      simp [List.isPrefixOf, lower, other]
  | cons c l ih =>
    cases ws with
    | nil => rfl
    | cons w ws =>
      rw [List.cons_append, List.map_cons, List.map_cons, List.isPrefixOf, List.isPrefixOf,
        ih ws fun hw => free (.tail _ hw)]

theorem drop_mark {word : String} (starts : startsWithLower word l = true) (t : List Char) :
    (l ++ '#' :: t).drop word.toList.length = l.drop word.toList.length ++ '#' :: t := by
  have length := (List.isPrefixOf_iff_prefix.mp starts).length_le
  rw [List.length_map] at length
  exact List.drop_append_of_le_length length

/-- The number of a word is also the number of the word with a mark and anything behind it. -/
theorem stold_mark (l t : List Char) : stold (l ++ '#' :: t) = stold l := by
  have space : isSpace '#' = false := by decide
  have text : takeSign (skipSpace (l ++ '#' :: t)) =
      ((takeSign (skipSpace l)).1, (takeSign (skipSpace l)).2 ++ '#' :: t) := by
    rw [skipSpace, dropWhile_mark space, takeSign_mark]
    rfl
  unfold stold
  rw [text]
  obtain ⟨negative, text⟩ := takeSign (skipSpace l)
  simp only
  rw [startsWithLower_mark (by decide), startsWithLower_mark (by decide),
    startsWithLower_mark (by decide), scan_mark (by decide) (by decide)]
  split
  · rfl
  split
  · rfl
  cases hex : startsWithLower "0x" text with
  | true =>
    have dropped : (text ++ '#' :: t).drop 2 = text.drop 2 ++ '#' :: t := drop_mark hex t
    rw [dropped, scan_mark (by decide) (by decide)]
    rfl
  | false => rfl

theorem unread_mark (l t : List Char) : unread (l ++ '#' :: t) ≠ [] := by
  have space : isSpace '#' = false := by decide
  have marked (l : List Char) : l ++ '#' :: t ≠ [] := List.append_ne_nil_of_right_ne_nil _ nofun
  unfold unread
  rw [skipSpace, dropWhile_mark space, takeSign_mark]
  generalize (takeSign (l.dropWhile isSpace)).2 = text
  simp only
  rw [startsWithLower_mark (by decide), startsWithLower_mark (by decide),
    startsWithLower_mark (by decide), startsWithLower_mark (by decide)]
  split
  · rename_i starts
    have dropped : (text ++ '#' :: t).drop 8 = text.drop 8 ++ '#' :: t := drop_mark starts t
    rw [dropped]
    exact marked _
  split
  · rename_i starts
    have dropped : (text ++ '#' :: t).drop 3 = text.drop 3 ++ '#' :: t := drop_mark starts t
    rw [dropped]
    exact marked _
  split
  · rename_i starts
    have dropped : (text ++ '#' :: t).drop 3 = text.drop 3 ++ '#' :: t := drop_mark starts t
    rw [dropped]
    exact nanEnd_mark _ t
  split
  · rename_i starts
    have dropped : (text ++ '#' :: t).drop 2 = text.drop 2 ++ '#' :: t := drop_mark starts.1 t
    rw [dropped, scanEnd_mark (by decide) (by decide)]
    exact marked _
  · rw [scanEnd_mark (by decide) (by decide)]
    exact marked _

/-! ## What a float-diff accepts -/

variable {subtype : Subtype} {threshold x y : LongDouble} {ans usr w : List Char}

/-- A word that is accepted is the answer, or both are literals within the tolerance. -/
def Sound (subtype : Subtype) (threshold : LongDouble) (ans usr : List Char) : Prop :=
  check subtype threshold ans usr = true →
    ans = usr ∨ ∃ x y, Literal ans x ∧ Literal usr y ∧
      le (.fin |x - y|) (tolerance subtype threshold (.fin x)) = true

/-- Words whose numbers are compared, and lie within the tolerance, though one of the words
goes on behind its number or its number is infinite. -/
structure Misread (subtype : Subtype) (threshold : LongDouble) (ans usr : List Char) : Prop where
  differ : ans ≠ usr
  marked : marked ans = true
  near : ∃ x y, stold ans = some x ∧ stold usr = some y ∧ close subtype threshold x y = true
  loose : ¬ ((∃ x, Literal ans x) ∧ ∃ y, Literal usr y)

/-- The answer is compared as a number, and some number is within the tolerance. -/
def Comparable (subtype : Subtype) (threshold : LongDouble) (ans : List Char) : Prop :=
  marked ans = true ∧ ∃ x y, stold ans = some x ∧ close subtype threshold x y = true

/-- A longest run of characters that are not whitespace is such a word. -/
def Word (w : List Char) : Prop := w ≠ [] ∧ ∀ c ∈ w, wordWhites c = false

theorem word_of_all {w : List Char} (ne : w ≠ []) (plain : w.all (fun c => !wordWhites c) = true) :
    Word w :=
  ⟨ne, fun c hc => (Bool.not_eq_true' _).mp (List.all_eq_true.mp plain c hc)⟩

theorem check_number (x_value : stold ans = some x) (y_value : stold usr = some y)
    (number : marked ans = true) : check subtype threshold ans usr = close subtype threshold x y := by
  rw [check, x_value, y_value]
  exact if_pos number

/-- A word other than the answer is accepted for its number only. -/
theorem check_other (differ : ans ≠ usr) : check subtype threshold ans usr = true ↔
    marked ans = true ∧
      ∃ x y, stold ans = some x ∧ stold usr = some y ∧ close subtype threshold x y = true := by
  have unequal : (ans == usr) = false := beq_eq_false_iff_ne.mpr differ
  rw [check]
  cases x_value : stold ans with
  | none => simp [unequal]
  | some x =>
    cases y_value : stold usr with
    | none => simp [unequal]
    | some y => cases number : marked ans <;> simp [unequal]

theorem sound_iff_not_misread : Sound subtype threshold ans usr ↔ ¬ Misread subtype threshold ans usr := by
  constructor
  · intro sound misread
    have accepted := (check_other misread.differ).mpr ⟨misread.marked, misread.near⟩
    rcases sound accepted with same | ⟨x, y, ans_literal, usr_literal, -⟩
    · exact misread.differ same
    · exact misread.loose ⟨⟨x, ans_literal⟩, y, usr_literal⟩
  · intro read accepted
    by_cases differ : ans = usr
    · exact .inl differ
    · obtain ⟨number, near⟩ := (check_other differ).mp accepted
      by_cases literal : (∃ x, Literal ans x) ∧ ∃ y, Literal usr y
      · obtain ⟨⟨x, ans_literal⟩, y, usr_literal⟩ := literal
        rw [check_number ans_literal.value usr_literal.value number] at accepted
        exact .inr ⟨x, y, ans_literal, usr_literal, accepted⟩
      · exact absurd ⟨differ, number, near, literal⟩ read

/-- A finite number within the tolerance of which there is any is within its own. -/
theorem close_self_of_close {a : ℚ} (h : close subtype threshold (.fin a) y = true) :
    close subtype threshold (.fin a) (.fin a) = true := by
  rw [close, fabs_sub_self]
  rw [close] at h
  cases bound : tolerance subtype threshold (.fin a) with
  | nan =>
    rw [bound] at h
    cases y <;> cases h
  | inf s =>
    rw [bound] at h
    cases s with
    | false => rfl
    | true => cases y <;> cases h
  | fin b =>
    rw [bound] at h
    cases y with
    | fin c => exact decide_eq_true ((abs_nonneg _).trans (of_decide_eq_true h))
    | inf _ | nan => cases h

/-- An infinity within the tolerance of which there is any number has 0 there. -/
theorem close_zero_of_close {s : Bool} (h : close subtype threshold (.inf s) y = true) :
    close subtype threshold (.inf s) (.fin 0) = true := by
  rw [close] at h ⊢
  cases y with
  | fin c => exact h
  | inf t =>
    rw [sub] at h
    split at h
    · cases h
    · exact h
  | nan => cases h

/-- A comparable answer has a word that is accepted for it wrongly: itself with a mark, or 0
for an infinity. -/
theorem misread_of_comparable (word : Word ans) (h : Comparable subtype threshold ans) :
    ∃ usr, Word usr ∧ Misread subtype threshold ans usr := by
  obtain ⟨number, x, y, value, near⟩ := h
  cases x with
  | fin a =>
    refine ⟨ans ++ ['#'], ⟨List.append_ne_nil_of_left_ne_nil word.1 _, ?_⟩, ?_⟩
    · intro c hc
      rcases List.mem_append.mp hc with hc | hc
      · exact word.2 c hc
      · obtain rfl := List.mem_singleton.mp hc
        decide
    · constructor
      · exact fun same => List.cons_ne_nil _ _ (List.self_eq_append_right.mp same)
      · exact number
      · exact ⟨.fin a, .fin a, value, (stold_mark ans []).trans value, close_self_of_close near⟩
      · rintro ⟨-, y, literal⟩
        exact unread_mark ans [] literal.whole
  | inf s =>
    have zero : stold ['0'] = some (.fin 0) := by decide +kernel
    refine ⟨['0'], word_of_all nofun rfl, ?_, number, ?_, ?_⟩
    · rintro rfl
      rw [zero] at value
      cases value
    · exact ⟨.inf s, .fin 0, value, zero, close_zero_of_close near⟩
    · rintro ⟨⟨x, literal⟩, -⟩
      rw [literal.value] at value
      cases value
  | nan => cases near

/-- A pair of words is judged by literals alone if and only if it is not misread; all words are,
for one answer, if and only if nothing is close to its number. -/
theorem check_sound_iff (subtype : Subtype) (threshold : LongDouble) (ans : List Char)
    (word : Word ans) :
    (∀ usr, Sound subtype threshold ans usr ↔ ¬ Misread subtype threshold ans usr) ∧
      ((∀ usr, Word usr → Sound subtype threshold ans usr) ↔ ¬ Comparable subtype threshold ans) := by
  refine ⟨fun usr => sound_iff_not_misread, ?_, ?_⟩
  · intro sound comparable
    obtain ⟨usr, usr_word, misread⟩ := misread_of_comparable word comparable
    exact sound_iff_not_misread.mp (sound usr usr_word) misread
  · intro apart usr _
    refine sound_iff_not_misread.mpr fun misread => apart ?_
    obtain ⟨x, y, ans_value, -, near⟩ := misread.near
    exact ⟨misread.marked, x, y, ans_value, near⟩

theorem check_sound_iff_point :
    (∀ usr, Sound .absolute (.fin 1) "1.5".toList usr ↔ ¬ Misread .absolute (.fin 1) "1.5".toList usr) ∧
      ((∀ usr, Word usr → Sound .absolute (.fin 1) "1.5".toList usr) ↔
        ¬ Comparable .absolute (.fin 1) "1.5".toList) :=
  check_sound_iff .absolute (.fin 1) "1.5".toList (word_of_all nofun rfl)

/-- A number that is followed by a word. -/
theorem check_accepts_suffix :
    ¬ Sound .absoluteRelative (.fin (1 / 1000000)) "1.5".toList "1.5abc".toList := by
  intro sound
  have accepted : check .absoluteRelative (.fin (1 / 1000000)) "1.5".toList "1.5abc".toList = true := by
    decide +kernel
  rcases sound accepted with same | ⟨_, _, -, literal, -⟩
  · exact absurd same (by decide)
  · have rest : unread "1.5abc".toList = "abc".toList := by decide +kernel
    have none := rest.symm.trans literal.whole
    cases none

end TiojJudge.DefaultScoring
