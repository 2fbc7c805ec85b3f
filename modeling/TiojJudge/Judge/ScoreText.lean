import TiojJudge.Judge.Totals

/-!
# The text of a score

`ScoreToString` splits a score with a division and a remainder toward zero, and
pads the remainder.

* `Echoes`: a summary program that writes the score as it read it leaves it unchanged;
* `scoreToString_negative`: the remainder of a negative score has a sign of its own;
* `scores_echo`: which scores are echoed, one by one and in the input of a summary program.
-/

namespace TiojJudge.Judge
open Numerals

variable {cfg : Config} {s : Int}

/-- The text is a decimal numeral of the number. -/
def Denotes (text : String) (q : ℚ) : Prop := ∃ d : Decimal, text.toList = d.text ∧ d.value = q

/-- The text of a score, and the score that a JSON object with it has. -/
def EchoedBy (cfg : Config) (s : Int) (text : String) : Prop :=
  Denotes text (s / 1000000) ∧
    ∀ json : Json, json.find "score" = some (.str text) → jsonScore cfg json = some s

def Echoes (cfg : Config) (s : Int) : Prop := ∃ text, scoreToString s = some text ∧ EchoedBy cfg s text

/-- `SummaryMeta` returns, and its scores of testdata are echoed. -/
def SummaryEchoes (cfg : Config) (sub : Submission) (res : SubmissionResult) : Prop :=
  ∃ scores subtaskScores, summaryMeta sub res = some (scores, subtaskScores) ∧
    List.Forall₂ (fun td text => EchoedBy cfg td.score text) res.tdResults scores

/-- The scores without a negative fraction. -/
def PlainScore (s : Int) : Prop := 0 ≤ s ∨ 1000000 ∣ s

instance : DecidablePred PlainScore := fun _ => inferInstanceAs (Decidable (_ ∨ _))

/-! ## Reading back -/

/-- Magnitudes of scores are in the range of `long double`. -/
theorem inRange_score (negative : Bool) {n : Nat} (h : n ≤ 1000000000000) :
    inRange negative (n / 1000000) = some (.fin (signed negative (n / 1000000))) := by
  have upper : (n : ℚ) / 1000000 ≤ 1000000 := by
    have le : (n : ℚ) ≤ 1000000000000 := by exact_mod_cast h
    linarith
  have large : (1000000 : ℚ) < ldblOverflow := by
    have one : (1 : ℚ) ≤ 2 ^ 16320 := one_le_pow₀ one_le_two
    have more : (2 ^ 64 - 1 / 2 : ℚ) ≤ (2 ^ 64 - 1 / 2) * 2 ^ 16320 :=
      le_mul_of_one_le_right (by norm_num) one
    exact lt_of_lt_of_le (by norm_num) more
  have small : ldblTiny ≤ 1 / 1000000 := by
    have more : (2 : ℚ) ^ 20 ≤ 2 ^ 16382 := pow_le_pow_right₀ one_le_two (by norm_num)
    have low : (1000000 : ℚ) ≤ 2 ^ 16382 := le_trans (by norm_num) more
    unfold ldblTiny
    exact div_le_div₀ zero_le_one (by norm_num) (by norm_num) low
  unfold inRange
  rw [if_neg]
  rintro (above | ⟨below, inexact⟩)
  · linarith
  · have one : 1 ≤ n := by
      by_contra zero
      obtain rfl : n = 0 := by omega
      simp [isDenormal, Rat.isInt] at inexact
    have : (1 : ℚ) ≤ n := by exact_mod_cast one
    linarith

/-- Parsing gives back a score in the range. -/
theorem normalizeScore_score (range : InScoreRange s) :
    normalizeScore cfg (.fin (s / 1000000)) = s := by
  obtain ⟨low, high⟩ := range
  have low : ((-scoreMax : Int) : ℚ) ≤ s := by exact_mod_cast low
  have high : (s : ℚ) ≤ scoreMax := by exact_mod_cast high
  rw [normalizeScore_fin, mul_div_cancel₀ _ (by norm_num), clampRound, min_eq_left high,
    max_eq_right (by simpa using low), lround_intCast]

theorem jsonScore_str {json : Json} {text : String} (h : json.find "score" = some (.str text)) :
    jsonScore cfg json = (stold text.toList).map (normalizeScore cfg) := by
  simp only [jsonScore, h]

/-! ## The two parts -/

/-- `whole.fraction` with six places. -/
def scoreNumeral (negative : Bool) (whole fraction : Nat) : Decimal where
  negative := negative
  whole := Nat.toDigits 10 whole
  fraction := List.replicate (6 - (Nat.toDigits 10 fraction).length) '0' ++ Nat.toDigits 10 fraction
  wholeDigits := fun _ => Nat.isDigit_of_mem_toDigits (by decide) (by decide)
  fractionDigits := by
    intro c hc
    rcases List.mem_append.mp hc with zero | digit
    · exact List.eq_of_mem_replicate zero ▸ rfl
    · exact Nat.isDigit_of_mem_toDigits (by decide) (by decide) digit
  nonempty := Nat.toDigits_ne_nil

/-- The whole part, and a fraction of zeros that ends early. -/
def wholeNumeral (negative : Bool) (whole zeros : Nat) : Decimal where
  negative := negative
  whole := Nat.toDigits 10 whole
  fraction := List.replicate zeros '0'
  wholeDigits := fun _ => Nat.isDigit_of_mem_toDigits (by decide) (by decide)
  fractionDigits := fun _ hc => List.eq_of_mem_replicate hc ▸ rfl
  nonempty := Nat.toDigits_ne_nil

theorem toDigits_le_six {n : Nat} (h : n < 1000000) : (Nat.toDigits 10 n).length ≤ 6 :=
  (Nat.length_toDigits_le_iff (by decide) (by decide)).mpr h

theorem scoreNumeral_magnitude (negative : Bool) (whole : Nat) {fraction : Nat}
    (h : fraction < 1000000) :
    (scoreNumeral negative whole fraction).magnitude =
      (whole * 1000000 + fraction : Nat) / 1000000 := by
  have short := toDigits_le_six h
  have places : (scoreNumeral negative whole fraction).fraction.length = 6 := by
    simp only [scoreNumeral, List.length_append, List.length_replicate]
    omega
  have digits : digitsValue 10 (scoreNumeral negative whole fraction).fraction = fraction := by
    simp [scoreNumeral, digitsValue_append, digitsValue_zeros, digitsValue_toDigits]
  have front : digitsValue 10 (scoreNumeral negative whole fraction).whole = whole :=
    digitsValue_toDigits whole
  rw [Decimal.magnitude, digitsValue_append, places, digits, front]
  norm_num

theorem wholeNumeral_magnitude (negative : Bool) (whole zeros : Nat) :
    (wholeNumeral negative whole zeros).magnitude = whole := by
  have front : digitsValue 10 (wholeNumeral negative whole zeros).whole = whole :=
    digitsValue_toDigits whole
  have back : digitsValue 10 (wholeNumeral negative whole zeros).fraction = 0 :=
    digitsValue_zeros zeros
  have places : (wholeNumeral negative whole zeros).fraction.length = zeros :=
    List.length_replicate
  rw [Decimal.magnitude, digitsValue_append, front, back, places]
  push_cast
  rw [add_zero, mul_div_assoc, div_self (by positivity), mul_one]

theorem repr_toList (n : Int) : n.repr.toList =
    (if n < 0 then ['-'] else []) ++ Nat.toDigits 10 n.natAbs := by
  rw [Int.repr_eq_if]
  by_cases sign : 0 ≤ n
  · rw [if_pos sign, if_neg (by omega), Nat.toList_repr, List.nil_append]
    congr 1
    omega
  · rw [if_neg sign, if_pos (by omega), String.toList_append, Nat.toList_repr]
    congr 2
    omega

/-- The characters that `ScoreToString` puts together. -/
def scoreChars (s : Int) : List Char :=
  let frac := (s.tmod 1000000).repr.toList
  (s.tdiv 1000000).repr.toList ++ '.' :: (List.replicate (6 - frac.length) '0' ++ frac)

theorem scoreToString_eq (s : Int) : scoreToString s =
    if 6 < (s.tmod 1000000).repr.toList.length then none else some (String.ofList (scoreChars s)) := by
  unfold scoreToString scoreChars
  simp only [Int.toString_eq_repr, String.length_toList]
  split
  · rfl
  · congr 1
    apply String.toList_inj.mp
    simp

/-- A score without a negative fraction is written as a numeral. -/
theorem scoreToString_plain (plain : PlainScore s) :
    scoreToString s = some (String.ofList
      (scoreNumeral (s < 0) (s.natAbs / 1000000) (s.natAbs % 1000000)).text) := by
  have parts : (s.tmod 1000000).repr.toList = Nat.toDigits 10 (s.natAbs % 1000000) ∧
      (s.tdiv 1000000).repr.toList =
        (if s < 0 then ['-'] else []) ++ Nat.toDigits 10 (s.natAbs / 1000000) := by
    rw [repr_toList, repr_toList, Int.natAbs_tmod, Int.natAbs_tdiv]
    rcases plain with positive | ⟨k, rfl⟩
    · have rest := Int.tmod_nonneg 1000000 positive
      have whole := Int.tdiv_nonneg positive (by decide : (0 : Int) ≤ 1000000)
      rw [if_neg (not_lt.mpr rest), if_neg (not_lt.mpr whole), if_neg (not_lt.mpr positive)]
      exact ⟨rfl, rfl⟩
    · have sign : k < 0 ↔ 1000000 * k < 0 := by omega
      rw [Int.mul_tmod_right, Int.mul_tdiv_cancel_left k (by decide)]
      simp only [sign]
      exact ⟨rfl, rfl⟩
  have short := toDigits_le_six (Nat.mod_lt s.natAbs (by decide : 0 < 1000000))
  rw [scoreToString_eq, parts.1, if_neg (not_lt.mpr short), scoreChars, parts.1, parts.2]
  by_cases sign : s < 0
  · simp [Decimal.text, Decimal.unsigned, scoreNumeral, sign]
  · simp [Decimal.text, Decimal.unsigned, scoreNumeral, sign]

/-- The remainder of a negative score has a sign of its own. -/
theorem scoreToString_negative {text : String} (negative : ¬ PlainScore s)
    (h : scoreToString s = some text) :
    ∃ zeros rest, text.toList =
      (wholeNumeral (s.tdiv 1000000 < 0) (s.natAbs / 1000000) zeros).text ++ '-' :: rest := by
  obtain ⟨low, fraction⟩ := not_or.mp negative
  have sign : s.tmod 1000000 < 0 := by
    have opposite := Int.tmod_nonneg 1000000 (by omega : 0 ≤ -s)
    rw [Int.neg_tmod] at opposite
    have nonzero : s.tmod 1000000 ≠ 0 := fun zero => fraction (Int.dvd_of_tmod_eq_zero zero)
    omega
  rw [scoreToString_eq] at h
  split at h
  · cases h
  · cases h
    have frac := repr_toList (s.tmod 1000000)
    rw [if_pos sign, List.singleton_append] at frac
    refine ⟨6 - (s.tmod 1000000).repr.toList.length, Nat.toDigits 10 (s.tmod 1000000).natAbs, ?_⟩
    have whole : (s.tdiv 1000000).natAbs = s.natAbs / 1000000 := Int.natAbs_tdiv s 1000000
    rw [String.toList_ofList, scoreChars, frac, repr_toList, whole]
    simp [Decimal.text, Decimal.unsigned, wholeNumeral]

/-! ## What is echoed -/

theorem inScoreRange_iff : InScoreRange s ↔ s.natAbs ≤ 1000000000000 := by
  unfold InScoreRange scoreMax
  omega

theorem signed_natAbs (n : Int) (m : ℚ) : signed (n < 0) (n.natAbs / m) = n / m := by
  have cast : (n.natAbs : ℚ) = ((n.natAbs : Int) : ℚ) := rfl
  by_cases negative : n < 0
  · rw [signed, if_pos (decide_eq_true negative), cast, Int.ofNat_natAbs_of_nonpos negative.le,
      Int.cast_neg, neg_div, neg_neg]
  · rw [signed, if_neg (by simpa using negative), cast, Int.natAbs_of_nonneg (not_lt.mp negative)]

/-- What is read of a numeral, up to a character that cannot go on. -/
theorem stold_numeral (cfg : Config) {rest : List Char} (range : InScoreRange s) (d : Decimal)
    (value : d.magnitude = s.natAbs / 1000000) (sign : d.negative = decide (s < 0))
    (ends : Decimal.Ends rest) :
    (stold (d.text ++ rest)).map (normalizeScore cfg) = some s := by
  rw [d.stold_text ends, value, inRange_score _ (inScoreRange_iff.mp range), sign, signed_natAbs,
    Option.map_some, normalizeScore_score range]

theorem echoes_of_plain (range : InScoreRange s) (plain : PlainScore s) : Echoes cfg s := by
  have value := scoreNumeral_magnitude (decide (s < 0)) (s.natAbs / 1000000)
    (Nat.mod_lt s.natAbs (by decide : 0 < 1000000))
  rw [Nat.div_add_mod'] at value
  refine ⟨_, scoreToString_plain plain, ⟨_, String.toList_ofList, ?_⟩, ?_⟩
  · rw [Decimal.value, value]
    exact signed_natAbs s 1000000
  · intro json found
    have ends : Decimal.Ends [] := by rintro c ⟨⟩
    rw [jsonScore_str found, String.toList_ofList]
    simpa using stold_numeral cfg range _ value rfl ends

/-- Reading stops at the second sign, and has the whole part only. -/
theorem not_echoed {text : String} (range : InScoreRange s) (negative : ¬ PlainScore s)
    (h : scoreToString s = some text) : ¬ EchoedBy cfg s text := by
  rintro ⟨-, read⟩
  obtain ⟨zeros, rest, eq⟩ := scoreToString_negative negative h
  have ends : Decimal.Ends ('-' :: rest) := by
    rintro c ⟨⟩
    decide
  have whole : (1000000 * s.tdiv 1000000).natAbs = 1000000 * (s.natAbs / 1000000) := by
    rw [Int.natAbs_mul]
    exact congrArg (1000000 * ·) (Int.natAbs_tdiv s 1000000)
  have range' : InScoreRange (1000000 * s.tdiv 1000000) := by
    rw [inScoreRange_iff] at range ⊢
    omega
  have value : (wholeNumeral (s.tdiv 1000000 < 0) (s.natAbs / 1000000) zeros).magnitude =
      (1000000 * s.tdiv 1000000).natAbs / 1000000 := by
    rw [wholeNumeral_magnitude, whole]
    push_cast
    rw [mul_div_cancel_left₀ _ (by norm_num)]
  have sign : (wholeNumeral (s.tdiv 1000000 < 0) (s.natAbs / 1000000) zeros).negative =
      decide (1000000 * s.tdiv 1000000 < 0) := by
    refine decide_eq_decide.mpr ?_
    omega
  have same := stold_numeral cfg range' _ value sign ends
  have given := read [("score", .str text)] rfl
  rw [jsonScore_str rfl, eq, same, Option.some.injEq] at given
  exact negative (.inr ⟨_, given.symm⟩)

theorem echoes_iff (range : InScoreRange s) : Echoes cfg s ↔ PlainScore s := by
  constructor
  · rintro ⟨text, written, echoed⟩
    by_contra negative
    exact not_echoed range negative written echoed
  · exact echoes_of_plain range

/-! ## The input of a summary program -/

/-- The remainders that fit into six characters. -/
theorem scoreToString_isSome (s : Int) :
    (∃ text, scoreToString s = some text) ↔ -100000 < s.tmod 1000000 := by
  have low := Int.lt_tmod_of_pos s (by decide : (0 : Int) < 1000000)
  have high := Int.tmod_lt_of_pos s (by decide : (0 : Int) < 1000000)
  have size : (s.tmod 1000000).repr.toList.length ≤ 6 ↔ -100000 < s.tmod 1000000 := by
    rw [repr_toList]
    by_cases sign : s.tmod 1000000 < 0
    · have five := Nat.length_toDigits_le_iff (b := 10) (n := (s.tmod 1000000).natAbs) (k := 5)
        (by decide) (by decide)
      rw [if_pos sign, List.length_append, List.length_singleton]
      omega
    · have six := toDigits_le_six (n := (s.tmod 1000000).natAbs) (by omega)
      rw [if_neg sign, List.nil_append]
      omega
  rw [← size, scoreToString_eq]
  by_cases long : 6 < (s.tmod 1000000).repr.toList.length
  · simp [long]
  · simp [long, not_lt.mp long]

theorem mapM_eq_some {α β : Type} {f : α → Option β} {as : List α} {bs : List β} :
    as.mapM f = some bs ↔ List.Forall₂ (fun a b => f a = some b) as bs := by
  induction as generalizing bs with
  | nil => simp [eq_comm]
  | cons a as ih =>
    simp only [List.mapM_cons, Option.bind_eq_bind, Option.bind_eq_some_iff, Option.pure_def,
      Option.some.injEq, List.forall₂_cons_left_iff, ih]
    constructor
    · rintro ⟨b, first, bs, rest, rfl⟩
      exact ⟨b, bs, first, rest, rfl⟩
    · rintro ⟨b, bs, first, rest, rfl⟩
      exact ⟨b, first, bs, rest, rfl⟩

theorem exists_forall₂ {α β : Type} {r : α → β → Prop} {as : List α} :
    (∃ bs, List.Forall₂ r as bs) ↔ ∀ a ∈ as, ∃ b, r a b := by
  induction as with
  | nil => simp
  | cons a as ih => simp [List.forall₂_cons_left_iff, ← ih]

theorem summaryMeta_eq {sub : Submission} {res : SubmissionResult} {scores subtaskScores : List String} :
    summaryMeta sub res = some (scores, subtaskScores) ↔
      List.Forall₂ (fun td text => scoreToString td.score = some text) res.tdResults scores ∧
      List.Forall₂ (fun score text => scoreToString score = some text) sub.groupScore subtaskScores := by
  simp only [summaryMeta, Option.bind_eq_bind, Option.bind_eq_some_iff, Option.pure_def,
    Option.some.injEq, Prod.mk.injEq, mapM_eq_some]
  constructor
  · rintro ⟨_, first, _, second, rfl, rfl⟩
    exact ⟨first, second⟩
  · rintro ⟨first, second⟩
    exact ⟨scores, first, subtaskScores, second, rfl, rfl⟩

theorem summaryEchoes_iff {sub : Submission} {res : SubmissionResult}
    (range : ∀ td ∈ res.tdResults, InScoreRange td.score) :
    SummaryEchoes cfg sub res ↔ (∀ td ∈ res.tdResults, PlainScore td.score) ∧
      ∀ score ∈ sub.groupScore, -100000 < score.tmod 1000000 := by
  have each : (∀ td ∈ res.tdResults, Echoes cfg td.score) ↔
      ∀ td ∈ res.tdResults, PlainScore td.score :=
    forall₂_congr fun td htd => echoes_iff (range td htd)
  have groups : (∀ score ∈ sub.groupScore, ∃ text, scoreToString score = some text) ↔
      ∀ score ∈ sub.groupScore, -100000 < score.tmod 1000000 :=
    forall₂_congr fun score _ => scoreToString_isSome score
  rw [← each, ← groups]
  unfold SummaryEchoes Echoes
  rw [← exists_forall₂, ← exists_forall₂]
  constructor
  · rintro ⟨scores, subtaskScores, written, echoed⟩
    obtain ⟨tds, groups⟩ := summaryMeta_eq.mp written
    exact ⟨⟨scores, tds.mp (fun _ _ text echo => ⟨text, echo⟩) echoed⟩, subtaskScores, groups⟩
  · rintro ⟨⟨scores, both⟩, subtaskScores, groups⟩
    have tds := both.imp fun _ _ h => h.1
    have echoed := both.imp fun _ _ h => h.2
    exact ⟨scores, subtaskScores, summaryMeta_eq.mpr ⟨tds, groups⟩, echoed⟩

/-- Exactly the scores without a negative fraction are echoed; a summary program gets its input,
with such scores, exactly when all scores of testdata are of that kind and the groups have none
with a fraction from `-0.1` down. -/
theorem scores_echo (cfg : Config) :
    (∀ s, InScoreRange s → (Echoes cfg s ↔ PlainScore s)) ∧
    ∀ sub res, (∀ td ∈ res.tdResults, InScoreRange td.score) →
      (SummaryEchoes cfg sub res ↔ (∀ td ∈ res.tdResults, PlainScore td.score) ∧
        ∀ score ∈ sub.groupScore, -100000 < score.tmod 1000000) :=
  ⟨fun _ => echoes_iff, fun _ _ => summaryEchoes_iff⟩

theorem scores_echo_half_point :
    (Echoes (sampleConfig 1) 500000 ↔ PlainScore 500000) ∧
      (SummaryEchoes (sampleConfig 1) (scoredCtx 0).sub (scoredCtx 0).result ↔
        (∀ td ∈ (scoredCtx 0).result.tdResults, PlainScore td.score) ∧
          ∀ score ∈ (scoredCtx 0).sub.groupScore, -100000 < score.tmod 1000000) :=
  ⟨(scores_echo _).1 500000 (by decide), (scores_echo _).2 _ _ (by decide)⟩

/-- The padding of -0.15 has a negative length, and -1.05 is written with two signs. -/
theorem negative_fraction_fails :
    InScoreRange (-150000) ∧ scoreToString (-150000) = none ∧ ¬ Echoes (sampleConfig 1) (-150000) ∧
      InScoreRange (-1050000) ∧ scoreToString (-1050000) = some "-1.-50000" ∧
      ¬ Echoes (sampleConfig 1) (-1050000) := by
  have none : scoreToString (-150000) = .none := by decide +kernel
  refine ⟨by decide, none, ?_, by decide, by decide +kernel, ?_⟩
  · rintro ⟨_, written, _⟩
    cases none.symm.trans written
  · rintro ⟨_, written, echoed⟩
    exact not_echoed (by decide) (by decide) written echoed

end TiojJudge.Judge
