import Mathlib.Algebra.Order.Field.Basic
import Mathlib.Algebra.Order.Floor.Ring
import Mathlib.Data.List.Induction
import Mathlib.Data.Rat.Floor
import Mathlib.Tactic.Linarith
import Mathlib.Tactic.Ring
import TiojJudge.Numerals

/-!
# Decimal numerals

A `Decimal` is the text of a number with a point: perhaps a sign, digits, the
point, and digits.

* `stold_text`: `std::stold` reads it up to a character that cannot go on;
* `digitsValue_toDigits`: the digits of a number have its value;
* `lround_intCast`, `lround_le`, `le_lround`: rounding keeps integers, and stays between them.
-/

namespace TiojJudge.Numerals

/-! ## Characters -/

theorem digit_bounds {c : Char} (h : c.isDigit = true) : 48 ≤ c.toNat ∧ c.toNat ≤ 57 := by
  simpa [Char.isDigit, UInt32.le_iff_toNat_le] using h

theorem digit_ne {c d : Char} (h : c.isDigit = true) (other : d.isDigit = false) : c ≠ d := by
  rintro rfl
  rw [h] at other
  cases other

theorem digit_not_space {c : Char} (h : c.isDigit = true) : isSpace c = false := by
  rw [Bool.eq_false_iff]
  intro space
  rw [not_isDigit_of_space space] at h
  cases h

theorem toLower_digit {c : Char} (h : c.isDigit = true) : c.toLower = c := by
  have bounds := digit_bounds h
  have upper : ¬ (c.val ≥ 'A'.val ∧ c.val ≤ 'Z'.val) := by
    rintro ⟨low, -⟩
    have low : 65 ≤ c.toNat := UInt32.le_iff_toNat_le.mp low
    omega
  exact dif_neg upper

theorem digitValue_digit {c : Char} (h : c.isDigit = true) : digitValue c = c.toNat - 48 := by
  simp [digitValue, h]

/-! ## The value of digits -/

theorem digitsValue_snoc (base : Nat) (ds : List Char) (d : Char) :
    digitsValue base (ds ++ [d]) = digitsValue base ds * base + digitValue d := by
  simp [digitsValue, List.foldl_append]

theorem digitsValue_append (base : Nat) (xs ys : List Char) :
    digitsValue base (xs ++ ys) = digitsValue base xs * base ^ ys.length + digitsValue base ys := by
  induction ys using List.reverseRecOn with
  | nil => simp [digitsValue]
  | append_singleton ys y ih =>
    rw [← List.append_assoc, digitsValue_snoc, ih, digitsValue_snoc, List.length_append,
      List.length_singleton]
    ring

theorem digitsValue_eq {ds : List Char} (digits : ∀ c ∈ ds, c.isDigit = true) :
    digitsValue 10 ds = Nat.ofDigitChars 10 ds 0 := by
  rw [digitsValue, Nat.ofDigitChars_eq_foldl]
  apply List.foldl_ext
  intro n c hc
  rw [digitValue_digit (digits c hc), Nat.mul_comm]
  rfl

theorem digitsValue_toDigits (n : Nat) : digitsValue 10 (Nat.toDigits 10 n) = n := by
  rw [digitsValue_eq fun c hc => Nat.isDigit_of_mem_toDigits (by decide) (by decide) hc,
    Nat.ofDigitChars_ten_toDigits]

theorem digitsValue_zeros (n : Nat) : digitsValue 10 (List.replicate n '0') = 0 := by
  rw [digitsValue_eq fun c hc => (List.eq_of_mem_replicate hc) ▸ rfl,
    Nat.ofDigitChars_replicate_zero, Nat.mul_zero]

/-! ## Reading -/

structure Decimal where
  negative : Bool
  whole : List Char
  fraction : List Char
  wholeDigits : ∀ c ∈ whole, c.isDigit = true
  fractionDigits : ∀ c ∈ fraction, c.isDigit = true
  nonempty : whole ≠ []

namespace Decimal

variable (d : Decimal)

def unsigned : List Char := d.whole ++ '.' :: d.fraction

def text : List Char := (if d.negative then ['-'] else []) ++ d.unsigned

def magnitude : ℚ := digitsValue 10 (d.whole ++ d.fraction) / 10 ^ d.fraction.length

def value : ℚ := signed d.negative d.magnitude

/-- The first digit, and what comes after it. -/
theorem unsigned_cons : ∃ c cs, c.isDigit = true ∧ d.unsigned = c :: cs ∧
    ∃ e es, e.toLower ≠ 'x' ∧ cs = e :: es := by
  have digits := d.wholeDigits
  cases whole : d.whole with
  | nil => exact absurd whole d.nonempty
  | cons c cs =>
    rw [whole] at digits
    refine ⟨c, cs ++ '.' :: d.fraction, digits c (.head _), by simp [unsigned, whole], ?_⟩
    cases cs with
    | nil => exact ⟨'.', d.fraction, by decide, rfl⟩
    | cons e es =>
      have digit := digits e (.tail _ (.head _))
      refine ⟨e, es ++ '.' :: d.fraction, ?_, rfl⟩
      rw [toLower_digit digit]
      exact digit_ne digit rfl

theorem takeSign_text (rest : List Char) :
    takeSign (skipSpace (d.text ++ rest)) = (d.negative, d.unsigned ++ rest) := by
  obtain ⟨c, cs, digit, unsigned, _⟩ := d.unsigned_cons
  cases sign : d.negative with
  | true => simp [text, sign, skipSpace, takeSign, isSpace]
  | false =>
    have minus : c ≠ '-' := digit_ne digit rfl
    have plus : c ≠ '+' := digit_ne digit rfl
    simp [text, sign, unsigned, skipSpace, takeSign, digit_not_space digit, minus, plus]

theorem not_startsWithLower (word : String) {w : Char} {ws : List Char}
    (first : word.toList = w :: ws) (other : w.isDigit = false) (rest : List Char) :
    startsWithLower word (d.unsigned ++ rest) = false := by
  obtain ⟨c, cs, digit, unsigned, _⟩ := d.unsigned_cons
  have differs : w ≠ c := (digit_ne digit other).symm
  simp [startsWithLower, List.isPrefixOf, first, unsigned, toLower_digit digit, differs]

theorem not_hex (rest : List Char) : startsWithLower "0x" (d.unsigned ++ rest) = false := by
  obtain ⟨c, cs, _, unsigned, e, es, other, rfl⟩ := d.unsigned_cons
  simp [startsWithLower, List.isPrefixOf, unsigned, Ne.symm other]

/-- What cannot go on a number after its digits. -/
def Ends (rest : List Char) : Prop :=
  ∀ c ∈ rest.head?, c.isDigit = false ∧ c ≠ 'e' ∧ c ≠ 'E'

theorem scan_unsigned {rest : List Char} (ends : Ends rest) :
    scan Char.isDigit (fun c => c = 'e' || c = 'E') (d.unsigned ++ rest) =
      ⟨d.whole, d.fraction, none, rest⟩ := by
  have split : d.unsigned ++ rest = d.whole ++ '.' :: (d.fraction ++ rest) := by simp [unsigned]
  have stop : ∀ c ∈ ('.' :: (d.fraction ++ rest)).head?, c.isDigit = false := by
    rintro c ⟨⟩
    rfl
  obtain ⟨whole, point⟩ := takeWhile_whole d.wholeDigits stop
  obtain ⟨fraction, after⟩ := takeWhile_whole d.fractionDigits fun c hc => (ends c hc).1
  have exponent : (rest.head?.any fun c => c = 'e' || c = 'E') = false := by
    cases rest with
    | nil => rfl
    | cons c cs => simp [(ends c rfl).2]
  simp [scan, split, whole, point, scanFraction, fraction, after, d.nonempty, scanExponent, exponent]

theorem stold_text {rest : List Char} (ends : Ends rest) :
    stold (d.text ++ rest) = inRange d.negative d.magnitude := by
  have nonempty := d.nonempty
  simp [stold, d.takeSign_text rest, d.not_startsWithLower "inf" rfl rfl rest,
    d.not_startsWithLower "nan" rfl rfl rest, d.not_hex rest, d.scan_unsigned ends, nonempty,
    Scanned.value, magnitude]

end Decimal

/-! ## Rounding -/

theorem floor_half (n : Int) : ((n : ℚ) + 1 / 2).floor = n := by
  change ⌊(n : ℚ) + 1 / 2⌋ = n
  rw [Int.floor_eq_iff]
  constructor <;> linarith

theorem lround_intCast (n : Int) : lround n = n := by
  unfold lround
  split
  · exact floor_half n
  · have half := floor_half (-n)
    rw [Int.cast_neg] at half
    rw [half, neg_neg]

/-- Rounding stays between integers. -/
theorem lround_le {x : ℚ} {n : Int} (h : x ≤ n) : lround x ≤ n := by
  unfold lround
  split
  · change ⌊x + 1 / 2⌋ ≤ n
    rw [← Int.lt_add_one_iff, Int.floor_lt]
    push_cast
    linarith
  · change -⌊-x + 1 / 2⌋ ≤ n
    rw [neg_le, Int.le_floor]
    push_cast
    linarith

theorem le_lround {x : ℚ} {n : Int} (h : (n : ℚ) ≤ x) : n ≤ lround x := by
  unfold lround
  split
  · change n ≤ ⌊x + 1 / 2⌋
    rw [Int.le_floor]
    linarith
  · change n ≤ -⌊-x + 1 / 2⌋
    rw [le_neg, ← Int.lt_add_one_iff, Int.floor_lt]
    push_cast
    linarith

end TiojJudge.Numerals
