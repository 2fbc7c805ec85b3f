import Mathlib.Data.Rat.Defs
import Mathlib.Algebra.Order.Ring.Rat
import Mathlib.Data.List.TakeWhile

/-!
# Words and numbers of a text

Extraction from an `istream` and `std::stold`, in the C locale. A stream is the
text still to be read; `none` is a stream whose extraction failed. Floating
numbers are exact rationals, with infinities and NaN.
-/

namespace TiojJudge

inductive LongDouble where
  | fin (q : ℚ)
  | inf (negative : Bool)
  | nan
  deriving DecidableEq

namespace Numerals

/-- Conversion of a floating number to `long`: toward zero. -/
def toLong (x : ℚ) : ℤ := x.num.tdiv x.den

/-- `std::lround`: to the nearest integer, halves away from zero. -/
def lround (x : ℚ) : ℤ := if 0 ≤ x then (x + 1 / 2).floor else -(-x + 1 / 2).floor

/-- Conversion of an integer to `int` and to `long`. -/
def toInt32 (n : Int) : Int := n.bmod (2 ^ 32)
def toInt64 (n : Int) : Int := n.bmod (2 ^ 64)

/-- Space, tab, newline, vertical tab, form feed and carriage return. -/
def isSpace (c : Char) : Bool := c.toNat == 32 || (9 ≤ c.toNat && c.toNat ≤ 13)

def skipSpace (text : List Char) : List Char := text.dropWhile isSpace

/-- `in >> word` for a string. -/
def extractWord (text : List Char) : Option (String × List Char) :=
  match skipSpace text with
  | [] => none
  | c :: cs =>
    some (String.ofList (c :: cs.takeWhile fun d => !isSpace d), cs.dropWhile fun d => !isSpace d)

theorem skipSpace_length (text : List Char) : (skipSpace text).length ≤ text.length :=
  (List.dropWhile_sublist _).length_le

/-- A word takes at least one character. -/
theorem extractWord_shorter {text rest : List Char} {word : String}
    (h : extractWord text = some (word, rest)) : rest.length < text.length := by
  have skipped := skipSpace_length text
  unfold extractWord at h
  split at h
  · cases h
  · rename_i c cs found
    obtain ⟨-, rfl⟩ : _ ∧ cs.dropWhile (fun d => !isSpace d) = rest := by simpa using h
    have shorter := (List.dropWhile_sublist (fun d => !isSpace d) (l := cs)).length_le
    rw [found, List.length_cons] at skipped
    omega

def takeSign : List Char → Bool × List Char
  | c :: cs => if c = '-' then (true, cs) else if c = '+' then (false, cs) else (false, c :: cs)
  | [] => (false, [])

theorem takeSign_length (text : List Char) : (takeSign text).2.length ≤ text.length := by
  unfold takeSign
  repeat' split
  all_goals simp

def digitValue (c : Char) : Nat :=
  if c.isDigit then c.toNat - '0'.toNat
  else if c.isLower then c.toNat - 'a'.toNat + 10
  else c.toNat - 'A'.toNat + 10

def digitsValue (base : Nat) (ds : List Char) : Nat :=
  ds.foldl (fun n d => n * base + digitValue d) 0

def signed (negative : Bool) (x : ℚ) : ℚ := if negative then -x else x

/-- `in >> n` for an integer type with the values `lo` to `hi`. -/
def extractInt (lo hi : Int) (text : List Char) : Option (Int × List Char) :=
  let (negative, text) := takeSign (skipSpace text)
  let ds := text.takeWhile Char.isDigit
  let n : Int := if negative then -digitsValue 10 ds else digitsValue 10 ds
  if ds = [] ∨ n < lo ∨ hi < n then none else some (n, text.dropWhile Char.isDigit)

theorem extractInt_shorter {lo hi n : Int} {text rest : List Char}
    (h : extractInt lo hi text = some (n, rest)) : rest.length ≤ text.length := by
  obtain ⟨-, -, rfl⟩ : _ ∧ _ ∧
      (takeSign (skipSpace text)).2.dropWhile Char.isDigit = rest := by
    simpa [extractInt] using h
  exact (List.dropWhile_sublist _).length_le.trans
    ((takeSign_length _).trans (skipSpace_length text))

/-- The greatest `long double`, and what rounds to infinity from here on. -/
def ldblMax : ℚ := (2 ^ 64 - 1) * 2 ^ 16320
def ldblOverflow : ℚ := (2 ^ 64 - 1 / 2) * 2 ^ 16320

/-- What is less than this is still less than the normal numbers when it is rounded. -/
def ldblTiny : ℚ := (1 - 1 / 2 ^ 65) / 2 ^ 16382

/-- A multiple of the smallest positive `long double`. -/
def isDenormal (x : ℚ) : Bool := (x * 2 ^ 16445).isInt

/-- Digits, a point, digits and an exponent, as far as they go. -/
structure Scanned where
  whole : List Char
  fraction : List Char
  /-- The exponent's sign and digits, once its letter was read. -/
  exponent : Option (Bool × List Char)
  rest : List Char

/-- The digits after a point, when there is one. -/
def scanFraction (isDigit : Char → Bool) (text : List Char) : List Char × List Char :=
  if text.head? = some '.' then (text.tail.takeWhile isDigit, text.tail.dropWhile isDigit)
  else ([], text)

def scanExponent (isExponent : Char → Bool) (text : List Char) :
    Option (Bool × List Char) × List Char :=
  if text.head?.any isExponent then
    let (negative, digits) := takeSign text.tail
    (some (negative, digits.takeWhile Char.isDigit), digits.dropWhile Char.isDigit)
  else (none, text)

def scan (isDigit isExponent : Char → Bool) (text : List Char) : Scanned :=
  let whole := text.takeWhile isDigit
  let (fraction, text) := scanFraction isDigit (text.dropWhile isDigit)
  if whole = [] ∧ fraction = [] then ⟨whole, fraction, none, text⟩
  else
    let (exponent, text) := scanExponent isExponent text
    ⟨whole, fraction, exponent, text⟩

theorem scanFraction_shorter (isDigit : Char → Bool) (text : List Char) :
    (scanFraction isDigit text).2.length ≤ text.length := by
  unfold scanFraction
  split
  · have h := (List.dropWhile_sublist isDigit (l := text.tail)).length_le
    have h' := text.length_tail
    simp only
    omega
  · exact le_rfl

theorem scanExponent_shorter (isExponent : Char → Bool) (text : List Char) :
    (scanExponent isExponent text).2.length ≤ text.length := by
  unfold scanExponent
  split
  · have h := (List.dropWhile_sublist Char.isDigit (l := (takeSign text.tail).2)).length_le
    have h' := takeSign_length text.tail
    have h'' := text.length_tail
    simp only
    omega
  · exact le_rfl

theorem scan_shorter (isDigit isExponent : Char → Bool) (text : List Char) :
    (scan isDigit isExponent text).rest.length ≤ text.length := by
  have dropped := (List.dropWhile_sublist isDigit (l := text)).length_le
  have fraction := scanFraction_shorter isDigit (text.dropWhile isDigit)
  have exponent := scanExponent_shorter isExponent
    (scanFraction isDigit (text.dropWhile isDigit)).2
  simp only [scan]
  split <;> simp only <;> omega

def exponentValue (exponent : Bool × List Char) (base : ℚ) : ℚ :=
  let e := digitsValue 10 exponent.2
  if exponent.1 then 1 / base ^ e else base ^ e

def Scanned.value (s : Scanned) (base : Nat) (expBase : ℚ) : ℚ :=
  (digitsValue base (s.whole ++ s.fraction) : ℚ) / (base : ℚ) ^ s.fraction.length *
    (s.exponent.elim 1 fun e => if e.2 = [] then 1 else exponentValue e expBase)

/-- `in >> x` for a `long double`: the value stored, and the stream after it. A
text that is not one complete numeral stores 0, one out of range the bound. -/
def extractLongDouble (text : List Char) : LongDouble × Option (List Char) :=
  let (negative, text) := takeSign (skipSpace text)
  let s := scan Char.isDigit (fun c => c = 'e' || c = 'E') text
  if (s.whole = [] ∧ s.fraction = []) ∨ s.exponent.any (fun e => e.2.isEmpty) then
    (.fin 0, none)
  else
    let x := s.value 10 10
    if ldblOverflow ≤ x then (.fin (signed negative ldblMax), none)
    else (.fin (signed negative x), some s.rest)

theorem extractLongDouble_shorter {x : LongDouble} {text rest : List Char}
    (h : extractLongDouble text = (x, some rest)) : rest.length ≤ text.length := by
  have reached := (scan_shorter Char.isDigit (fun c => c = 'e' || c = 'E')
    (takeSign (skipSpace text)).2).trans ((takeSign_length _).trans (skipSpace_length text))
  simp only [extractLongDouble] at h
  split at h
  · cases h
  · split at h
    · cases h
    · cases h
      exact reached

def startsWithLower (word : String) (text : List Char) : Bool :=
  word.toList.isPrefixOf (text.map Char.toLower)

def isHexDigit (c : Char) : Bool :=
  c.isDigit || ('a' ≤ c && c ≤ 'f') || ('A' ≤ c && c ≤ 'F')

/-- `stold` on a magnitude: `none` is the exception `out_of_range`, for an overflow and for a number
that is tiny and not exact. -/
def inRange (negative : Bool) (x : ℚ) : Option LongDouble :=
  if ldblOverflow ≤ x ∨ (x < ldblTiny ∧ isDenormal x = false) then none
  else some (.fin (signed negative x))

/-- `std::stold`: the value of the longest numeric start of the text, `none`
for the exceptions `invalid_argument` and `out_of_range`. -/
def stold (text : List Char) : Option LongDouble :=
  let (negative, text) := takeSign (skipSpace text)
  if startsWithLower "inf" text then some (.inf negative)
  else if startsWithLower "nan" text then some .nan
  else
    let hex := scan isHexDigit (fun c => c = 'p' || c = 'P') (text.drop 2)
    if startsWithLower "0x" text ∧ (hex.whole ≠ [] ∨ hex.fraction ≠ []) then
      inRange negative (hex.value 16 2)
    else
      let s := scan Char.isDigit (fun c => c = 'e' || c = 'E') text
      if s.whole = [] ∧ s.fraction = [] then none else inRange negative (s.value 10 10)

/-! ## Where a run of characters stops -/

section Stops

variable {rest : List Char} {p : Char → Bool}

/-- What follows the text does not go on with it. -/
theorem takeWhile_stop (text : List Char) (stop : ∀ c ∈ rest.head?, p c = false) :
    (text ++ rest).takeWhile p = text.takeWhile p ∧
      (text ++ rest).dropWhile p = text.dropWhile p ++ rest := by
  induction text with
  | nil =>
    cases rest with
    | nil => exact ⟨rfl, rfl⟩
    | cons c cs =>
      have stop := stop c rfl
      simp [stop]
  | cons c cs ih =>
    rw [List.cons_append, List.takeWhile_cons, List.takeWhile_cons, List.dropWhile_cons,
      List.dropWhile_cons]
    split
    · exact ⟨congrArg _ ih.1, ih.2⟩
    · exact ⟨rfl, rfl⟩

theorem takeWhile_whole {text : List Char} (inside : ∀ c ∈ text, p c = true)
    (stop : ∀ c ∈ rest.head?, p c = false) :
    (text ++ rest).takeWhile p = text ∧ (text ++ rest).dropWhile p = rest := by
  obtain ⟨front, back⟩ := takeWhile_stop text stop
  rw [front, back, List.takeWhile_eq_self_iff.mpr inside, List.dropWhile_eq_nil_iff.mpr inside]
  exact ⟨rfl, rfl⟩

end Stops

/-! ## A text with more behind it -/

/-- The end of the text, or white space. -/
def Ends (rest : List Char) : Prop := ∀ c ∈ rest.head?, isSpace c = true

section Append

variable {text left rest : List Char} {p : Char → Bool}

theorem not_isDigit_of_space {c : Char} (space : isSpace c = true) : c.isDigit = false := by
  rw [Bool.eq_false_iff]
  intro digit
  simp only [isSpace, Char.isDigit, Bool.or_eq_true, beq_iff_eq, Bool.and_eq_true,
    decide_eq_true_eq, ge_iff_le, UInt32.le_iff_toNat_le] at space digit
  have low : '0'.val.toNat = 48 := rfl
  have same : c.val.toNat = c.toNat := rfl
  omega

/-- What no white space has the property of ends before `rest`. -/
theorem takeWhile_ends (text : List Char) (plain : ∀ c, isSpace c = true → p c = false) (ends : Ends rest) :
    (text ++ rest).takeWhile p = text.takeWhile p ∧
      (text ++ rest).dropWhile p = text.dropWhile p ++ rest :=
  takeWhile_stop text fun c mem => plain c (ends c mem)

theorem skipSpace_append (more : skipSpace text ≠ []) :
    skipSpace (text ++ rest) = skipSpace text ++ rest := by
  induction text with
  | nil => exact absurd rfl more
  | cons c cs ih =>
    simp only [skipSpace, List.cons_append, List.dropWhile_cons] at more ih ⊢
    split
    · rename_i space
      rw [if_pos space] at more
      exact ih more
    · rfl

theorem skipSpace_blank (blank : skipSpace text = []) : skipSpace (text ++ rest) = skipSpace rest := by
  simp only [skipSpace, List.dropWhile_eq_nil_iff] at blank
  exact List.dropWhile_append_of_pos blank

/-- A sign is no white space. -/
theorem takeSign_append (ends : Ends rest) :
    takeSign (text ++ rest) = ((takeSign text).1, (takeSign text).2 ++ rest) := by
  cases text with
  | nil =>
    cases rest with
    | nil => rfl
    | cons c cs =>
      have space := ends c rfl
      have minus : c ≠ '-' := by rintro rfl; cases space
      have plus : c ≠ '+' := by rintro rfl; cases space
      simp [takeSign, minus, plus]
  | cons c cs =>
    simp only [takeSign, List.cons_append]
    split_ifs <;> rfl

theorem extractWord_append {word : String} (found : extractWord text = some (word, left))
    (ends : Ends rest) : extractWord (text ++ rest) = some (word, left ++ rest) := by
  unfold extractWord at found
  cases skipped : skipSpace text with
  | nil => simp [skipped] at found
  | cons c cs =>
    have inside := takeWhile_ends cs (p := fun d => !isSpace d)
      (fun d space => by rw [space]; rfl) ends
    rw [skipped] at found
    rw [extractWord, skipSpace_append (by rw [skipped]; exact List.cons_ne_nil _ _), skipped]
    simp only [Option.some.injEq, Prod.mk.injEq] at found
    obtain ⟨rfl, rfl⟩ := found
    simp only [List.cons_append, inside.1, inside.2]

/-- The word of a text is read from it when white space is around it. -/
theorem extractWord_self {word : List Char} (more : word ≠ [])
    (solid : ∀ c ∈ word, isSpace c = false) : extractWord word = some (String.ofList word, []) := by
  cases word with
  | nil => exact absurd rfl more
  | cons c cs =>
    have first := solid c List.mem_cons_self
    have rest : ∀ d ∈ cs, (!isSpace d) = true := fun d mem => by
      rw [solid d (List.mem_cons_of_mem _ mem)]; rfl
    have skipped : skipSpace (c :: cs) = c :: cs := by
      rw [skipSpace, List.dropWhile_cons, first]; rfl
    rw [extractWord, skipped]
    dsimp only
    rw [List.takeWhile_eq_self_iff.mpr rest, List.dropWhile_eq_nil_iff.mpr rest]

theorem extractInt_append {lo hi n : Int} (found : extractInt lo hi text = some (n, left))
    (ends : Ends rest) : extractInt lo hi (text ++ rest) = some (n, left ++ rest) := by
  have digits := takeWhile_ends (takeSign (skipSpace text)).2
    (fun _ => not_isDigit_of_space) ends
  have more : skipSpace text ≠ [] := by
    intro nothing
    simp [extractInt, nothing, takeSign] at found
  simp only [extractInt, skipSpace_append more, takeSign_append ends, digits.1, digits.2,
    Option.ite_none_left_eq_some, Option.some.injEq, Prod.mk.injEq] at found ⊢
  obtain ⟨ok, value, rfl⟩ := found
  exact ⟨ok, value, rfl⟩

theorem scanFraction_append {isDigit : Char → Bool}
    (plain : ∀ c, isSpace c = true → isDigit c = false) (ends : Ends rest) :
    scanFraction isDigit (text ++ rest) =
      ((scanFraction isDigit text).1, (scanFraction isDigit text).2 ++ rest) := by
  unfold scanFraction
  cases text with
  | nil =>
    have point : rest.head? ≠ some '.' := fun head => by cases ends '.' head
    simp [point]
  | cons c cs =>
    have digits := takeWhile_ends cs plain ends
    by_cases point : c = '.' <;> simp [point, digits.1, digits.2]

theorem scanExponent_append {isExponent : Char → Bool}
    (plain : ∀ c, isSpace c = true → isExponent c = false) (ends : Ends rest) :
    scanExponent isExponent (text ++ rest) =
      ((scanExponent isExponent text).1, (scanExponent isExponent text).2 ++ rest) := by
  unfold scanExponent
  cases text with
  | nil =>
    have letter : rest.head?.any isExponent = false := by
      cases rest with
      | nil => rfl
      | cons c cs => exact plain c (ends c rfl)
    simp [letter]
  | cons c cs =>
    have digits := takeWhile_ends (takeSign cs).2 (fun _ => not_isDigit_of_space) ends
    by_cases letter : isExponent c = true <;>
      simp [letter, takeSign_append ends, digits.1, digits.2]

theorem scan_append (text : List Char) {isDigit isExponent : Char → Bool}
    (digit : ∀ c, isSpace c = true → isDigit c = false)
    (exponent : ∀ c, isSpace c = true → isExponent c = false) (ends : Ends rest) :
    scan isDigit isExponent (text ++ rest) =
      { scan isDigit isExponent text with rest := (scan isDigit isExponent text).rest ++ rest } := by
  have digits := takeWhile_ends text digit ends
  simp only [scan, digits.1, digits.2, scanFraction_append digit ends,
    scanExponent_append exponent ends]
  split_ifs <;> rfl

theorem extractLongDouble_append {x : LongDouble} (found : extractLongDouble text = (x, some left))
    (ends : Ends rest) : extractLongDouble (text ++ rest) = (x, some (left ++ rest)) := by
  have letter : ∀ c, isSpace c = true → (decide (c = 'e') || decide (c = 'E')) = false := by
    intro c space
    rw [Bool.eq_false_iff]
    intro e
    simp only [Bool.or_eq_true, decide_eq_true_eq] at e
    rcases e with rfl | rfl <;> cases space
  have scanned := scan_append (takeSign (skipSpace text)).2
    (fun _ => not_isDigit_of_space) letter ends
  have more : skipSpace text ≠ [] := by
    intro nothing
    simp [extractLongDouble, nothing, takeSign, scan, scanFraction] at found
  simp only [extractLongDouble, skipSpace_append more, takeSign_append ends, scanned] at found ⊢
  generalize scan Char.isDigit _ _ = s at found ⊢
  have value : ({ s with rest := s.rest ++ rest } : Scanned).value 10 10 = s.value 10 10 := rfl
  by_cases empty : (s.whole = [] ∧ s.fraction = []) ∨ s.exponent.any (fun e => e.2.isEmpty)
  · rw [if_pos empty] at found
    cases found
  · rw [if_neg empty] at found
    rw [if_neg empty, value]
    by_cases large : ldblOverflow ≤ s.value 10 10
    · rw [if_pos large] at found
      cases found
    · rw [if_neg large] at found
      rw [if_neg large]
      cases found
      rfl

end Append

end Numerals

end TiojJudge
