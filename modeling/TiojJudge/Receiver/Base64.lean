import Mathlib.Data.Nat.Bitwise
import Mathlib.Data.UInt

/-!
# Base64

The program code of a submission comes in base64. `OutputBase64` decodes four
characters at a time as long as more follow; the last group may be whole, padded or
cut short.

* `base64CharToValue`, `outputBase64`: the decoder;
* `Alphabet`, `encode`: the standard and the URL-safe encoding, with or without
  padding;
* `outputBase64_encode`: the decoder writes what was encoded.
-/

namespace TiojJudge.Receiver

/-! ## The decoder -/

/-- `Base64CharToValue`, for both alphabets. -/
def base64CharToValue (chr : UInt8) : UInt8 :=
  if 'A'.toUInt8 ≤ chr ∧ chr ≤ 'Z'.toUInt8 then chr - 'A'.toUInt8
  else if 'a'.toUInt8 ≤ chr ∧ chr ≤ 'z'.toUInt8 then
    chr - 'a'.toUInt8 + ('Z'.toUInt8 - 'A'.toUInt8) + 1
  else if '0'.toUInt8 ≤ chr ∧ chr ≤ '9'.toUInt8 then
    chr - '0'.toUInt8 + ('Z'.toUInt8 - 'A'.toUInt8) + ('z'.toUInt8 - 'a'.toUInt8) + 2
  else if chr = '+'.toUInt8 ∨ chr = '-'.toUInt8 then 62
  else if chr = '/'.toUInt8 ∨ chr = '_'.toUInt8 then 63
  else 0

/-- `(v[0] << 2) | (v[1] & 0x30) >> 4`, cut to a byte. -/
def firstByte (v0 v1 : UInt8) : UInt8 :=
  UInt8.ofNat (v0.toNat <<< 2 ||| (v1.toNat &&& 0x30) >>> 4)

/-- `(v[1] & 0x0f) << 4 | (v[2] & 0x3c) >> 2` -/
def secondByte (v1 v2 : UInt8) : UInt8 :=
  UInt8.ofNat ((v1.toNat &&& 0x0f) <<< 4 ||| (v2.toNat &&& 0x3c) >>> 2)

/-- `(v[2] & 0x03) << 6 | v[3]` -/
def thirdByte (v2 v3 : UInt8) : UInt8 :=
  UInt8.ofNat ((v2.toNat &&& 0x03) <<< 6 ||| v3.toNat)

/-- What follows the loop: each of the three returns is at the end of the string or at `=`. -/
def outputLast (str : List UInt8) : List UInt8 :=
  let v (j : Nat) : UInt8 := base64CharToValue (str[j]?.getD 0)
  let ends (j : Nat) : Bool := str[j]?.all (· == '='.toUInt8)
  if ends 1 then [] else
  firstByte (v 0) (v 1) :: if ends 2 then [] else
  secondByte (v 1) (v 2) :: if ends 3 then [] else
  [thirdByte (v 2) (v 3)]

/-- `OutputBase64`. The loop goes on while more than four characters are left. -/
def outputBase64 : List UInt8 → List UInt8
  | c0 :: c1 :: c2 :: c3 :: c4 :: rest =>
    let v0 := base64CharToValue c0
    let v1 := base64CharToValue c1
    let v2 := base64CharToValue c2
    let v3 := base64CharToValue c3
    firstByte v0 v1 :: secondByte v1 v2 :: thirdByte v2 v3 :: outputBase64 (c4 :: rest)
  | str => outputLast str

/-! ## The encodings -/

inductive Alphabet where
  | standard
  | urlSafe

/-- The character for six bits. -/
def Alphabet.char (a : Alphabet) (v : Nat) : UInt8 :=
  if v < 26 then 'A'.toUInt8 + UInt8.ofNat v
  else if v < 52 then 'a'.toUInt8 + UInt8.ofNat (v - 26)
  else if v < 62 then '0'.toUInt8 + UInt8.ofNat (v - 52)
  else match a with
    | .standard => if v = 62 then '+'.toUInt8 else '/'.toUInt8
    | .urlSafe => if v = 62 then '-'.toUInt8 else '_'.toUInt8

def padding (padded : Bool) (count : Nat) : List UInt8 :=
  if padded then List.replicate count '='.toUInt8 else []

/-- Four characters for three bytes; at the end the bits that are missing are zero. -/
def encode (a : Alphabet) (padded : Bool) : List UInt8 → List UInt8
  | [] => []
  | [x] => a.char (x.toNat / 4) :: a.char (x.toNat % 4 * 16) :: padding padded 2
  | [x, y] =>
    a.char (x.toNat / 4) :: a.char (x.toNat % 4 * 16 + y.toNat / 16) ::
      a.char (y.toNat % 16 * 4) :: padding padded 1
  | x :: y :: z :: rest =>
    a.char (x.toNat / 4) :: a.char (x.toNat % 4 * 16 + y.toNat / 16) ::
      a.char (y.toNat % 16 * 4 + z.toNat / 64) :: a.char (z.toNat % 64) :: encode a padded rest

/-! ## Characters and bytes -/

variable {a : Alphabet} {padded : Bool}

theorem base64CharToValue_char {v : Nat} (bound : v < 64) :
    base64CharToValue (a.char v) = UInt8.ofNat v := by
  have table : ∀ v : Fin 64, base64CharToValue (a.char v) = UInt8.ofNat v := by
    cases a <;> decide
  exact table ⟨v, bound⟩

theorem char_ne_pad {v : Nat} (bound : v < 64) : (a.char v == '='.toUInt8) = false := by
  have table : ∀ v : Fin 64, (a.char v == '='.toUInt8) = false := by
    cases a <;> decide
  exact table ⟨v, bound⟩

/-- The bits of two parts that do not meet. -/
theorem shiftLeft_or {hi lo k : Nat} (bound : lo < 2 ^ k) : hi <<< k ||| lo = hi * 2 ^ k + lo := by
  rw [Nat.shiftLeft_eq, Nat.mul_comm, Nat.two_pow_add_eq_or_of_lt bound]

theorem firstByte_eq {x t : Nat} (hx : x < 256) (ht : t < 16) :
    firstByte (UInt8.ofNat (x / 4)) (UInt8.ofNat (x % 4 * 16 + t)) = UInt8.ofNat x := by
  have mask (v : Nat) : (v &&& 0x30) >>> 4 = v / 16 % 4 := by
    rw [Nat.shiftRight_and_distrib, Nat.shiftRight_eq_div_pow]
    exact Nat.and_two_pow_sub_one_eq_mod _ 2
  rw [firstByte, mask, shiftLeft_or (by omega)]
  simp only [UInt8.toNat_ofNat']
  congr 1
  omega

theorem secondByte_eq {y s t : Nat} (hy : y < 256) (ht : t < 4) :
    secondByte (UInt8.ofNat (s * 16 + y / 16)) (UInt8.ofNat (y % 16 * 4 + t)) = UInt8.ofNat y := by
  have low (v : Nat) : v &&& 0x0f = v % 16 := Nat.and_two_pow_sub_one_eq_mod _ 4
  have mask (v : Nat) : (v &&& 0x3c) >>> 2 = v / 4 % 16 := by
    rw [Nat.shiftRight_and_distrib, Nat.shiftRight_eq_div_pow]
    exact Nat.and_two_pow_sub_one_eq_mod _ 4
  rw [secondByte, mask, low, shiftLeft_or (by omega)]
  simp only [UInt8.toNat_ofNat']
  congr 1
  omega

theorem thirdByte_eq {z t : Nat} (hz : z < 256) :
    thirdByte (UInt8.ofNat (t * 4 + z / 64)) (UInt8.ofNat (z % 64)) = UInt8.ofNat z := by
  have low (v : Nat) : v &&& 0x03 = v % 4 := Nat.and_two_pow_sub_one_eq_mod _ 2
  have small : (UInt8.ofNat (z % 64)).toNat = z % 64 := by
    rw [UInt8.toNat_ofNat']
    omega
  rw [thirdByte, low, small, shiftLeft_or (by omega)]
  simp only [UInt8.toNat_ofNat']
  congr 1
  omega

/-! ## The round trip -/

theorem encode_ne_nil {b : List UInt8} (some : b ≠ []) : encode a padded b ≠ [] := by
  fun_cases encode a padded b with
  | case1 => exact absurd rfl some
  | case2 | case3 | case4 => exact List.cons_ne_nil _ _

/-- Four characters of which a byte comes from each two. -/
theorem bytes_of_group {x y z : UInt8} :
    let v0 := base64CharToValue (a.char (x.toNat / 4))
    let v1 := base64CharToValue (a.char (x.toNat % 4 * 16 + y.toNat / 16))
    let v2 := base64CharToValue (a.char (y.toNat % 16 * 4 + z.toNat / 64))
    let v3 := base64CharToValue (a.char (z.toNat % 64))
    firstByte v0 v1 = x ∧ secondByte v1 v2 = y ∧ thirdByte v2 v3 = z := by
  have hx := x.toNat_lt
  have hy := y.toNat_lt
  have hz := z.toNat_lt
  intro v0 v1 v2 v3
  simp only [v0, v1, v2, v3]
  rw [base64CharToValue_char (by omega), base64CharToValue_char (by omega),
    base64CharToValue_char (by omega), base64CharToValue_char (by omega),
    firstByte_eq hx (by omega), secondByte_eq hy (by omega), thirdByte_eq hz]
  simp only [UInt8.ofNat_toNat, and_self]

/-- One byte left: the second character is not `=`, the third is `=` or missing. -/
theorem outputLast_one {x : UInt8} : outputLast (encode a padded [x]) = [x] := by
  have hx := x.toNat_lt
  have first : firstByte (base64CharToValue (a.char (x.toNat / 4)))
      (base64CharToValue (a.char (x.toNat % 4 * 16))) = x := by
    rw [base64CharToValue_char (by omega), base64CharToValue_char (by omega),
      ← Nat.add_zero (x.toNat % 4 * 16), firstByte_eq hx (by omega), UInt8.ofNat_toNat]
  have second : (a.char (x.toNat % 4 * 16) == '='.toUInt8) = false := char_ne_pad (by omega)
  cases padded <;> simp [outputLast, encode, padding, second, first]

theorem outputLast_two {x y : UInt8} : outputLast (encode a padded [x, y]) = [x, y] := by
  have hx := x.toNat_lt
  have hy := y.toNat_lt
  obtain ⟨first, second, -⟩ := bytes_of_group (a := a) (x := x) (y := y) (z := 0)
  have inner : (a.char (x.toNat % 4 * 16 + y.toNat / 16) == '='.toUInt8) = false :=
    char_ne_pad (by omega)
  have last : (a.char (y.toNat % 16 * 4) == '='.toUInt8) = false := char_ne_pad (by omega)
  simp only [UInt8.toNat_zero, Nat.zero_div, Nat.add_zero] at second
  cases padded <;> simp [outputLast, encode, padding, inner, last, first, second]

theorem outputLast_three {x y z : UInt8} :
    outputLast (encode a padded [x, y, z]) = [x, y, z] := by
  have hx := x.toNat_lt
  have hy := y.toNat_lt
  have hz := z.toNat_lt
  obtain ⟨first, second, third⟩ := bytes_of_group (a := a) (x := x) (y := y) (z := z)
  have inner : (a.char (x.toNat % 4 * 16 + y.toNat / 16) == '='.toUInt8) = false :=
    char_ne_pad (by omega)
  have next : (a.char (y.toNat % 16 * 4 + z.toNat / 64) == '='.toUInt8) = false :=
    char_ne_pad (by omega)
  have last : (a.char (z.toNat % 64) == '='.toUInt8) = false := char_ne_pad (by omega)
  simp [outputLast, encode, inner, next, last, first, second, third]

/-- Four characters at most are left to the end. -/
theorem outputBase64_last {str : List UInt8} (short : str.length ≤ 4) :
    outputBase64 str = outputLast str := by
  unfold outputBase64
  split
  · simp only [List.length_cons] at short
    omega
  · rfl

theorem padding_length (padded : Bool) (count : Nat) : (padding padded count).length ≤ count := by
  cases padded <;> simp [padding]

/-- The loop takes a group when something is encoded behind it. -/
theorem outputBase64_more {x y z : UInt8} {rest : List UInt8} (more : rest ≠ []) :
    outputBase64 (encode a padded (x :: y :: z :: rest)) =
      x :: y :: z :: outputBase64 (encode a padded rest) := by
  have some : encode a padded rest ≠ [] := encode_ne_nil more
  obtain ⟨c, cs, behind⟩ := List.exists_cons_of_ne_nil some
  obtain ⟨first, second, third⟩ := bytes_of_group (a := a) (x := x) (y := y) (z := z)
  rw [encode, behind, outputBase64, first, second, third]

/-- What was encoded is written, in either alphabet, with or without padding. -/
theorem outputBase64_encode (a : Alphabet) (padded : Bool) (b : List UInt8) :
    outputBase64 (encode a padded b) = b := by
  fun_induction encode a padded b with
  | case1 => rfl
  | case2 x =>
    have short := padding_length padded 2
    rw [outputBase64_last (by simp only [List.length_cons]; omega)]
    exact outputLast_one
  | case3 x y =>
    have short := padding_length padded 1
    rw [outputBase64_last (by simp only [List.length_cons]; omega)]
    exact outputLast_two
  | case4 x y z rest ih =>
    cases rest with
    | nil => exact outputLast_three
    | cons w rest => rw [← encode, outputBase64_more (List.cons_ne_nil _ _), ih]

end TiojJudge.Receiver
