import Mathlib.Data.List.DropRight
import TiojJudge.Double
import TiojJudge.LongDouble

/-!
# The default checker

The three comparisons of a user's output with the answer, and the choice
between them. A comparison that rejects gives the message for `verbose`.
-/

namespace TiojJudge.DefaultScoring

/-- `message` -/
abbrev Text := List Char

abbrev Comparison := Except Text Unit

/-- What is still to be read, and `eof()`. No stream here fails without being at its end. -/
structure Ifstream where
  rest : List Char
  eof : Bool
  deriving DecidableEq

def Ifstream.ofFile (content : List Char) : Ifstream := ⟨content, false⟩

/-- `getline` on a stream that is not at its end. -/
def Ifstream.getline (f : Ifstream) : List Char × Ifstream :=
  let s := f.rest.takeWhile (· ≠ '\n')
  match f.rest.dropWhile (· ≠ '\n') with
  | [] => (s, ⟨[], true⟩)
  | _ :: rest => (s, ⟨rest, false⟩)

/-- `read` and `gcount`, on a stream that is not at its end. -/
def Ifstream.read (f : Ifstream) (size : Nat) : List Char × Ifstream :=
  if f.rest.length < size then (f.rest, ⟨[], true⟩) else (f.rest.take size, ⟨f.rest.drop size, false⟩)

/-- What `getline` and `read` lower. -/
def Ifstream.left (f : Ifstream) : Nat := if f.eof then 0 else f.rest.length + 1

theorem getline_left {f : Ifstream} (h : f.eof = false) : f.getline.2.left < f.left := by
  rw [Ifstream.left, Ifstream.left, h, Ifstream.getline]
  split
  · simp
  · rename_i c rest found
    have shorter := (List.dropWhile_sublist (· ≠ '\n') (l := f.rest)).length_le
    rw [found, List.length_cons] at shorter
    simp only [Bool.false_eq_true, if_false]
    omega

theorem read_left {f : Ifstream} {size : Nat} (h : f.eof = false) (pos : 0 < size) :
    (f.read size).2.left < f.left := by
  rw [Ifstream.left, Ifstream.left, h, Ifstream.read]
  split
  · simp
  · simp only [Bool.false_eq_true, if_false, List.length_drop]
    omega

/-! ## Messages -/

def number (n : Nat) : Text := (toString n).toList

def eofMessage (ansEof : Bool) (line userLines : Nat) : Text :=
  if ansEof then "Unexpected line ".toList ++ number line
  else "Unexpected EOF after line ".toList ++ number userLines

def commonLength : List Char → List Char → Nat
  | a :: ans, u :: usr => if a = u then commonLength ans usr + 1 else 0
  | _, _ => 0

/-- The part of a line around the place that differs. -/
def excerpt (pos : Nat) (s : List Char) : Text :=
  if pos ≤ 40 ∨ s.length ≤ 80 then s
  else "...".toList ++ (s.drop (pos - 40)).take 80 ++
    (if s.length > pos + 40 then "...".toList else [])

def differMessage (ans usr : List Char) : Text :=
  let pos := commonLength ans usr
  "Expected: ".toList ++ excerpt pos ans ++ "\nGot: ".toList ++ excerpt pos usr

/-! ## Lines -/

/-- `kWhites` of `LineCompare` -/
def lineWhites (c : Char) : Bool := c = ' ' || c = '\n' || c = '\r' || c = '\t'

/-- `kWhites` of `WordCompare` -/
def wordWhites (c : Char) : Bool := lineWhites c || c = '\x0b' || c = '\x0c'

/-- `s.erase(s.find_last_not_of(kWhites) + 1)` -/
def stripTail (s : List Char) : List Char := s.rdropWhile lineWhites

/-- The lines behind the end of the other file; `count` is what the loop adds to `line`. -/
def tailLines (whites : Char → Bool) (count : Nat) (ans usr : Ifstream) (line userLines : Nat) :
    Comparison :=
  if _ha : ans.eof = false then
    if ans.getline.1.all whites then
      tailLines whites count ans.getline.2 usr (line + count) userLines
    else .error (eofMessage ans.getline.2.eof line userLines)
  else if _hu : usr.eof = false then
    if usr.getline.1.all whites then
      tailLines whites count ans usr.getline.2 (line + count) userLines
    else .error (eofMessage ans.eof line userLines)
  else .ok ()
termination_by ans.left + usr.left
decreasing_by
  · exact Nat.add_lt_add_right (getline_left _ha) _
  · exact Nat.add_lt_add_left (getline_left _hu) _

def lineCompare (strip ignoreTail : Bool) (ans usr : Ifstream) (line : Nat) : Comparison :=
  if same : ans.eof = usr.eof then
    if _h : ans.eof = true then .ok ()
    else
      let s := if strip then stripTail ans.getline.1 else ans.getline.1
      let t := if strip then stripTail usr.getline.1 else usr.getline.1
      if s = t then lineCompare strip ignoreTail ans.getline.2 usr.getline.2 (line + 1)
      else .error ("Line ".toList ++ number line ++ " differ.\n".toList ++ differMessage s t)
  else if ignoreTail then tailLines lineWhites 1 ans usr line (line - 1)
  else .error (eofMessage ans.eof line (line - 1))
termination_by ans.left + usr.left
decreasing_by
  have ha : ans.eof = false := Bool.eq_false_iff.mpr _h
  exact Nat.add_lt_add (getline_left ha) (getline_left (same ▸ ha))

/-! ## Bytes -/

def hexByte (c : Char) : Text :=
  let digit (n : Nat) : Char := Nat.digitChar n
  [digit (c.toNat / 16 % 16), digit (c.toNat % 16)]

def strictCompare (size : { n : Nat // 0 < n }) (ans usr : Ifstream) (pos : Nat) : Comparison :=
  if _h : ans.eof = true then .ok ()
  else
    let (buf1, ans') := ans.read size
    let (buf2, usr') := usr.read size
    if ans'.eof ≠ usr'.eof ∨ buf1.length ≠ buf2.length then
      .error ("Length differ: expected ".toList ++ number (pos + buf1.length) ++
        " bytes, got ".toList ++ number (pos + buf2.length) ++ " bytes".toList)
    else if buf1 ≠ buf2 then
      let offset := commonLength buf1 buf2
      .error ("Byte ".toList ++ number (pos + offset) ++ " differ: expected 0x".toList ++
        (buf1[offset]?.elim [] hexByte) ++ ", got 0x".toList ++ (buf2[offset]?.elim [] hexByte))
    else strictCompare size (ans.read size).2 (usr.read size).2 (pos + buf2.length)
termination_by ans.left
decreasing_by exact read_left (Bool.eq_false_iff.mpr _h) size.property

def kBufSize : { n : Nat // 0 < n } := ⟨65536, by decide⟩

/-! ## Words -/

/-- The words of two lines from `word` on. -/
def lineWords (func : List Char → List Char → Bool) (line word : Nat) (s t : List Char) : Comparison :=
  match _h : s.dropWhile wordWhites, t.dropWhile wordWhites with
  | [], [] => .ok ()
  | [], _ :: _ =>
    .error ("Unexpected word: line ".toList ++ number line ++ ", word ".toList ++ number word)
  | _ :: _, [] =>
    .error ("Unexpected EOL after line ".toList ++ number line ++ ", word ".toList ++
      number (word - 1))
  | a :: s', u :: t' =>
    let ans := a :: s'.takeWhile (!wordWhites ·)
    let usr := u :: t'.takeWhile (!wordWhites ·)
    if func ans usr then
      lineWords func line (word + 1) (s'.dropWhile (!wordWhites ·)) (t'.dropWhile (!wordWhites ·))
    else
      .error ("Line ".toList ++ number line ++ ", word ".toList ++ number word ++
        " differ.\n".toList ++ differMessage ans usr)
termination_by s.length
decreasing_by
  have first := (List.dropWhile_sublist wordWhites (l := s)).length_le
  have rest := (List.dropWhile_sublist (!wordWhites ·) (l := s')).length_le
  rw [_h, List.length_cons] at first
  omega

def wordCompare (func : List Char → List Char → Bool) (ans usr : Ifstream) (line : Nat) : Comparison :=
  if same : ans.eof = usr.eof then
    if _h : ans.eof = true then .ok ()
    else
      match lineWords func line 1 ans.getline.1 usr.getline.1 with
      | .error message => .error message
      | .ok _ => wordCompare func ans.getline.2 usr.getline.2 (line + 1)
  else tailLines wordWhites 0 ans usr line (line - 1)
termination_by ans.left + usr.left
decreasing_by
  have ha : ans.eof = false := Bool.eq_false_iff.mpr _h
  exact Nat.add_lt_add (getline_left ha) (getline_left (same ▸ ha))

/-! ## The modes -/

inductive Mode where
  | strict
  | line
  | whiteDiff
  | floatDiff
  | other
  deriving DecidableEq, Repr

inductive Subtype where
  | absolute
  | relative
  | absoluteRelative
  | other
  deriving DecidableEq, Repr

def Mode.ofString (type : String) : Mode :=
  if type = "strict" then .strict
  else if type = "line" then .line
  else if type = "white-diff" then .whiteDiff
  else if type = "float-diff" then .floatDiff
  else .other

def Subtype.ofString (subtype : String) : Subtype :=
  if subtype = "absolute" then .absolute
  else if subtype = "relative" then .relative
  else if subtype = "absolute-relative" then .absoluteRelative
  else .other

open LongDouble

/-- What the difference is compared with. -/
def tolerance (subtype : Subtype) (threshold ans : LongDouble) : LongDouble :=
  match subtype with
  | .absolute => threshold
  | .relative => threshold.mul ans.fabs
  | .absoluteRelative | .other => threshold.mul (max (.fin 1) ans.fabs)

/-- `func`, the numbers of two words. -/
def close (subtype : Subtype) (threshold ans usr : LongDouble) : Bool :=
  le (fabs (sub ans usr)) (tolerance subtype threshold ans)

/-- `ans.find_first_of(".eExXnN") != std::string::npos`; integers are not floating point. -/
def marked (ans : List Char) : Bool := ans.any fun c => ".eExXnN".toList.contains c

/-- `check` -/
def check (subtype : Subtype) (threshold : LongDouble) (ans usr : List Char) : Bool :=
  match Numerals.stold ans, Numerals.stold usr with
  | some fans, some fusr => if marked ans then close subtype threshold fans fusr else ans == usr
  | _, _ => ans == usr

/-- A `long double` as a `double`: the smallest numbers are multiples of `2 ^ -1074`, and from
`2 ^ 1024` on there are none. -/
def narrow : LongDouble → LongDouble
  | .fin x =>
    let unit := Max.max (Double.unit |x|) (1 / 2 ^ 1074)
    let y := Double.roundEven (|x| / unit) * unit
    if 2 ^ 1024 ≤ y then .inf (decide (x < 0)) else .fin (Numerals.signed (decide (x < 0)) y)
  | .inf negative => .inf negative
  | .nan => .nan

structure Settings where
  verbose : Bool := false
  type : Mode := .line
  subtype : Subtype := .absoluteRelative
  threshold : LongDouble := narrow (.fin (1 / 1000000))
  deriving DecidableEq

/-- The arguments from the second on. -/
def parseArgs (s : Settings) : List String → Settings
  | [] => s
  | "verbose" :: args => parseArgs { s with verbose := true } args
  | ["float-diff"] => { s with type := .floatDiff }
  | ["float-diff", subtype] => { s with type := .floatDiff, subtype := .ofString subtype }
  | "float-diff" :: subtype :: value :: args =>
    let s := { s with type := .floatDiff, subtype := .ofString subtype }
    match Numerals.stold value.toList with
    | some threshold => parseArgs { s with threshold := narrow threshold } args
    | none => parseArgs s (value :: args)
  | str :: args => parseArgs { s with type := .ofString str } args

def compare (s : Settings) (ans usr : List Char) : Comparison :=
  let fAns := Ifstream.ofFile ans
  let fUsr := Ifstream.ofFile usr
  match s.type with
  | .strict => strictCompare kBufSize fAns fUsr 0
  | .line => lineCompare true true fAns fUsr 1
  | .whiteDiff => wordCompare (fun ans usr => ans == usr) fAns fUsr 1
  | .floatDiff =>
    if s.subtype = .other then .error []
    else wordCompare (check s.subtype s.threshold) fAns fUsr 1
  | .other => .error []

/-- Verdict AC, or WA with the message if it is asked for. The user's output may not be a
regular file. -/
def main (args : List String) (ans : List Char) (usr : Option (List Char)) : Bool × Option Text :=
  match usr with
  | none => (false, none)
  | some usr =>
    let s := parseArgs {} args
    match compare s ans usr with
    | .ok _ => (true, none)
    | .error message => (false, if s.verbose then some message else none)

end TiojJudge.DefaultScoring
