import TiojJudge.Decimals
import TiojJudge.Judge.Boxes

/-!
# The names of the boxes

`paths.cpp`, with the names of the directories as it writes them. A path is the list
of the names on it.

* `padInt_injective`: padding keeps numbers apart, whatever their width;
* `boxName_injective`: boxes of different tasks have different names;
* `boxDir_apart`, `untouched`: a box is not in another one, and what is done in some
  boxes leaves the others as they are;
* `render_below`: what is below a box in `Boxes` is below its directory.
-/

namespace TiojJudge.Judge.Paths

open Numerals

abbrev Name := List Char

abbrev Dir := List Name

/-- `std::to_string`. -/
def toText (x : Int) : List Char :=
  if x < 0 then '-' :: Nat.toDigits 10 x.natAbs else Nat.toDigits 10 x.natAbs

def padInt (x : Int) (width : Nat) : Name :=
  let ret := toText x
  if ret.length < width then List.replicate (width - ret.length) '0' ++ ret else ret

/-- The enumeration of `ENUM_COMPILE_SUBTASK_`, in its order. -/
def subtaskCode : CompileSubtask → Int
  | .userprog => 0
  | .specjudge => 1
  | .summary => 2
  | .probprog => 3

section Dirs

-- `kBoxRoot`.
variable (root : Dir)

def submissionRunDir (id : Int) : Dir := root ++ [padInt id 6]

def compileBoxDir (id : Int) (subtask : CompileSubtask) : Dir :=
  submissionRunDir root id ++ ["compile".toList ++ toText (subtaskCode subtask)]

def executeBoxDir (id td stage : Int) : Dir :=
  submissionRunDir root id ++ ["execute".toList ++ padInt td 3 ++ '_' :: padInt stage 2]

def scoringBoxDir (id td stage : Int) : Dir :=
  submissionRunDir root id ++ ["scoring".toList ++ padInt td 3 ++ '_' :: padInt stage 2]

def summaryBoxDir (id : Int) : Dir := submissionRunDir root id ++ ["summary".toList]

def boxDir (id : Int) : Box → Dir
  | .compile subtask => compileBoxDir root id subtask
  | .execute td stage => executeBoxDir root id td stage
  | .scoring td stage => scoringBoxDir root id td stage
  | .summary => summaryBoxDir root id

end Dirs

/-! ## Numbers -/

section Numbers

variable {x y : Int} {width : Nat} {c : Char}

theorem toText_ofNat (n : Nat) : toText n = Nat.toDigits 10 n := by
  have nonneg : ¬ (n : Int) < 0 := by omega
  simp [toText, nonneg]

theorem padInt_eq (x : Int) (width : Nat) :
    ∃ zeros, padInt x width = List.replicate zeros '0' ++ toText x := by
  unfold padInt
  dsimp only
  split
  · exact ⟨_, rfl⟩
  · exact ⟨0, rfl⟩

theorem padInt_digit (n : Nat) (h : c ∈ padInt n width) : c.isDigit = true := by
  obtain ⟨zeros, padded⟩ := padInt_eq n width
  rw [padded, toText_ofNat, List.mem_append] at h
  cases h with
  | inl zero => rw [List.eq_of_mem_replicate zero]; rfl
  | inr digit => exact Nat.isDigit_of_mem_toDigits (by decide) (by decide) digit

theorem padInt_value (n : Nat) (width : Nat) : digitsValue 10 (padInt n width) = n := by
  obtain ⟨zeros, padded⟩ := padInt_eq n width
  rw [padded, toText_ofNat, digitsValue_append, digitsValue_zeros, digitsValue_toDigits]
  omega

theorem padInt_injective (nonneg : 0 ≤ x) (nonneg' : 0 ≤ y)
    (same : padInt x width = padInt y width) : x = y := by
  obtain ⟨m, rfl⟩ := Int.eq_ofNat_of_zero_le nonneg
  obtain ⟨n, rfl⟩ := Int.eq_ofNat_of_zero_le nonneg'
  have values := congrArg (digitsValue 10) same
  rw [padInt_value, padInt_value] at values
  rw [values]

theorem toText_subtask (subtask : CompileSubtask) :
    ∃ d : Char, d.isDigit = true ∧ toText (subtaskCode subtask) = [d] := by
  cases subtask
  · exact ⟨'0', rfl, rfl⟩
  · exact ⟨'1', rfl, rfl⟩
  · exact ⟨'2', rfl, rfl⟩
  · exact ⟨'3', rfl, rfl⟩

theorem subtask_injective {a b : CompileSubtask}
    (same : toText (subtaskCode a) = toText (subtaskCode b)) : a = b := by
  revert same
  cases a <;> cases b <;> decide

/-- The separator is no digit, so that two numbers stay two numbers. -/
theorem padInt_pair_injective {td td' stage stage' : Nat}
    (same : padInt td 3 ++ '_' :: padInt stage 2 = padInt td' 3 ++ '_' :: padInt stage' 2) :
    td = td' ∧ stage = stage' := by
  have separator (n : Nat) (width : Nat) : '_' ∉ padInt n width := fun h => by
    have digit := padInt_digit n h
    cases digit
  obtain ⟨tds, -, stages⟩ :=
    (List.append_cons_inj_of_notMem (separator td 3) (separator stage 2)).mp same
  exact ⟨by simpa using padInt_injective (by simp) (by simp) tds,
    by simpa using padInt_injective (by simp) (by simp) stages⟩

end Numbers

/-! ## Names -/

/-- All kinds have names of seven letters. -/
def kind : Box → Name
  | .compile _ => "compile".toList
  | .execute .. => "execute".toList
  | .scoring .. => "scoring".toList
  | .summary => "summary".toList

def index : Box → Name
  | .compile subtask => toText (subtaskCode subtask)
  | .execute td stage | .scoring td stage => padInt td 3 ++ '_' :: padInt stage 2
  | .summary => []

def boxName (b : Box) : Name := kind b ++ index b

/-- A name that is one component of a path, of a directory other than the one it is in. -/
def FileName (name : Name) : Prop := name ≠ [] ∧ '/' ∉ name ∧ name ≠ ['.'] ∧ name ≠ ['.', '.']

section Boxes

variable {root : Dir} {id id' : Int} {b b' : Box} {q : Dir}

theorem boxDir_eq (root : Dir) (id : Int) (b : Box) :
    boxDir root id b = root ++ [padInt id 6, boxName b] := by
  have named : boxDir root id b = submissionRunDir root id ++ [boxName b] := by
    cases b with
    | compile => rfl
    | execute => rw [boxDir, executeBoxDir, List.append_assoc]; rfl
    | scoring => rw [boxDir, scoringBoxDir, List.append_assoc]; rfl
    | summary => rfl
  rw [named, submissionRunDir, List.append_assoc]
  rfl

theorem kind_length (b : Box) : (kind b).length = 7 := by cases b <;> rfl

theorem kind_chars {c : Char} (h : c ∈ kind b) : c ≠ '/' ∧ c ≠ '.' := by
  have letters : (kind b).all fun c => c != '/' && c != '.' := by cases b <;> rfl
  simpa using List.all_eq_true.mp letters c h

/-- Kinds differ in their second letters. -/
def letter : Box → Char
  | .compile _ => 'o'
  | .execute .. => 'x'
  | .scoring .. => 'c'
  | .summary => 'u'

theorem kind_letter (b : Box) : (kind b)[1]? = some (letter b) := by cases b <;> rfl

theorem boxName_injective : Function.Injective boxName := by
  intro b b' same
  obtain ⟨kinds, indices⟩ := List.append_inj same ((kind_length b).trans (kind_length b').symm)
  have letters : some (letter b) = some (letter b') := by
    rw [← kind_letter, ← kind_letter, kinds]
  cases b <;> cases b'
  case compile.compile => rw [subtask_injective indices]
  case execute.execute =>
    obtain ⟨rfl, rfl⟩ := padInt_pair_injective indices
    rfl
  case scoring.scoring =>
    obtain ⟨rfl, rfl⟩ := padInt_pair_injective indices
    rfl
  case summary.summary => rfl
  all_goals simp [letter] at letters

theorem fileName_of {name : Name} (chars : ∀ c ∈ name, c ≠ '/' ∧ c ≠ '.') (nonempty : name ≠ []) :
    FileName name :=
  ⟨nonempty, fun slash => (chars _ slash).1 rfl, fun dot => (chars '.' (by simp [dot])).2 rfl,
    fun dots => (chars '.' (by simp [dots])).2 rfl⟩

theorem padInt_chars {c : Char} {n width : Nat} (h : c ∈ padInt n width) : c ≠ '/' ∧ c ≠ '.' :=
  ⟨digit_ne (padInt_digit n h) rfl, digit_ne (padInt_digit n h) rfl⟩

theorem index_chars {c : Char} (h : c ∈ index b) : c ≠ '/' ∧ c ≠ '.' := by
  have pair {td stage : Nat} (h : c ∈ padInt td 3 ++ '_' :: padInt stage 2) :
      c ≠ '/' ∧ c ≠ '.' := by
    rcases List.mem_append.mp h with td | h
    · exact padInt_chars td
    · cases h with
      | head => decide
      | tail _ stage => exact padInt_chars stage
  cases b with
  | compile subtask =>
    obtain ⟨d, digit, text⟩ := toText_subtask subtask
    rw [index, text, List.mem_singleton] at h
    rw [h]
    exact ⟨digit_ne digit rfl, digit_ne digit rfl⟩
  | execute => exact pair h
  | scoring => exact pair h
  | summary => cases h

/-- The names have no slash in them, so that a box is two directories below the root. -/
theorem boxName_fileName (b : Box) : FileName (boxName b) := by
  refine fileName_of ?_ ?_
  · intro c h
    exact (List.mem_append.mp h).elim kind_chars index_chars
  · intro empty
    have length := kind_length b
    rw [(List.append_eq_nil_iff.mp empty).1] at length
    cases length

/-- What is below a box is below no other. -/
theorem below_unique (nonneg : 0 ≤ id) (nonneg' : 0 ≤ id') (below : boxDir root id b <+: q)
    (below' : boxDir root id' b' <+: q) : id = id' ∧ b = b' := by
  have same : boxDir root id b = boxDir root id' b' := by
    apply (List.prefix_of_prefix_length_le below below' _).eq_of_length
    all_goals simp [boxDir_eq]
  simp only [boxDir_eq, List.append_cancel_left_eq, List.cons.injEq, and_true] at same
  exact ⟨padInt_injective nonneg nonneg' same.1, boxName_injective same.2⟩

theorem boxDir_apart (nonneg : 0 ≤ id) (nonneg' : 0 ≤ id') :
    boxDir root id b <+: boxDir root id' b' ↔ id = id' ∧ b = b' := by
  constructor
  · intro below
    exact below_unique nonneg nonneg' below List.prefix_rfl
  · rintro ⟨rfl, rfl⟩
    exact List.prefix_rfl

theorem boxDir_injective (nonneg : 0 ≤ id) (nonneg' : 0 ≤ id') :
    boxDir root id b = boxDir root id' b' ↔ id = id' ∧ b = b' := by
  constructor
  · intro same
    exact (boxDir_apart nonneg nonneg').mp (by rw [same])
  · rintro ⟨rfl, rfl⟩
    rfl

/-! ## Calls -/

/-- A call of `RemoveAll`, or of `Move` with a file or with a directory. -/
inductive Call where
  | removeAll (path : Dir)
  | move (source dest : Dir)
  | moveAll (source dest : Dir)

def Call.paths : Call → List Dir
  | .removeAll path => [path]
  | .move source dest | .moveAll source dest => [source, dest]

def Call.run (files : FileTree Name File) : Call → FileTree Name File
  | .removeAll path => files.removeAll path
  | .move source dest => files.move source dest
  | .moveAll source dest => files.moveAll source dest

/-- The path is in a box, and not in the box `b` of the submission `id`. -/
def Elsewhere (root : Dir) (id : Int) (b : Box) (path : Dir) : Prop :=
  ∃ id' b', 0 ≤ id' ∧ (id', b') ≠ (id, b) ∧ boxDir root id' b' <+: path

theorem Elsewhere.not_below {path : Dir} (elsewhere : Elsewhere root id b path) (nonneg : 0 ≤ id)
    (below : boxDir root id b <+: q) : ∃ base, base <+: path ∧ ¬ base <+: q := by
  obtain ⟨id', b', nonneg', other, inside⟩ := elsewhere
  refine ⟨_, inside, fun h => other ?_⟩
  obtain ⟨rfl, rfl⟩ := below_unique nonneg' nonneg h below
  rfl

open FileTree in
theorem Call.run_elsewhere {files : FileTree Name File} {call : Call} (nonneg : 0 ≤ id)
    (elsewhere : ∀ path ∈ call.paths, Elsewhere root id b path) (below : boxDir root id b <+: q) :
    call.run files q = files q := by
  cases call with
  | removeAll path =>
    obtain ⟨base, inside, outside⟩ := (elsewhere path (by simp [paths])).not_below nonneg below
    exact removeAll_outside inside outside
  | move source dest =>
    obtain ⟨base, from_, outside⟩ := (elsewhere source (by simp [paths])).not_below nonneg below
    obtain ⟨base', into, outside'⟩ := (elsewhere dest (by simp [paths])).not_below nonneg below
    exact move_outside from_ into outside outside'
  | moveAll source dest =>
    obtain ⟨base, from_, outside⟩ := (elsewhere source (by simp [paths])).not_below nonneg below
    obtain ⟨base', into, outside'⟩ := (elsewhere dest (by simp [paths])).not_below nonneg below
    exact moveAll_outside from_ into outside outside'

/-- The directory of a submission holds none of the boxes of another one. -/
theorem submissionRunDir_outside {files : FileTree Name File} (nonneg : 0 ≤ id) (nonneg' : 0 ≤ id')
    (other : id ≠ id') (below : boxDir root id' b <+: q) :
    files.removeAll (submissionRunDir root id) q = files q := by
  refine FileTree.removeAll_other fun above => other ?_
  have same : submissionRunDir root id = submissionRunDir root id' := by
    have inside : submissionRunDir root id' <+: q := by
      refine (List.prefix_append _ [boxName b]).trans ?_
      simpa [submissionRunDir, boxDir_eq] using below
    apply (List.prefix_of_prefix_length_le above inside _).eq_of_length
    all_goals simp [submissionRunDir]
  apply padInt_injective nonneg nonneg'
  simpa [submissionRunDir] using same

/-- Boxes of different tasks are different directories, of which none is in another, and
calls in some leave what is in the others. -/
theorem boxes_apart (root : Dir) {id : Int} (nonneg : 0 ≤ id) (b : Box) :
    (∀ id' b', 0 ≤ id' →
      (boxDir root id b = boxDir root id' b' ↔ id = id' ∧ b = b') ∧
      (boxDir root id b <+: boxDir root id' b' ↔ id = id' ∧ b = b')) ∧
    ∀ (files : FileTree Name File) (call : Call),
      (∀ path ∈ call.paths, Elsewhere root id b path) →
      ∀ q, boxDir root id b <+: q → call.run files q = files q := by
  constructor
  · intro id' b' nonneg'
    exact ⟨boxDir_injective nonneg nonneg', boxDir_apart nonneg nonneg'⟩
  · intro files call elsewhere q below
    exact Call.run_elsewhere nonneg elsewhere below

theorem boxes_apart_beyond_padding :
    (Call.removeAll (scoringBoxDir [] 1234567 1000 100)).run (fun _ => some .irregular)
      (executeBoxDir [] 1234567 1000 100) = some .irregular := by
  apply (boxes_apart [] (by decide : (0 : Int) ≤ 1234567) (.execute 1000 100)).2
  · intro path mem
    obtain rfl := List.mem_singleton.mp mem
    exact ⟨1234567, .scoring 1000 100, by decide, by decide, List.prefix_rfl⟩
  · exact List.prefix_rfl

/-! ## The paths of `Boxes` -/

def text : Part → Name
  | .run id => padInt id 6
  | .box b => boxName b
  | .name name => name.toList

def render (root : Dir) (path : Path) : Dir := root ++ path.map text

theorem render_boxPath (root : Dir) (id : Int) (b : Box) :
    render root (boxPath id b) = boxDir root id b := by
  rw [boxDir_eq]
  rfl

theorem render_below (nonneg : 0 ≤ id) (nonneg' : 0 ≤ id') (rest : Path) :
    boxDir root id b <+: render root (boxPath id' b' ++ rest) ↔
      boxPath id b <+: boxPath id' b' ++ rest := by
  have below : boxDir root id' b' <+: render root (boxPath id' b' ++ rest) := by
    rw [← render_boxPath, render, render, List.map_append, ← List.append_assoc]
    exact List.prefix_append _ _
  constructor
  · intro h
    obtain ⟨rfl, rfl⟩ := below_unique nonneg nonneg' h below
    exact List.prefix_append _ _
  · intro h
    obtain ⟨rfl, rfl⟩ : id = id' ∧ b = b' := by simpa [boxPath] using h
    exact below

end Boxes

end TiojJudge.Judge.Paths
