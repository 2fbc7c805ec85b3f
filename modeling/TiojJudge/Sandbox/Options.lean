import TiojJudge.Reader

/-!
# The options of a sandbox

`SandboxOptions` goes to the process in the sandbox as a buffer of bytes. An
`Int` of the buffer is a `long` of eight bytes, the lowest first; no string or
vector is larger than `maxSize`.

* `serialize`, `deserialize`: the two hand-written sequences;
* `reads_deserialize`: the reader takes the options from their pieces;
* `deserialize_serialize`: the round trip.
-/

namespace TiojJudge.Sandbox

open Reader

/-- `max_size` of a vector of bytes. -/
def maxSize : Nat := 2 ^ 63 - 1

/-- A vector, or a string of any bytes. -/
def Vec (α : Type) := { elements : List α // elements.length ≤ maxSize }

abbrev Str := Vec UInt8

instance {α : Type} [DecidableEq α] : DecidableEq (Vec α) :=
  inferInstanceAs (DecidableEq { _elements : List α // _ })

def kUidBase : Int32 := 50000
def kUidPoolSize : Int32 := 100

structure SandboxOptions where
  boxdir : Str
  command : Vec Str
  preserveEnv : Bool
  envs : Vec Str
  workdir : Str
  input : Str
  output : Str
  error : Str
  fdInput : Int32
  fdOutput : Int32
  fdError : Int32
  cpuSet : Vec Int32
  uid : Int32
  gid : Int32
  wallTime : Int64
  cpuTime : Int64
  rss : Int64
  vss : Int64
  procNum : Int32
  fileNum : Int32
  fsize : Int64
  dirs : Vec Str
  deriving DecidableEq

/-! ## Serialize -/

/-- Bytes at `cur` and on. -/
def writeAt (ret : List UInt8) (cur : Nat) (bytes : List UInt8) : List UInt8 :=
  ret.take cur ++ bytes ++ ret.drop (cur + bytes.length)

def intBytes (r : Int64) : List UInt8 := toBytes 8 r.toUInt64.toNat

def addLenWrite (len : Nat) (r : Int64) (ret : List UInt8) : List UInt8 :=
  writeAt (ret ++ List.replicate len 0) ret.length (intBytes r)

def pushInt (r : Int64) (ret : List UInt8) : List UInt8 := addLenWrite 8 r ret

def pushString (str : Str) (ret : List UInt8) : List UInt8 :=
  writeAt (addLenWrite (str.val.length + 8) (.ofNat str.val.length) ret) (ret.length + 8) str.val

/-- The size, then the elements. -/
def pushAll {α : Type} (push : α → List UInt8 → List UInt8) (xs : Vec α) (ret : List UInt8) :
    List UInt8 :=
  xs.val.foldl (fun ret i => push i ret) (pushInt (.ofNat xs.val.length) ret)

def SandboxOptions.inPool (o : SandboxOptions) : Bool :=
  !(o.uid < kUidBase || o.uid ≥ kUidBase + kUidPoolSize || o.gid < kUidBase ||
    o.gid ≥ kUidBase + kUidPoolSize)

def SandboxOptions.serialize (o : SandboxOptions) : List UInt8 :=
  if !o.inPool then []
  else
    [] |> pushString o.boxdir
      |> pushAll pushString o.command
      |> pushInt (if o.preserveEnv then 1 else 0)
      |> pushAll pushString o.envs
      |> pushString o.workdir
      |> pushString o.input
      |> pushString o.output
      |> pushString o.error
      |> pushInt o.fdInput.toInt64
      |> pushInt o.fdOutput.toInt64
      |> pushInt o.fdError.toInt64
      |> pushAll (fun i => pushInt i.toInt64) o.cpuSet
      |> pushInt o.uid.toInt64
      |> pushInt o.gid.toInt64
      |> pushInt o.wallTime
      |> pushInt o.cpuTime
      |> pushInt o.rss
      |> pushInt o.vss
      |> pushInt o.procNum.toInt64
      |> pushInt o.fileNum.toInt64
      |> pushInt o.fsize
      |> pushAll pushString o.dirs

/-! ## The constructor that reads -/

def readInt : Reader UInt8 Int64 := do
  let bytes ← take 8
  pure (UInt64.ofNat (ofBytes bytes)).toInt64

/-- `resize` and the constructor of a string throw on a size they cannot have. -/
def sized {α : Type} (xs : List α) : Reader UInt8 (Vec α) :=
  ofOption (if h : xs.length ≤ maxSize then some ⟨xs, h⟩ else none)

def readString : Reader UInt8 Str := do
  let size ← readInt
  let bytes ← take size.toUInt64.toNat
  sized bytes

def readAll {α : Type} (read : Reader UInt8 α) : Reader UInt8 (Vec α) := do
  let size ← readInt
  let xs ← many read size.toUInt64.toNat
  sized xs

def deserialize : Reader UInt8 SandboxOptions := do
  let boxdir ← readString
  let command ← readAll readString
  let preserveEnv ← readInt
  let envs ← readAll readString
  let workdir ← readString
  let input ← readString
  let output ← readString
  let error ← readString
  let fdInput ← readInt
  let fdOutput ← readInt
  let fdError ← readInt
  let cpuSet ← readAll (do pure (← readInt).toInt32)
  let uid ← readInt
  let gid ← readInt
  let wallTime ← readInt
  let cpuTime ← readInt
  let rss ← readInt
  let vss ← readInt
  let procNum ← readInt
  let fileNum ← readInt
  let fsize ← readInt
  let dirs ← readAll readString
  pure {
    boxdir, command, preserveEnv := preserveEnv != 0, envs, workdir, input, output, error
    fdInput := fdInput.toInt32, fdOutput := fdOutput.toInt32, fdError := fdError.toInt32
    cpuSet, uid := uid.toInt32, gid := gid.toInt32, wallTime, cpuTime, rss, vss
    procNum := procNum.toInt32, fileNum := fileNum.toInt32, fsize, dirs }

/-! ## What is written -/

variable {α : Type} {ret : List UInt8}

def stringBytes (str : Str) : List UInt8 := intBytes (.ofNat str.val.length) ++ str.val

def allBytes (bytes : α → List UInt8) (xs : Vec α) : List UInt8 :=
  intBytes (.ofNat xs.val.length) ++ xs.val.flatMap bytes

@[simp]
theorem length_intBytes (r : Int64) : (intBytes r).length = 8 := length_toBytes _ _

/-- Over the zeros that make room for them, and more. -/
theorem writeAt_zeros (ret bytes : List UInt8) (more : Nat) :
    writeAt (ret ++ List.replicate (bytes.length + more) 0) ret.length bytes =
      ret ++ bytes ++ List.replicate more 0 := by
  rw [writeAt, List.take_left, List.drop_append, Nat.add_sub_cancel_left, List.drop_replicate,
    Nat.add_sub_cancel_left, List.drop_eq_nil_of_le (Nat.le_add_right _ _), List.nil_append]

theorem pushInt_eq (r : Int64) : pushInt r ret = ret ++ intBytes r := by
  have written := writeAt_zeros ret (intBytes r) 0
  rw [length_intBytes, List.replicate_zero, List.append_nil] at written
  exact written

theorem pushString_eq (str : Str) : pushString str ret = ret ++ stringBytes str := by
  have size : addLenWrite (str.val.length + 8) (.ofNat str.val.length) ret =
      ret ++ intBytes (.ofNat str.val.length) ++ List.replicate str.val.length 0 := by
    rw [addLenWrite, Nat.add_comm]
    have written := writeAt_zeros ret (intBytes (.ofNat str.val.length)) str.val.length
    rwa [length_intBytes] at written
  have written := writeAt_zeros (ret ++ intBytes (.ofNat str.val.length)) str.val 0
  rw [List.length_append, length_intBytes, Nat.add_zero, List.replicate_zero,
    List.append_nil] at written
  rw [pushString, size, written, stringBytes, List.append_assoc]

theorem pushAll_eq {push : α → List UInt8 → List UInt8} {bytes : α → List UInt8}
    (pushes : ∀ a ret, push a ret = ret ++ bytes a) (xs : Vec α) :
    pushAll push xs ret = ret ++ allBytes bytes xs := by
  rw [pushAll, pushInt_eq, allBytes, ← List.append_assoc]
  generalize ret ++ intBytes (.ofNat xs.val.length) = ret
  induction xs.val generalizing ret with
  | nil => exact (List.append_nil _).symm
  | cons x xs ih => rw [List.foldl_cons, ih, pushes, List.flatMap_cons, List.append_assoc]

/-- What is written, in order. -/
def SandboxOptions.pieces (o : SandboxOptions) : List (List UInt8) :=
  [stringBytes o.boxdir, allBytes stringBytes o.command, intBytes (if o.preserveEnv then 1 else 0),
    allBytes stringBytes o.envs, stringBytes o.workdir, stringBytes o.input, stringBytes o.output,
    stringBytes o.error, intBytes o.fdInput.toInt64, intBytes o.fdOutput.toInt64,
    intBytes o.fdError.toInt64, allBytes (fun i => intBytes i.toInt64) o.cpuSet,
    intBytes o.uid.toInt64, intBytes o.gid.toInt64, intBytes o.wallTime, intBytes o.cpuTime,
    intBytes o.rss, intBytes o.vss, intBytes o.procNum.toInt64, intBytes o.fileNum.toInt64,
    intBytes o.fsize, allBytes stringBytes o.dirs]

theorem serialize_eq {o : SandboxOptions} (h : o.inPool = true) : o.serialize = o.pieces.flatten := by
  have strings (xs : Vec Str) (ret : List UInt8) :
      pushAll pushString xs ret = ret ++ allBytes stringBytes xs :=
    pushAll_eq (fun str ret => pushString_eq str) xs
  have ints (xs : Vec Int32) (ret : List UInt8) : pushAll (fun i => pushInt i.toInt64) xs ret =
      ret ++ allBytes (fun i => intBytes i.toInt64) xs :=
    pushAll_eq (fun i ret => pushInt_eq i.toInt64) xs
  simp only [SandboxOptions.serialize, h, Bool.not_true, Bool.false_eq_true, if_false, strings, ints,
    pushString_eq, pushInt_eq, SandboxOptions.pieces, List.flatten_cons, List.flatten_nil,
    List.append_assoc, List.append_nil, List.nil_append]

/-! ## What is read -/

theorem reads_int (r : Int64) : Reads readInt (intBytes r) r := by
  have eight : Reads (take 8) (intBytes r) (intBytes r) := by
    have reads : Reads (take (intBytes r).length) (intBytes r) (intBytes r) := Reads.take
    rwa [length_intBytes] at reads
  have value : (UInt64.ofNat (ofBytes (intBytes r))).toInt64 = r := by
    rw [intBytes, ofBytes_toBytes r.toUInt64.toNat_lt, UInt64.ofNat_toNat, Int64.toInt64_toUInt64]
  have both : Reads readInt (intBytes r ++ []) (UInt64.ofNat (ofBytes (intBytes r))).toInt64 :=
    Reads.bind eight Reads.pure
  rwa [List.append_nil, value] at both

/-- A size is read as it was. -/
theorem size_kept (xs : Vec α) : (Int64.ofNat xs.val.length).toUInt64.toNat = xs.val.length := by
  have bound : xs.val.length ≤ 2 ^ 63 - 1 := xs.property
  rw [Int64.toUInt64_ofNat', UInt64.toNat_ofNat']
  omega

theorem reads_sized (xs : Vec α) : Reads (sized xs.val) [] xs := by
  rw [sized, dif_pos xs.property]
  exact Reads.ofOption

theorem reads_string (str : Str) : Reads readString (stringBytes str) str := by
  have bytes : Reads (take (Int64.ofNat str.val.length).toUInt64.toNat) str.val str.val := by
    rw [size_kept]
    exact Reads.take
  have rest := Reads.bind bytes (reads_sized str)
  rw [List.append_nil] at rest
  exact Reads.bind (reads_int _) rest

theorem reads_all {read : Reader UInt8 α} {bytes : α → List UInt8}
    (reads : ∀ a, Reads read (bytes a) a) (xs : Vec α) : Reads (readAll read) (allBytes bytes xs) xs := by
  have each : Reads (many read (Int64.ofNat xs.val.length).toUInt64.toNat) (xs.val.flatMap bytes)
      xs.val := by
    rw [size_kept]
    exact Reads.many fun a _ => reads a
  have rest := Reads.bind each (reads_sized xs)
  rw [List.append_nil] at rest
  exact Reads.bind (reads_int _) rest

theorem reads_int32 (i : Int32) :
    Reads (do pure (← readInt).toInt32) (intBytes i.toInt64) i := by
  have both : Reads (do pure (← readInt).toInt32) (intBytes i.toInt64 ++ []) i.toInt64.toInt32 :=
    Reads.bind (reads_int i.toInt64) Reads.pure
  rwa [List.append_nil, Int32.toInt32_toInt64] at both

/-- The constructor takes the options from their pieces, one after another. -/
theorem reads_deserialize (o : SandboxOptions) : Reads deserialize o.pieces.flatten o := by
  have narrowed (i : Int32) : i.toInt64.toInt32 = i := Int32.toInt32_toInt64 i
  have flag : ((if o.preserveEnv then 1 else 0 : Int64) != 0) = o.preserveEnv := by
    cases o.preserveEnv <;> decide
  apply Reads.bind (reads_string o.boxdir)
  apply Reads.bind (reads_all reads_string o.command)
  apply Reads.bind (reads_int _)
  apply Reads.bind (reads_all reads_string o.envs)
  apply Reads.bind (reads_string o.workdir)
  apply Reads.bind (reads_string o.input)
  apply Reads.bind (reads_string o.output)
  apply Reads.bind (reads_string o.error)
  apply Reads.bind (reads_int _)
  apply Reads.bind (reads_int _)
  apply Reads.bind (reads_int _)
  apply Reads.bind (reads_all reads_int32 o.cpuSet)
  apply Reads.bind (reads_int _)
  apply Reads.bind (reads_int _)
  apply Reads.bind (reads_int _)
  apply Reads.bind (reads_int _)
  apply Reads.bind (reads_int _)
  apply Reads.bind (reads_int _)
  apply Reads.bind (reads_int _)
  apply Reads.bind (reads_int _)
  apply Reads.bind (reads_int _)
  apply Reads.bind (reads_all reads_string o.dirs)
  simp only [narrowed, flag]
  exact Reads.pure

/-- The constructor gets every field back and reads the buffer to its end. -/
theorem deserialize_serialize (o : SandboxOptions) (uid : kUidBase ≤ o.uid)
    (uid' : o.uid < kUidBase + kUidPoolSize) (gid : kUidBase ≤ o.gid)
    (gid' : o.gid < kUidBase + kUidPoolSize) :
    deserialize o.serialize 0 = some (o, o.serialize.length) := by
  have pool : o.inPool = true := by
    simp [SandboxOptions.inPool, Int32.not_lt.mpr uid, Int32.not_le.mpr uid', Int32.not_lt.mpr gid,
      Int32.not_le.mpr gid']
  rw [serialize_eq pool]
  exact (reads_deserialize o).whole

/-- No two options have one buffer. -/
theorem serialize_injective {o o' : SandboxOptions} (pool : o.inPool = true)
    (pool' : o'.inPool = true) (same : o.serialize = o'.serialize) : o = o' := by
  have read := (reads_deserialize o).whole
  have read' := (reads_deserialize o').whole
  rw [← serialize_eq pool, same, serialize_eq pool', read'] at read
  exact (Prod.mk.inj (Option.some.inj read)).1.symm

/-- Strings with a NUL, an empty one, negative numbers. -/
def sample : SandboxOptions where
  boxdir := ⟨[47, 98], by decide⟩
  command := ⟨[⟨[97, 0, 98], by decide⟩, ⟨[], by decide⟩], by decide⟩
  preserveEnv := true
  envs := ⟨[], by decide⟩
  workdir := ⟨[47], by decide⟩
  input := ⟨[], by decide⟩
  output := ⟨[255], by decide⟩
  error := ⟨[], by decide⟩
  fdInput := -1
  fdOutput := 3
  fdError := -1
  cpuSet := ⟨[0, 7], by decide⟩
  uid := 50000
  gid := 50099
  wallTime := -9223372036854775808
  cpuTime := 1000000
  rss := 65536
  vss := 0
  procNum := -5
  fileNum := 32
  fsize := 9223372036854775807
  dirs := ⟨[⟨[47, 0, 47, 0, 114, 119], by decide⟩], by decide⟩

theorem deserialize_serialize_sample :
    deserialize sample.serialize 0 = some (sample, sample.serialize.length) :=
  deserialize_serialize sample (by decide) (by decide) (by decide) (by decide)

end TiojJudge.Sandbox
