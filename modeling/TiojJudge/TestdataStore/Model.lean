import TiojJudge.Containers
import TiojJudge.Machine

/-!
# The testdata store

What `DealOneSubmission` does to the database of testdata, the files of the
pool and the links of a problem. The calls to the file system are a list in the
order of the source; one that fails ends the function with `false` where its
error is checked. Removing what is there, or is not there, succeeds.
-/

namespace TiojJudge.TestdataStore

/-- A row of the table `testdata`, without its key `testdata_id`. -/
structure Testdata where
  problemId : Int
  order : Nat
  timestamp : Int
  inputCompressed : Bool
  outputCompressed : Bool
  deriving DecidableEq, Repr

/-- One element of `td`, as far as the store needs it. -/
structure TdItem where
  id : Int
  updatedAt : Int
  inputCompressed : Bool
  outputCompressed : Bool
  deriving DecidableEq, Repr

/-- An element without the optional keys. -/
def plain (id updatedAt : Int) : TdItem := ⟨id, updatedAt, false, false⟩

/-- The arguments of `TdPoolPath`. -/
structure PoolPath where
  id : Int
  isInput : Bool
  isTemp : Bool
  deriving DecidableEq, Repr

/-- The arguments of `TdInput` and `TdAnswer`. -/
structure LinkPath where
  problem : Int
  order : Nat
  isInput : Bool
  deriving DecidableEq, Repr

inductive Content where
  /-- The file as the server had it at this `updated_at`. -/
  | version (updatedAt : Int)
  /-- What a download that failed leaves. -/
  | broken
  deriving DecidableEq, Repr

structure Disk where
  rows : UMap Int Testdata
  files : UMap PoolPath Content
  links : UMap LinkPath PoolPath

def Disk.empty : Disk := ⟨∅, ∅, ∅⟩

/-! ## Calls -/

inductive Call where
  | createDirs (id : Int)
  | download (id : Int) (isInput : Bool) (updatedAt : Int)
  | rename (id : Int) (isInput : Bool)
  | removeFile (id : Int) (isInput : Bool)
  | removeLink (path : LinkPath)
  | createSymlink (path : LinkPath) (id : Int)
  | updateTd (td : List (Int × Testdata))
  deriving DecidableEq

/-- `return false` on an error; an exception of the database ends the call as well. -/
def Call.checked : Call → Bool
  | .removeFile .. | .removeLink .. => false
  | _ => true

/-- `replace_range`: a row with the key of another one takes its place. -/
def replaceRange (rows : UMap Int Testdata) (td : List (Int × Testdata)) : UMap Int Testdata :=
  td.foldl (fun rows entry => rows.insert entry.1 entry.2) rows

/-- `none` when the call fails on this store. -/
def Call.run (s : Disk) : Call → Option Disk
  | .createDirs _ => some s
  | .download id isInput updatedAt =>
    some { s with files := s.files.insert ⟨id, isInput, true⟩ (.version updatedAt) }
  | .rename id isInput =>
    (s.files.lookup ⟨id, isInput, true⟩).map fun content =>
      { s with files := (s.files.erase ⟨id, isInput, true⟩).insert ⟨id, isInput, false⟩ content }
  | .removeFile id isInput => some { s with files := s.files.erase ⟨id, isInput, false⟩ }
  | .removeLink path => some { s with links := s.links.erase path }
  | .createSymlink path id =>
    if path ∈ s.links then none
    else some { s with links := s.links.insert path ⟨id, path.isInput, false⟩ }
  | .updateTd td => some { s with rows := replaceRange s.rows td }

/-- What a call leaves that fails. -/
def Call.spoil (s : Disk) : Call → Disk
  | .download id isInput _ => { s with files := s.files.insert ⟨id, isInput, true⟩ .broken }
  | _ => s

/-- The calls from number `n` on, where `fails` says which of them fail; whether all went
well, the calls that succeeded, and the store after them. -/
def perform (fails : Nat → Bool) : Nat → List Call → Disk → Bool × List Call × Disk
  | _, [], s => (true, [], s)
  | n, c :: cs, s =>
    if c.checked && fails n then (false, [], c.spoil s)
    else
      match c.run s with
      | none => (false, [], s)
      | some t =>
        let (ok, done, u) := perform fails (n + 1) cs t
        (ok, c :: done, u)

/-! ## Comparison -/

/-- The row of `orig_td`, which has those of the problem. -/
def Disk.origTd (s : Disk) (problem id : Int) : Option Testdata :=
  (s.rows.lookup id).filter fun row => row.problemId == problem

/-- The ids in `orig_td`. -/
def Disk.origIds (s : Disk) (problem : Int) : List Int :=
  s.rows.keys.filter fun id => (s.origTd problem id).isSome

/-- `orig_td_count`. -/
def Disk.origTdCount (s : Disk) (problem : Int) : Nat :=
  (s.origIds problem).foldl
    (fun count id => max count ((s.origTd problem id).elim 0 fun row => row.order + 1)) 0

def toDownload (s : Disk) (problem : Int) (td : List TdItem) : List Int :=
  (td.filter fun item =>
    (s.origTd problem item.id).all fun row => row.timestamp != item.updatedAt).map TdItem.id

def toUpdatePosition (s : Disk) (problem : Int) (td : List TdItem) : List (Nat × Int) :=
  (td.zipIdx.filter fun (item, i) =>
    (s.origTd problem item.id).all fun row => row.order != i).map fun (item, i) => (i, item.id)

def TdItem.meta (item : TdItem) (problem : Int) (i : Nat) : Testdata :=
  ⟨problem, i, item.updatedAt, item.inputCompressed, item.outputCompressed⟩

/-- `new_meta.insert`, which keeps the first of two. -/
def insertMeta (problem : Int) (metas : UMap Int Testdata) (entry : TdItem × Nat) :
    UMap Int Testdata :=
  if entry.1.id ∈ metas then metas
  else metas.insert entry.1.id (entry.1.meta problem entry.2)

def newMeta (problem : Int) (td : List TdItem) : UMap Int Testdata :=
  td.zipIdx.foldl (insertMeta problem) ∅

def toDelete (s : Disk) (problem : Int) (td : List TdItem) : List Int :=
  (s.origIds problem).filter fun id => id ∉ newMeta problem td

/-! ## The calls of `DealOneSubmission` -/

/-- Download testdata. -/
def downloads (metas : UMap Int Testdata) (ids : List Int) : List Call :=
  ids.flatMap fun id =>
    let updatedAt := ((metas.lookup id).map Testdata.timestamp).getD 0
    [.createDirs id, .download id true updatedAt, .download id false updatedAt]

/-- Rename and replace only. -/
def renames (ids : List Int) : List Call :=
  ids.flatMap fun id => [.rename id true, .rename id false]

def deletes (ids : List Int) : List Call :=
  ids.flatMap fun id => [.removeFile id true, .removeFile id false]

/-- The links of the positions that changed. -/
def relinks (problem : Int) (positions : List (Nat × Int)) : List Call :=
  positions.flatMap fun (order, id) =>
    let targetIn : LinkPath := ⟨problem, order, true⟩
    let targetOut : LinkPath := ⟨problem, order, false⟩
    [.removeLink targetIn, .removeLink targetOut, .createSymlink targetIn id,
      .createSymlink targetOut id]

/-- Old symlinks. -/
def unlinks (problem : Int) (tdCount origTdCount : Nat) : List Call :=
  (List.range' tdCount (origTdCount - tdCount)).flatMap fun i =>
    [.removeLink ⟨problem, i, true⟩, .removeLink ⟨problem, i, false⟩]

/-- Everything after the downloads. -/
def updates (s : Disk) (problem : Int) (td : List TdItem) : List Call :=
  renames (toDownload s problem td) ++ deletes (toDelete s problem td) ++
    relinks problem (toUpdatePosition s problem td) ++
    unlinks problem td.length (s.origTdCount problem) ++
    [.updateTd ((newMeta problem td).entries.map fun entry => (entry.1, entry.2))]

def dealCalls (s : Disk) (problem : Int) (td : List TdItem) : List Call :=
  downloads (newMeta problem td) (toDownload s problem td) ++ updates s problem td

/-- `DealOneSubmission` on the store. -/
def dealOneSubmission (fails : Nat → Bool) (s : Disk) (problem : Int) (td : List TdItem) :
    Bool × List Call × Disk :=
  perform fails 0 (dealCalls s problem td) s

/-- Calls that succeed, one after another. -/
structure Deal where
  problem : Int
  td : List TdItem
  deriving DecidableEq

def store : Machine Disk Deal where
  init := .empty
  step s deal :=
    let (ok, _, t) := dealOneSubmission (fun _ => false) s deal.problem deal.td
    if ok then some t else none

end TiojJudge.TestdataStore
