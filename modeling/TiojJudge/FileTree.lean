import Mathlib.Data.List.Infix

/-!
# Files of a tree

What is found at a path. Directories are only in the paths of files: one is there
as long as a file is under it. An operation whose source is not there does nothing.

* `put`, `move`, `removeAll`, `moveAll`: the operations, each with what it leaves
  at a path;
* `put_outside`, `move_outside`, `removeAll_outside`, `moveAll_outside`: below other
  directories nothing changes.
-/

namespace TiojJudge

abbrev FileTree (α β : Type*) := List α → Option β

namespace FileTree

section Below

variable {α : Type*} {base path q : List α}

theorem not_below (below : base <+: path) (outside : ¬ base <+: q) : ¬ path <+: q :=
  fun h => outside (below.trans h)

theorem ne_of_below (below : base <+: path) (outside : ¬ base <+: q) : q ≠ path :=
  fun same => outside (same ▸ below)

end Below

variable {α β : Type*} [DecidableEq α] (t : FileTree α β)

/-- One file is written, or removed. -/
def put (path : List α) (file : Option β) : FileTree α β :=
  fun q => if q = path then file else t q

def move (source dest : List α) : FileTree α β :=
  if (t source).isSome then (t.put source none).put dest (t source) else t

def removeAll (dir : List α) : FileTree α β :=
  fun q => if dir <+: q then none else t q

/-- A directory is renamed, to one that is replaced. -/
def moveAll (dir dest : List α) : FileTree α β :=
  fun q =>
    if dest <+: q then t (dir ++ q.drop dest.length)
    else if dir <+: q then none
    else t q

variable {t} {path source dest dir q base base' : List α} {file : Option β}

@[simp] theorem put_self : t.put path file path = file := if_pos rfl

theorem put_other (other : q ≠ path) : t.put path file q = t q := if_neg other

theorem move_dest (found : (t source).isSome = true) : t.move source dest dest = t source := by
  simp [move, found]

theorem move_other (apart : q ≠ source) (other : q ≠ dest) : t.move source dest q = t q := by
  unfold move
  split
  · rw [put_other other, put_other apart]
  · rfl

theorem removeAll_other (apart : ¬ dir <+: q) : t.removeAll dir q = t q := if_neg apart

theorem moveAll_other (apart : ¬ dir <+: q) (other : ¬ dest <+: q) :
    t.moveAll dir dest q = t q := by
  simp [moveAll, apart, other]

/-! ## Outside a directory -/

theorem put_outside (below : base <+: path) (outside : ¬ base <+: q) : t.put path file q = t q :=
  put_other (ne_of_below below outside)

theorem move_outside (from_ : base <+: source) (into : base' <+: dest) (outside : ¬ base <+: q)
    (outside' : ¬ base' <+: q) : t.move source dest q = t q :=
  move_other (ne_of_below from_ outside) (ne_of_below into outside')

theorem removeAll_outside (below : base <+: dir) (outside : ¬ base <+: q) :
    t.removeAll dir q = t q :=
  removeAll_other (not_below below outside)

theorem moveAll_outside (from_ : base <+: dir) (into : base' <+: dest) (outside : ¬ base <+: q)
    (outside' : ¬ base' <+: q) : t.moveAll dir dest q = t q :=
  moveAll_other (not_below from_ outside) (not_below into outside')

end FileTree

end TiojJudge
