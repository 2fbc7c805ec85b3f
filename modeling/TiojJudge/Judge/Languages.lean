import TiojJudge.Judge.Types

/-!
# Languages

The compilers of `include/tioj/submission.h`, their names in frames and meta files, and
what a program in a language is called.
-/

namespace TiojJudge.Judge

/-- The enumeration of `ENUM_COMPILER_`, in its order. -/
inductive Compiler where
  | gccCpp98 | gccCpp11 | gccCpp14 | gccCpp17 | gccCpp20
  | gccC90 | gccC99 | gccC11 | gccC17
  | rustcRust2021
  | haskell
  | python2 | python3
  | custom
  deriving DecidableEq, Repr

/-- `kCompilerNameTable`. -/
def compilerName : Compiler → String
  | .gccCpp98 => "c++98"
  | .gccCpp11 => "c++11"
  | .gccCpp14 => "c++14"
  | .gccCpp17 => "c++17"
  | .gccCpp20 => "c++20"
  | .gccC90 => "c90"
  | .gccC99 => "c99"
  | .gccC11 => "c11"
  | .gccC17 => "c17"
  | .rustcRust2021 => "rust 2021"
  | .haskell => "haskell"
  | .python2 => "python2"
  | .python3 => "python3"
  | .custom => "custom"

def compilers : List Compiler :=
  [.gccCpp98, .gccCpp11, .gccCpp14, .gccCpp17, .gccCpp20, .gccC90, .gccC99, .gccC11, .gccC17,
    .rustcRust2021, .haskell, .python2, .python3, .custom]

def getCompiler (str : String) : Compiler :=
  (compilers.find? fun c => str == compilerName c).getD .gccCpp14

theorem getCompiler_compilerName (c : Compiler) : getCompiler (compilerName c) = c := by
  cases c <;> decide

def programExtension : Compiler → String
  | .gccCpp98 | .gccCpp11 | .gccCpp14 | .gccCpp17 | .gccCpp20 => ""
  | .gccC90 | .gccC99 | .gccC11 | .gccC17 => ""
  | .rustcRust2021 => ""
  | .haskell => ""
  | .python2 | .python3 => ".pyc"
  | .custom => ""

def compileResultName (subtask : CompileSubtask) (lang : Compiler) : String :=
  let extension := programExtension lang
  match subtask with
  | .userprog => "prog" ++ extension
  | .specjudge => "judge" ++ extension
  | .summary => "summary" ++ extension
  | .probprog => "prob_prog" ++ extension

theorem compileResultName_ne_message {subtask : CompileSubtask} {lang : Compiler} :
    compileResultName subtask lang ≠ "message" := by
  cases subtask <;> cases lang <;> decide

end TiojJudge.Judge
