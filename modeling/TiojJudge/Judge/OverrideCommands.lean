import TiojJudge.Judge.Scheduler

/-!
# Sequences of override commands

What `ParseSpecjudgeOverrides` makes of a text that is all override commands, where a
score is allowed. A verdict `AC` gives the full score, but only as long as no score
was read.

* `Written`: the texts, each keyword with an argument that its extraction consumes;
* `overridden`: the last command of each kind counts;
* `parseSpecjudgeOverrides_written`: the parser does that, so commands of different
  kinds may change places.
-/

namespace TiojJudge.Judge
open Numerals

inductive CommandKind where
  | score
  | verdict
  | time
  | vss
  | rss
  deriving DecidableEq, Repr

def CommandKind.keyword : CommandKind → String
  | .score => "SPECJUDGE_OVERRIDE_SCORE"
  | .verdict => "SPECJUDGE_OVERRIDE_VERDICT"
  | .time => "SPECJUDGE_OVERRIDE_TIME_US"
  | .vss => "SPECJUDGE_OVERRIDE_VSS_KIB"
  | .rss => "SPECJUDGE_OVERRIDE_RSS_KIB"

/-- A command with what is read from its argument. -/
inductive OverrideCommand where
  | score (x : LongDouble)
  | verdict (abr : String)
  | time (n : Int)
  | vss (n : Int)
  | rss (n : Int)

namespace OverrideCommand

def kind : OverrideCommand → CommandKind
  | .score _ => .score
  | .verdict _ => .verdict
  | .time _ => .time
  | .vss _ => .vss
  | .rss _ => .rss

/-- The extraction for the command reads the whole argument. -/
def Reads (arg : List Char) : OverrideCommand → Prop
  | .score x => extractLongDouble arg = (x, some [])
  | .verdict abr => extractWord arg = some (abr, [])
  | .time n | .vss n | .rss n => extractInt longMin longMax arg = some (n, [])

@[simp] def score? : OverrideCommand → Option LongDouble
  | .score x => some x
  | _ => none

@[simp] def verdict? : OverrideCommand → Option Verdict
  | .verdict abr => some (abrToVerdict abr true)
  | _ => none

@[simp] def time? : OverrideCommand → Option Int
  | .time n => some n
  | _ => none

@[simp] def vss? : OverrideCommand → Option Int
  | .vss n => some n
  | _ => none

@[simp] def rss? : OverrideCommand → Option Int
  | .rss n => some n
  | _ => none

/-- What one command does to the result, after a score or not. -/
def apply (cfg : Config) (scoreOverriden : Bool) (td : TestdataResult) :
    OverrideCommand → TestdataResult
  | .score x => { td with score := normalizeScore cfg x }
  | .verdict abr => overrideVerdict true scoreOverriden abr td
  | .time n => { td with time := n }
  | .vss n => { td with vss := n }
  | .rss n => { td with rss := n }

end OverrideCommand

/-- A text of commands: white space, a keyword and its argument in turn. -/
inductive Written : List Char → List OverrideCommand → Prop where
  | blank {text} : skipSpace text = [] → Written text []
  | command {lead arg rest c cs} : skipSpace lead = [] → Ends arg → c.Reads arg → Ends rest →
      Written rest cs → Written (lead ++ (c.kind.keyword.toList ++ (arg ++ rest))) (c :: cs)

/-- The last of what `f` finds in the commands. -/
def lastOf {α : Type} (f : OverrideCommand → Option α) (cs : List OverrideCommand) : Option α :=
  (cs.filterMap f).getLast?

/-- The last command of each kind counts; without a score, a verdict `AC` gives the full one. -/
def overridden (cfg : Config) (scoreOverriden : Bool) (cs : List OverrideCommand)
    (td : TestdataResult) : TestdataResult :=
  { td with
    verdict := (lastOf OverrideCommand.verdict? cs).getD td.verdict
    score := ((lastOf OverrideCommand.score? cs).map (normalizeScore cfg)).getD
      (if scoreOverriden = false ∧ .ac ∈ cs.filterMap OverrideCommand.verdict? then fullScore
        else td.score)
    time := (lastOf OverrideCommand.time? cs).getD td.time
    vss := (lastOf OverrideCommand.vss? cs).getD td.vss
    rss := (lastOf OverrideCommand.rss? cs).getD td.rss }

variable {cfg : Config} {td : TestdataResult} {text arg rest : List Char} {c : OverrideCommand}
  {cs cs' : List OverrideCommand} {breakOnNonMatch scoreOverriden : Bool}

/-! ## One command -/

theorem ends_append (first : Ends arg) (second : Ends rest) : Ends (arg ++ rest) := by
  cases arg with
  | nil => exact second
  | cons c cs => exact first

theorem extractWord_blank (blank : skipSpace text = []) : extractWord text = none := by
  rw [extractWord, blank]

theorem keyword_solid (k : CommandKind) : ∀ c ∈ k.keyword.toList, isSpace c = false := by
  have all : k.keyword.toList.all (fun c => !isSpace c) = true := by cases k <;> rfl
  intro c mem
  simpa using List.all_eq_true.mp all c mem

theorem extractWord_keyword {lead : List Char} (k : CommandKind) (blank : skipSpace lead = [])
    (ends : Ends rest) :
    extractWord (lead ++ (k.keyword.toList ++ rest)) = some (k.keyword, rest) := by
  have more : k.keyword.toList ≠ [] := by cases k <;> simp [CommandKind.keyword]
  have word := extractWord_append (extractWord_self more (keyword_solid k)) ends
  rw [String.ofList_toList, List.nil_append] at word
  rw [← word]
  unfold extractWord
  rw [skipSpace_blank blank]

theorem parse_score {x : LongDouble} {rest' : List Char}
    (word : extractWord text = some ("SPECJUDGE_OVERRIDE_SCORE", rest))
    (number : extractLongDouble rest = (x, some rest')) :
    parseSpecjudgeOverrides cfg breakOnNonMatch true scoreOverriden text td =
      parseSpecjudgeOverrides cfg breakOnNonMatch true true rest'
        { td with score := normalizeScore cfg x } := by
  rw [parseSpecjudgeOverrides]
  split
  · rename_i none
    cases none.symm.trans word
  · rename_i found
    cases found.symm.trans word
    rw [if_pos (by decide)]
    split
    · rename_i read
      cases read.symm.trans number
      rfl
    · rename_i read
      cases read.symm.trans number

theorem parse_verdict {abr : String} {rest' : List Char}
    (word : extractWord text = some ("SPECJUDGE_OVERRIDE_VERDICT", rest))
    (argument : extractWord rest = some (abr, rest')) :
    parseSpecjudgeOverrides cfg breakOnNonMatch true scoreOverriden text td =
      parseSpecjudgeOverrides cfg breakOnNonMatch true scoreOverriden rest'
        (overrideVerdict true scoreOverriden abr td) := by
  rw [parseSpecjudgeOverrides]
  split
  · rename_i none
    cases none.symm.trans word
  · rename_i found
    cases found.symm.trans word
    rw [if_neg (by decide), if_pos (by decide)]
    split
    · rename_i read
      cases read.symm.trans argument
      rfl
    · rename_i read
      cases read.symm.trans argument

theorem parse_number {cmd : String} {store : Int → TestdataResult → TestdataResult} {n : Int}
    {rest' : List Char} (word : extractWord text = some (cmd, rest))
    (stores : overrideNumber cmd = some store)
    (number : extractInt longMin longMax rest = some (n, rest')) :
    parseSpecjudgeOverrides cfg breakOnNonMatch true scoreOverriden text td =
      parseSpecjudgeOverrides cfg breakOnNonMatch true scoreOverriden rest' (store n td) := by
  have noScore : ¬ (true && cmd == "SPECJUDGE_OVERRIDE_SCORE") = true := by
    intro same
    rw [Bool.true_and, beq_iff_eq] at same
    subst same
    cases stores
  have noVerdict : ¬ (cmd == "SPECJUDGE_OVERRIDE_VERDICT") = true := by
    intro same
    rw [beq_iff_eq] at same
    subst same
    cases stores
  rw [parseSpecjudgeOverrides]
  split
  · rename_i none
    cases none.symm.trans word
  · rename_i found
    cases found.symm.trans word
    rw [if_neg noScore, if_neg noVerdict]
    split
    · rename_i stores'
      cases stores'.symm.trans stores
      split
      · rename_i read
        cases read.symm.trans number
        rfl
      · rename_i read
        cases read.symm.trans number
    · rename_i none
      cases none.symm.trans stores

/-- The parser takes one command, and goes on behind its argument. -/
theorem parse_command {lead : List Char} (blank : skipSpace lead = []) (gap : Ends arg)
    (reads : c.Reads arg) (ends : Ends rest) :
    parseSpecjudgeOverrides cfg breakOnNonMatch true scoreOverriden
        (lead ++ (c.kind.keyword.toList ++ (arg ++ rest))) td =
      parseSpecjudgeOverrides cfg breakOnNonMatch true (scoreOverriden || c.kind = .score) rest
        (c.apply cfg scoreOverriden td) := by
  have word := extractWord_keyword c.kind blank (ends_append gap ends)
  cases c with
  | score x =>
    rw [parse_score word (extractLongDouble_append reads ends), List.nil_append]
    simp [OverrideCommand.kind, OverrideCommand.apply]
  | verdict abr =>
    rw [parse_verdict word (extractWord_append reads ends), List.nil_append]
    simp [OverrideCommand.kind, OverrideCommand.apply]
  | time n =>
    rw [parse_number word rfl (extractInt_append reads ends), List.nil_append]
    simp [OverrideCommand.kind, OverrideCommand.apply]
  | vss n =>
    rw [parse_number word rfl (extractInt_append reads ends), List.nil_append]
    simp [OverrideCommand.kind, OverrideCommand.apply]
  | rss n =>
    rw [parse_number word rfl (extractInt_append reads ends), List.nil_append]
    simp [OverrideCommand.kind, OverrideCommand.apply]

/-! ## A sequence -/

theorem lastOf_cons {α : Type} (f : OverrideCommand → Option α) :
    lastOf f (c :: cs) = (lastOf f cs).or (f c) := by
  unfold lastOf
  cases found : f c with
  | none => rw [List.filterMap_cons_none found, Option.or_none]
  | some x =>
    rw [List.filterMap_cons_some found, List.getLast?_cons]
    cases (cs.filterMap f).getLast? <;> rfl

/-- One command, then the rest, whose flag says whether it was a score. -/
theorem overridden_cons :
    overridden cfg scoreOverriden (c :: cs) td =
      overridden cfg (scoreOverriden || c.kind = .score) cs (c.apply cfg scoreOverriden td) := by
  have filtered : (c :: cs).filterMap OverrideCommand.verdict? =
      c.verdict?.toList ++ cs.filterMap OverrideCommand.verdict? := by
    cases c <;> rfl
  simp only [overridden, lastOf_cons, filtered]
  cases c with
  | score x =>
    cases lastOf OverrideCommand.score? cs <;> simp [OverrideCommand.kind, OverrideCommand.apply]
  | verdict abr =>
    -- the score of an `AC` is lost to a score only
    by_cases full : scoreOverriden = false ∧ abrToVerdict abr true = .ac
    · obtain ⟨rfl, ac⟩ := full
      cases lastOf OverrideCommand.verdict? cs <;>
        simp [OverrideCommand.kind, OverrideCommand.apply, overrideVerdict, ac]
    · have plain : overrideVerdict true scoreOverriden abr td =
          { td with verdict := abrToVerdict abr true } := by
        unfold overrideVerdict
        rw [if_neg]
        simpa using full
      have same : (scoreOverriden = false ∧
          .ac ∈ (abrToVerdict abr true) :: cs.filterMap OverrideCommand.verdict?) ↔
          scoreOverriden = false ∧ .ac ∈ cs.filterMap OverrideCommand.verdict? := by
        rw [List.mem_cons]
        exact ⟨fun h => ⟨h.1, h.2.resolve_left fun ac => full ⟨h.1, ac.symm⟩⟩,
          fun h => ⟨h.1, .inr h.2⟩⟩
      rw [OverrideCommand.apply, plain]
      cases lastOf OverrideCommand.verdict? cs <;>
        simp only [OverrideCommand.verdict?, Option.toList_some, List.singleton_append, same] <;>
        simp [OverrideCommand.kind]
  | time n =>
    cases lastOf OverrideCommand.time? cs <;> simp [OverrideCommand.kind, OverrideCommand.apply]
  | vss n =>
    cases lastOf OverrideCommand.vss? cs <;> simp [OverrideCommand.kind, OverrideCommand.apply]
  | rss n =>
    cases lastOf OverrideCommand.rss? cs <;> simp [OverrideCommand.kind, OverrideCommand.apply]

theorem parse_overridden (written : Written text cs) :
    parseSpecjudgeOverrides cfg breakOnNonMatch true scoreOverriden text td =
      overridden cfg scoreOverriden cs td := by
  induction written generalizing scoreOverriden td with
  | blank blank =>
    rw [parseSpecjudgeOverrides]
    split
    · simp [overridden, lastOf]
    · rename_i word
      cases (extractWord_blank blank).symm.trans word
  | command blank gap reads ends _ ih =>
    rw [parse_command blank gap reads ends, ih, overridden_cons]

/-- Each lookup is in the commands of one kind. -/
theorem filterMap_kind {α : Type} {f : OverrideCommand → Option α} (k : CommandKind)
    (own : ∀ c, c.kind ≠ k → f c = none) :
    cs.filterMap f = (cs.filter fun c => c.kind = k).filterMap f := by
  rw [List.filterMap_filter]
  refine List.filterMap_congr fun c _ => ?_
  by_cases same : c.kind = k
  · simp [same]
  · simp [same, own c same]

/-- The last command of each kind counts. Where the commands of each kind come in the same
order, the result is the same. -/
theorem parseSpecjudgeOverrides_written (written : Written text cs) :
    parseSpecjudgeOverrides cfg breakOnNonMatch true false text td = overridden cfg false cs td ∧
    ∀ text' cs', Written text' cs' →
      (∀ k : CommandKind, cs'.filter (fun c => c.kind = k) = cs.filter fun c => c.kind = k) →
      parseSpecjudgeOverrides cfg breakOnNonMatch true false text' td =
        parseSpecjudgeOverrides cfg breakOnNonMatch true false text td := by
  refine ⟨parse_overridden written, fun text' cs' written' same => ?_⟩
  have find {α : Type} {f : OverrideCommand → Option α} (k : CommandKind)
      (own : ∀ c, c.kind ≠ k → f c = none) : cs'.filterMap f = cs.filterMap f := by
    rw [filterMap_kind k own, same k, ← filterMap_kind k own]
  have score := find (f := OverrideCommand.score?) .score fun c => by cases c <;> simp [OverrideCommand.kind]
  have verdict := find (f := OverrideCommand.verdict?) .verdict fun c => by cases c <;> simp [OverrideCommand.kind]
  have time := find (f := OverrideCommand.time?) .time fun c => by cases c <;> simp [OverrideCommand.kind]
  have vss := find (f := OverrideCommand.vss?) .vss fun c => by cases c <;> simp [OverrideCommand.kind]
  have rss := find (f := OverrideCommand.rss?) .rss fun c => by cases c <;> simp [OverrideCommand.kind]
  rw [parse_overridden written', parse_overridden written]
  simp only [overridden, lastOf, score, verdict, time, vss, rss]

def sampleOverrides : List Char :=
  "SPECJUDGE_OVERRIDE_VERDICT AC\nSPECJUDGE_OVERRIDE_TIME_US 7".toList

/-- `AC`, then a time. -/
theorem parseSpecjudgeOverrides_written_sample :
    (parseSpecjudgeOverrides (sampleConfig 1) true true false sampleOverrides .new).score =
      fullScore := by
  have space (rest : List Char) : Ends (' ' :: rest) := fun c first => by cases first; rfl
  have line (rest : List Char) : Ends ('\n' :: rest) := fun c first => by cases first; rfl
  have time : Written (['\n'] ++ ((OverrideCommand.time 7).kind.keyword.toList ++ ([' ', '7'] ++ [])))
      [.time 7] :=
    .command rfl (space _) rfl (fun c none => by cases none) (.blank rfl)
  have both : Written ([] ++ ((OverrideCommand.verdict "AC").kind.keyword.toList ++
      ([' ', 'A', 'C'] ++ _))) [.verdict "AC", .time 7] :=
    .command rfl (space _) rfl (line _) time
  have written : Written sampleOverrides [.verdict "AC", .time 7] := both
  rw [(parseSpecjudgeOverrides_written written).1]
  rfl

end TiojJudge.Judge
