import TiojJudge.Judge.Types

/-!
# Reading a checker's result

`NormalizeScore`, `ParseSpecjudgeOverrides` and the four readers of checker
output, with `ReadSpecjudgeResult` in front of them.
-/

namespace TiojJudge.Judge
open Numerals

/-- Scores are in units of 10^(-6); NaN passes both comparisons. -/
def normalizeScore (cfg : Config) : LongDouble → Int
  | .fin q =>
    let q := if 1000000 < q then 1000000 else q
    let q := if q < -1000000 then -1000000 else q
    lround (q * 1000000)
  | .inf negative => if negative then -1000000000000 else 1000000000000
  | .nan => cfg.lroundNaN

/-- The score of an accepted testdata. -/
def fullScore : Int := 100000000

def setACOrContinue (lastStage : Bool) (td : TestdataResult) : TestdataResult :=
  if lastStage then { td with verdict := .ac, score := fullScore } else td

/-- The three override commands that store one number. -/
def overrideNumber (cmd : String) : Option (Int → TestdataResult → TestdataResult) :=
  if cmd == "SPECJUDGE_OVERRIDE_TIME_US" then some fun n td => { td with time := n }
  else if cmd == "SPECJUDGE_OVERRIDE_VSS_KIB" then some fun n td => { td with vss := n }
  else if cmd == "SPECJUDGE_OVERRIDE_RSS_KIB" then some fun n td => { td with rss := n }
  else none

def longMin : Int := -2 ^ 63
def longMax : Int := 2 ^ 63 - 1

/-- `SPECJUDGE_OVERRIDE_VERDICT`. -/
def overrideVerdict (allowScore scoreOverriden : Bool) (abr : String) (td : TestdataResult) :
    TestdataResult :=
  let td := { td with verdict := abrToVerdict abr true }
  if allowScore && !scoreOverriden && td.verdict == .ac then { td with score := fullScore } else td

def parseSpecjudgeOverrides (cfg : Config) (breakOnNonMatch allowScore scoreOverriden : Bool)
    (text : List Char) (td : TestdataResult) : TestdataResult :=
  match _hw : extractWord text with
  | none => td
  | some (cmd, rest) =>
    if allowScore && cmd == "SPECJUDGE_OVERRIDE_SCORE" then
      match _hs : extractLongDouble rest with
      | (score, some rest') =>
        parseSpecjudgeOverrides cfg breakOnNonMatch allowScore true rest'
          { td with score := normalizeScore cfg score }
      | (_, none) => td
    else if cmd == "SPECJUDGE_OVERRIDE_VERDICT" then
      match _hv : extractWord rest with
      | some (abr, rest') =>
        parseSpecjudgeOverrides cfg breakOnNonMatch allowScore scoreOverriden rest'
          (overrideVerdict allowScore scoreOverriden abr td)
      | none => td
    else
      match overrideNumber cmd with
      | some store =>
        match _hn : extractInt longMin longMax rest with
        | some (n, rest') =>
          parseSpecjudgeOverrides cfg breakOnNonMatch allowScore scoreOverriden rest' (store n td)
        | none => td
      | none =>
        if breakOnNonMatch then td
        else parseSpecjudgeOverrides cfg breakOnNonMatch allowScore scoreOverriden rest td
termination_by text.length
decreasing_by
  · exact (extractLongDouble_shorter _hs).trans_lt (extractWord_shorter _hw)
  · exact (extractWord_shorter _hv).trans (extractWord_shorter _hw)
  · exact (extractInt_shorter _hn).trans_lt (extractWord_shorter _hw)
  · exact extractWord_shorter _hw

def intMin : Int := -2 ^ 31
def intMax : Int := 2 ^ 31 - 1

def readOldSpecjudgeResult (cfg : Config) (output : List Char) (lastStage : Bool)
    (td : TestdataResult) : TestdataResult :=
  match extractInt intMin intMax output with
  | some (x, rest) =>
    if x = 0 then parseSpecjudgeOverrides cfg true true false rest (setACOrContinue lastStage td)
    else { td with verdict := .wa }
  | none => { td with verdict := .wa }

/-- The member `score`: a string for `stold`, or a number. -/
def jsonScore (cfg : Config) (json : Json) : Option Int :=
  match json.find "score" with
  | some (.str s) => (stold s.toList).map (normalizeScore cfg)
  | some (.num q) => some (normalizeScore cfg (.fin q))
  | _ => none

/-- `ReadNumber`: the member when it is a number, else the old value. -/
def jsonNumber (json : Json) (attr : String) (target : Int) : Int :=
  match json.find attr with
  | some (.num q) => toInt64 (toLong q)
  | _ => target

def kMaxMessageLen : Nat := 32768

def jsonMessage (json : Json) : Option (String × List Char) :=
  match json.find "message_type", json.find "message" with
  | some (.str type), some (.str msg) =>
    if type == "text" || type == "html" then some (type, msg.toList.take kMaxMessageLen) else none
  | _, _ => none

/-- The member `verdict`, with the score of an `AC`. -/
def jsonVerdict (json : Json) (td : TestdataResult) : TestdataResult :=
  match json.find "verdict" with
  | some (.str s) =>
    let verdict := abrToVerdict s true
    { td with verdict := verdict, score := if verdict = .ac then fullScore else td.score }
  | _ => td

/-- `none` when the text is no JSON: the exception leaves the result as it is. -/
def readNewSpecjudgeResult (cfg : Config) (output : List Char) (td : TestdataResult) :
    TestdataResult :=
  match cfg.parseJson output with
  | none => td
  | some json =>
    let td := jsonVerdict json td
    let message := jsonMessage json
    { td with
      score := (jsonScore cfg json).getD td.score
      time := jsonNumber json "time_us" td.time
      vss := jsonNumber json "vss_kib" td.vss
      rss := jsonNumber json "rss_kib" td.rss
      messageType := message.elim "" Prod.fst
      message := message.elim [] Prod.snd }

/-- The score of exit code 7 and the stream after it. -/
def polygonPoints (cfg : Config) (output : Option (List Char)) : Int × Option (List Char) :=
  match output.bind extractWord with
  | some (word, rest) =>
    if word == "points" then
      let (score, rest) := extractLongDouble rest
      (normalizeScore cfg score, rest)
    else (0, some rest)
  | none => (0, none)

def readPolygonSpecjudgeResult (cfg : Config) (code : Int) (output : Option (List Char))
    (lastStage : Bool) (td : TestdataResult) : TestdataResult :=
  if code < 50 ∧ code ≠ 0 ∧ code ≠ 7 then { td with verdict := .wa }
  else
    let td := setACOrContinue lastStage td
    let (score, rest) :=
      if code = 7 then polygonPoints cfg output
      else if 50 ≤ code then ((code - 50) * (fullScore / 200), output)
      else (td.score, output)
    let td := { td with score := score }
    let td := if td.score < fullScore then { td with verdict := .wa } else td
    match rest with
    | some rest => parseSpecjudgeOverrides cfg false false false rest td
    | none => td

/-- A score file: the number at its start, scaled. -/
def kattisScore (cfg : Config) (file : Option (List Char)) (scale : ℚ) (score : Int) : Int :=
  match file.map extractLongDouble with
  | some (.fin q, some _) => normalizeScore cfg (.fin (q * scale))
  | some (x, some _) => normalizeScore cfg x
  | _ => score

/-- Exit code 42. -/
def kattisAccept (cfg : Config) (files : BoxFiles) (lastStage : Bool) (td : TestdataResult) :
    TestdataResult :=
  let td := setACOrContinue lastStage td
  -- no nextpass.in = immediate success
  let td := if !lastStage && !files.nextpass then { td with verdict := .ac } else td
  let td := { td with score := kattisScore cfg files.scoreMultiplier 100 td.score }
  { td with score := kattisScore cfg files.score 1 td.score }

def readKattisSpecjudgeResult (cfg : Config) (code : Int) (files : BoxFiles) (lastStage : Bool)
    (td : TestdataResult) : TestdataResult :=
  let td := if code = 42 then kattisAccept cfg files lastStage td else { td with verdict := .wa }
  let td := match files.teammessage with
    | some text => { td with messageType := "text", message := text.take kMaxMessageLen }
    | none => td
  match files.judgemessage with
  | some text => parseSpecjudgeOverrides cfg true false false text td
  | none => td

/-- The checker ended in a way its protocol does not have. -/
def specjudgeFailed (type : SpecjudgeType) (o : TaskOutcome) : Bool :=
  o.files.output.isNone || o.res.siCode != CLD_EXITED ||
  (type != .specjudgePolygon && type != .specjudgeKattis && o.res.siStatus != 0) ||
  (type == .specjudgePolygon && o.res.siStatus == 3) ||
  (type == .specjudgeKattis && o.res.siStatus != 42 && o.res.siStatus != 43)

def readSpecjudgeResult (cfg : Config) (sub : Submission) (o : TaskOutcome) (lastStage : Bool)
    (td : TestdataResult) : TestdataResult :=
  if specjudgeFailed sub.specjudgeType o then
    if td.verdict = .nul then
      { td with verdict := if sub.specjudgeReAsWa then .wa else .jre }
    else td
  else
    match sub.specjudgeType with
    | .specjudgeOld => readOldSpecjudgeResult cfg (o.files.output.getD []) lastStage td
    | .specjudgePolygon =>
      readPolygonSpecjudgeResult cfg o.res.siStatus o.files.output lastStage td
    | .specjudgeKattis => readKattisSpecjudgeResult cfg o.res.siStatus o.files lastStage td
    | .specjudgeNew | .normal | .skip =>
      readNewSpecjudgeResult cfg (o.files.output.getD []) td

end TiojJudge.Judge
