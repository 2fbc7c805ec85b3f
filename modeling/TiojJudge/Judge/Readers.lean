import TiojJudge.Judge.Effects

/-!
# What the readers of a checker leave

* `Read`: a reader leaves `skip_stage`, and a verdict that it sets is below `CE`;
* `scoringOutcome_lt`, `executeVerdict_lt`: so are the verdicts of all testdata.
-/

namespace TiojJudge.Judge
open Numerals

/-- What a reader can do to the result of a testdata. -/
structure Read (td td' : TestdataResult) : Prop where
  verdict : td'.verdict = td.verdict ∨ td'.verdict < .ce
  skipStage : td'.skipStage = td.skipStage

variable {cfg : Config} {sub : Submission} {o : TaskOutcome} {td td' td'' : TestdataResult}
  {lastStage skipped : Bool} {stage : Nat}

namespace Read

theorem refl (td : TestdataResult) : Read td td := ⟨.inl rfl, rfl⟩

theorem trans (h : Read td td') (h' : Read td' td'') : Read td td'' := by
  refine ⟨?_, h'.skipStage.trans h.skipStage⟩
  rcases h'.verdict with same | low
  · exact same ▸ h.verdict
  · exact .inr low

theorem of_same (verdict : td'.verdict = td.verdict) (skipStage : td'.skipStage = td.skipStage) :
    Read td td' :=
  ⟨.inl verdict, skipStage⟩

theorem verdict_lt (h : Read td td') (low : td.verdict < .ce) : td'.verdict < .ce :=
  h.verdict.elim (fun same => same ▸ low) id

theorem from_same (h : Read td' td'') (verdict : td'.verdict = td.verdict)
    (skipStage : td'.skipStage = td.skipStage) : Read td td'' :=
  (of_same verdict skipStage).trans h

theorem of_set (low : td'.verdict < .ce) (skipStage : td'.skipStage = td.skipStage) : Read td td' :=
  ⟨.inr low, skipStage⟩

end Read

theorem ac_lt : Verdict.ac < .ce := by decide

theorem wa_lt : Verdict.wa < .ce := by decide

theorem jre_lt : Verdict.jre < .ce := by decide

theorem abrToVerdict_lt (str : String) : abrToVerdict str true < .ce := by
  have below : ∀ v ∈ runtimeVerdicts, v < Verdict.ce := by decide
  unfold abrToVerdict
  split
  · rename_i v found
    exact below v (List.mem_of_find?_eq_some found)
  · exact (by decide : Verdict.nul < .ce)

theorem setACOrContinue_read : Read td (setACOrContinue lastStage td) := by
  unfold setACOrContinue
  split
  · exact .of_set ac_lt rfl
  · exact .refl td

theorem overrideVerdict_read (allowScore scoreOverriden : Bool) (abr : String) :
    Read td (overrideVerdict allowScore scoreOverriden abr td) := by
  have low := abrToVerdict_lt abr
  unfold overrideVerdict
  dsimp only
  split
  · exact .of_set low rfl
  · exact .of_set low rfl

theorem overrideNumber_read {cmd : String} {store : Int → TestdataResult → TestdataResult}
    (h : overrideNumber cmd = some store) (n : Int) : Read td (store n td) := by
  unfold overrideNumber at h
  split_ifs at h <;> (cases h; exact .of_same rfl rfl)

theorem parseSpecjudgeOverrides_read {breakOnNonMatch allowScore scoreOverriden : Bool}
    {text : List Char} :
    Read td (parseSpecjudgeOverrides cfg breakOnNonMatch allowScore scoreOverriden text td) := by
  fun_induction parseSpecjudgeOverrides with
  | case1 | case3 | case5 | case7 | case8 => exact .refl _
  | case2 _ _ _ _ _ _ _ _ _ _ ih => exact ih.from_same rfl rfl
  | case4 _ _ _ _ _ _ _ _ _ _ _ ih => exact (overrideVerdict_read _ _ _).trans ih
  | case6 _ _ _ _ _ _ _ _ _ found _ _ _ ih => exact (overrideNumber_read found _).trans ih
  | case9 _ _ _ _ _ _ _ _ _ _ ih => exact ih

theorem readOldSpecjudgeResult_read (output : List Char) :
    Read td (readOldSpecjudgeResult cfg output lastStage td) := by
  unfold readOldSpecjudgeResult
  split
  · split
    · exact .trans setACOrContinue_read parseSpecjudgeOverrides_read
    · exact .of_set wa_lt rfl
  · exact .of_set wa_lt rfl

theorem readNewSpecjudgeResult_read (output : List Char) :
    Read td (readNewSpecjudgeResult cfg output td) := by
  unfold readNewSpecjudgeResult
  split
  · exact .refl td
  · rename_i json _
    have verdict : Read td (jsonVerdict json td) := by
      unfold jsonVerdict
      split
      · exact .of_set (abrToVerdict_lt _) rfl
      · exact .refl td
    exact verdict.trans (.of_same rfl rfl)

theorem readPolygonSpecjudgeResult_read (code : Int) (output : Option (List Char)) :
    Read td (readPolygonSpecjudgeResult cfg code output lastStage td) := by
  unfold readPolygonSpecjudgeResult
  split
  · exact .of_set wa_lt rfl
  · dsimp only
    have scored (score : Int) : Read td { setACOrContinue lastStage td with score := score } :=
      setACOrContinue_read.trans (.of_same rfl rfl)
    have checked (score : Int) : Read td
        (if score < fullScore then { setACOrContinue lastStage td with score := score, verdict := .wa }
        else { setACOrContinue lastStage td with score := score }) := by
      split
      · exact (scored score).trans (.of_set wa_lt rfl)
      · exact scored score
    split
    · exact (checked _).trans parseSpecjudgeOverrides_read
    · exact checked _

theorem readKattisSpecjudgeResult_read (code : Int) (files : BoxFiles) :
    Read td (readKattisSpecjudgeResult cfg code files lastStage td) := by
  have accepted : Read td (kattisAccept cfg files lastStage td) := by
    unfold kattisAccept
    dsimp only
    split
    · exact setACOrContinue_read.trans (.of_set ac_lt rfl)
    · exact setACOrContinue_read.trans (.of_same rfl rfl)
  have judged : Read td
      (if code = 42 then kattisAccept cfg files lastStage td else { td with verdict := .wa }) := by
    split
    · exact accepted
    · exact .of_set wa_lt rfl
  unfold readKattisSpecjudgeResult
  cases files.teammessage with
  | none =>
    cases files.judgemessage with
    | none => exact judged
    | some => exact judged.trans parseSpecjudgeOverrides_read
  | some =>
    cases files.judgemessage with
    | none => exact judged.trans (.of_same rfl rfl)
    | some =>
      refine Read.trans ?_ parseSpecjudgeOverrides_read
      exact judged.trans (.of_same rfl rfl)

theorem readSpecjudgeResult_read : Read td (readSpecjudgeResult cfg sub o lastStage td) := by
  unfold readSpecjudgeResult
  split
  · split
    · refine .of_set ?_ rfl
      dsimp only
      split
      · exact wa_lt
      · exact jre_lt
    · exact .refl td
  · split
    · exact readOldSpecjudgeResult_read _
    · exact readPolygonSpecjudgeResult_read _ _
    · exact readKattisSpecjudgeResult_read _ _
    all_goals exact readNewSpecjudgeResult_read _

/-- Before `settleStage`. -/
theorem scoringOutcome_cases (cfg : Config) (sub : Submission) (stage : Nat) (o : TaskOutcome)
    (skipped : Bool) (td : TestdataResult) :
    ∃ td', Read td td' ∧
      scoringOutcome cfg sub stage o skipped td = settleStage (sub.lastStage stage) td' := by
  have zero : Read td { td with score := 0 } := .of_same rfl rfl
  unfold scoringOutcome
  cases skipped with
  | true => exact ⟨_, zero, rfl⟩
  | false => exact ⟨_, zero.trans readSpecjudgeResult_read, rfl⟩

theorem scoringOutcome_lt (low : td.verdict < .ce) :
    (scoringOutcome cfg sub stage o skipped td).verdict < .ce := by
  obtain ⟨td', read, same⟩ := scoringOutcome_cases cfg sub stage o skipped td
  have low' := read.verdict_lt low
  rw [same]
  unfold settleStage
  split
  · exact low'
  · split
    · exact (by decide : Verdict.wa < .ce)
    · exact low'

theorem executeVerdict_lt (sub : Submission) (lim : TestdataItem) (res : CjailResult)
    (td : TestdataResult) : executeVerdict sub lim res td < .ce := by
  unfold executeVerdict
  split_ifs <;> decide

/-! ## A checker that accepts -/

def overrideCommands : List String :=
  ["SPECJUDGE_OVERRIDE_SCORE", "SPECJUDGE_OVERRIDE_VERDICT", "SPECJUDGE_OVERRIDE_TIME_US",
    "SPECJUDGE_OVERRIDE_VSS_KIB", "SPECJUDGE_OVERRIDE_RSS_KIB"]

def words (text : List Char) : List String :=
  match _h : extractWord text with
  | none => []
  | some (word, rest) => word :: words rest
termination_by text.length
decreasing_by exact extractWord_shorter _h

/-- No word of the text is an override command. -/
def NoOverrides (text : List Char) : Prop := ∀ word ∈ words text, word ∉ overrideCommands

instance (text : List Char) : Decidable (NoOverrides text) :=
  inferInstanceAs (Decidable (∀ word ∈ words text, word ∉ overrideCommands))

theorem words_cons {text rest : List Char} {word : String}
    (h : extractWord text = some (word, rest)) : words text = word :: words rest := by
  rw [words]
  split
  · rename_i none
    cases none.symm.trans h
  · rename_i some_
    cases some_.symm.trans h
    rfl

theorem parse_noOverrides {breakOnNonMatch allowScore scoreOverriden : Bool} {text : List Char}
    (plain : NoOverrides text) :
    parseSpecjudgeOverrides cfg breakOnNonMatch allowScore scoreOverriden text td = td := by
  have first {text rest : List Char} {cmd : String} (h : extractWord text = some (cmd, rest))
      (plain : NoOverrides text) : cmd ∉ overrideCommands :=
    plain cmd (words_cons h ▸ List.mem_cons_self)
  have command {cmd : String} {store : Int → TestdataResult → TestdataResult}
      (h : overrideNumber cmd = some store) : cmd ∈ overrideCommands := by
    unfold overrideNumber at h
    split_ifs at h with time vss rss
    · simp [overrideCommands, beq_iff_eq.mp time]
    · simp [overrideCommands, beq_iff_eq.mp vss]
    · simp [overrideCommands, beq_iff_eq.mp rss]
  fun_induction parseSpecjudgeOverrides with
  | case1 | case3 | case5 | case7 | case8 => rfl
  | case2 _ _ _ _ _ word isScore =>
    have := first word plain
    simp_all [overrideCommands]
  | case4 _ _ _ _ _ word _ isVerdict =>
    have := first word plain
    simp_all [overrideCommands]
  | case6 _ _ _ _ _ word _ _ _ found => exact absurd (command found) (first word plain)
  | case9 _ _ _ _ _ word _ _ _ _ ih =>
    refine ih fun w hw => plain w ?_
    rw [words_cons word]
    exact List.mem_cons_of_mem _ hw

/-- The checker of a stage accepts in the protocol of its type, without override commands or
a score. -/
def CheckerAccepts (cfg : Config) (type : SpecjudgeType) (lastStage : Bool) (o : TaskOutcome) :
    Prop :=
  o.res.siCode = CLD_EXITED ∧ ∃ output ∈ o.files.output,
    match type with
    | .specjudgeOld => o.res.siStatus = 0 ∧
        ∃ n ∈ extractInt intMin intMax output, n.1 = 0 ∧ NoOverrides n.2
    | .specjudgeNew => o.res.siStatus = 0 ∧ ∃ json ∈ cfg.parseJson output,
        json.find "verdict" = some (.str (if lastStage then "AC" else "")) ∧
          json.find "score" = none
    | .specjudgePolygon => o.res.siStatus = 0 ∧ NoOverrides output
    | .specjudgeKattis => o.res.siStatus = 42 ∧ (lastStage = false → o.files.nextpass = true) ∧
        o.files.scoreMultiplier = none ∧ o.files.score = none ∧
        ∀ text ∈ o.files.judgemessage, NoOverrides text
    | .normal | .skip => False

instance (cfg : Config) (type : SpecjudgeType) (lastStage : Bool) :
    DecidablePred (CheckerAccepts cfg type lastStage) := fun o => by
  unfold CheckerAccepts
  cases type <;> infer_instance

/-- The verdict of a testdata without one, after a checker accepted the stage. -/
def acceptedVerdict (type : SpecjudgeType) (lastStage : Bool) : Verdict :=
  if lastStage then .ac else if type = .specjudgePolygon then .wa else .nul

theorem setACOrContinue_accepts (nul : td.verdict = .nul) (zero : td.score = 0) :
    (setACOrContinue lastStage td).verdict = (if lastStage then .ac else .nul) ∧
      (setACOrContinue lastStage td).score = if lastStage then fullScore else 0 := by
  unfold setACOrContinue
  cases lastStage with
  | true => simp
  | false => simp [nul, zero]

theorem readNewSpecjudgeResult_accepts {output : List Char} {json : Json}
    (parsed : cfg.parseJson output = some json)
    (verdict : json.find "verdict" = some (.str (if lastStage then "AC" else "")))
    (score : json.find "score" = none) (zero : td.score = 0) :
    (readNewSpecjudgeResult cfg output td).verdict = (if lastStage then .ac else .nul) ∧
      (readNewSpecjudgeResult cfg output td).score = if lastStage then fullScore else 0 := by
  have ac : abrToVerdict "AC" true = .ac := by decide
  have nul : abrToVerdict "" true = .nul := by decide
  simp only [readNewSpecjudgeResult, parsed, jsonScore, score, Option.getD_none, jsonVerdict, verdict]
  cases lastStage with
  | true => simp [ac]
  | false => simp [nul, zero]

/-- The score 0 of a stage before the last one is not a full one. -/
theorem readPolygonSpecjudgeResult_accepts {output : List Char} (plain : NoOverrides output)
    (nul : td.verdict = .nul) (zero : td.score = 0) :
    (readPolygonSpecjudgeResult cfg 0 (some output) lastStage td).verdict =
        acceptedVerdict .specjudgePolygon lastStage ∧
      (readPolygonSpecjudgeResult cfg 0 (some output) lastStage td).score =
        if lastStage then fullScore else 0 := by
  obtain ⟨verdict, score⟩ := @setACOrContinue_accepts _ lastStage nul zero
  simp only [readPolygonSpecjudgeResult, ne_eq, not_true_eq_false, false_and, and_false, if_false,
    show ¬ (0 : Int) = 7 by decide, show ¬ (50 : Int) ≤ 0 by decide, parse_noOverrides plain, score]
  cases lastStage with
  | true => simp [acceptedVerdict, verdict]
  | false => simp [acceptedVerdict, fullScore]

theorem readKattisSpecjudgeResult_accepts {files : BoxFiles}
    (nextpass : lastStage = false → files.nextpass = true) (multiplier : files.scoreMultiplier = none)
    (score : files.score = none) (plain : ∀ text ∈ files.judgemessage, NoOverrides text)
    (nul : td.verdict = .nul) (zero : td.score = 0) :
    (readKattisSpecjudgeResult cfg 42 files lastStage td).verdict =
        (if lastStage then .ac else .nul) ∧
      (readKattisSpecjudgeResult cfg 42 files lastStage td).score =
        if lastStage then fullScore else 0 := by
  have accepted : kattisAccept cfg files lastStage td = setACOrContinue lastStage td := by
    have pass : (!lastStage && !files.nextpass) = false := by
      cases lastStage <;> simp_all
    simp [kattisAccept, kattisScore, multiplier, score, pass]
  have result := @setACOrContinue_accepts _ lastStage nul zero
  simp only [readKattisSpecjudgeResult, if_true, accepted]
  cases message : files.judgemessage with
  | none => cases files.teammessage <;> exact result
  | some text =>
    simp only [parse_noOverrides (plain text message)]
    cases files.teammessage <;> exact result

theorem readSpecjudgeResult_accepts (accepts : CheckerAccepts cfg sub.specjudgeType lastStage o)
    (nul : td.verdict = .nul) (zero : td.score = 0) :
    (readSpecjudgeResult cfg sub o lastStage td).verdict =
        acceptedVerdict sub.specjudgeType lastStage ∧
      (readSpecjudgeResult cfg sub o lastStage td).score = if lastStage then fullScore else 0 := by
  obtain ⟨ended, output, some_, accepts⟩ := accepts
  have some_ : o.files.output = some output := some_
  unfold readSpecjudgeResult
  cases type : sub.specjudgeType with
  | specjudgeOld =>
    rw [type] at accepts
    obtain ⟨status, ⟨n, rest⟩, read, rfl, plain⟩ := accepts
    have read : extractInt intMin intMax output = some (0, rest) := read
    have works : specjudgeFailed .specjudgeOld o = false := by
      simp [specjudgeFailed, some_, ended, status]
    simp only [works, some_, Option.getD_some, readOldSpecjudgeResult, read, if_true,
      parse_noOverrides plain, Bool.false_eq_true, if_false]
    exact setACOrContinue_accepts nul zero
  | specjudgeNew =>
    rw [type] at accepts
    obtain ⟨status, json, parsed, verdict, score⟩ := accepts
    have works : specjudgeFailed .specjudgeNew o = false := by
      simp [specjudgeFailed, some_, ended, status]
    simp only [works, some_, Option.getD_some, Bool.false_eq_true, if_false]
    exact readNewSpecjudgeResult_accepts parsed verdict score zero
  | specjudgePolygon =>
    rw [type] at accepts
    have works : specjudgeFailed .specjudgePolygon o = false := by
      simp [specjudgeFailed, some_, ended, accepts.1]
    simp only [works, some_, accepts.1, Bool.false_eq_true, if_false]
    exact readPolygonSpecjudgeResult_accepts accepts.2 nul zero
  | specjudgeKattis =>
    rw [type] at accepts
    obtain ⟨status, nextpass, multiplier, score, plain⟩ := accepts
    have works : specjudgeFailed .specjudgeKattis o = false := by
      simp [specjudgeFailed, some_, ended, status]
    simp only [works, status, Bool.false_eq_true, if_false]
    exact readKattisSpecjudgeResult_accepts nextpass multiplier score plain nul zero
  | normal | skip =>
    rw [type] at accepts
    exact accepts.elim

/-- The result of an accepted stage: all types but one go on before the last stage. -/
theorem scoringOutcome_accepts
    (accepts : CheckerAccepts cfg sub.specjudgeType (sub.lastStage stage) o)
    (nul : td.verdict = .nul) (go : td.skipStage = false) :
    (scoringOutcome cfg sub stage o false td).verdict =
        acceptedVerdict sub.specjudgeType (sub.lastStage stage) ∧
      ((scoringOutcome cfg sub stage o false td).skipStage = true ↔
        sub.lastStage stage = false ∧ sub.specjudgeType = .specjudgePolygon) ∧
      (sub.lastStage stage = true → (scoringOutcome cfg sub stage o false td).score = fullScore) := by
  obtain ⟨verdict, score⟩ :=
    @readSpecjudgeResult_accepts _ _ _ { td with score := 0 } _ accepts nul rfl
  have kept : (readSpecjudgeResult cfg sub o (sub.lastStage stage) { td with score := 0 }).skipStage =
      false := readSpecjudgeResult_read.skipStage.trans go
  simp only [scoringOutcome, Bool.false_eq_true, if_false]
  generalize readSpecjudgeResult cfg sub o (sub.lastStage stage) { td with score := 0 } = td'
    at verdict score kept
  unfold settleStage
  cases last : sub.lastStage stage with
  | true =>
    rw [last] at verdict score
    have ac : td'.verdict = .ac := verdict
    have full : td'.score = fullScore := score
    simp [ac, full, kept, acceptedVerdict]
  | false =>
    rw [last] at verdict
    by_cases polygon : sub.specjudgeType = .specjudgePolygon
    · have wa : td'.verdict = .wa := by simpa [acceptedVerdict, polygon] using verdict
      simp [wa, acceptedVerdict, polygon]
    · have nul : td'.verdict = .nul := by simpa [acceptedVerdict, polygon] using verdict
      simp [nul, kept, acceptedVerdict, polygon]

end TiojJudge.Judge
