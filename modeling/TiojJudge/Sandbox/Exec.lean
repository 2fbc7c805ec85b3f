import TiojJudge.Sandbox.Io

/-!
# Options on their way to the sandbox

`SandboxExec` starts the process `sandbox-exec`, writes the size of the serialized
options to its standard input, then the options, and waits for the result. Both
processes may be killed at any time.

* `sandboxExec`: the machine of the two processes and the two pipes;
* `Sound`: what each of them has put into its pipe, and taken from the other;
* `returned_result`: what the parent returns is what the child wrote;
* `payload_arrives`: an accepted payload can arrive;
* `payload_exact`: the options that the child gets are those of the parent.
-/

namespace TiojJudge.Sandbox

open Machine Reader

def kSandboxMaxPayload : Nat := 1 <<< 20

/-- `sz`, a `long`. -/
def payloadSize (buf : List UInt8) : Int64 := (UInt64.ofNat (ofBytes buf)).toInt64

/-- `SandboxExec`, after `fork`. -/
inductive Parent where
  | writingSize (w : WriteFull)
  | writingPayload (w : WriteFull)
  | readingResult (r : ReadFull)
  /-- Before `kill`. -/
  | failed
  /-- In `waitpid`, with what was read. -/
  | waiting (ret : Option (List UInt8))
  /-- Without what was read after an error. -/
  | returned (ret : Option (List UInt8))
  | dead

/-- What was read, and the options in it. -/
structure Decoded where
  buf : List UInt8
  opt : SandboxOptions
  deriving DecidableEq

/-- The child; `main` of `sandbox_main.cpp` after `execl`. -/
inductive Child where
  | starting
  | readingSize (r : ReadFull)
  | readingPayload (r : ReadFull)
  /-- In `cjail_exec`. -/
  | running (d : Decoded)
  | writingResult (d : Decoded) (w : WriteFull)
  /-- With the result that it had, and whether it was successful. -/
  | ended (d : Option Decoded) (res : List UInt8) (success : Bool)

structure Processes where
  parent : Parent
  child : Child
  /-- `outpipe`. -/
  down : Pipe UInt8
  /-- `inpipe`. -/
  up : Pipe UInt8

namespace Parent

-- The serialized options, and `sizeof(cjail_result)`.
variable (vec : List UInt8) (size : Nat)

def afterResult (r : ReadFull) : Parent :=
  match r.result with
  | none => .readingResult r
  | some false => .failed
  | some true => .waiting (some r.buf)

def afterPayload (w : WriteFull) : Parent :=
  match w.result with
  | none => .writingPayload w
  | some false => .failed
  | some true => afterResult (.start (List.replicate size 0))

def afterSize (w : WriteFull) : Parent :=
  match w.result with
  | none => .writingSize w
  | some false => .failed
  | some true => afterPayload size (.start vec)

def start : Parent :=
  if vec.isEmpty || vec.length > kSandboxMaxPayload then .failed
  else afterSize vec size (.start (intBytes (.ofNat vec.length)))

def write (p : Pipe UInt8) (o : Outcome) : Parent → Option (Parent × Pipe UInt8)
  | .writingSize w => (w.call p o).map fun (w, p) => (afterSize vec size w, p)
  | .writingPayload w => (w.call p o).map fun (w, p) => (afterPayload size w, p)
  | _ => none

def read (p : Pipe UInt8) (o : Outcome) : Parent → Option (Parent × Pipe UInt8)
  | .readingResult r => (r.call p o).map fun (r, p) => (afterResult r, p)
  | _ => none

end Parent

namespace Child

def decoded : Child → Option Decoded
  | .running d | .writingResult d _ => some d
  | .ended d _ _ => d
  | _ => none

def result : Child → List UInt8
  | .writingResult _ w => w.data
  | .ended _ res _ => res
  | _ => []

def afterResult (d : Decoded) (w : WriteFull) : Child :=
  match w.result with
  | none => .writingResult d w
  | some ok => .ended (some d) w.data ok

def afterPayload (r : ReadFull) : Child :=
  match r.result with
  | none => .readingPayload r
  | some false => .ended none [] false
  | some true =>
    match deserialize r.buf 0 with
    | some (opt, _) => .running ⟨r.buf, opt⟩
    | none => .ended none [] false

def afterSize (r : ReadFull) : Child :=
  match r.result with
  | none => .readingSize r
  | some false => .ended none [] false
  | some true =>
    let sz := (payloadSize r.buf).toInt
    if sz ≤ 0 ∨ sz > kSandboxMaxPayload then .ended none [] false
    else afterPayload (.start (List.replicate sz.toNat 0))

def read (p : Pipe UInt8) (o : Outcome) : Child → Option (Child × Pipe UInt8)
  | .readingSize r => (r.call p o).map fun (r, p) => (afterSize r, p)
  | .readingPayload r => (r.call p o).map fun (r, p) => (afterPayload r, p)
  | _ => none

def write (p : Pipe UInt8) (o : Outcome) : Child → Option (Child × Pipe UInt8)
  | .writingResult d w => (w.call p o).map fun (w, p) => (afterResult d w, p)
  | _ => none

end Child

inductive ProcessLabel where
  /-- `execl`, and whether it succeeds. -/
  | execl (ok : Bool)
  | parentWrite (o : Outcome)
  | parentRead (o : Outcome)
  | childRead (o : Outcome)
  /-- `cjail_exec` leaves a result. -/
  | cjail (res : List UInt8)
  | childWrite (o : Outcome)
  /-- The child is killed, by its parent or by something else. -/
  | childDies
  /-- The parent is past `kill`. -/
  | kill
  | waitpid
  | parentDies

def Processes.step (vec : List UInt8) (size : Nat) (s : Processes) : ProcessLabel → Option Processes
  | .execl ok =>
    match s.child with
    | .starting =>
      some { s with
        child := if ok then .afterSize (.start (List.replicate 8 0)) else .ended none [] false }
    | _ => none
  | .parentWrite o =>
    (s.parent.write vec size s.down o).map fun (parent, down) => { s with parent, down }
  | .parentRead o => (s.parent.read s.up o).map fun (parent, up) => { s with parent, up }
  | .childRead o => (s.child.read s.down o).map fun (child, down) => { s with child, down }
  | .cjail res =>
    match s.child with
    | .running d =>
      if res.length = size then some { s with child := .afterResult d (.start res) } else none
    | _ => none
  | .childWrite o => (s.child.write s.up o).map fun (child, up) => { s with child, up }
  | .childDies =>
    match s.child with
    | .ended .. => none
    | child => some { s with child := .ended child.decoded child.result false }
  | .kill =>
    match s.parent with
    | .failed => some { s with parent := .waiting none }
    | _ => none
  | .waitpid =>
    match s.parent, s.child with
    | .waiting ret, .ended .. => some { s with parent := .returned ret }
    | _, _ => none
  | .parentDies =>
    match s.parent with
    | .returned _ => none
    | _ => some { s with parent := .dead }

/-- `SandboxExec` with these options, and the child that it starts. -/
def sandboxExec (o : SandboxOptions) (size : Nat) : Machine Processes ProcessLabel where
  init := ⟨.start o.serialize size, .starting, .empty, .empty⟩
  step := Processes.step o.serialize size

/-! ## What went through the pipes -/

section Sound

variable {vec : List UInt8} {size : Nat} {o : SandboxOptions}

def accepted (vec : List UInt8) : Prop := vec ≠ [] ∧ vec.length ≤ kSandboxMaxPayload

def sizeBytes (vec : List UInt8) : List UInt8 := intBytes (.ofNat vec.length)

/-- The parent writes these bytes, or the first of them. -/
def Wire (vec written : List UInt8) : Prop :=
  written = [] ∨ accepted vec ∧ written <+: sizeBytes vec ++ vec

/-- What the parent has written, and what it has read. -/
def Parent.Sound (vec : List UInt8) (size : Nat) (down up : Pipe UInt8) : Parent → Prop
  | .writingSize w =>
    accepted vec ∧ w.data = sizeBytes vec ∧ w.Sends [] down ∧ up.taken = 0
  | .writingPayload w =>
    accepted vec ∧ w.data = vec ∧ w.Sends (sizeBytes vec) down ∧ up.taken = 0
  | .readingResult r => Wire vec down.written ∧ r.buf.length = size ∧ r.Takes 0 up
  | .waiting (some ret) | .returned (some ret) =>
    Wire vec down.written ∧ ret.length = size ∧ ret <+: up.written
  | _ => Wire vec down.written

/-- The options that are decoded are those of the parent. -/
def Exact (o : SandboxOptions) (d : Decoded) : Prop :=
  d = ⟨o.serialize, o⟩ ∧ accepted o.serialize

def Child.Sound (o : SandboxOptions) (size : Nat) (down up : Pipe UInt8) : Child → Prop
  | .starting => down.taken = 0 ∧ up.written = []
  | .readingSize r => r.buf.length = 8 ∧ r.Takes 0 down ∧ up.written = []
  | .readingPayload r =>
    accepted o.serialize ∧ r.buf.length = o.serialize.length ∧ r.Takes 8 down ∧ up.written = []
  | .running d => Exact o d ∧ up.written = []
  | .writingResult d w => Exact o d ∧ w.data.length = size ∧ w.Sends [] up
  | .ended d res success =>
    (∀ d' ∈ d, Exact o d') ∧ (d = none → success = false) ∧ (d = none → res = []) ∧
      res.length ≤ size ∧ up.written <+: res

structure Processes.Sound (o : SandboxOptions) (size : Nat) (s : Processes) : Prop where
  parent : s.parent.Sound o.serialize size s.down s.up
  child : s.child.Sound o size s.down s.up

theorem sizeBytes_length (vec : List UInt8) : (sizeBytes vec).length = 8 := length_intBytes _

theorem payloadSize_sizeBytes (h : accepted vec) :
    (payloadSize (sizeBytes vec)).toInt = vec.length := by
  have bound : vec.length ≤ 1 <<< 20 := h.2
  rw [payloadSize, sizeBytes, intBytes, ofBytes_toBytes (UInt64.toNat_lt _), UInt64.ofNat_toNat,
    Int64.toInt64_toUInt64]
  apply Int64.toInt_ofNat_of_lt
  omega

theorem deserialize_accepted (h : accepted o.serialize) :
    deserialize o.serialize 0 = some (o, o.serialize.length) := by
  have pool : o.inPool = true := by
    by_contra outside
    apply h.1
    simp [SandboxOptions.serialize, outside]
  rw [serialize_eq pool]
  exact (reads_deserialize o).whole

/-! ### The parent -/

namespace Parent

variable {down down' up up' : Pipe UInt8} {p p' : Parent} {call : Outcome}

theorem Sound.wire (h : p.Sound vec size down up) : Wire vec down.written := by
  cases p with
  | writingSize w =>
    obtain ⟨valid, data, sends, -⟩ := h
    have sent : down.written = [] ++ w.data.take w.put := sends.sent
    rw [data, List.nil_append] at sent
    exact .inr ⟨valid, sent ▸ (List.take_prefix _ _).trans (List.prefix_append _ _)⟩
  | writingPayload w =>
    obtain ⟨valid, data, sends, -⟩ := h
    have sent : down.written = sizeBytes vec ++ w.data.take w.put := sends.sent
    rw [data] at sent
    refine .inr ⟨valid, ?_⟩
    rw [sent, List.prefix_append_right_inj]
    exact List.take_prefix _ _
  | readingResult => exact h.1
  | waiting ret => cases ret with
    | none => exact h
    | some => exact h.1
  | returned ret => cases ret with
    | none => exact h
    | some => exact h.1
  | failed => exact h
  | dead => exact h

theorem afterResult_sound {r : ReadFull} (wire : Wire vec down.written)
    (length : r.buf.length = size) (takes : r.Takes 0 up) : (afterResult r).Sound vec size down up := by
  unfold afterResult
  split
  · exact ⟨wire, length, takes⟩
  · exact wire
  · rename_i returned
    refine ⟨wire, length, ?_⟩
    have received := takes.received
    rw [(takes.result returned).mp rfl] at received
    have same := received.exact List.prefix_rfl
    rw [same]
    exact List.take_prefix _ _

theorem afterPayload_sound {w : WriteFull} (valid : accepted vec) (data : w.data = vec)
    (sends : w.Sends (sizeBytes vec) down) (taken : up.taken = 0) :
    (afterPayload size w).Sound vec size down up := by
  have state : (writingPayload w).Sound vec size down up := ⟨valid, data, sends, taken⟩
  unfold afterPayload
  split
  · exact state
  · exact state.wire
  · exact afterResult_sound state.wire List.length_replicate (ReadFull.start_takes _ taken)

theorem afterSize_sound {w : WriteFull} (valid : accepted vec) (data : w.data = sizeBytes vec)
    (sends : w.Sends [] down) (taken : up.taken = 0) :
    (afterSize vec size w).Sound vec size down up := by
  have state : (writingSize w).Sound vec size down up := ⟨valid, data, sends, taken⟩
  unfold afterSize
  split
  · exact state
  · exact state.wire
  · rename_i returned
    apply afterPayload_sound valid rfl (WriteFull.start_sends _ _) taken
    have sent := sends.sent
    rw [Pipe.Sent, (sends.result returned).mp rfl, data, List.take_length] at sent
    exact sent

theorem start_sound (vec : List UInt8) (size : Nat) :
    (start vec size).Sound vec size .empty .empty := by
  unfold start
  split
  · exact .inl rfl
  · rename_i valid
    simp only [Bool.or_eq_true, List.isEmpty_iff, decide_eq_true_eq, not_or, not_lt] at valid
    exact afterSize_sound valid rfl (WriteFull.start_sends _ rfl) rfl

theorem write_sound (h : p.Sound vec size down up)
    (written : p.write vec size down call = some (p', down')) :
    p'.Sound vec size down' up ∧ down'.taken = down.taken ∧ down.written <+: down'.written := by
  cases p with
  | writingSize w =>
    obtain ⟨valid, data, sends, taken⟩ := h
    obtain ⟨⟨w', next⟩, called, same⟩ := Option.map_eq_some_iff.mp written
    cases same
    obtain ⟨sends, kept, frame⟩ := WriteFull.call_sends sends called
    exact ⟨afterSize_sound valid (kept.trans data) sends taken, frame⟩
  | writingPayload w =>
    obtain ⟨valid, data, sends, taken⟩ := h
    obtain ⟨⟨w', next⟩, called, same⟩ := Option.map_eq_some_iff.mp written
    cases same
    obtain ⟨sends, kept, frame⟩ := WriteFull.call_sends sends called
    exact ⟨afterPayload_sound valid (kept.trans data) sends taken, frame⟩
  | readingResult | failed | waiting | returned | dead => cases written

theorem read_sound (h : p.Sound vec size down up) (read : p.read up call = some (p', up')) :
    p'.Sound vec size down up' ∧ up'.written = up.written := by
  cases p with
  | readingResult r =>
    obtain ⟨wire, length, takes⟩ := h
    obtain ⟨⟨r', next⟩, called, same⟩ := Option.map_eq_some_iff.mp read
    cases same
    obtain ⟨takes, kept, frame⟩ := ReadFull.call_takes takes called
    exact ⟨afterResult_sound wire (kept.trans length) takes, frame⟩
  | writingSize | writingPayload | failed | waiting | returned | dead => cases read

/-- The child reads what the parent has written, and writes what the parent will read. -/
theorem Sound.frame (h : p.Sound vec size down up) (written : down'.written = down.written)
    (taken : up'.taken = up.taken) (more : up.written <+: up'.written) :
    p.Sound vec size down' up' := by
  have wire : Wire vec down'.written := written ▸ h.wire
  cases p with
  | writingSize w =>
    obtain ⟨valid, data, sends, start⟩ := h
    exact ⟨valid, data, sends.taken written, taken.trans start⟩
  | writingPayload w =>
    obtain ⟨valid, data, sends, start⟩ := h
    exact ⟨valid, data, sends.taken written, taken.trans start⟩
  | readingResult r => exact ⟨wire, h.2.1, h.2.2.written taken more⟩
  | waiting ret => cases ret with
    | none => exact wire
    | some => exact ⟨wire, h.2.1, h.2.2.trans more⟩
  | returned ret => cases ret with
    | none => exact wire
    | some => exact ⟨wire, h.2.1, h.2.2.trans more⟩
  | failed => exact wire
  | dead => exact wire

end Parent

/-! ### The child -/

namespace Child

variable {down down' up up' : Pipe UInt8} {c c' : Child} {call : Outcome}

/-- A child that has read a part of what is on the wire. -/
theorem read_exact {r : ReadFull} {first : Nat} (wire : Wire vec down.written)
    (takes : r.Takes first down) (returned : r.result = some true)
    (positive : 0 < first + r.buf.length) :
    accepted vec ∧ down.taken = first + r.buf.length ∧
      r.buf = ((sizeBytes vec ++ vec).drop first).take r.buf.length := by
  have received := takes.received
  rw [(takes.result returned).mp rfl] at received
  cases wire with
  | inl empty =>
    have there := received.there
    rw [empty, List.length_nil] at there
    omega
  | inr wire => exact ⟨wire.1, received.1, received.exact wire.2⟩

theorem afterPayload_sound {r : ReadFull} (wire : Wire o.serialize down.written)
    (valid : accepted o.serialize) (length : r.buf.length = o.serialize.length)
    (takes : r.Takes 8 down) (silent : up.written = []) :
    (afterPayload r).Sound o size down up := by
  have failed : (ended none [] false).Sound o size down up := by simp [Sound, silent]
  unfold afterPayload
  split
  · exact ⟨valid, length, takes, silent⟩
  · exact failed
  · rename_i returned
    obtain ⟨-, -, payload⟩ := read_exact wire takes returned (by omega)
    rw [← sizeBytes_length o.serialize, List.drop_left, length, List.take_length] at payload
    rw [payload, deserialize_accepted valid]
    exact ⟨⟨rfl, valid⟩, silent⟩

theorem afterSize_sound {r : ReadFull} (wire : Wire o.serialize down.written)
    (length : r.buf.length = 8) (takes : r.Takes 0 down) (silent : up.written = []) :
    (afterSize r).Sound o size down up := by
  have failed : (ended none [] false).Sound o size down up := by simp [Sound, silent]
  unfold afterSize
  split
  · exact ⟨length, takes, silent⟩
  · exact failed
  · rename_i returned
    obtain ⟨valid, taken, prefixed⟩ := read_exact wire takes returned (by omega)
    rw [length, ← sizeBytes_length o.serialize, List.drop_zero, List.take_left] at prefixed
    dsimp only
    split
    · exact failed
    · rw [prefixed, payloadSize_sizeBytes valid, Int.toNat_natCast]
      apply afterPayload_sound wire valid List.length_replicate (ReadFull.start_takes _ _) silent
      omega

theorem afterResult_sound {d : Decoded} {w : WriteFull} (exact : Exact o d)
    (length : w.data.length = size) (sends : w.Sends [] up) :
    (afterResult d w).Sound o size down up := by
  unfold afterResult
  split
  · exact ⟨exact, length, sends⟩
  · have sent : up.written = [] ++ w.data.take w.put := sends.sent
    refine ⟨?_, by simp, by simp, length.le, ?_⟩
    · rintro d' ⟨⟩
      exact exact
    · rw [sent]
      exact List.take_prefix _ _

theorem read_sound (h : c.Sound o size down up) (wire : Wire o.serialize down.written)
    (read : c.read down call = some (c', down')) :
    c'.Sound o size down' up ∧ down'.written = down.written := by
  cases c with
  | readingSize r =>
    obtain ⟨length, takes, silent⟩ := h
    obtain ⟨⟨r', next⟩, called, same⟩ := Option.map_eq_some_iff.mp read
    cases same
    obtain ⟨takes, kept, written⟩ := ReadFull.call_takes takes called
    exact ⟨afterSize_sound (written ▸ wire) (kept.trans length) takes silent, written⟩
  | readingPayload r =>
    obtain ⟨valid, length, takes, silent⟩ := h
    obtain ⟨⟨r', next⟩, called, same⟩ := Option.map_eq_some_iff.mp read
    cases same
    obtain ⟨takes, kept, written⟩ := ReadFull.call_takes takes called
    exact ⟨afterPayload_sound (written ▸ wire) valid (kept.trans length) takes silent, written⟩
  | starting | running | writingResult | ended => cases read

theorem write_sound (h : c.Sound o size down up) (written : c.write up call = some (c', up')) :
    c'.Sound o size down up' ∧ up'.taken = up.taken ∧ up.written <+: up'.written := by
  cases c with
  | writingResult d w =>
    obtain ⟨exact, length, sends⟩ := h
    obtain ⟨⟨w', next⟩, called, same⟩ := Option.map_eq_some_iff.mp written
    cases same
    obtain ⟨sends, kept, frame⟩ := WriteFull.call_sends sends called
    exact ⟨afterResult_sound exact (kept ▸ length) sends, frame⟩
  | starting | readingSize | readingPayload | running | ended => cases written

theorem dies_sound (h : c.Sound o size down up) :
    (ended c.decoded c.result false).Sound o size down up := by
  cases c with
  | starting => simp [Sound, decoded, result, h.2]
  | readingSize => simp [Sound, decoded, result, h.2.2]
  | readingPayload => simp [Sound, decoded, result, h.2.2.2]
  | running d => simpa [Sound, decoded, result, h.2] using h.1
  | writingResult d w =>
    obtain ⟨exact, length, sends⟩ := h
    have sent : up.written = [] ++ w.data.take w.put := sends.sent
    refine ⟨?_, by simp, by simp [decoded], length.le, ?_⟩
    · rintro d' ⟨⟩
      exact exact
    · rw [sent]
      exact List.take_prefix _ _
  | ended d res success => exact ⟨h.1, fun _ => rfl, h.2.2.1, h.2.2.2⟩

/-- The parent writes what the child will read, and reads what the child has written. -/
theorem Sound.frame (h : c.Sound o size down up) (taken : down'.taken = down.taken)
    (more : down.written <+: down'.written) (written : up'.written = up.written) :
    c.Sound o size down' up' := by
  cases c with
  | starting => exact ⟨taken.trans h.1, written.trans h.2⟩
  | readingSize => exact ⟨h.1, h.2.1.written taken more, written.trans h.2.2⟩
  | readingPayload => exact ⟨h.1, h.2.1, h.2.2.1.written taken more, written.trans h.2.2.2⟩
  | running => exact ⟨h.1, written.trans h.2⟩
  | writingResult => exact ⟨h.1, h.2.1, h.2.2.taken written⟩
  | ended => exact ⟨h.1, h.2.1, h.2.2.1, h.2.2.2.1, written ▸ h.2.2.2.2⟩

theorem Sound.exact {d : Decoded} (h : c.Sound o size down up) (decoded : d ∈ c.decoded) :
    Exact o d := by
  cases c with
  | running =>
    cases decoded
    exact h.1
  | writingResult =>
    cases decoded
    exact h.1
  | ended => exact h.1 d decoded
  | starting | readingSize | readingPayload => cases decoded

end Child

/-! ### Both -/

variable {s t : Processes} {l : ProcessLabel}

theorem step_sound (h : s.Sound o size) (step : s.step o.serialize size l = some t) :
    t.Sound o size := by
  cases l with
  | execl ok =>
    dsimp only [Processes.step] at step
    split at step
    · rename_i starting
      have child := h.child
      rw [starting] at child
      cases step
      refine ⟨h.parent, ?_⟩
      cases ok with
      | true =>
        exact Child.afterSize_sound h.parent.wire List.length_replicate
          (ReadFull.start_takes _ child.1) child.2
      | false => simp [Child.Sound, child.2]
    · cases step
  | parentWrite call =>
    obtain ⟨⟨parent, down⟩, written, same⟩ := Option.map_eq_some_iff.mp step
    cases same
    obtain ⟨parent, taken, more⟩ := Parent.write_sound h.parent written
    exact ⟨parent, h.child.frame taken more rfl⟩
  | parentRead call =>
    obtain ⟨⟨parent, up⟩, read, same⟩ := Option.map_eq_some_iff.mp step
    cases same
    obtain ⟨parent, written⟩ := Parent.read_sound h.parent read
    exact ⟨parent, h.child.frame rfl List.prefix_rfl written⟩
  | childRead call =>
    obtain ⟨⟨child, down⟩, read, same⟩ := Option.map_eq_some_iff.mp step
    cases same
    obtain ⟨child, written⟩ := Child.read_sound h.child h.parent.wire read
    exact ⟨h.parent.frame written rfl List.prefix_rfl, child⟩
  | cjail res =>
    dsimp only [Processes.step] at step
    split at step
    · rename_i d running
      have child := h.child
      rw [running] at child
      split at step
      · rename_i length
        cases step
        exact ⟨h.parent, Child.afterResult_sound child.1 length (WriteFull.start_sends _ child.2)⟩
      · cases step
    · cases step
  | childWrite call =>
    obtain ⟨⟨child, up⟩, written, same⟩ := Option.map_eq_some_iff.mp step
    cases same
    obtain ⟨child, taken, more⟩ := Child.write_sound h.child written
    exact ⟨h.parent.frame rfl taken more, child⟩
  | childDies =>
    dsimp only [Processes.step] at step
    split at step
    · cases step
    · cases step
      exact ⟨h.parent, Child.dies_sound h.child⟩
  | kill =>
    dsimp only [Processes.step] at step
    split at step
    · cases step
      exact ⟨h.parent.wire, h.child⟩
    · cases step
  | waitpid =>
    dsimp only [Processes.step] at step
    split at step
    · rename_i ret _ _ _ waiting _
      have parent := h.parent
      rw [waiting] at parent
      cases step
      refine ⟨?_, h.child⟩
      cases ret with
      | none => exact parent
      | some => exact parent
    · cases step
  | parentDies =>
    dsimp only [Processes.step] at step
    split at step
    · cases step
    · cases step
      exact ⟨h.parent.wire, h.child⟩

theorem sandboxExec_sound (h : (sandboxExec o size).Reach anyStep s) : s.Sound o size := by
  apply h.invariant
  · exact ⟨Parent.start_sound _ _, rfl, rfl⟩
  · intro a l b _ sound _ step
    exact step_sound sound step

/-! ### The end -/

theorem Parent.afterResult_continues (r : ReadFull) (ret : Option (List UInt8)) :
    Parent.afterResult r ≠ .returned ret := by
  unfold Parent.afterResult
  split <;> simp

theorem Parent.afterPayload_continues (w : WriteFull) (ret : Option (List UInt8)) :
    Parent.afterPayload size w ≠ .returned ret := by
  unfold Parent.afterPayload
  split <;> simp [afterResult_continues]

theorem Parent.afterSize_continues (w : WriteFull) (ret : Option (List UInt8)) :
    Parent.afterSize vec size w ≠ .returned ret := by
  unfold Parent.afterSize
  split <;> simp [afterPayload_continues]

/-- Who takes a step. The parent returns only from `waitpid`, and a child that ended does nothing. -/
inductive Moves (s : Processes) : Processes → Prop where
  | parent {parent down up} (continues : ∀ ret, parent ≠ .returned ret) :
    Moves s ⟨parent, s.child, down, up⟩
  | returns {ret d res success} (ended : s.child = .ended d res success) :
    Moves s { s with parent := .returned ret }
  | child {child down up} (alive : ∀ d res success, s.child ≠ .ended d res success) :
    Moves s ⟨s.parent, child, down, up⟩

theorem step_moves (step : s.step vec size l = some t) : Moves s t := by
  obtain ⟨parent, child, down, up⟩ := s
  cases l with
  | execl ok =>
    cases child with
    | starting =>
      cases step
      exact .child (by simp)
    | _ => cases step
  | parentWrite call =>
    obtain ⟨⟨parent', down'⟩, written, same⟩ := Option.map_eq_some_iff.mp step
    cases same
    refine .parent fun ret => ?_
    cases parent with
    | writingSize =>
      obtain ⟨_, _, same⟩ := Option.map_eq_some_iff.mp written
      cases same
      exact Parent.afterSize_continues _ ret
    | writingPayload =>
      obtain ⟨_, _, same⟩ := Option.map_eq_some_iff.mp written
      cases same
      exact Parent.afterPayload_continues _ ret
    | _ => cases written
  | parentRead call =>
    obtain ⟨⟨parent', up'⟩, read, same⟩ := Option.map_eq_some_iff.mp step
    cases same
    refine .parent fun ret => ?_
    cases parent with
    | readingResult =>
      obtain ⟨_, _, same⟩ := Option.map_eq_some_iff.mp read
      cases same
      exact Parent.afterResult_continues _ ret
    | _ => cases read
  | childRead call =>
    obtain ⟨⟨child', down'⟩, read, same⟩ := Option.map_eq_some_iff.mp step
    cases same
    refine .child fun d res success ended => ?_
    rw [ended] at read
    cases read
  | cjail res =>
    cases child with
    | running =>
      dsimp only [Processes.step] at step
      split at step
      · cases step
        exact .child (by simp)
      · cases step
    | _ => cases step
  | childWrite call =>
    obtain ⟨⟨child', up'⟩, written, same⟩ := Option.map_eq_some_iff.mp step
    cases same
    refine .child fun d res success ended => ?_
    rw [ended] at written
    cases written
  | childDies =>
    cases child with
    | ended => cases step
    | _ =>
      cases step
      exact .child (by simp)
  | kill =>
    cases parent with
    | failed =>
      cases step
      exact .parent (by simp)
    | _ => cases step
  | waitpid =>
    dsimp only [Processes.step] at step
    split at step
    · cases step
      exact .returns rfl
    · cases step
  | parentDies =>
    cases parent with
    | returned => cases step
    | _ =>
      cases step
      exact .parent (by simp)

theorem returned_ended (h : (sandboxExec o size).Reach anyStep s) :
    ∀ ret, s.parent = .returned ret → ∃ d res success, s.child = .ended d res success := by
  apply h.invariant (I := fun s => ∀ ret, s.parent = .returned ret →
    ∃ d res success, s.child = .ended d res success)
  · intro ret returned
    dsimp only [sandboxExec, Parent.start] at returned
    split at returned
    · cases returned
    · exact absurd returned (Parent.afterSize_continues _ ret)
  · intro a l b _ ended _ step ret returned
    cases step_moves step with
    | parent continues => exact absurd returned (continues ret)
    | returns gone => exact ⟨_, _, _, gone⟩
    | child alive =>
      obtain ⟨d, res, success, gone⟩ := ended ret returned
      exact absurd gone (alive d res success)

/-- What `SandboxExec` returns is what the child had from `cjail_exec`, for these options. -/
theorem returned_result {ret : List UInt8} (h : (sandboxExec o size).Reach anyStep s)
    (returned : s.parent = .returned (some ret)) (positive : 0 < size) :
    ret = s.child.result ∧ s.child.decoded = some ⟨o.serialize, o⟩ := by
  obtain ⟨d, res, success, ended⟩ := returned_ended h _ returned
  obtain ⟨parent, child⟩ := sandboxExec_sound h
  rw [returned] at parent
  rw [ended] at child ⊢
  obtain ⟨-, length, read⟩ := parent
  obtain ⟨exact, -, silent, le, written⟩ := child
  have same : ret = res := (read.trans written).eq_of_length_le (by omega)
  refine ⟨same, ?_⟩
  cases d with
  | none =>
    rw [same, silent rfl, List.length_nil] at length
    omega
  | some d => rw [Child.decoded, (exact d rfl).1]

/-! ### The way of a payload -/

theorem start_running {bytes : List UInt8} (nonempty : bytes ≠ []) :
    (WriteFull.start bytes).result = none ∧ (ReadFull.start bytes).result = none := by
  simp [WriteFull.start, ReadFull.start, WriteFull.result, ReadFull.result, loopResult,
    List.length_pos_iff, nonempty]

theorem zeros_nonempty {n : Nat} (positive : 0 < n) : List.replicate n (0 : UInt8) ≠ [] := by
  simp [positive.ne']

theorem Parent.start_accepted (valid : accepted vec) :
    start vec size = .writingSize (.start (sizeBytes vec)) := by
  have nonempty : sizeBytes vec ≠ [] := List.ne_nil_of_length_eq_add_one (sizeBytes_length vec)
  have small : ¬ kSandboxMaxPayload < vec.length := not_lt.mpr valid.2
  have running := (start_running nonempty).1
  unfold sizeBytes at running
  simp [start, List.isEmpty_iff, valid.1, small, afterSize, running, sizeBytes]

/-- A loop that is through. -/
theorem whole_result (bytes : List UInt8) {n : Nat} (through : bytes.length = n) :
    (⟨bytes, n, false⟩ : WriteFull).result = some true ∧
      (⟨bytes, n, false⟩ : ReadFull).result = some true := by
  simp [WriteFull.result, ReadFull.result, loopResult, through]

theorem Parent.afterSize_written (nonempty : vec ≠ []) :
    afterSize vec size ⟨sizeBytes vec, 8, false⟩ = .writingPayload (.start vec) := by
  rw [afterSize, (whole_result _ (sizeBytes_length vec)).1]
  dsimp only
  rw [afterPayload, (start_running nonempty).1]

theorem Child.afterSize_read (valid : accepted vec) :
    afterSize ⟨sizeBytes vec, 8, false⟩ =
      .readingPayload (.start (List.replicate vec.length 0)) := by
  have positive : 0 < vec.length := List.length_pos_iff.mpr valid.1
  have small : vec.length ≤ kSandboxMaxPayload := valid.2
  rw [afterSize, (whole_result _ (sizeBytes_length vec)).2]
  dsimp only
  rw [payloadSize_sizeBytes valid, if_neg (by omega), Int.toNat_natCast, afterPayload,
    (start_running (zeros_nonempty positive)).2]

theorem Child.afterPayload_read (valid : accepted o.serialize) :
    afterPayload ⟨o.serialize, o.serialize.length, false⟩ = .running ⟨o.serialize, o⟩ := by
  rw [afterPayload, (whole_result _ rfl).2]
  dsimp only
  rw [deserialize_accepted valid]

/-- What is read in one call, from where the reader stands. -/
theorem read_whole {p : Pipe UInt8} {n first : Nat} (positive : 0 < n) (taken : p.taken = first)
    (wire : Wire vec p.written) (there : first + n ≤ p.written.length) :
    ∃ p', (ReadFull.start (List.replicate n 0)).call p (.transferred n) =
        some (⟨((sizeBytes vec ++ vec).drop first).take n, n, false⟩, p') ∧
      p'.taken = first + n ∧ p'.written = p.written := by
  obtain ⟨buf, p', called, length⟩ :=
    ReadFull.call_all (p := p) (zeros_nonempty positive) (by simpa [taken] using there)
  rw [List.length_replicate] at called length
  obtain ⟨takes, -, written⟩ := ReadFull.call_takes (ReadFull.start_takes _ taken) called
  obtain ⟨-, -, same⟩ :=
    Child.read_exact (written ▸ wire) takes (whole_result buf length).2 (by dsimp only; omega)
  dsimp only at same
  rw [length] at same
  exact ⟨p', same ▸ called, takes.received.1, written⟩

/-- The pipe with the size and the payload in it. -/
def loaded (vec : List UInt8) : Pipe UInt8 := (Pipe.empty.push (sizeBytes vec)).push vec

theorem payload_sent (valid : accepted o.serialize) (size : Nat) :
    ∃ parent, (sandboxExec o size).Reach anyStep
      ⟨parent, .starting, loaded o.serialize, .empty⟩ := by
  have nonempty : sizeBytes o.serialize ≠ [] :=
    List.ne_nil_of_length_eq_add_one (sizeBytes_length o.serialize)
  have sizeWritten : (sandboxExec o size).Reach anyStep
      ⟨.writingPayload (.start o.serialize), .starting, Pipe.empty.push (sizeBytes o.serialize),
        .empty⟩ := by
    apply Reach.init.step (l := .parentWrite (.transferred (sizeBytes o.serialize).length)) trivial
    change ((Parent.start o.serialize size).write _ _ _ _).map _ = _
    rw [Parent.start_accepted valid, Parent.write, WriteFull.call_all nonempty]
    dsimp only [Option.map_some]
    rw [sizeBytes_length, Parent.afterSize_written valid.1]
    rfl
  refine ⟨.afterPayload size ⟨o.serialize, o.serialize.length, false⟩, ?_⟩
  apply sizeWritten.step (l := .parentWrite (.transferred o.serialize.length)) trivial
  change ((Parent.writingPayload _).write _ _ _ _).map _ = _
  rw [Parent.write, WriteFull.call_all valid.1]
  rfl

theorem reach_childRead {child : Child} {down : Pipe UInt8} {call : Outcome}
    (h : (sandboxExec o size).Reach anyStep s)
    (read : s.child.read s.down call = some (child, down)) :
    (sandboxExec o size).Reach anyStep { s with child, down } :=
  h.step (l := .childRead call) trivial (Option.map_eq_some_iff.mpr ⟨(child, down), read, rfl⟩)

/-- Options that serialize to an accepted payload do arrive; here each call transfers everything. -/
theorem payload_arrives (valid : accepted o.serialize) (size : Nat) :
    ∃ s, (sandboxExec o size).Reach anyStep s ∧ s.child = .running ⟨o.serialize, o⟩ := by
  obtain ⟨parent, sent⟩ := payload_sent valid size
  have positive : 0 < o.serialize.length := List.length_pos_iff.mpr valid.1
  have length : (loaded o.serialize).written.length = 8 + o.serialize.length := by
    simp [loaded, sizeBytes_length]
  have wire : Wire o.serialize (loaded o.serialize).written := .inr ⟨valid, List.prefix_rfl⟩
  have started : (sandboxExec o size).Reach anyStep
      ⟨parent, .readingSize (.start (List.replicate 8 0)), loaded o.serialize, .empty⟩ :=
    sent.step (l := .execl true) trivial rfl
  have sizeRead : ∃ down, down.taken = 8 ∧ down.written = (loaded o.serialize).written ∧
      (sandboxExec o size).Reach anyStep
        ⟨parent, .readingPayload (.start (List.replicate o.serialize.length 0)), down, .empty⟩ := by
    obtain ⟨down, read, taken, written⟩ :=
      read_whole (n := 8) (by decide) (show (loaded o.serialize).taken = 0 from rfl) wire (by omega)
    refine ⟨down, taken, written, ?_⟩
    have prefixed : (sizeBytes o.serialize ++ o.serialize).take 8 = sizeBytes o.serialize := by
      rw [← sizeBytes_length o.serialize, List.take_left]
    have called : Child.read (loaded o.serialize) (.transferred 8)
        (.readingSize (.start (List.replicate 8 0))) =
          some (.readingPayload (.start (List.replicate o.serialize.length 0)), down) := by
      rw [Child.read, read, List.drop_zero, prefixed, Option.map_some]
      dsimp only
      rw [Child.afterSize_read valid]
    exact reach_childRead started called
  obtain ⟨down, taken, written, sizeRead⟩ := sizeRead
  obtain ⟨down', read, -⟩ := read_whole positive taken (written ▸ wire) (by rw [written]; omega)
  have rest : ((sizeBytes o.serialize ++ o.serialize).drop 8).take o.serialize.length =
      o.serialize := by
    rw [← sizeBytes_length o.serialize, List.drop_left, List.take_length]
  have called : Child.read down (.transferred o.serialize.length)
      (.readingPayload (.start (List.replicate o.serialize.length 0))) =
        some (.running ⟨o.serialize, o⟩, down') := by
    rw [Child.read, read, rest, Option.map_some]
    dsimp only
    rw [Child.afterPayload_read valid]
  exact ⟨_, reach_childRead sizeRead called, rfl⟩

theorem payload_exact :
    (∀ (data buf : List UInt8) (s : Transfer), buf.length = data.length →
      (transfer data buf).Reach anyStep s →
      (s.reader.result = some true → s.reader.buf = data) ∧
      (∀ ok, s.writer.result = some ok → (ok = true ↔ s.writer.put = data.length)) ∧
      (∀ ok, s.reader.result = some ok → (ok = true ↔ s.reader.got = data.length))) ∧
    ∀ (o : SandboxOptions) (size : Nat) (s : Processes), (sandboxExec o size).Reach anyStep s →
      (∀ d, s.child.decoded = some d → d = ⟨o.serialize, o⟩ ∧
        o.serialize ≠ [] ∧ o.serialize.length ≤ kSandboxMaxPayload) ∧
      (∀ d res success, s.child = .ended d res success →
        d = some ⟨o.serialize, o⟩ ∨ success = false) ∧
      (∀ ret, s.parent = .returned ret → ∃ d res success, s.child = .ended d res success) := by
  constructor
  · intro data buf s length h
    exact transfer_exact length h
  · intro o size s h
    have sound := sandboxExec_sound h
    refine ⟨fun d decoded => sound.child.exact decoded, ?_, returned_ended h⟩
    intro d res success ended
    have child := sound.child
    rw [ended] at child
    cases d with
    | none => exact .inr (child.2.1 rfl)
    | some d => exact .inl (congrArg some (child.1 d rfl).1)

end Sound

end TiojJudge.Sandbox
