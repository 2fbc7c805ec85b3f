import TiojJudge.Machine
import TiojJudge.Pipe
import TiojJudge.Sandbox.Options

/-!
# ReadFull and WriteFull

The loops of `sandbox_io.h`, call by call. What a call does is up to the environment.

* `WriteFull.call`, `ReadFull.call`: one turn of the loop;
* `WriteFull.Sends`, `ReadFull.Takes`: how far a loop has got, in its pipe;
* `transfer_exact`: what was read is what was written.
-/

namespace TiojJudge.Sandbox

open Machine

/-- What `read` or `write` does. -/
inductive Outcome where
  /-- It returns `k`; a `read` returns 0 at the end of file. -/
  | transferred (k : Nat)
  /-- -1, with `EINTR`. -/
  | interrupted
  /-- -1, with another `errno`. -/
  | failed
  deriving DecidableEq

/-- What a loop returns, once it does. -/
def loopResult (stopped : Bool) (count n : Nat) : Option Bool :=
  if stopped then some false else if count < n then none else some true

structure WriteFull where
  data : List UInt8
  put : Nat
  /-- It has returned from inside the loop. -/
  stopped : Bool

structure ReadFull where
  buf : List UInt8
  got : Nat
  stopped : Bool

namespace WriteFull

def start (data : List UInt8) : WriteFull := ⟨data, 0, false⟩

def result (w : WriteFull) : Option Bool := loopResult w.stopped w.put w.data.length

def call (w : WriteFull) (p : Pipe UInt8) (o : Outcome) : Option (WriteFull × Pipe UInt8) :=
  if w.result ≠ none then none
  else
    match o with
    | .interrupted => some (w, p)
    | .failed => some ({ w with stopped := true }, p)
    | .transferred k =>
      if k = 0 then some ({ w with stopped := true }, p)
      else if k ≤ w.data.length - w.put then
        some ({ w with put := w.put + k }, p.push ((w.data.drop w.put).take k))
      else none

end WriteFull

namespace ReadFull

def start (buf : List UInt8) : ReadFull := ⟨buf, 0, false⟩

def result (r : ReadFull) : Option Bool := loopResult r.stopped r.got r.buf.length

def call (r : ReadFull) (p : Pipe UInt8) (o : Outcome) : Option (ReadFull × Pipe UInt8) :=
  if r.result ≠ none then none
  else
    match o with
    | .interrupted => some (r, p)
    | .failed => some ({ r with stopped := true }, p)
    | .transferred k =>
      if k = 0 then some ({ r with stopped := true }, p)
      else if k ≤ r.buf.length - r.got then
        (p.pull k).map fun (bytes, p) =>
          ({ r with buf := writeAt r.buf r.got bytes, got := r.got + k }, p)
      else none

end ReadFull

/-! ## The loops -/

section Loops

variable {stopped ok : Bool} {count n : Nat}

theorem loopResult_running (running : loopResult stopped count n = none) :
    stopped = false ∧ count < n := by
  unfold loopResult at running
  split at running
  · cases running
  · split at running
    · exact ⟨by simpa using ‹¬ stopped = true›, ‹_›⟩
    · cases running

/-- A loop that stops early returns `false`. -/
theorem loopResult_returned (returned : loopResult stopped count n = some ok) (bound : count ≤ n)
    (early : stopped = true → count < n) : ok = true ↔ count = n := by
  unfold loopResult at returned
  split at returned
  · have less := early ‹_›
    cases returned
    simp only [Bool.false_eq_true, false_iff]
    omega
  · split at returned
    · cases returned
    · cases returned
      simp only [true_iff]
      omega

end Loops

/-- The loop has put its first `put` bytes behind `before`. -/
structure WriteFull.Sends (w : WriteFull) (before : List UInt8) (p : Pipe UInt8) : Prop where
  bound : w.put ≤ w.data.length
  early : w.stopped = true → w.put < w.data.length
  sent : p.Sent before w.data w.put

/-- The loop has taken the first `got` bytes of its buffer since `start`. -/
structure ReadFull.Takes (r : ReadFull) (start : Nat) (p : Pipe UInt8) : Prop where
  bound : r.got ≤ r.buf.length
  early : r.stopped = true → r.got < r.buf.length
  received : p.Received start r.buf r.got

section Calls

variable {w w' : WriteFull} {r r' : ReadFull} {before xs bytes : List UInt8} {first k : Nat}
  {p p' : Pipe UInt8} {o : Outcome} {ok : Bool}

theorem WriteFull.start_sends (data : List UInt8) (h : p.written = before) :
    (WriteFull.start data).Sends before p where
  bound := Nat.zero_le _
  early := by rintro ⟨⟩
  sent := by simp [Pipe.Sent, h, start]

theorem ReadFull.start_takes (buf : List UInt8) (h : p.taken = first) :
    (ReadFull.start buf).Takes first p where
  bound := Nat.zero_le _
  early := by rintro ⟨⟩
  received := ⟨h, by simp [start]⟩

theorem WriteFull.call_sends (sends : w.Sends before p) (called : w.call p o = some (w', p')) :
    w'.Sends before p' ∧ w'.data = w.data ∧ p'.taken = p.taken ∧ p.written <+: p'.written := by
  obtain ⟨bound, -, sent⟩ := sends
  unfold call at called
  split_ifs at called with returned
  have running := loopResult_running (Decidable.not_not.mp returned)
  cases o with
  | interrupted =>
    cases called
    exact ⟨⟨bound, fun _ => running.2, sent⟩, rfl, rfl, List.prefix_rfl⟩
  | failed =>
    cases called
    exact ⟨⟨bound, fun _ => running.2, sent⟩, rfl, rfl, List.prefix_rfl⟩
  | transferred k =>
    dsimp only at called
    split_ifs at called with none fits
    · cases called
      exact ⟨⟨bound, fun _ => running.2, sent⟩, rfl, rfl, List.prefix_rfl⟩
    · cases called
      refine ⟨⟨?_, fun stopped => ?_, sent.push⟩, rfl, rfl, List.prefix_append _ _⟩
      · change w.put + k ≤ w.data.length
        omega
      · cases running.1.symm.trans stopped

theorem take_writeAt {buf : List UInt8} (fits : first + bytes.length ≤ buf.length) :
    (writeAt buf first bytes).take (first + bytes.length) = buf.take first ++ bytes := by
  have length : (buf.take first ++ bytes).length = first + bytes.length := by
    rw [List.length_append, List.length_take]
    omega
  rw [writeAt, ← length, List.take_left]

theorem length_writeAt {buf : List UInt8} (fits : first + bytes.length ≤ buf.length) :
    (writeAt buf first bytes).length = buf.length := by
  simp only [writeAt, List.length_append, List.length_take, List.length_drop]
  omega

theorem ReadFull.call_takes (takes : r.Takes first p) (called : r.call p o = some (r', p')) :
    r'.Takes first p' ∧ r'.buf.length = r.buf.length ∧ p'.written = p.written := by
  obtain ⟨bound, -, received⟩ := takes
  unfold call at called
  split_ifs at called with returned
  have running := loopResult_running (Decidable.not_not.mp returned)
  cases o with
  | interrupted =>
    cases called
    exact ⟨⟨bound, fun _ => running.2, received⟩, rfl, rfl⟩
  | failed =>
    cases called
    exact ⟨⟨bound, fun _ => running.2, received⟩, rfl, rfl⟩
  | transferred k =>
    dsimp only at called
    split_ifs at called with none fits
    · cases called
      exact ⟨⟨bound, fun _ => running.2, received⟩, rfl, rfl⟩
    · obtain ⟨⟨bytes, next⟩, pulled, same⟩ := Option.map_eq_some_iff.mp called
      cases same
      obtain ⟨written, -, there, taken⟩ := Pipe.pull_eq pulled
      have length : bytes.length = k := by
        rw [taken, List.length_take, List.length_drop]
        omega
      subst length
      have fits : r.got + bytes.length ≤ r.buf.length := by omega
      refine ⟨⟨?_, fun stopped => ?_, received.pull pulled (take_writeAt fits)⟩,
        length_writeAt fits, written⟩
      · change _ ≤ (writeAt r.buf r.got bytes).length
        rw [length_writeAt fits]
        exact fits
      · cases running.1.symm.trans stopped

/-- A call that writes everything. -/
theorem WriteFull.call_all {data : List UInt8} (nonempty : data ≠ []) :
    (start data).call p (.transferred data.length) =
      some (⟨data, data.length, false⟩, p.push data) := by
  have length : 0 < data.length := List.length_pos_iff.mpr nonempty
  have running : (start data).result = none := by simp [start, WriteFull.result, loopResult, length]
  rw [call, running, if_neg (not_not.mpr rfl)]
  simp [start, length.ne']

theorem ReadFull.call_all {buf : List UInt8} (nonempty : buf ≠ [])
    (there : p.taken + buf.length ≤ p.written.length) :
    ∃ buf' p', (start buf).call p (.transferred buf.length) =
      some (⟨buf', buf.length, false⟩, p') ∧ buf'.length = buf.length := by
  have length : 0 < buf.length := List.length_pos_iff.mpr nonempty
  have running : (start buf).result = none := by simp [start, ReadFull.result, loopResult, length]
  have bytes : ((p.written.drop p.taken).take buf.length).length = buf.length := by
    rw [List.length_take, List.length_drop]
    omega
  obtain ⟨p', pulled⟩ := Pipe.pull_there there
  refine ⟨writeAt buf 0 ((p.written.drop p.taken).take buf.length), p', ?_, ?_⟩
  · rw [call, running, if_neg (not_not.mpr rfl)]
    simp [start, length.ne', pulled]
  · exact length_writeAt (by omega)

theorem WriteFull.Sends.result (sends : w.Sends before p) (returned : w.result = some ok) :
    ok = true ↔ w.put = w.data.length :=
  loopResult_returned returned sends.bound sends.early

theorem ReadFull.Takes.result (takes : r.Takes first p) (returned : r.result = some ok) :
    ok = true ↔ r.got = r.buf.length :=
  loopResult_returned returned takes.bound takes.early

end Calls

/-! ## Two ends of one pipe -/

structure Transfer where
  writer : WriteFull
  reader : ReadFull
  pipe : Pipe UInt8

inductive TransferLabel where
  | write (o : Outcome)
  | read (o : Outcome)
  deriving DecidableEq

/-- `WriteFull` of the data at one end, `ReadFull` into the buffer at the other. -/
def transfer (data buf : List UInt8) : Machine Transfer TransferLabel where
  init := ⟨.start data, .start buf, .empty⟩
  step s
    | .write o => (s.writer.call s.pipe o).map fun (writer, pipe) => ⟨writer, s.reader, pipe⟩
    | .read o => (s.reader.call s.pipe o).map fun (reader, pipe) => ⟨s.writer, reader, pipe⟩

/-- A reader is not disturbed by what is written behind its bytes. -/
theorem ReadFull.Takes.written {r : ReadFull} {first : Nat} {p p' : Pipe UInt8}
    (takes : r.Takes first p) (taken : p'.taken = p.taken) (more : p.written <+: p'.written) :
    r.Takes first p' where
  bound := takes.bound
  early := takes.early
  received := by
    obtain ⟨xs, more⟩ := more
    have pushed : (p.push xs).Received first r.buf r.got := takes.received.push
    exact ⟨taken.trans pushed.1, by rw [← more]; exact pushed.2⟩

theorem WriteFull.Sends.taken {w : WriteFull} {before : List UInt8} {p p' : Pipe UInt8}
    (sends : w.Sends before p) (written : p'.written = p.written) : w.Sends before p' where
  bound := sends.bound
  early := sends.early
  sent := written.trans sends.sent

section Transfer

variable {data buf : List UInt8} {s : Transfer}

structure Transfer.Sound (data : List UInt8) (n : Nat) (s : Transfer) : Prop where
  data : s.writer.data = data
  length : s.reader.buf.length = n
  sends : s.writer.Sends [] s.pipe
  takes : s.reader.Takes 0 s.pipe

theorem transfer_sound (h : (transfer data buf).Reach anyStep s) : s.Sound data buf.length := by
  apply h.invariant
  · exact ⟨rfl, rfl, WriteFull.start_sends data rfl, ReadFull.start_takes buf rfl⟩
  · rintro a l b - sound - step
    cases l with
    | write o =>
      obtain ⟨⟨writer, pipe⟩, called, same⟩ := Option.map_eq_some_iff.mp step
      cases same
      obtain ⟨sends, data, taken, more⟩ := WriteFull.call_sends sound.sends called
      exact ⟨data.trans sound.data, sound.length, sends, sound.takes.written taken more⟩
    | read o =>
      obtain ⟨⟨reader, pipe⟩, called, same⟩ := Option.map_eq_some_iff.mp step
      cases same
      obtain ⟨takes, length, written⟩ := ReadFull.call_takes sound.takes called
      exact ⟨sound.data, length.trans sound.length, sound.sends.taken written, takes⟩

/-- When `ReadFull` returns `true`, the buffer is the data. A loop that stops early returns
`false`. -/
theorem transfer_exact (length : buf.length = data.length)
    (h : (transfer data buf).Reach anyStep s) :
    (s.reader.result = some true → s.reader.buf = data) ∧
    (∀ ok, s.writer.result = some ok → (ok = true ↔ s.writer.put = data.length)) ∧
    (∀ ok, s.reader.result = some ok → (ok = true ↔ s.reader.got = data.length)) := by
  have sound := transfer_sound h
  have bytes := sound.length.trans length
  refine ⟨?_, ?_, ?_⟩
  · intro read
    have received := sound.takes.received
    rw [(sound.takes.result read).mp rfl] at received
    have sent := sound.sends.sent
    rw [sound.data] at sent
    exact sent.exact bytes received
  · intro ok returned
    rw [sound.sends.result returned, sound.data]
  · intro ok returned
    rw [sound.takes.result returned, bytes]

end Transfer

end TiojJudge.Sandbox
