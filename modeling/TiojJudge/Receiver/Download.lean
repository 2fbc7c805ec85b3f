import TiojJudge.Reader
import TiojJudge.StreamDecoder

/-!
# Downloading testdata

`DownloadFile` with the retries of `RequestRetryInit`. An attempt opens the file
again, but goes on with the decoder that the attempt before it left.

* `downloadFile`: the file that the attempts of the server come to;
* `dctx_left`: the failed attempts are one input for the decoder;
* `downloadFile_iff`: after failed attempts a download works, whatever the decoder is, when
  what they delivered is the whole payload, some number of times.
-/

namespace TiojJudge.Receiver

/-- What the server does with a request: it delivers these pieces of the body. `success`
is a status that `IsSuccess` accepts, and the end of the body; otherwise the connection
broke. -/
structure Attempt where
  pieces : List (List UInt8)
  success : Bool

/-- What the receiver of the content has captured: `dctx`, `none` after an error, and the
file behind `fout`. -/
structure Download (σ : Type) where
  dctx : Option σ
  file : List UInt8

/-- `Init`. -/
def Download.reopen {σ : Type} (s : Download σ) : Download σ := { s with file := [] }

/-- `ZSTD_decompressStream` is not defined after an error; a call then counts as failed. -/
def reciever {σ : Type} (d : StreamDecoder σ UInt8 UInt8) (compressed : Bool) (s : Download σ)
    (data : List UInt8) : Bool × Download σ :=
  if compressed then
    match s.dctx with
    | none => (data.isEmpty, s)
    | some dctx =>
      let fed := d.feed dctx data
      (fed.1.isSome, ⟨fed.1, s.file ++ fed.2⟩)
  else (true, { s with file := s.file ++ data })

section Requests

variable {S : Type}

/-- The body goes to the receiver, which can refuse to go on. -/
def deliver (receive : S → List UInt8 → Bool × S) : S → List (List UInt8) → Bool × S
  | s, [] => (true, s)
  | s, piece :: pieces =>
    match receive s piece with
    | (false, s) => (false, s)
    | (true, s) => deliver receive s pieces

def httpRequest (receive : S → List UInt8 → Bool × S) (s : S) (a : Attempt) : Bool × S :=
  let delivered := deliver receive s a.pieces
  (delivered.1 && a.success, delivered.2)

def retries (init : S → S) (request : S → Attempt → Bool × S) : S → List Attempt → Bool × S
  | s, [] => (false, s)
  | s, a :: attempts =>
    match request (init s) a with
    | (true, s) => (true, s)
    | (false, s) => retries init request s attempts

def kRetries : Nat := 5

def requestRetryInit (init : S → S) (request : S → Attempt → Bool × S) (s : S)
    (attempts : List Attempt) : Bool × S :=
  retries init request s (attempts.take kRetries)

theorem retries_append {init : S → S} {request : S → Attempt → Bool × S} {s t : S}
    {failed attempts : List Attempt} (tried : retries init request s failed = (false, t)) :
    retries init request s (failed ++ attempts) = retries init request t attempts := by
  induction failed generalizing s with
  | nil =>
    cases tried
    rfl
  | cons a failed ih =>
    simp only [List.cons_append, retries] at tried ⊢
    split at tried
    · cases tried
    · exact ih tried

/-- An attempt that breaks is not the last. -/
theorem retries_failed {init : S → S} {receive : S → List UInt8 → Bool × S} {s : S}
    {failed : List Attempt} (broke : ∀ a ∈ failed, a.success = false) :
    (retries init (httpRequest receive) s failed).1 = false := by
  induction failed generalizing s with
  | nil => rfl
  | cons a failed ih =>
    have broken : (httpRequest receive (init s) a).1 = false := by
      simp [httpRequest, broke a (.head _)]
    simp only [retries]
    split
    · rename_i ended
      rw [ended] at broken
      cases broken
    · exact ih fun b hb => broke b (.tail _ hb)

end Requests

variable {σ : Type} (d : StreamDecoder σ UInt8 UInt8) (compressed : Bool)

/-- The result of the download, and the file. -/
def downloadFile (attempts : List Attempt) : Bool × List UInt8 :=
  let tried := requestRetryInit Download.reopen (httpRequest (reciever d compressed))
    ⟨some d.init, []⟩ attempts
  (tried.1, tried.2.file)

/-! ## Delivery -/

section Delivery

variable {d compressed} {s : Download σ} {dctx : σ} {pieces : List (List UInt8)}

theorem deliver_plain : deliver (reciever d false) s pieces =
    (true, { s with file := s.file ++ pieces.flatten }) := by
  induction pieces generalizing s with
  | nil => simp [deliver]
  | cons piece pieces ih => simp [deliver, reciever, ih]

theorem deliver_compressed (here : s.dctx = some dctx) : deliver (reciever d true) s pieces =
    ((d.feedAll dctx pieces).1.isSome,
      ⟨(d.feedAll dctx pieces).1, s.file ++ (d.feedAll dctx pieces).2⟩) := by
  induction pieces generalizing s dctx with
  | nil =>
    obtain ⟨_, file⟩ := s
    subst here
    simp [deliver, StreamDecoder.feedAll]
  | cons piece pieces ih =>
    simp only [deliver, reciever, here, if_true, StreamDecoder.feedAll]
    obtain ⟨state, out⟩ := d.feed dctx piece
    cases state with
    | none => rfl
    | some t =>
      simp only [Option.isSome_some]
      rw [ih rfl, List.append_assoc]

/-- A decoder that failed takes nothing more. -/
theorem deliver_failed (here : s.dctx = none) (some : pieces.flatten ≠ []) :
    deliver (reciever d true) s pieces = (false, s) := by
  induction pieces with
  | nil => exact absurd rfl some
  | cons piece pieces ih =>
    cases piece with
    | nil => simpa [deliver, reciever, here] using ih some
    | cons => simp [deliver, reciever, here]

end Delivery

/-! ## After failed attempts -/

section Failed

variable {d compressed} {payload content : List UInt8} {failed later : List Attempt}

/-- The pieces that the attempts delivered, one after another. -/
def delivered (attempts : List Attempt) : List (List UInt8) := attempts.flatMap Attempt.pieces

/-- Attempts that break are followed by the next one. -/
theorem downloadFile_after (d : StreamDecoder σ UInt8 UInt8) (compressed : Bool) (later : List Attempt)
    (few : failed.length < kRetries) (broke : ∀ a ∈ failed, a.success = false) (a : Attempt) : ∃ n,
    downloadFile d compressed (failed ++ a :: later) =
      let left := (retries Download.reopen (httpRequest (reciever d compressed))
        ⟨some d.init, []⟩ failed).2
      let tried := retries Download.reopen (httpRequest (reciever d compressed)) left
        (a :: later.take n)
      (tried.1, tried.2.file) := by
  obtain ⟨left, all⟩ : ∃ left, kRetries - failed.length = left + 1 :=
    Nat.exists_eq_succ_of_ne_zero (Nat.sub_ne_zero_of_lt few)
  have taken : (failed ++ a :: later).take kRetries = failed ++ a :: later.take left := by
    rw [List.take_append, List.take_of_length_le few.le, all, List.take_succ_cons]
  refine ⟨left, ?_⟩
  simp only [downloadFile, requestRetryInit, taken]
  rw [retries_append (Prod.ext (retries_failed broke) rfl)]

/-- The whole body, without the compression. -/
theorem downloadFile_plain (few : failed.length < kRetries)
    (broke : ∀ a ∈ failed, a.success = false) {pieces : List (List UInt8)} :
    downloadFile d false (failed ++ ⟨pieces, true⟩ :: later) = (true, pieces.flatten) := by
  obtain ⟨_, after⟩ := downloadFile_after d false later few broke ⟨pieces, true⟩
  simp [after, retries, httpRequest, deliver_plain, Download.reopen]

/-- A decoder that failed is left as it is. -/
theorem deliver_none {s : Download σ} {pieces : List (List UInt8)} (here : s.dctx = none) :
    (deliver (reciever d true) s pieces).2 = s := by
  induction pieces with
  | nil => rfl
  | cons piece pieces ih =>
    cases piece with
    | nil => simpa [deliver, reciever, here] using ih
    | cons => simp [deliver, reciever, here]

theorem retries_none {s : Download σ} (broke : ∀ a ∈ failed, a.success = false)
    (here : s.dctx = none) :
    (retries Download.reopen (httpRequest (reciever d true)) s failed).2.dctx = none := by
  induction failed generalizing s with
  | nil => exact here
  | cons a failed ih =>
    have opened : s.reopen.dctx = none := here
    simp only [retries, httpRequest, broke a (.head _), Bool.and_false, deliver_none opened]
    exact ih (fun b hb => broke b (.tail _ hb)) opened

/-- For the decoder the failed attempts are one input. -/
theorem dctx_left {s : Download σ} {dctx : σ} (broke : ∀ a ∈ failed, a.success = false)
    (here : s.dctx = some dctx) :
    (retries Download.reopen (httpRequest (reciever d true)) s failed).2.dctx =
      (d.feedAll dctx (delivered failed)).1 := by
  induction failed generalizing s dctx with
  | nil => exact here
  | cons a failed ih =>
    have opened : s.reopen.dctx = some dctx := here
    have more : delivered (a :: failed) = a.pieces ++ delivered failed := rfl
    have rest : ∀ b ∈ failed, b.success = false := fun b hb => broke b (.tail _ hb)
    simp only [retries, httpRequest, broke a (.head _), Bool.and_false, deliver_compressed opened]
    cases fed : d.feedAll dctx a.pieces with
    | mk state out =>
      cases state with
      | none =>
        rw [more, StreamDecoder.feedAll_stops (congrArg Prod.fst fed)]
        exact retries_none rest rfl
      | some t =>
        rw [more, StreamDecoder.feedAll_append fed]
        exact ih rest rfl

/-- After whole payloads the decoder is fresh. -/
theorem downloadFile_whole {fresh : σ → Prop} (restarts : d.Restarts payload content fresh)
    (few : failed.length < kRetries) (broke : ∀ a ∈ failed, a.success = false)
    (whole : StreamDecoder.Whole payload (delivered failed)) {pieces : List (List UInt8)}
    (flat : pieces.flatten = payload) :
    downloadFile d true (failed ++ ⟨pieces, true⟩ :: later) = (true, content) := by
  obtain ⟨_, after⟩ := downloadFile_after d true later few broke ⟨pieces, true⟩
  obtain ⟨dctx, fed, new⟩ := restarts.feed_whole restarts.init whole
  obtain ⟨t, last, _⟩ := restarts.whole new pieces flat
  have left := dctx_left (d := d) (s := ⟨some d.init, []⟩) broke rfl
  rw [fed] at left
  have opened : ((retries Download.reopen (httpRequest (reciever d true))
    ⟨some d.init, []⟩ failed).2.reopen).dctx = some dctx := left
  simp only [after, retries, httpRequest, deliver_compressed opened, last]
  rfl

/-- A download that works with a decoder of nothing but the payload. -/
theorem whole_of_downloadFile (filled : payload ≠ []) (few : failed.length < kRetries)
    (broke : ∀ a ∈ failed, a.success = false)
    (works : (downloadFile (StreamDecoder.strict payload content) true
      (failed ++ [⟨[payload], true⟩])).1 = true) :
    StreamDecoder.Whole payload (delivered failed) := by
  obtain ⟨_, after⟩ := downloadFile_after (StreamDecoder.strict payload content) true [] few broke
    ⟨[payload], true⟩
  set s := (retries Download.reopen (httpRequest (reciever (StreamDecoder.strict payload content) true))
    ⟨some (StreamDecoder.strict payload content).init, []⟩ failed).2 with hs
  have left : s.dctx = ((StreamDecoder.strict payload content).feedAll 0 (delivered failed)).1 :=
    dctx_left broke rfl
  have taken : (deliver (reciever (StreamDecoder.strict payload content) true) s.reopen
      [payload]).1 = true := by
    by_contra refused
    rw [Bool.not_eq_true] at refused
    rw [after] at works
    simp [retries, httpRequest, refused] at works
  have decoded : ((StreamDecoder.strict payload content).feedAll 0
      (delivered failed ++ [payload])).1 ≠ none := by
    intro refused
    cases fed : (StreamDecoder.strict payload content).feedAll 0 (delivered failed) with
    | mk state out =>
      rw [fed] at left
      have opened : s.reopen.dctx = state := left
      cases state with
      | none =>
        rw [deliver_failed opened (by simpa using filled)] at taken
        cases taken
      | some j =>
        rw [StreamDecoder.feedAll_append fed] at refused
        rw [deliver_compressed opened, refused] at taken
        cases taken
  exact StreamDecoder.whole_of_strict filled decoded

/-- After failed attempts a download works with every decoder that restarts if and only if what
they delivered is the whole payload, some number of times. -/
theorem downloadFile_iff (plain : compressed = false → payload = content)
    (filled : compressed = true → payload ≠ []) (few : failed.length < kRetries)
    (broke : ∀ a ∈ failed, a.success = false) :
    (∀ (σ : Type) (d : StreamDecoder σ UInt8 UInt8) (fresh : σ → Prop),
      d.Restarts payload content fresh → ∀ pieces later, pieces.flatten = payload →
        downloadFile d compressed (failed ++ ⟨pieces, true⟩ :: later) = (true, content)) ↔
    (compressed = true → StreamDecoder.Whole payload (delivered failed)) := by
  cases compressed with
  | false =>
    refine ⟨fun _ => nofun, fun _ σ d fresh _ pieces later flat => ?_⟩
    rw [downloadFile_plain few broke, flat, plain rfl]
  | true =>
    constructor
    · intro works _
      have one := works Nat (StreamDecoder.strict payload content) (· = 0)
        (StreamDecoder.strict_restarts (filled rfl)) [payload] [] (by simp)
      exact whole_of_downloadFile (filled rfl) few broke (congrArg Prod.fst one)
    · intro whole σ d fresh restarts pieces later flat
      exact downloadFile_whole restarts few broke (whole rfl) flat

end Failed

/-! ## Frames of one raw block -/

/-- The magic number, and a header for one segment with its size in one byte. -/
def rawHeader : List UInt8 := [0x28, 0xb5, 0x2f, 0xfd, 0x20]

/-- In the headers of a frame, and in its block. -/
inductive RawFrame where
  | header (taken : List UInt8)
  | block (left : Nat)
  deriving DecidableEq

/-- One byte more. Behind the header stands the size, and a block header that says that the block
is the last one, and raw; a byte of the block comes out as it is. -/
def RawFrame.push : RawFrame → UInt8 → Option (RawFrame × List UInt8)
  | .header taken, byte =>
    let taken := taken ++ [byte]
    let size := (taken.getD 5 0).toNat
    if taken.length ≤ 5 then if taken <+: rawHeader then some (.header taken, []) else none
    else if taken.length < 9 then some (.header taken, [])
    else if ofBytes (taken.drop 6) ≠ 8 * size + 1 then none
    else some (if size = 0 then .header [] else .block size, [])
  | .block left, byte => some (if left = 1 then .header [] else .block (left - 1), [byte])

/-- A decoder that knows raw blocks only, and streams them. -/
def rawDecoder : StreamDecoder RawFrame UInt8 UInt8 :=
  .ofPush RawFrame.push (fun s => decide (s = .header [])) (.header [])

/-- A file. -/
def hello : List UInt8 := [0x48, 0x45, 0x4c, 0x4c, 0x4f]

def helloFrame : List UInt8 := rawHeader ++ [5, 0x29, 0, 0] ++ hello

theorem rawDecoder_restarts : rawDecoder.Restarts helloFrame hello (· = .header []) where
  init := rfl
  whole := by
    rintro s rfl pieces flat
    have pushed : StreamDecoder.pushAll RawFrame.push (.header []) pieces.flatten =
        some (.header [], hello) := by
      rw [flat]
      decide
    exact ⟨.header [], StreamDecoder.feedAll_ofPush pushed, rfl⟩

/-- The first attempt breaks before the body, the second behind it. -/
theorem downloadFile_iff_repeated :
    downloadFile rawDecoder true [⟨[], false⟩, ⟨[helloFrame], false⟩,
      ⟨[helloFrame.take 5, helloFrame.drop 5], true⟩] = (true, hello) := by
  have broke : ∀ a ∈ [(⟨[], false⟩ : Attempt), ⟨[helloFrame], false⟩], a.success = false := by simp
  have works := @downloadFile_iff true helloFrame hello _ nofun (fun _ => by decide) (by decide) broke
  have whole : StreamDecoder.Whole helloFrame (delivered [⟨[], false⟩, ⟨[helloFrame], false⟩]) :=
    ⟨[[helloFrame]], [], rfl, by simp, rfl⟩
  exact works.mpr (fun _ => whole) _ _ _ rawDecoder_restarts _ [] rfl

/-- The second attempt goes on in the block that broke off: the magic number is written to the file
as its end, and what follows is no frame. -/
theorem downloadFile_not_restarted :
    rawDecoder.Restarts helloFrame hello (· = .header []) ∧
    downloadFile rawDecoder true [⟨[helloFrame.take 11], false⟩, ⟨[helloFrame], true⟩] =
      (false, [0x28, 0xb5, 0x2f]) ∧
    downloadFile rawDecoder true
      (⟨[helloFrame.take 11], false⟩ :: List.replicate 4 ⟨[helloFrame], true⟩) = (false, []) := by
  have start : rawDecoder.init = .header [] := rfl
  have first : rawDecoder.feed (.header []) (helloFrame.take 11) = (some (.block 3), [0x48, 0x45]) :=
    StreamDecoder.feed_ofPush (by decide)
  have second : rawDecoder.feed (.block 3) helloFrame = (none, [0x28, 0xb5, 0x2f]) := by
    have ends : rawDecoder.call (.block 3) helloFrame =
        some (.header [], 3, [0x28, 0xb5, 0x2f]) := by decide
    have fails : rawDecoder.feed (.header []) (helloFrame.drop 3) = (none, []) :=
      StreamDecoder.feed_fails (by decide) (by decide)
    rw [StreamDecoder.feed_call ends (by decide), fails]
    rfl
  refine ⟨rawDecoder_restarts, ?_, ?_⟩
  · simp [downloadFile, requestRetryInit, kRetries, retries, httpRequest, deliver, reciever, first,
      second, start, Download.reopen]
  · have more : helloFrame.isEmpty = false := rfl
    simp [downloadFile, requestRetryInit, kRetries, retries, httpRequest, deliver, reciever, first,
      second, start, Download.reopen, more]

end TiojJudge.Receiver
