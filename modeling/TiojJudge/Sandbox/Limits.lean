import TiojJudge.Double
import TiojJudge.Judge.Scheduler

/-!
# The limits of an execution

`RunExecute` sets the limits of the sandbox, and `SetupExecute` the size of the
file system in front of it. An operation on `long` has no result where it
overflows.

* `tmpfsSizeKib`, `tmpfs_roomy_iff`: the room for a program, its input and its output;
* `executeLimits`, `executeLimits_sound_iff`: the limits that the sandbox gets.
-/

namespace TiojJudge.Sandbox

open Numerals Double
open Judge (TestdataItem)

/-- The values of `long`. -/
def InLong (n : ℤ) : Prop := -2 ^ 63 ≤ n ∧ n < 2 ^ 63

instance : DecidablePred InLong := fun _ => inferInstanceAs (Decidable (_ ∧ _))

/-- The result of a signed operation. -/
def long (n : ℤ) : Option ℤ := if InLong n then some n else none

theorem long_eq_some {n m : ℤ} : long n = some m ↔ InLong n ∧ n = m := by
  rw [long]
  split <;> simp_all

/-- `opt.fsize` -/
def fileSizeLimit (kMaxOutput output : ℤ) : ℤ :=
  if output ≤ 0 ∨ kMaxOutput < output then kMaxOutput else output

/-! ## The size of the file system -/

/-- The room for a file of `size` bytes, in KiB: one block more than its whole blocks. -/
def blocksKib (size : ℕ) : ℤ := (size / 4096 + 1) * 4

/-- `tmpfs_size_kib`, where a sum with sizes of files is unsigned. -/
def tmpfsSizeKib (kMaxOutput : ℤ) (compiled input : ℕ) (output : ℤ) : Option ℤ :=
  (long (output * 2)).map fun twice =>
    toInt64 (blocksKib compiled + blocksKib input + min twice kMaxOutput)

/-- The size of a file in whole blocks, in KiB. -/
def wholeBlocksKib (size : ℕ) : ℤ := (size + 4095) / 4096 * 4

/-- There is no overflow, and the program, the input and as much output as is allowed fit in. -/
structure Roomy (kMaxOutput : ℤ) (compiled input actual : ℕ) (output : ℤ) : Prop where
  exact : tmpfsSizeKib kMaxOutput compiled input output =
    some (blocksKib compiled + blocksKib input + min (output * 2) kMaxOutput)
  fits : wholeBlocksKib compiled + wholeBlocksKib actual + fileSizeLimit kMaxOutput output ≤
    blocksKib compiled + blocksKib input + min (output * 2) kMaxOutput

/-- The block that a file of whole blocks leaves. -/
def spareKib (size : ℕ) : ℤ := if size % 4096 = 0 then 4 else 0

/-- What the room for the output has beyond its limit. -/
def surplusKib (kMaxOutput output : ℤ) : ℤ :=
  if output = 0 then -kMaxOutput
  else if output ≤ kMaxOutput then min output (kMaxOutput - output)
  else 0

theorem blocks_whole (size : ℕ) : blocksKib size = wholeBlocksKib size + spareKib size := by
  unfold blocksKib wholeBlocksKib spareKib
  split <;> omega

theorem room_output {kMaxOutput output : ℤ} (max : 0 < kMaxOutput) (limit : 0 ≤ output) :
    min (output * 2) kMaxOutput = fileSizeLimit kMaxOutput output + surplusKib kMaxOutput output := by
  unfold fileSizeLimit surplusKib
  split_ifs <;> omega

theorem tmpfs_exact_iff {kMaxOutput output : ℤ} {compiled input : ℕ} (max : 0 < kMaxOutput)
    (limit : 0 ≤ output) :
    tmpfsSizeKib kMaxOutput compiled input output =
        some (blocksKib compiled + blocksKib input + min (output * 2) kMaxOutput) ↔
      output < 2 ^ 62 ∧
        blocksKib compiled + blocksKib input + min (output * 2) kMaxOutput < 2 ^ 63 := by
  have positive (size : ℕ) : 0 ≤ blocksKib size := by
    unfold blocksKib
    omega
  have compiled_pos := positive compiled
  have input_pos := positive input
  rw [tmpfsSizeKib, long]
  split
  · rename_i range
    rw [Option.map_some, Option.some.injEq, toInt64, Int.bmod_eq_iff (by norm_num)]
    unfold InLong at range
    omega
  · rename_i range
    rw [Option.map_none]
    refine iff_of_false nofun fun h => range ?_
    unfold InLong
    omega

theorem tmpfs_roomy_iff {kMaxOutput output : ℤ} (compiled input actual : ℕ) (max : 0 < kMaxOutput)
    (limit : 0 ≤ output) :
    Roomy kMaxOutput compiled input actual output ↔
      output < 2 ^ 62 ∧
      blocksKib compiled + blocksKib input + min (output * 2) kMaxOutput < 2 ^ 63 ∧
      wholeBlocksKib actual ≤
        blocksKib input + spareKib compiled + surplusKib kMaxOutput output := by
  have room := room_output max limit
  have blocks := blocks_whole compiled
  constructor
  · rintro ⟨exact, fits⟩
    obtain ⟨twice, total⟩ := (tmpfs_exact_iff max limit).mp exact
    exact ⟨twice, total, by omega⟩
  · rintro ⟨twice, total, fits⟩
    exact ⟨(tmpfs_exact_iff max limit).mpr ⟨twice, total⟩, by omega⟩

/-- In front of the first stage the input is the testdata's own. -/
theorem tmpfs_first_iff {kMaxOutput output : ℤ} (compiled input : ℕ) (max : 0 < kMaxOutput)
    (limit : 0 ≤ output) :
    Roomy kMaxOutput compiled input input output ↔
      output < 2 ^ 62 ∧
      blocksKib compiled + blocksKib input + min (output * 2) kMaxOutput < 2 ^ 63 ∧
      (output = 0 → kMaxOutput ≤ spareKib compiled + spareKib input) := by
  have blocks := blocks_whole input
  have spare (size : ℕ) : 0 ≤ spareKib size := by
    unfold spareKib
    split <;> decide
  have compiled_spare := spare compiled
  have input_spare := spare input
  rw [tmpfs_roomy_iff compiled input input max limit, surplusKib]
  refine and_congr_right fun _ => and_congr_right fun _ => ?_
  split_ifs <;> omega

theorem tmpfs_roomy_sample : Roomy 1048576 10000 5000 5000 65536 :=
  (tmpfs_roomy_iff 10000 5000 5000 (by decide) (by decide)).mpr (by decide)

/-- The greatest output is allowed and no room is left for it. -/
theorem tmpfs_unlimited : ¬ Roomy 1048576 10000 5000 5000 0 := by
  rintro ⟨-, fits⟩
  exact absurd fits (by decide)

/-! ## The limits of the sandbox -/

def kRSSLimitMargin : ℤ := 1024
def kVSSLimitMargin : ℤ := 2048

/-- The settings of the judge that the limits depend on. -/
structure Settings where
  kTimeMultiplier : ℚ
  kMaxRSS : ℤ
  kMaxOutput : ℤ
  deriving DecidableEq

/-- The constant `1.2` of the source. -/
def wallFactor : ℚ := 5404319552844595 / 2 ^ 52

/-- The conversion of a `double` to `long`. -/
def longOfDouble (x : ℚ) : Option ℤ := long (toLong x)

/-- `time /= kTimeMultiplier` -/
def divideTime (kTimeMultiplier : ℚ) (time : ℤ) : Option ℤ :=
  longOfDouble (toDouble (toDouble time / kTimeMultiplier))

structure ExecuteLimits where
  wallTime : ℤ
  cpuTime : ℤ
  rss : ℤ
  vss : ℤ
  fsize : ℤ
  deriving DecidableEq

def rssLimit (kMaxRSS rss : ℤ) : Option ℤ :=
  if rss ≤ 0 ∨ kMaxRSS ≤ rss then some kMaxRSS
  else (long (kMaxRSS - rss)).bind fun room =>
    if room ≤ kRSSLimitMargin then some kMaxRSS else long (rss + kRSSLimitMargin)

def vssLimit (vss : ℤ) : Option ℤ :=
  if vss ≤ 0 then some 0
  else if 2 ^ 63 - 1 - kVSSLimitMargin < vss then some (2 ^ 63 - 1)
  else long (vss + kVSSLimitMargin)

/-- `lim_time`, where `time` is what the earlier stages took. -/
def limTime (lim : TestdataItem) (stage : ℕ) (time : ℤ) : Option ℤ :=
  (if 0 < stage then long (lim.time - time) else some lim.time).map fun left => max left 0

/-- The wall time and the CPU time for a `lim_time`. -/
def timeLimits (kTimeMultiplier : ℚ) (left : ℤ) : Option (ℤ × ℤ) := do
  let scaled ← longOfDouble (toDouble (toDouble left * wallFactor))
  let margin ← long (left + 1000000)
  let cpuTime ← long (left + 50000)
  let wallTime ← divideTime kTimeMultiplier (max scaled margin)
  let cpuTime ← divideTime kTimeMultiplier cpuTime
  -- avoid being regarded as no limit
  return (wallTime, if cpuTime ≤ 0 then 1 else cpuTime)

/-- What `RunExecute` sets, where `time` is what the earlier stages took. A strict sandbox gets the
output through a pipe of so many bytes, else it counts as memory. -/
def executeLimits (settings : Settings) (lim : TestdataItem) (stage : ℕ) (time : ℤ) (strict : Bool) :
    Option ExecuteLimits := do
  let left ← limTime lim stage time
  let (wallTime, cpuTime) ← timeLimits settings.kTimeMultiplier left
  let rss ← rssLimit settings.kMaxRSS lim.rss
  let vss ← vssLimit lim.vss
  let fsize := fileSizeLimit settings.kMaxOutput lim.output
  if strict then
    let _ ← long (fsize * 1024)
    return ⟨wallTime, cpuTime, rss, vss, fsize⟩
  else
    let rss ← long (rss + fsize)
    return ⟨wallTime, cpuTime, rss, vss, fsize⟩

/-- The time that the limit leaves for a stage. -/
def remaining (lim : TestdataItem) (stage : ℕ) (time : ℤ) : ℤ :=
  if 0 < stage then lim.time - time else lim.time

/-- No limit is below the nominal one, and none is taken for its absence. -/
structure Sound (lim : TestdataItem) (left kMaxRSS : ℤ) (o : ExecuteLimits) : Prop where
  cpu_pos : 0 < o.cpuTime
  cpu_left : left ≤ o.cpuTime
  wall_pos : 0 < o.wallTime
  wall_left : left ≤ o.wallTime
  vss_zero : o.vss = 0 ↔ lim.vss = 0
  vss_limit : lim.vss ≤ o.vss
  rss_limit : (if lim.rss = 0 then kMaxRSS else min lim.rss kMaxRSS) ≤ o.rss

/-! ### The times -/

/-- The greatest time whose product with `1.2` is a `long`. -/
def maxTime : ℤ := 7686143364045646336

theorem toLong_of_nonneg {x : ℚ} (h : 0 ≤ x) : toLong x = ⌊x⌋ := by
  rw [toLong, Rat.floor_def', Int.tdiv_eq_ediv_of_nonneg (Rat.num_nonneg.mpr h)]

theorem wallFactor_nonneg : 0 ≤ wallFactor := by
  unfold wallFactor
  norm_num

theorem scaled_nonneg {left : ℤ} (pos : 0 ≤ left) : 0 ≤ toDouble left * wallFactor :=
  mul_nonneg (toDouble_nonneg (by exact_mod_cast pos)) wallFactor_nonneg

/-- The product with `1.2` as it is computed. -/
theorem scaled_mono {a b : ℤ} (pos : 0 ≤ a) (h : a ≤ b) :
    toDouble (toDouble a * wallFactor) ≤ toDouble (toDouble b * wallFactor) := by
  have apart : toDouble (a : ℚ) ≤ toDouble (b : ℚ) :=
    toDouble_mono (by exact_mod_cast pos) (by exact_mod_cast h)
  exact toDouble_mono (scaled_nonneg pos) (mul_le_mul_of_nonneg_right apart wallFactor_nonneg)

theorem scaled_maxTime : toDouble (toDouble maxTime * wallFactor) = 2 ^ 63 - 1024 := by
  decide +kernel

theorem scaled_overflow : toDouble (toDouble ((maxTime + 1 : ℤ) : ℚ) * wallFactor) = 2 ^ 63 := by
  decide +kernel

theorem longOfDouble_scaled {left : ℤ} (pos : 0 ≤ left) :
    (∃ scaled, longOfDouble (toDouble (toDouble left * wallFactor)) = some scaled) ↔
      left ≤ maxTime := by
  have nonneg := toDouble_nonneg (scaled_nonneg pos)
  rw [longOfDouble, toLong_of_nonneg nonneg]
  constructor
  · rintro ⟨scaled, h⟩
    obtain ⟨range, -⟩ := long_eq_some.mp h
    by_contra above
    have mono := scaled_mono (by decide) (Int.add_one_le_iff.mpr (not_le.mp above))
    rw [scaled_overflow] at mono
    have floor : (2 ^ 63 : ℤ) ≤ ⌊toDouble (toDouble left * wallFactor)⌋ :=
      Int.le_floor.mpr (by exact_mod_cast mono)
    exact absurd range.2 (not_lt.mpr floor)
  · intro below
    have mono := scaled_mono pos below
    rw [scaled_maxTime] at mono
    have floor : ⌊toDouble (toDouble left * wallFactor)⌋ ≤ 2 ^ 63 - 1024 := by
      have bound := (Int.floor_le _).trans mono
      exact_mod_cast bound
    refine ⟨_, long_eq_some.mpr ⟨⟨?_, by omega⟩, rfl⟩⟩
    have := Int.floor_nonneg.mpr nonneg
    omega

/-- A division by 1 rounds twice. -/
theorem divideTime_one {time : ℤ} (pos : 0 ≤ time) (high : time ≤ 2 ^ 63 - 1024) :
    ∃ divided, divideTime 1 time = some divided ∧ time - 2049 ≤ divided := by
  have pos : (0 : ℚ) ≤ time := by exact_mod_cast pos
  have high : (time : ℚ) ≤ 2 ^ 63 - 1024 := by exact_mod_cast high
  have once := toDouble_nonneg pos
  have twice := toDouble_nonneg once
  have top : toDouble (toDouble (2 ^ 63 - 1024)) = 2 ^ 63 - 1024 := by decide +kernel
  have bound : toDouble (toDouble (time : ℚ)) ≤ 2 ^ 63 - 1024 :=
    (toDouble_mono once (toDouble_mono pos high)).trans_eq top
  have first := (abs_le.mp (toDouble_error pos)).1
  have second := (abs_le.mp (toDouble_error once)).1
  have half : toDouble (time : ℚ) ≤ 2 ^ 63 := by
    have top : toDouble (2 ^ 63 - 1024) = 2 ^ 63 - 1024 := by decide +kernel
    have mono := (toDouble_mono pos high).trans_eq top
    linarith
  have close : (time : ℚ) - 2048 ≤ toDouble (toDouble (time : ℚ)) := by linarith
  rw [divideTime, div_one, longOfDouble, toLong_of_nonneg twice]
  have floor_high : ⌊toDouble (toDouble (time : ℚ))⌋ ≤ 2 ^ 63 - 1024 := by
    have bound := (Int.floor_le _).trans bound
    exact_mod_cast bound
  have floor_pos := Int.floor_nonneg.mpr twice
  have floor_low : time - 2048 ≤ ⌊toDouble (toDouble (time : ℚ))⌋ :=
    Int.le_floor.mpr (by exact_mod_cast close)
  exact ⟨_, long_eq_some.mpr ⟨⟨by omega, by omega⟩, rfl⟩, by omega⟩

theorem timeLimits_some {kTimeMultiplier : ℚ} {left : ℤ} {times : ℤ × ℤ} (pos : 0 ≤ left)
    (h : timeLimits kTimeMultiplier left = some times) : left ≤ maxTime := by
  obtain ⟨scaled, found, -⟩ := Option.bind_eq_some_iff.mp h
  exact (longOfDouble_scaled pos).mp ⟨scaled, found⟩

theorem timeLimits_one {left : ℤ} (pos : 0 ≤ left) (h : left ≤ maxTime) :
    ∃ wallTime cpuTime, timeLimits 1 left = some (wallTime, cpuTime) ∧
      left < wallTime ∧ left < cpuTime := by
  obtain ⟨scaled, found⟩ := (longOfDouble_scaled pos).mpr h
  have scaled_high : scaled ≤ 2 ^ 63 - 1024 := by
    have nonneg : 0 ≤ toDouble (toDouble left * wallFactor) := by
      have mono := scaled_mono le_rfl pos
      refine le_trans ?_ mono
      decide +kernel
    have mono := (scaled_mono pos h).trans_eq scaled_maxTime
    rw [longOfDouble, toLong_of_nonneg nonneg] at found
    obtain ⟨-, rfl⟩ := long_eq_some.mp found
    have bound := (Int.floor_le _).trans mono
    exact_mod_cast bound
  unfold maxTime at h
  have margin : long (left + 1000000) = some (left + 1000000) :=
    long_eq_some.mpr ⟨⟨by omega, by omega⟩, rfl⟩
  have cpu : long (left + 50000) = some (left + 50000) :=
    long_eq_some.mpr ⟨⟨by omega, by omega⟩, rfl⟩
  obtain ⟨wallTime, wall_found, wall_low⟩ :=
    @divideTime_one (max scaled (left + 1000000)) (by omega) (by omega)
  obtain ⟨cpuTime, cpu_found, cpu_low⟩ := @divideTime_one (left + 50000) (by omega) (by omega)
  refine ⟨wallTime, cpuTime, ?_, by omega, by omega⟩
  have positive : ¬ cpuTime ≤ 0 := by omega
  simp [timeLimits, found, margin, cpu, wall_found, cpu_found, positive]

/-! ### The memory -/

theorem rssLimit_sound {kMaxRSS rss : ℤ} (max : 0 < kMaxRSS) (range : kMaxRSS < 2 ^ 63) :
    ∃ limit, rssLimit kMaxRSS rss = some limit ∧ 0 < limit ∧ limit ≤ kMaxRSS ∧
      (if rss = 0 then kMaxRSS else min rss kMaxRSS) ≤ limit := by
  unfold rssLimit
  split
  · exact ⟨kMaxRSS, rfl, max, le_rfl, by split <;> omega⟩
  · have room : long (kMaxRSS - rss) = some (kMaxRSS - rss) :=
      long_eq_some.mpr ⟨⟨by omega, by omega⟩, rfl⟩
    rw [room, Option.bind_some]
    unfold kRSSLimitMargin
    split
    · exact ⟨kMaxRSS, rfl, max, le_rfl, by split <;> omega⟩
    · have sum : long (rss + 1024) = some (rss + 1024) :=
        long_eq_some.mpr ⟨⟨by omega, by omega⟩, rfl⟩
      exact ⟨rss + 1024, sum, by omega, by omega, by split <;> omega⟩

theorem vssLimit_sound {vss : ℤ} (pos : 0 ≤ vss) (range : InLong vss) :
    ∃ limit, vssLimit vss = some limit ∧ (limit = 0 ↔ vss = 0) ∧ vss ≤ limit := by
  obtain ⟨-, high⟩ := range
  unfold vssLimit kVSSLimitMargin
  split
  · exact ⟨0, rfl, by omega, by omega⟩
  · split
    · exact ⟨2 ^ 63 - 1, rfl, by omega, by omega⟩
    · have sum : long (vss + 2048) = some (vss + 2048) :=
        long_eq_some.mpr ⟨⟨by omega, by omega⟩, rfl⟩
      exact ⟨vss + 2048, sum, by omega, by omega⟩

/-! ### All limits -/

/-- The server admits any time, and the other limits from 0 on. -/
structure Admitted (lim : TestdataItem) : Prop where
  time : InLong lim.time
  vss : 0 ≤ lim.vss ∧ InLong lim.vss
  rss : 0 ≤ lim.rss ∧ InLong lim.rss
  output : 0 ≤ lim.output ∧ InLong lim.output

theorem limTime_eq {lim : TestdataItem} {stage : ℕ} {time : ℤ} (admitted : Admitted lim) :
    limTime lim stage time = (long (remaining lim stage time)).map fun left => max left 0 := by
  unfold limTime remaining
  split
  · rfl
  · rw [long, if_pos admitted.time]

theorem fileSizeLimit_range {kMaxOutput output : ℤ} (max : 0 < kMaxOutput) :
    0 < fileSizeLimit kMaxOutput output ∧ fileSizeLimit kMaxOutput output ≤ kMaxOutput := by
  unfold fileSizeLimit
  split <;> omega

/-- With the settings in range the limits are what they should be if and only if the time that is
left is a `long`, and so is its product with `1.2`. -/
theorem executeLimits_sound_iff {settings : Settings} {lim : TestdataItem} {time : ℤ} (stage : ℕ)
    (strict : Bool) (one : settings.kTimeMultiplier = 1) (maxRSS : 0 < settings.kMaxRSS)
    (maxOutput : 0 < settings.kMaxOutput)
    (sum : settings.kMaxRSS + settings.kMaxOutput < 2 ^ 63)
    (bytes : 1024 * settings.kMaxOutput < 2 ^ 63) (admitted : Admitted lim) :
    (∃ o, executeLimits settings lim stage time strict = some o ∧
        Sound lim (remaining lim stage time) settings.kMaxRSS o) ↔
      -2 ^ 63 ≤ remaining lim stage time ∧ remaining lim stage time ≤ maxTime := by
  constructor
  · rintro ⟨o, limits, -⟩
    obtain ⟨left, left_found, limits⟩ := Option.bind_eq_some_iff.mp limits
    obtain ⟨times, times_found, -⟩ := Option.bind_eq_some_iff.mp limits
    rw [limTime_eq admitted] at left_found
    obtain ⟨exact, found, rfl⟩ := Option.map_eq_some_iff.mp left_found
    obtain ⟨range, rfl⟩ := long_eq_some.mp found
    exact ⟨range.1, (le_max_left _ _).trans (timeLimits_some (le_max_right _ _) times_found)⟩
  · rintro ⟨low, high⟩
    have left : limTime lim stage time = some (max (remaining lim stage time) 0) := by
      have range : InLong (remaining lim stage time) := by
        unfold maxTime at high
        exact ⟨low, by omega⟩
      rw [limTime_eq admitted, long, if_pos range]
      rfl
    obtain ⟨wallTime, cpuTime, times, wall, cpu⟩ :=
      timeLimits_one (le_max_right (remaining lim stage time) 0) (max_le high (by decide))
    obtain ⟨rss, rss_found, rss_pos, rss_high, rss_low⟩ :=
      @rssLimit_sound _ lim.rss maxRSS (by omega)
    obtain ⟨vss, vss_found, vss_zero, vss_low⟩ := vssLimit_sound admitted.vss.1 admitted.vss.2
    obtain ⟨fsize_pos, fsize_high⟩ := @fileSizeLimit_range _ lim.output maxOutput
    have sound (rss' : ℤ) (more : rss ≤ rss') (fsize : ℤ) :
        Sound lim (remaining lim stage time) settings.kMaxRSS
          ⟨wallTime, cpuTime, rss', vss, fsize⟩ := by
      constructor
      · exact (le_max_right _ _).trans_lt cpu
      · exact (le_max_left _ _).trans cpu.le
      · exact (le_max_right _ _).trans_lt wall
      · exact (le_max_left _ _).trans wall.le
      · exact vss_zero
      · exact vss_low
      · exact rss_low.trans more
    have product : long (fileSizeLimit settings.kMaxOutput lim.output * 1024) =
        some (fileSizeLimit settings.kMaxOutput lim.output * 1024) :=
      long_eq_some.mpr ⟨⟨by omega, by omega⟩, rfl⟩
    have total : long (rss + fileSizeLimit settings.kMaxOutput lim.output) =
        some (rss + fileSizeLimit settings.kMaxOutput lim.output) :=
      long_eq_some.mpr ⟨⟨by omega, by omega⟩, rfl⟩
    cases strict with
    | true =>
      refine ⟨_, ?_, sound rss le_rfl (fileSizeLimit settings.kMaxOutput lim.output)⟩
      simp [executeLimits, left, one, times, rss_found, vss_found, product]
    | false =>
      have more : rss ≤ rss + fileSizeLimit settings.kMaxOutput lim.output := by omega
      refine ⟨_, ?_, sound _ more (fileSizeLimit settings.kMaxOutput lim.output)⟩
      simp [executeLimits, left, one, times, rss_found, vss_found, total]

/-- The settings of the source. -/
def defaultSettings : Settings := ⟨1, 2097152, 1048576⟩

theorem executeLimits_sound_sample :
    (∃ o, executeLimits defaultSettings (Judge.sampleItem false [0]) 1 300000 true = some o ∧
        Sound (Judge.sampleItem false [0]) (remaining (Judge.sampleItem false [0]) 1 300000) 2097152 o) ↔
      -2 ^ 63 ≤ remaining (Judge.sampleItem false [0]) 1 300000 ∧
        remaining (Judge.sampleItem false [0]) 1 300000 ≤ maxTime :=
  executeLimits_sound_iff 1 true rfl (by decide) (by decide) (by decide) (by decide)
    ⟨by decide, by decide, by decide, by decide⟩

/-- The greatest time that the server can send. -/
theorem executeLimits_overflow :
    Admitted { Judge.sampleItem false [0] with time := 2 ^ 63 - 1 } ∧
      executeLimits defaultSettings { Judge.sampleItem false [0] with time := 2 ^ 63 - 1 } 0 0 true =
        none :=
  ⟨⟨by decide, by decide, by decide, by decide⟩, by decide +kernel⟩

end TiojJudge.Sandbox
