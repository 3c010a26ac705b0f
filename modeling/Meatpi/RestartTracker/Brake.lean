import Mathlib.Data.UInt
import Meatpi.Library.Numeral

/-!
# The crash-loop brake (`restart_tracker_brake_core.c`)

A few bytes in RTC memory remember how the runs before ended. Each boot reads how
the last one did, moves the count and gives its verdict; what happens during a run
is noted for the next boot. The count stands for a number that is defined on the
whole history (`Remembers`), and so does the verdict (`brake_history`).
-/

namespace Meatpi

variable {crashReset : Bool} {retryS : UInt32} {α : Type}

/-! ## The record -/

/-- `RESTART_TRACKER_BOOT_NORMAL` -/
def bootNormal : UInt8 := 0

/-- `RESTART_TRACKER_BOOT_PARK` -/
def bootPark : UInt8 := 1

/-- `RESTART_TRACKER_BOOT_PARK_BARE` -/
def bootParkBare : UInt8 := 2

/-- `RESTART_TRACKER_BOOT_SAFE` -/
def bootSafe : UInt8 := 3

/-- `RESTART_TRACKER_BRAKE_STREAK` -/
def brakeStreak : ℕ := 3

def rtReportBudget : UInt8 := 4

/-- `RT_BRAKE_RF_SETTLED` -/
def rfSettled : UInt8 := 0x01

/-- `RT_BRAKE_RF_RETRY` -/
def rfRetry : UInt8 := 0x02

structure RtBrakeState where
  streak : UInt8
  parks : UInt8
  runMode : UInt8
  runFlags : UInt8
  budget : UInt8
  reserved : UInt8
  testRetryS : UInt16
  crc : UInt32

/-- One bit of `rt_crc32_bytes`. -/
def rtCrcBit (crc : UInt32) : UInt32 := (crc >>> 1) ^^^ (0xEDB88320 &&& (0 - (crc &&& 1)))

def rtCrc32Bytes (data : List UInt8) : UInt32 :=
  ~~~(data.foldl (fun crc byte => Nat.iterate rtCrcBit 8 (crc ^^^ byte.toUInt32)) 0xFFFFFFFF)

/-- The eight bytes before the checksum. -/
def RtBrakeState.bytes (st : RtBrakeState) : List UInt8 :=
  [st.streak, st.parks, st.runMode, st.runFlags, st.budget, st.reserved] ++
    leBytes 2 st.testRetryS.toNat

def rtBrakeCrc (st : RtBrakeState) : UInt32 := rtCrc32Bytes st.bytes

def rtBrakeValid (st : RtBrakeState) : Bool :=
  decide (st.runMode ≤ bootSafe) && decide (st.budget ≤ rtReportBudget) &&
    decide (rtBrakeCrc st = st.crc)

/-- `st->crc = rt_brake_crc(st)` -/
def RtBrakeState.seal (st : RtBrakeState) : RtBrakeState := { st with crc := rtBrakeCrc st }

def rtBrakeReset : RtBrakeState :=
  RtBrakeState.seal ⟨0, 0, 0, 0, rtReportBudget, 0, 0, 0⟩

theorem rtBrakeValid_seal {st : RtBrakeState} (hmode : st.runMode ≤ bootSafe)
    (hbudget : st.budget ≤ rtReportBudget) : rtBrakeValid st.seal = true := by
  have hcrc : rtBrakeCrc st.seal = st.seal.crc := rfl
  rw [rtBrakeValid, decide_eq_true hcrc, Bool.and_true, Bool.and_eq_true, decide_eq_true_eq,
    decide_eq_true_eq]
  exact ⟨hmode, hbudget⟩

/-! ## The operations -/

def bump (value : UInt8) : UInt8 := if value < 255 then value + 1 else value

structure RestartTrackerBrake where
  verdict : UInt8
  streak : UInt8
  parks : UInt8
  reportBudget : UInt8
  settled : Bool
  retryAfterS : UInt32
  deriving DecidableEq

/-- The first half of `rt_brake_boot`: the count moves, and the verdict. -/
def rtBrakeJudge (st : RtBrakeState) (crashReset : Bool) : UInt8 × RtBrakeState :=
  if crashReset then
    if st.runMode = bootPark ∨ st.runMode = bootParkBare then
      (bootParkBare, st)
    else if st.runMode = bootNormal ∧ st.runFlags &&& rfSettled = 0 then
      (if brakeStreak ≤ (bump st.streak).toNat then bootPark else bootNormal,
        { st with streak := bump st.streak })
    else if st.runMode = bootSafe then
      (bootNormal, { st with streak := 0, parks := 0 })
    else
      (bootNormal, st)
  else if st.runFlags &&& rfRetry = 0 then
    (bootNormal, { st with streak := 0, parks := 0 })
  else
    (bootNormal, st)

/-- A boot that is not normal is one park more, and uses up the bench's knob. -/
def rtBrakePark (verdict : UInt8) (retryS : UInt32) (st : RtBrakeState) :
    UInt32 × RtBrakeState :=
  if verdict ≠ bootNormal then
    (if st.testRetryS ≠ 0 then st.testRetryS.toUInt32 else retryS,
      { st with parks := bump st.parks, testRetryS := 0 })
  else
    (0, st)

def rtBrakeBoot (st : RtBrakeState) (crashReset : Bool) (retryS : UInt32) :
    RestartTrackerBrake × RtBrakeState :=
  let (verdict, counted) := rtBrakeJudge st crashReset
  let (retryAfterS, parked) := rtBrakePark verdict retryS counted
  (⟨verdict, parked.streak, parked.parks, parked.budget, false, retryAfterS⟩,
    { parked with runMode := bootNormal, runFlags := 0 }.seal)

def rtBrakeSettle (st : RtBrakeState) : RtBrakeState :=
  { st with
    runFlags := st.runFlags ||| rfSettled
    streak := 0
    parks := 0
    budget := rtReportBudget }.seal

def rtBrakeSetMode (st : RtBrakeState) (mode : UInt8) : RtBrakeState :=
  { st with runMode := if mode ≤ bootSafe then mode else bootNormal }.seal

def rtBrakeMarkRetry (st : RtBrakeState) : RtBrakeState :=
  { st with runFlags := st.runFlags ||| rfRetry }.seal

def rtBrakeSpend (st : RtBrakeState) : Bool × RtBrakeState :=
  if st.budget = 0 then (false, st) else (true, { st with budget := st.budget - 1 }.seal)

def rtBrakeSetTestRetry (st : RtBrakeState) (seconds : UInt16) : RtBrakeState :=
  { st with testRetryS := seconds }.seal

/-! ## Histories -/

/-- What happens to the record. -/
inductive RtBrakeOp where
  | boot (crashReset : Bool) (retryS : UInt32)
  | settle
  | setMode (mode : UInt8)
  | markRetry
  | spend
  | setTestRetry (seconds : UInt16)

/-- The record after an operation. -/
def rtBrakeNext (st : RtBrakeState) : RtBrakeOp → RtBrakeState
  | .boot crashReset retryS => (rtBrakeBoot st crashReset retryS).2
  | .settle => rtBrakeSettle st
  | .setMode mode => rtBrakeSetMode st mode
  | .markRetry => rtBrakeMarkRetry st
  | .spend => (rtBrakeSpend st).2
  | .setTestRetry seconds => rtBrakeSetTestRetry st seconds

/-- All that happened since the store was last empty, the newest first. -/
abbrev BrakeHistory := List RtBrakeOp

/-- The record after a history. -/
def brakeAfter : BrakeHistory → RtBrakeState
  | [] => rtBrakeReset
  | op :: earlier => rtBrakeNext (brakeAfter earlier) op

/-- How many of the events since the last one that `ends` do `count`; either may
depend on what went before the event. -/
def countSince {α : Type} (ends counts : α → List α → Bool) : List α → ℕ
  | [] => 0
  | e :: earlier =>
    if ends e earlier then 0
    else countSince ends counts earlier + if counts e earlier then 1 else 0

/-- The mode that the run in progress was last given. -/
def modeOfRun : BrakeHistory → UInt8
  | [] => bootNormal
  | .boot _ _ :: _ => bootNormal
  | .setMode mode :: _ => if mode ≤ bootSafe then mode else bootNormal
  | _ :: earlier => modeOfRun earlier

/-- The run in progress has settled. -/
def settledRun : BrakeHistory → Bool
  | [] => false
  | .boot _ _ :: _ => false
  | .settle :: _ => true
  | _ :: earlier => settledRun earlier

/-- The run in progress was marked as one that ends to try again. -/
def retryRun : BrakeHistory → Bool
  | [] => false
  | .boot _ _ :: _ => false
  | .markRetry :: _ => true
  | _ :: earlier => retryRun earlier

/-- The run in progress is a park. -/
def parkedRun (earlier : BrakeHistory) : Bool :=
  decide (modeOfRun earlier = bootPark) || decide (modeOfRun earlier = bootParkBare)

/-- The reset is a crash of a normal run that had not settled. -/
def quickCrash (op : RtBrakeOp) (earlier : BrakeHistory) : Bool :=
  match op with
  | .boot true _ => decide (modeOfRun earlier = bootNormal) && !settledRun earlier
  | _ => false

/-- What ends a streak: a settle, a reset that is neither a crash nor a marked
retry, a crash in safe mode. -/
def endsStreak (op : RtBrakeOp) (earlier : BrakeHistory) : Bool :=
  match op with
  | .settle => true
  | .boot false _ => !retryRun earlier
  | .boot true _ => decide (modeOfRun earlier = bootSafe)
  | _ => false

/-- The quick crashes in a row. -/
def quickCrashes : BrakeHistory → ℕ := countSince endsStreak quickCrash

/-- The reset has to park. -/
def mustPark (op : RtBrakeOp) (earlier : BrakeHistory) : Bool :=
  quickCrash op earlier && decide (brakeStreak ≤ quickCrashes (op :: earlier))

/-- The reset has to park with less. -/
def mustParkBare (op : RtBrakeOp) (earlier : BrakeHistory) : Bool :=
  match op with
  | .boot true _ => parkedRun earlier
  | _ => false

/-- The reset has to park, one way or the other. -/
def parksAtAll (op : RtBrakeOp) (earlier : BrakeHistory) : Bool :=
  mustPark op earlier || mustParkBare op earlier

/-- The parks since the streak began. -/
def parksSince : BrakeHistory → ℕ := countSince endsStreak parksAtAll

/-- The verdict, from the whole history. -/
def verdictOf (op : RtBrakeOp) (earlier : BrakeHistory) : UInt8 :=
  if mustParkBare op earlier then bootParkBare
  else if mustPark op earlier then bootPark
  else bootNormal

/-! ## What the record remembers -/

/-- A count in one byte. -/
def saturated (n : ℕ) : UInt8 := UInt8.ofNat (min 255 n)

theorem toNat_saturated (n : ℕ) : (saturated n).toNat = min 255 n := by
  exact Nat.mod_eq_of_lt (by omega)

theorem bump_saturated (n : ℕ) : bump (saturated n) = saturated (n + 1) := by
  apply UInt8.toNat_inj.mp
  rw [bump]
  by_cases hlt : saturated n < 255
  · have hn : min 255 n < 255 := by
      rw [← toNat_saturated]
      exact UInt8.lt_iff_toNat_lt.mp hlt
    have hone : (1 : UInt8).toNat = 1 := rfl
    rw [if_pos hlt, UInt8.toNat_add, toNat_saturated, toNat_saturated]
    omega
  · have hn : ¬min 255 n < 255 := by
      rw [← toNat_saturated]
      exact fun h => hlt (UInt8.lt_iff_toNat_lt.mpr h)
    rw [if_neg hlt, toNat_saturated, toNat_saturated]
    omega

/-- The flags of a run. -/
def flagsOf (settled retry : Bool) : UInt8 :=
  (if settled then rfSettled else 0) ||| (if retry then rfRetry else 0)

theorem flagsOf_settled (settled retry : Bool) :
    flagsOf settled retry &&& rfSettled = 0 ↔ settled = false := by
  cases settled <;> cases retry <;> decide

theorem flagsOf_retry (settled retry : Bool) :
    flagsOf settled retry &&& rfRetry = 0 ↔ retry = false := by
  cases settled <;> cases retry <;> decide

theorem flagsOf_settle (settled retry : Bool) :
    flagsOf settled retry ||| rfSettled = flagsOf true retry := by
  cases settled <;> cases retry <;> decide

theorem flagsOf_markRetry (settled retry : Bool) :
    flagsOf settled retry ||| rfRetry = flagsOf settled true := by
  cases settled <;> cases retry <;> decide

/-- The record stands for the history. -/
structure Remembers (history : BrakeHistory) (st : RtBrakeState) : Prop where
  streak : st.streak = saturated (quickCrashes history)
  parks : st.parks = saturated (parksSince history)
  mode : st.runMode = modeOfRun history
  flags : st.runFlags = flagsOf (settledRun history) (retryRun history)
  modeValid : st.runMode ≤ bootSafe
  budgetValid : st.budget ≤ rtReportBudget
  valid : rtBrakeValid st = true

theorem remembers_reset : Remembers [] rtBrakeReset where
  streak := rfl
  parks := rfl
  mode := rfl
  flags := rfl
  modeValid := by decide
  budgetValid := by decide
  valid := rtBrakeValid_seal (by decide) (by decide)

theorem countSince_cons_quiet {ends counts : α → List α → Bool} {e : α} {earlier : List α}
    (hends : ends e earlier = false) (hcounts : counts e earlier = false) :
    countSince ends counts (e :: earlier) = countSince ends counts earlier := by
  rw [countSince, hends, hcounts, if_neg Bool.false_ne_true, if_neg Bool.false_ne_true,
    Nat.add_zero]

theorem countSince_cons_ends {ends counts : α → List α → Bool} {e : α} {earlier : List α}
    (hends : ends e earlier = true) : countSince ends counts (e :: earlier) = 0 := by
  rw [countSince, if_pos hends]

theorem countSince_cons_counts {ends counts : α → List α → Bool} {e : α} {earlier : List α}
    (hends : ends e earlier = false) (hcounts : counts e earlier = true) :
    countSince ends counts (e :: earlier) = countSince ends counts earlier + 1 := by
  rw [countSince, hends, if_neg Bool.false_ne_true, if_pos hcounts]

section

variable {earlier : BrakeHistory} {st : RtBrakeState}

theorem Remembers.retry_iff (hmem : Remembers earlier st) :
    st.runFlags &&& rfRetry = 0 ↔ retryRun earlier = false := by
  rw [hmem.flags]
  exact flagsOf_retry _ _

theorem Remembers.settled_iff (hmem : Remembers earlier st) :
    st.runFlags &&& rfSettled = 0 ↔ settledRun earlier = false := by
  rw [hmem.flags]
  exact flagsOf_settled _ _

/-- The record with the streak counted, and its parks forgotten where the streak
ends. -/
def RtBrakeState.counted (st : RtBrakeState) (op : RtBrakeOp) (earlier : BrakeHistory) :
    RtBrakeState :=
  { st with
    streak := saturated (quickCrashes (op :: earlier))
    parks := if endsStreak op earlier then 0 else st.parks }

theorem Remembers.judge_reset (hmem : Remembers earlier st) (retryS : UInt32) :
    rtBrakeJudge st false = (bootNormal, st.counted (.boot false retryS) earlier) := by
  have hcounts : quickCrash (.boot false retryS) earlier = false := rfl
  rw [rtBrakeJudge, if_neg Bool.false_ne_true]
  by_cases hretry : retryRun earlier = false
  · have hends : endsStreak (.boot false retryS) earlier = true := by
      rw [endsStreak, hretry, Bool.not_false]
    rw [if_pos (hmem.retry_iff.mpr hretry), RtBrakeState.counted, quickCrashes,
      countSince_cons_ends hends, if_pos hends]
    rfl
  · have hends : endsStreak (.boot false retryS) earlier = false := by
      rw [endsStreak, Bool.not_eq_false' , ← Bool.not_eq_false]
      exact hretry
    rw [if_neg fun h => hretry (hmem.retry_iff.mp h), RtBrakeState.counted, quickCrashes,
      countSince_cons_quiet hends hcounts, ← quickCrashes, ← hmem.streak,
      if_neg (Bool.eq_false_iff.mp hends)]

theorem Remembers.judge_crash (hmem : Remembers earlier st) (retryS : UInt32) :
    rtBrakeJudge st true =
      (verdictOf (.boot true retryS) earlier, st.counted (.boot true retryS) earlier) := by
  have hends : endsStreak (.boot true retryS) earlier = decide (st.runMode = bootSafe) := by
    rw [hmem.mode]
    rfl
  have hquick : quickCrash (.boot true retryS) earlier =
      (decide (st.runMode = bootNormal) && !settledRun earlier) := by
    rw [hmem.mode]
    rfl
  have hbare : mustParkBare (.boot true retryS) earlier =
      (decide (st.runMode = bootPark) || decide (st.runMode = bootParkBare)) := by
    rw [hmem.mode]
    rfl
  -- a crash that is neither counted nor ends the streak
  have hquiet : endsStreak (.boot true retryS) earlier = false →
      quickCrash (.boot true retryS) earlier = false →
        st.counted (.boot true retryS) earlier = st := by
    intro hends hquick
    rw [RtBrakeState.counted, quickCrashes, countSince_cons_quiet hends hquick, ← quickCrashes,
      ← hmem.streak, if_neg (Bool.eq_false_iff.mp hends)]
  rw [rtBrakeJudge, if_pos rfl]
  by_cases hpark : st.runMode = bootPark ∨ st.runMode = bootParkBare
  · have hsafe : ¬st.runMode = bootSafe := by rcases hpark with h | h <;> rw [h] <;> decide
    have hnormal : ¬st.runMode = bootNormal := by rcases hpark with h | h <;> rw [h] <;> decide
    rw [decide_eq_false hsafe] at hends
    rw [decide_eq_false hnormal] at hquick
    have hverdict : verdictOf (.boot true retryS) earlier = bootParkBare := by
      rw [verdictOf, if_pos]
      rw [hbare, Bool.or_eq_true, decide_eq_true_eq, decide_eq_true_eq]
      exact hpark
    rw [if_pos hpark, hverdict, hquiet hends hquick]
  have hnotBare : ¬mustParkBare (.boot true retryS) earlier = true := by
    rw [hbare, Bool.or_eq_true, decide_eq_true_eq, decide_eq_true_eq]
    exact hpark
  rw [if_neg hpark, verdictOf, if_neg hnotBare, mustPark]
  by_cases hloop : st.runMode = bootNormal ∧ st.runFlags &&& rfSettled = 0
  · have hsafe : ¬st.runMode = bootSafe := by
      rw [hloop.1]
      decide
    rw [decide_eq_false hsafe] at hends
    rw [decide_eq_true hloop.1, hmem.settled_iff.mp hloop.2, Bool.not_false, Bool.and_true]
      at hquick
    have hstreak : bump st.streak = saturated (quickCrashes (.boot true retryS :: earlier)) := by
      rw [hmem.streak, bump_saturated, quickCrashes, countSince_cons_counts hends hquick]
    rw [if_pos hloop, hstreak, hquick, Bool.true_and, toNat_saturated, RtBrakeState.counted, hends]
    simp only [decide_eq_true_eq, Bool.false_eq_true, if_false]
    have hreach (n : ℕ) : brakeStreak ≤ min 255 n ↔ brakeStreak ≤ n := by
      rw [brakeStreak]
      omega
    simp only [hreach]
  rw [if_neg hloop]
  have hnotQuick : quickCrash (.boot true retryS) earlier = false := by
    rw [hquick, Bool.eq_false_iff, ne_eq, Bool.and_eq_true, decide_eq_true_eq,
      Bool.not_eq_true', ← hmem.settled_iff]
    exact hloop
  rw [hnotQuick, Bool.false_and, if_neg Bool.false_ne_true]
  by_cases hsafe : st.runMode = bootSafe
  · rw [decide_eq_true hsafe] at hends
    rw [if_pos hsafe, RtBrakeState.counted, quickCrashes, countSince_cons_ends hends, if_pos hends]
    rfl
  · rw [decide_eq_false hsafe] at hends
    rw [if_neg hsafe, hquiet hends hnotQuick]

/-- **The verdict** is the one that the history asks for, and the streak is counted. -/
theorem Remembers.judge (hmem : Remembers earlier st) (crashReset : Bool) (retryS : UInt32) :
    rtBrakeJudge st crashReset = (verdictOf (.boot crashReset retryS) earlier,
        st.counted (.boot crashReset retryS) earlier) := by
  cases crashReset with
  | false => exact hmem.judge_reset retryS
  | true => exact hmem.judge_crash retryS

theorem parksAtAll_of_endsStreak {op : RtBrakeOp} (hends : endsStreak op earlier = true) :
    parksAtAll op earlier = false := by
  cases op with
  | boot crashReset retryS =>
    cases crashReset with
    | false => rfl
    | true =>
      have hsafe : modeOfRun earlier = bootSafe := of_decide_eq_true hends
      simp only [parksAtAll, mustPark, mustParkBare, quickCrash, parkedRun, hsafe]
      rfl
  | settle => rfl
  | setMode mode => cases hends
  | markRetry => cases hends
  | spend => cases hends
  | setTestRetry seconds => cases hends

theorem verdictOf_eq_normal_iff {op : RtBrakeOp} :
    verdictOf op earlier = bootNormal ↔ parksAtAll op earlier = false := by
  rw [verdictOf, parksAtAll]
  cases mustParkBare op earlier <;> cases mustPark op earlier <;> decide

theorem Remembers.park (hmem : Remembers earlier st) (op : RtBrakeOp) (retryS : UInt32) :
    (rtBrakePark (verdictOf op earlier) retryS (st.counted op earlier)).2.parks =
      saturated (parksSince (op :: earlier)) := by
  have hcounted : (st.counted op earlier).parks = if endsStreak op earlier then 0 else st.parks :=
    rfl
  rw [rtBrakePark, parksSince]
  by_cases hends : endsStreak op earlier = true
  · have hnormal := verdictOf_eq_normal_iff.mpr (parksAtAll_of_endsStreak hends)
    rw [if_neg (not_not_intro hnormal), countSince_cons_ends hends, hcounted, if_pos hends]
    rfl
  · rw [if_neg hends, hmem.parks] at hcounted
    rw [Bool.not_eq_true] at hends
    by_cases hparks : parksAtAll op earlier = true
    · have hverdict : verdictOf op earlier ≠ bootNormal := by
        rw [ne_eq, verdictOf_eq_normal_iff, hparks]
        exact Bool.noConfusion
      rw [if_pos hverdict, countSince_cons_counts hends hparks]
      rw [hcounted, bump_saturated, parksSince]
    · rw [Bool.not_eq_true] at hparks
      rw [if_neg (not_not_intro (verdictOf_eq_normal_iff.mpr hparks)),
        countSince_cons_quiet hends hparks]
      exact hcounted

theorem rtBrakePark_frame (verdict : UInt8) (retryS : UInt32) (st : RtBrakeState) :
    (rtBrakePark verdict retryS st).2.streak = st.streak ∧
      (rtBrakePark verdict retryS st).2.budget = st.budget := by
  rw [rtBrakePark]
  by_cases hverdict : verdict ≠ bootNormal
  · rw [if_pos hverdict]
    exact ⟨rfl, rfl⟩
  · rw [if_neg hverdict]
    exact ⟨rfl, rfl⟩

/-- **A boot**: what it reports, and the record it leaves. -/
theorem Remembers.boot (hmem : Remembers earlier st) (crashReset : Bool) (retryS : UInt32) :
    (rtBrakeBoot st crashReset retryS).1.verdict = verdictOf (.boot crashReset retryS) earlier ∧
      (rtBrakeBoot st crashReset retryS).1.parks =
        saturated (parksSince (.boot crashReset retryS :: earlier)) ∧
      Remembers (.boot crashReset retryS :: earlier) (rtBrakeBoot st crashReset retryS).2 := by
  have hjudge := hmem.judge crashReset retryS
  rw [rtBrakeBoot, hjudge]
  have hparks := hmem.park (.boot crashReset retryS) retryS
  obtain ⟨hstreak, hbudget⟩ := rtBrakePark_frame (verdictOf (.boot crashReset retryS) earlier)
    retryS (st.counted (.boot crashReset retryS) earlier)
  have hbudgetValid := hbudget.symm ▸ hmem.budgetValid
  exact ⟨rfl, hparks, {
    streak := hstreak
    parks := hparks
    mode := rfl
    flags := (by decide : 0 = flagsOf false false)
    modeValid := (by decide : bootNormal ≤ bootSafe)
    budgetValid := hbudgetValid
    valid := rtBrakeValid_seal (by decide : bootNormal ≤ bootSafe) hbudgetValid }⟩

theorem Remembers.note {op : RtBrakeOp} {st' : RtBrakeState} (hmem : Remembers earlier st)
    (hends : endsStreak op earlier = false) (hparks : parksAtAll op earlier = false)
    (hquick : quickCrash op earlier = false) (hsame : st'.streak = st.streak ∧ st'.parks = st.parks)
    (hmode : st'.runMode = modeOfRun (op :: earlier))
    (hflags : st'.runFlags = flagsOf (settledRun (op :: earlier)) (retryRun (op :: earlier)))
    (hmodeValid : st'.runMode ≤ bootSafe) (hbudget : st'.budget ≤ rtReportBudget)
    (hvalid : rtBrakeValid st' = true) : Remembers (op :: earlier) st' where
  streak := by
    rw [hsame.1, hmem.streak, quickCrashes, countSince_cons_quiet hends hquick]
  parks := by
    rw [hsame.2, hmem.parks, parksSince, countSince_cons_quiet hends hparks]
  mode := hmode
  flags := hflags
  modeValid := hmodeValid
  budgetValid := hbudget
  valid := hvalid

/-- **One operation more.** -/
theorem Remembers.next (hmem : Remembers earlier st) (op : RtBrakeOp) :
    Remembers (op :: earlier) (rtBrakeNext st op) := by
  cases op with
  | boot crashReset retryS => exact (hmem.boot crashReset retryS).2.2
  | settle =>
    have hbudget : rtReportBudget ≤ rtReportBudget := by decide
    exact {
      streak := rfl
      parks := rfl
      mode := hmem.mode
      flags := (congrArg (· ||| rfSettled) hmem.flags).trans (flagsOf_settle _ _)
      modeValid := hmem.modeValid
      budgetValid := hbudget
      valid := rtBrakeValid_seal hmem.modeValid hbudget }
  | setMode mode =>
    have hmodeValid : (if mode ≤ bootSafe then mode else bootNormal) ≤ bootSafe := by
      split_ifs with h
      · exact h
      · decide
    exact hmem.note rfl rfl rfl ⟨rfl, rfl⟩ rfl hmem.flags hmodeValid hmem.budgetValid
      (rtBrakeValid_seal hmodeValid hmem.budgetValid)
  | markRetry =>
    exact hmem.note rfl rfl rfl ⟨rfl, rfl⟩ hmem.mode
      ((congrArg (· ||| rfRetry) hmem.flags).trans (flagsOf_markRetry _ _)) hmem.modeValid
      hmem.budgetValid (rtBrakeValid_seal hmem.modeValid hmem.budgetValid)
  | spend =>
    rw [rtBrakeNext, rtBrakeSpend]
    by_cases hspent : st.budget = 0
    · rw [if_pos hspent]
      exact hmem.note rfl rfl rfl ⟨rfl, rfl⟩ hmem.mode hmem.flags hmem.modeValid
        hmem.budgetValid hmem.valid
    · have hbudget : st.budget - 1 ≤ rtReportBudget := by
        have hpos : 0 < st.budget.toNat := by
          rw [Nat.pos_iff_ne_zero]
          exact fun h => hspent (UInt8.toNat_inj.mp h)
        have hle := UInt8.le_iff_toNat_le.mp hmem.budgetValid
        have hone : (1 : UInt8) ≤ st.budget := UInt8.le_iff_toNat_le.mpr hpos
        rw [UInt8.le_iff_toNat_le, UInt8.toNat_sub_of_le _ _ hone]
        omega
      rw [if_neg hspent]
      exact hmem.note rfl rfl rfl ⟨rfl, rfl⟩ hmem.mode hmem.flags hmem.modeValid hbudget
        (rtBrakeValid_seal hmem.modeValid hbudget)
  | setTestRetry seconds =>
    exact hmem.note rfl rfl rfl ⟨rfl, rfl⟩ hmem.mode hmem.flags hmem.modeValid hmem.budgetValid
      (rtBrakeValid_seal hmem.modeValid hmem.budgetValid)

end

theorem remembers_brakeAfter (history : BrakeHistory) : Remembers history (brakeAfter history) := by
  induction history with
  | nil => exact remembers_reset
  | cons op earlier ih => exact ih.next op

/-- The boot gave one of the two verdicts that park. -/
def gavePark (op : RtBrakeOp) (earlier : BrakeHistory) : Bool :=
  match op with
  | .boot crashReset retryS =>
    decide ((rtBrakeBoot (brakeAfter earlier) crashReset retryS).1.verdict ≠ bootNormal)
  | _ => false

theorem gavePark_eq (op : RtBrakeOp) (earlier : BrakeHistory) :
    gavePark op earlier = parksAtAll op earlier := by
  cases op with
  | boot crashReset retryS =>
    rw [gavePark, ((remembers_brakeAfter earlier).boot crashReset retryS).1, Bool.eq_iff_iff,
      decide_eq_true_eq, ne_eq, verdictOf_eq_normal_iff, Bool.not_eq_false]
  | settle => rfl
  | setMode mode => rfl
  | markRetry => rfl
  | spend => rfl
  | setTestRetry seconds => rfl

theorem mustParkBare_iff {earlier : BrakeHistory} :
    mustParkBare (.boot crashReset retryS) earlier = true ↔
      crashReset = true ∧ (modeOfRun earlier = bootPark ∨ modeOfRun earlier = bootParkBare) := by
  cases crashReset <;> simp [mustParkBare, parkedRun]

theorem mustPark_iff {earlier : BrakeHistory} :
    mustPark (.boot crashReset retryS) earlier = true ↔
      crashReset = true ∧ modeOfRun earlier = bootNormal ∧ settledRun earlier = false ∧
        brakeStreak ≤ quickCrashes (.boot crashReset retryS :: earlier) := by
  cases crashReset <;> simp [mustPark, quickCrash, and_assoc]

theorem mustPark_of_bare {op : RtBrakeOp} {earlier : BrakeHistory}
    (hbare : mustParkBare op earlier = true) : mustPark op earlier = false := by
  cases op with
  | boot crashReset retryS =>
    rw [Bool.eq_false_iff, ne_eq, mustPark_iff]
    rintro ⟨-, hnormal, -⟩
    rcases (mustParkBare_iff.mp hbare).2 with h | h
    · rw [hnormal] at h
      exact absurd h (by decide)
    · rw [hnormal] at h
      exact absurd h (by decide)
  | settle => cases hbare
  | setMode mode => cases hbare
  | markRetry => cases hbare
  | spend => cases hbare
  | setTestRetry seconds => cases hbare

/-- **The brake over whole histories.** After any history the record is valid and
counts the parks since the last event that ends a streak; the next boot parks
exactly on the crash that makes the streak long enough, and parks with less exactly
on a crash inside a park. -/
theorem brake_history (history : BrakeHistory) :
    rtBrakeValid (brakeAfter history) = true ∧
      (brakeAfter history).parks.toNat = min 255 (countSince endsStreak gavePark history) ∧
      ∀ (crashReset : Bool) (retryS : UInt32) (out : RestartTrackerBrake),
        (rtBrakeBoot (brakeAfter history) crashReset retryS).1 = out → (out.verdict = bootPark ↔
            crashReset = true ∧ modeOfRun history = bootNormal ∧ settledRun history = false ∧
              brakeStreak ≤ quickCrashes (.boot crashReset retryS :: history)) ∧
          (out.verdict = bootParkBare ↔ crashReset = true ∧
              (modeOfRun history = bootPark ∨ modeOfRun history = bootParkBare)) ∧
          (out.verdict ≠ bootPark → out.verdict ≠ bootParkBare → out.verdict = bootNormal) ∧
          out.parks.toNat =
            min 255 (countSince endsStreak gavePark (.boot crashReset retryS :: history)) := by
  have hgave : countSince endsStreak gavePark = parksSince := by
    rw [parksSince, funext₂ gavePark_eq]
  have hmem := remembers_brakeAfter history
  refine ⟨hmem.valid, ?_, ?_⟩
  · rw [hgave, hmem.parks, toNat_saturated]
  rintro crashReset retryS out rfl
  obtain ⟨hverdict, hparks, -⟩ := hmem.boot crashReset retryS
  rw [hverdict, hparks, hgave, toNat_saturated, ← mustPark_iff, ← mustParkBare_iff, verdictOf]
  refine ⟨?_, ?_, ?_, rfl⟩
  · cases hbare : mustParkBare (.boot crashReset retryS) history with
    | true =>
      rw [mustPark_of_bare hbare]
      decide
    | false => cases mustPark (.boot crashReset retryS) history <;> decide
  · cases mustParkBare (.boot crashReset retryS) history <;>
      cases mustPark (.boot crashReset retryS) history <;> decide
  · cases mustParkBare (.boot crashReset retryS) history <;>
      cases mustPark (.boot crashReset retryS) history <;> decide

/-- Three quick crashes park, a park that ends to try again keeps the streak, and one
more quick crash parks at once. -/
example :
    (rtBrakeBoot (brakeAfter [.markRetry, .setMode bootPark, .boot true 0, .boot true 0,
      .boot true 0]) false 60).1.verdict = bootNormal ∧
    (rtBrakeBoot (brakeAfter [.boot false 60, .markRetry, .setMode bootPark, .boot true 0,
      .boot true 0, .boot true 0]) true 60).1 = ⟨bootPark, 4, 2, 4, false, 60⟩ := by
  decide +kernel

end Meatpi
