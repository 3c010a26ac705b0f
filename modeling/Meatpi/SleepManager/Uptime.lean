import Mathlib.Data.List.Pairwise
import Meatpi.SleepManager.Policy

/-!
# The sleep policy over any uptime

The policy, the floor and the holds at true times that do not wrap, of which the code
has the remainder. While the device is awake its deadlines are near, and the
comparison is right. A device that sleeps may be past its check-in for weeks: after
half a wrap the check-in compares as still to come (`uptime_late`).
-/

namespace Meatpi

open List

variable {due' target : ℕ} {stored : UInt32} {due : ℕ}

/-! ## What happens to the device -/

/-- The device: the ladder, the floor and the activity hold. -/
structure SleepDevice where
  policy : SmPolicy
  critical : SmCritical
  activity : SmActivity
  deriving DecidableEq

/-- A call at a true time. -/
inductive SleepOp where
  /-- `sm_policy_eval` -/
  | policy (ms : ℕ) (volts : Volts)
  /-- `sm_critical_eval` -/
  | critical (ms : ℕ) (volts : Volts)
  /-- `sm_hold_apply` -/
  | hold (ms : ℕ) (ladderOn : Bool) (holdMs : UInt32)
  /-- `sm_activity_apply` -/
  | activity (ms : ℕ) (ladderOn : Bool) (holdMs : UInt32)
  /-- `publish_pending` -/
  | publish (ms : ℕ) (ladderOn : Bool)
  /-- `state_task` once the floor or the boot-loop guard has tripped -/
  | park (ms : ℕ)

/-- When it happens. -/
def SleepOp.ms : SleepOp → ℕ
  | .policy ms _ => ms
  | .critical ms _ => ms
  | .hold ms _ _ => ms
  | .activity ms _ _ => ms
  | .publish ms _ => ms
  | .park ms => ms

def smActivityCapMs : UInt32 := 600000

/-- The device after a call. -/
def sleepNext (cfg : SmCfg) (d : SleepDevice) : SleepOp → SleepDevice
  | .policy ms volts => { d with policy := (smPolicyEval d.policy cfg volts (.ofNat ms)).2 }
  | .critical ms volts => { d with critical := (smCriticalEval d.critical volts (.ofNat ms)).2 }
  | .hold ms ladderOn holdMs =>
    let r := smHoldApply d.policy ladderOn d.critical (.ofNat ms) holdMs
    { d with policy := r.2.1, critical := r.2.2 }
  | .activity ms ladderOn holdMs =>
    let r := smActivityApply d.policy ladderOn d.critical d.activity (.ofNat ms) holdMs
      smActivityCapMs
    ⟨r.2.1, r.2.2.1, r.2.2.2⟩
  | .publish ms ladderOn =>
    if (smPendingEval d.policy ladderOn d.critical (.ofNat ms) (.ofNat ms)).1 = .none then
      { d with activity := { d.activity with active := false } }
    else d
  | .park ms =>
    ⟨{ d.policy with state := .sleeping, tPeriodic := .ofNat ms + cfg.intervalMs }, d.critical,
      { d.activity with active := false }⟩

/-- All that happened since the start, the newest first. -/
abbrev SleepHistory := List SleepOp

/-- The device after a history. -/
def sleepAfter (cfg : SmCfg) : SleepHistory → SleepDevice
  | [] => ⟨smPolicyInit, smCriticalInit, smActivityInit⟩
  | op :: earlier => sleepNext cfg (sleepAfter cfg earlier) op

/-- Time does not go back. -/
def Timely (history : SleepHistory) : Prop :=
  history.Pairwise fun later earlier => earlier.ms ≤ later.ms

/-- The time of the newest call. -/
def latestMs : SleepHistory → ℕ
  | [] => 0
  | op :: _ => op.ms

/-- The longest delay, and the longest hold, of the settings and the callers:
30 minutes. -/
def smLongestMs : ℕ := 30 * 60000

/-- The holds that the callers ask for: `sleep_manager_hold` takes 1 to 30 minutes,
`sleep_manager_activity` 1 to 600 seconds. -/
def SleepOp.InRange : SleepOp → Prop
  | .hold _ _ holdMs => holdMs.toNat ≤ smLongestMs
  | .activity _ _ holdMs => holdMs.toNat ≤ 600 * 1000
  | _ => True

/-- The call puts the device to sleep. -/
def fallsAsleep (cfg : SmCfg) (op : SleepOp) (earlier : SleepHistory) : Bool :=
  match op with
  | .policy ms volts =>
    decide ((smPolicyEval (sleepAfter cfg earlier).policy cfg volts (.ofNat ms)).1 = .enterSleep)
  | .park _ => true
  | _ => false

/-- When the device last went to sleep. -/
def asleepSince (cfg : SmCfg) : SleepHistory → Option ℕ
  | [] => none
  | op :: earlier => if fallsAsleep cfg op earlier then some op.ms else asleepSince cfg earlier

/-- The first read of the countdown that the activity hold counts from. -/
def firstReadMs (cfg : SmCfg) : SleepHistory → ℕ
  | [] => 0
  | op :: earlier =>
    match op with
    | .activity ms _ _ =>
      if (sleepAfter cfg earlier).activity.active then firstReadMs cfg earlier else ms
    | _ => firstReadMs cfg earlier

/-- A read does not find a cap that lies half a wrap behind a deadline. -/
def CapFresh (cfg : SmCfg) (op : SleepOp) (earlier : SleepHistory) : Prop :=
  match op with
  | .activity ms ladderOn _ =>
    let d := sleepAfter cfg earlier
    d.activity.active = true →
      (d.policy.counting ladderOn = true →
        ms + msLeft d.policy.tLow (.ofNat ms) ≤
          firstReadMs cfg earlier + smActivityCapMs.toNat + 2 ^ 31) ∧
      (d.critical.armed = true →
        ms + msLeft d.critical.tTrip (.ofNat ms) ≤
          firstReadMs cfg earlier + smActivityCapMs.toNat + 2 ^ 31)
  | _ => True

/-- Every read of a history finds a fresh cap. -/
def CapsFresh (cfg : SmCfg) : SleepHistory → Prop
  | [] => True
  | op :: earlier => CapFresh cfg op earlier ∧ CapsFresh cfg earlier

/-! ## Deadlines that are near -/

variable {cfg : SmCfg}

/-- A time by which no reading of the last `delay_ms` is `wake_v` or more. -/
def LowFor (cfg : SmCfg) (history : SleepHistory) (due : ℕ) : Prop :=
  ∃ since, since + cfg.delayMs.toNat ≤ due ∧
    ∀ ms volts, .policy ms volts ∈ history → volts.atLeast cfg.wakeV = true → ms ≤ since

/-- A time by which the floor's delay has passed since a reading under it, with no
reading in between that clears it. -/
def CriticalFor (history : SleepHistory) (due : ℕ) : Prop :=
  ∃ newer ms₀ volts₀ older, history = newer ++ .critical ms₀ volts₀ :: older ∧
    volts₀.below smCriticalV = true ∧ ms₀ + smCriticalDelayMs.toNat ≤ due ∧
    ∀ ms volts, .critical ms volts ∈ newer → volts.atLeast smCriticalClearV = false

/-- A stored deadline that is near the time `now`. -/
structure Due (now : ℕ) (stored : UInt32) (due : ℕ) : Prop where
  stored_eq : stored = UInt32.ofNat due
  near : due ≤ now + smLongestMs

theorem LowFor.mono {history : SleepHistory} (h : LowFor cfg history due) (hle : due ≤ due') :
    LowFor cfg history due' := by
  obtain ⟨since, hsince, hall⟩ := h
  exact ⟨since, hsince.trans hle, hall⟩

theorem LowFor.cons {history : SleepHistory} {due : ℕ} {op : SleepOp} (h : LowFor cfg history due)
    (hop : ∀ ms volts, op = .policy ms volts → volts.atLeast cfg.wakeV = false) :
    LowFor cfg (op :: history) due := by
  obtain ⟨since, hsince, hall⟩ := h
  refine ⟨since, hsince, fun ms volts hmem hwake => ?_⟩
  rcases mem_cons.mp hmem with hnew | hold
  · rw [hop ms volts hnew.symm] at hwake
    cases hwake
  · exact hall ms volts hold hwake

theorem CriticalFor.mono {history : SleepHistory} (h : CriticalFor history due) (hle : due ≤ due') :
    CriticalFor history due' := by
  obtain ⟨newer, ms₀, volts₀, older, hsplit, hlow, hdue, hall⟩ := h
  exact ⟨newer, ms₀, volts₀, older, hsplit, hlow, hdue.trans hle, hall⟩

theorem CriticalFor.cons {history : SleepHistory} {due : ℕ} {op : SleepOp}
    (h : CriticalFor history due)
    (hop : ∀ ms volts, op = .critical ms volts → volts.atLeast smCriticalClearV = false) :
    CriticalFor (op :: history) due := by
  obtain ⟨newer, ms₀, volts₀, older, hsplit, hlow, hdue, hall⟩ := h
  refine ⟨op :: newer, ms₀, volts₀, older, by rw [hsplit, cons_append], hlow, hdue, ?_⟩
  intro ms volts hmem
  rcases mem_cons.mp hmem with hnew | hold
  · exact hop ms volts hnew.symm
  · exact hall ms volts hold

theorem Due.later {now now' : ℕ} (h : Due now stored due) (hle : now ≤ now') :
    Due now' stored due :=
  ⟨h.stored_eq, h.near.trans (Nat.add_le_add_right hle _)⟩

theorem Due.reached {now : ℕ} (h : Due now stored due)
    (hreached : Meatpi.reached stored (.ofNat now) = true) : due ≤ now := by
  rw [Meatpi.reached, decide_eq_true_eq, h.stored_eq] at hreached
  have hnear := h.near
  rw [smLongestMs] at hnear
  exact le_of_stamp_reached (by omega) hreached

theorem Due.le_msLeft {now : ℕ} (h : Due now stored due) :
    due ≤ now + msLeft stored (.ofNat now) := by
  rcases Nat.le_total due now with hpast | hahead
  · exact hpast.trans (Nat.le_add_right _ _)
  · have hnear := h.near
    rw [smLongestMs] at hnear
    rw [msLeft, h.stored_eq, stamp_left hahead (by omega), Int.toNat_natCast]
    omega

/-- **A deadline only moves out**, to a target that does not lie half a wrap
behind it. -/
theorem Due.pushOut {now : ℕ} (h : Due now stored due) (htarget : target ≤ now + smLongestMs)
    (hnear : due ≤ target + 2 ^ 31) :
    ∃ due', Due now (Meatpi.pushOut stored (.ofNat target)) due' ∧ due ≤ due' := by
  rw [Meatpi.pushOut, h.stored_eq]
  by_cases hlater : 0 < (UInt32.ofNat target - UInt32.ofNat due).toInt32.toInt
  · rw [if_pos hlater]
    exact ⟨target, ⟨rfl, htarget⟩, (lt_of_stamp_later hnear hlater).le⟩
  · rw [if_neg hlater]
    exact ⟨due, ⟨rfl, h.near⟩, le_rfl⟩

/-! ## The invariant -/

/-- What is true of a device after a history. -/
structure Uptime (cfg : SmCfg) (history : SleepHistory) (d : SleepDevice) (now : ℕ) : Prop where
  low : d.policy.state = .lowVoltage →
    ∃ due, Due now d.policy.tLow due ∧ LowFor cfg history due
  trip : d.critical.armed = true →
    ∃ due, Due now d.critical.tTrip due ∧ CriticalFor history due
  cap : d.activity.active = true →
    d.activity.capUntil = UInt32.ofNat (firstReadMs cfg history + smActivityCapMs.toNat) ∧
      firstReadMs cfg history ≤ now
  checkIn : d.policy.asleep = true →
    ∃ since, asleepSince cfg history = some since ∧
      d.policy.tPeriodic = UInt32.ofNat (since + cfg.intervalMs.toNat)

theorem Uptime.quiet {history : SleepHistory} {d : SleepDevice} {now : ℕ} {op : SleepOp}
    (h : Uptime cfg history d now) (hnow : now ≤ op.ms)
    (hpolicy : ∀ ms volts, op ≠ .policy ms volts) (hcritical : ∀ ms volts, op ≠ .critical ms volts)
    (hread : firstReadMs cfg (op :: history) = firstReadMs cfg history)
    (hasleep : asleepSince cfg (op :: history) = asleepSince cfg history) :
    Uptime cfg (op :: history) d op.ms where
  low := fun hlow => by
    obtain ⟨due, hdue, hfor⟩ := h.low hlow
    exact ⟨due, hdue.later hnow, hfor.cons fun ms volts heq => absurd heq (hpolicy ms volts)⟩
  trip := fun harmed => by
    obtain ⟨due, hdue, hfor⟩ := h.trip harmed
    exact ⟨due, hdue.later hnow, hfor.cons fun ms volts heq => absurd heq (hcritical ms volts)⟩
  cap := fun hactive => by
    rw [hread]
    exact ⟨(h.cap hactive).1, (h.cap hactive).2.trans hnow⟩
  checkIn := fun hsleep => by
    rw [hasleep]
    exact h.checkIn hsleep

theorem Uptime.pushOut {history : SleepHistory} {d : SleepDevice} {now : ℕ}
    (h : Uptime cfg history d now) (ladderOn : Bool) (htarget : target ≤ now + smLongestMs)
    (hlow : d.policy.counting ladderOn = true →
      ∀ due, Due now d.policy.tLow due → due ≤ target + 2 ^ 31)
    (htrip : d.critical.armed = true →
      ∀ due, Due now d.critical.tTrip due → due ≤ target + 2 ^ 31) :
    Uptime cfg history
      { d with
        policy := (pushOutBoth d.policy ladderOn d.critical (.ofNat target)).1
        critical := (pushOutBoth d.policy ladderOn d.critical (.ofNat target)).2 } now where
  low := fun hstate => by
    simp only [pushOutBoth_state] at hstate
    obtain ⟨due, hdue, hfor⟩ := h.low hstate
    simp only [pushOutBoth]
    by_cases hcounting : d.policy.counting ladderOn = true
    · obtain ⟨due', hdue', hle⟩ := hdue.pushOut htarget (hlow hcounting due hdue)
      rw [if_pos hcounting]
      exact ⟨due', hdue', hfor.mono hle⟩
    · rw [if_neg hcounting]
      exact ⟨due, hdue, hfor⟩
  trip := fun harmed => by
    simp only [pushOutBoth_armed] at harmed
    obtain ⟨due, hdue, hfor⟩ := h.trip harmed
    obtain ⟨due', hdue', hle⟩ := hdue.pushOut htarget (htrip harmed due hdue)
    simp only [pushOutBoth, harmed, if_true]
    exact ⟨due', hdue', hfor.mono hle⟩
  cap := h.cap
  checkIn := fun hsleep => by
    simp only [SmPolicy.asleep, pushOutBoth_state, pushOutBoth_tPeriodic] at hsleep ⊢
    exact h.checkIn hsleep

variable {history : SleepHistory} {d : SleepDevice} {now : ℕ}

theorem Uptime.policy (h : Uptime cfg history (sleepAfter cfg history) now) {ms : ℕ}
    (volts : Volts) (hnow : now ≤ ms) (hpast : ∀ op ∈ history, op.ms ≤ ms)
    (hdelay : cfg.delayMs.toNat ≤ smLongestMs) :
    Uptime cfg (.policy ms volts :: history) (sleepAfter cfg (.policy ms volts :: history)) ms where
  low := fun hstate => by
    simp only [sleepAfter, sleepNext] at hstate ⊢
    rcases smPolicyEval_low hstate with hstarted | ⟨hlow, hwake, hsame⟩
    · -- the countdown starts at this reading: nothing that was read is later
      refine ⟨ms + cfg.delayMs.toNat, ⟨hstarted.trans (stamp_add ms _), by omega⟩, ms, le_rfl, ?_⟩
      intro ms' volts' hmem _
      rcases mem_cons.mp hmem with heq | hold
      · cases heq
        exact le_rfl
      · exact hpast _ hold
    · obtain ⟨due, hdue, hfor⟩ := h.low hlow
      rw [hsame]
      refine ⟨due, hdue.later hnow, hfor.cons ?_⟩
      intro ms' volts' heq
      cases heq
      exact hwake
  trip := fun harmed => by
    obtain ⟨due, hdue, hfor⟩ := h.trip harmed
    exact ⟨due, hdue.later hnow, hfor.cons fun _ _ heq => SleepOp.noConfusion heq⟩
  cap := fun hactive => ⟨(h.cap hactive).1, (h.cap hactive).2.trans hnow⟩
  checkIn := fun hsleep => by
    simp only [sleepAfter, sleepNext] at hsleep ⊢
    rcases smPolicyEval_asleep hsleep with ⟨henter, hset⟩ | ⟨hstays, hasleep, hsame⟩
    · refine ⟨ms, ?_, hset.trans (stamp_add ms _)⟩
      rw [asleepSince, fallsAsleep, decide_eq_true henter, if_pos rfl, SleepOp.ms]
    · rw [asleepSince, fallsAsleep, decide_eq_false hstays, hsame]
      exact h.checkIn hasleep

theorem Uptime.critical (h : Uptime cfg history (sleepAfter cfg history) now) {ms : ℕ}
    (volts : Volts) (hnow : now ≤ ms) :
    Uptime cfg (.critical ms volts :: history)
      (sleepAfter cfg (.critical ms volts :: history)) ms where
  low := fun hstate => by
    obtain ⟨due, hdue, hfor⟩ := h.low hstate
    exact ⟨due, hdue.later hnow, hfor.cons fun _ _ heq => SleepOp.noConfusion heq⟩
  trip := fun harmed => by
    simp only [sleepAfter, sleepNext] at harmed ⊢
    rcases smCriticalEval_armed harmed with ⟨hlow, hset⟩ | ⟨hwas, hclear, hsame⟩
    · refine ⟨ms + smCriticalDelayMs.toNat, ⟨hset.trans (stamp_add ms _), ?_⟩, [], ms, volts,
        history, rfl, hlow, le_rfl, fun _ _ hmem => absurd hmem not_mem_nil⟩
      exact Nat.add_le_add_left (by decide) ms
    · obtain ⟨due, hdue, hfor⟩ := h.trip hwas
      rw [hsame]
      refine ⟨due, hdue.later hnow, hfor.cons ?_⟩
      intro ms' volts' heq
      cases heq
      exact hclear
  cap := fun hactive => ⟨(h.cap hactive).1, (h.cap hactive).2.trans hnow⟩
  checkIn := h.checkIn

theorem Uptime.hold (h : Uptime cfg history (sleepAfter cfg history) now) {ms : ℕ} (ladderOn : Bool)
    {holdMs : UInt32} (hnow : now ≤ ms) (hrange : holdMs.toNat ≤ smLongestMs) :
    Uptime cfg (.hold ms ladderOn holdMs :: history)
      (sleepAfter cfg (.hold ms ladderOn holdMs :: history)) ms := by
  have hquiet : Uptime cfg (.hold ms ladderOn holdMs :: history) (sleepAfter cfg history) ms :=
    h.quiet hnow (fun _ _ => SleepOp.noConfusion) (fun _ _ => SleepOp.noConfusion) rfl rfl
  simp only [sleepAfter, sleepNext, smHoldApply]
  by_cases hasleep : (sleepAfter cfg history).policy.asleep = true
  · rw [if_pos hasleep]
    exact hquiet
  · have hnear : ∀ {stored : UInt32} (due : ℕ), Due ms stored due →
        due ≤ ms + holdMs.toNat + 2 ^ 31 := by
      intro stored due hdue
      have hle := hdue.near
      rw [smLongestMs] at hle
      omega
    rw [if_neg hasleep, stamp_add]
    exact hquiet.pushOut ladderOn (Nat.add_le_add_left hrange ms) (fun _ => hnear) fun _ => hnear

theorem activityTarget_eq (cap ms : ℕ) (holdMs : UInt32) :
    ∃ target, activityTarget (.ofNat cap) (.ofNat ms) holdMs = UInt32.ofNat target ∧
      (target = cap ∨ target = ms + holdMs.toNat) := by
  rw [activityTarget, stamp_add]
  split_ifs
  · exact ⟨cap, rfl, .inl rfl⟩
  · exact ⟨ms + holdMs.toNat, rfl, .inr rfl⟩

theorem Uptime.activity (h : Uptime cfg history (sleepAfter cfg history) now) {ms : ℕ}
    (ladderOn : Bool) {holdMs : UInt32} (hnow : now ≤ ms) (hrange : holdMs.toNat ≤ 600 * 1000)
    (hfresh : CapFresh cfg (.activity ms ladderOn holdMs) history) :
    Uptime cfg (.activity ms ladderOn holdMs :: history)
      (sleepAfter cfg (.activity ms ladderOn holdMs :: history)) ms := by
  -- the cap that the read finds or sets, at its true time
  obtain ⟨cap, hcap, hread, hfirst⟩ :
      ∃ cap, activityCap (sleepAfter cfg history).activity (.ofNat ms) smActivityCapMs =
          UInt32.ofNat cap ∧
        cap = firstReadMs cfg (.activity ms ladderOn holdMs :: history) + smActivityCapMs.toNat ∧
        firstReadMs cfg (.activity ms ladderOn holdMs :: history) ≤ ms := by
    simp only [activityCap, firstReadMs]
    by_cases hactive : (sleepAfter cfg history).activity.active = true
    · rw [if_pos hactive, if_pos hactive]
      exact ⟨_, (h.cap hactive).1, rfl, (h.cap hactive).2.trans hnow⟩
    · rw [if_neg hactive, if_neg hactive]
      exact ⟨_, stamp_add ms _, rfl, le_rfl⟩
  have hcapMs : smActivityCapMs.toNat = 600000 := by decide
  -- everything but the hold itself
  have hquiet : Uptime cfg (.activity ms ladderOn holdMs :: history) { sleepAfter cfg history with
        activity := ⟨true, .ofNat cap, (sleepAfter cfg history).activity.heldUntil⟩ } ms := by
    refine ⟨fun hlow => ?_, fun harmed => ?_, fun _ => ⟨congrArg UInt32.ofNat hread, hfirst⟩,
      h.checkIn⟩
    · obtain ⟨due, hdue, hfor⟩ := h.low hlow
      exact ⟨due, hdue.later hnow, hfor.cons fun _ _ heq => SleepOp.noConfusion heq⟩
    · obtain ⟨due, hdue, hfor⟩ := h.trip harmed
      exact ⟨due, hdue.later hnow, hfor.cons fun _ _ heq => SleepOp.noConfusion heq⟩
  simp only [sleepAfter, sleepNext, smActivityApply]
  by_cases hidle : (sleepAfter cfg history).policy.asleep = true ∨
      (sleepAfter cfg history).policy.counting ladderOn = false ∧
        (sleepAfter cfg history).critical.armed = false
  · rw [if_pos hidle]
    exact ⟨hquiet.low, hquiet.trip, fun hactive => Bool.noConfusion hactive, hquiet.checkIn⟩
  · rw [if_neg hidle, hcap]
    obtain ⟨target, htarget, hwhere⟩ := activityTarget_eq cap ms holdMs
    have hnear : target ≤ ms + smLongestMs := by
      rw [smLongestMs]
      omega
    -- a cap that was found may lie behind, but not by half a wrap
    have hbehind : ∀ {stored : UInt32}, ((sleepAfter cfg history).activity.active = true →
          ms + msLeft stored (.ofNat ms) ≤
            firstReadMs cfg history + smActivityCapMs.toNat + 2 ^ 31) →
        ∀ due, Due ms stored due → due ≤ target + 2 ^ 31 := by
      intro stored hleft due hdue
      have hdueNear := hdue.near
      rw [smLongestMs] at hdueNear
      rcases hwhere with hc | ht
      · by_cases hactive : (sleepAfter cfg history).activity.active = true
        · have hread' : cap = firstReadMs cfg history + smActivityCapMs.toNat := by
            rw [hread, firstReadMs, if_pos hactive]
          have hle := hdue.le_msLeft.trans (hleft hactive)
          omega
        · have hread' : cap = ms + smActivityCapMs.toNat := by
            rw [hread, firstReadMs, if_neg hactive]
          omega
      · omega
    have hpushed := hquiet.pushOut ladderOn hnear
      (fun hcounting => hbehind fun hactive => (hfresh hactive).1 hcounting)
      fun harmed => hbehind fun hactive => (hfresh hactive).2 harmed
    rw [htarget]
    exact ⟨hpushed.low, hpushed.trip, hquiet.cap, hpushed.checkIn⟩

/-- **One call more.** -/
theorem Uptime.next (h : Uptime cfg history (sleepAfter cfg history) now) {op : SleepOp}
    (hnow : now ≤ op.ms) (hpast : ∀ earlier ∈ history, earlier.ms ≤ op.ms)
    (hdelay : cfg.delayMs.toNat ≤ smLongestMs) (hrange : op.InRange)
    (hfresh : CapFresh cfg op history) :
    Uptime cfg (op :: history) (sleepAfter cfg (op :: history)) op.ms := by
  cases op with
  | policy ms volts => exact h.policy volts hnow hpast hdelay
  | critical ms volts => exact h.critical volts hnow
  | hold ms ladderOn holdMs => exact h.hold ladderOn hnow hrange
  | activity ms ladderOn holdMs => exact h.activity ladderOn hnow hrange hfresh
  | publish ms ladderOn =>
    have hquiet : Uptime cfg (.publish ms ladderOn :: history) (sleepAfter cfg history) ms :=
      h.quiet hnow (fun _ _ => SleepOp.noConfusion) (fun _ _ => SleepOp.noConfusion) rfl rfl
    simp only [sleepAfter, sleepNext]
    split_ifs
    · exact ⟨hquiet.low, hquiet.trip, fun hactive => Bool.noConfusion hactive, hquiet.checkIn⟩
    · exact hquiet
  | park ms =>
    refine ⟨fun hlow => SleepManagerState.noConfusion hlow, fun harmed => ?_,
      fun hactive => Bool.noConfusion hactive, fun _ => ⟨ms, rfl, stamp_add ms _⟩⟩
    obtain ⟨due, hdue, hfor⟩ := h.trip harmed
    exact ⟨due, hdue.later hnow, hfor.cons fun _ _ heq => SleepOp.noConfusion heq⟩

theorem uptime {history : SleepHistory} (htimely : Timely history)
    (hdelay : cfg.delayMs.toNat ≤ smLongestMs) (hrange : ∀ op ∈ history, op.InRange)
    (hfresh : CapsFresh cfg history) :
    Uptime cfg history (sleepAfter cfg history) (latestMs history) := by
  induction history with
  | nil =>
    exact ⟨fun h => SleepManagerState.noConfusion h, fun h => Bool.noConfusion h,
      fun h => Bool.noConfusion h, fun h => Bool.noConfusion h⟩
  | cons op earlier ih =>
    obtain ⟨hpast, htimely'⟩ := pairwise_cons.mp htimely
    have hbefore := ih htimely' (fun e he => hrange e (mem_cons_of_mem op he)) hfresh.2
    have hnow : latestMs earlier ≤ op.ms := by
      cases earlier with
      | nil => exact Nat.zero_le _
      | cons e _ => exact hpast e mem_cons_self
    exact hbefore.next hnow hpast hdelay (hrange op mem_cons_self) hfresh.1

/-! ## The answers -/

theorem Volts.atLeast_of_below {volts : Volts} {level : ℚ} (h : volts.below level = true) :
    volts.atLeast level = false := by
  cases volts with
  | none => rfl
  | some v =>
    have hlt : v < level := of_decide_eq_true h
    exact decide_eq_false (Rat.not_le.mpr hlt)

/-- **The sleep policy over any uptime.** Sleep is entered only when no reading of the
last `delay_ms` was `wake_v` or more, and the floor trips only when its delay has
passed since a reading under it that was not cleared since. A sleeping device whose
interval has elapsed checks in exactly if the time since is, modulo the wrap, less
than half a wrap. -/
theorem sleep_uptime {history : SleepHistory} {ms : ℕ} (htimely : Timely history)
    (hdelay : cfg.delayMs.toNat ≤ smLongestMs) (hrange : ∀ op ∈ history, op.InRange)
    (hfresh : CapsFresh cfg history) (hnow : latestMs history ≤ ms) (volts : Volts) :
    ((smPolicyEval (sleepAfter cfg history).policy cfg volts (.ofNat ms)).1 = .enterSleep →
        volts.atLeast cfg.wakeV = false ∧
          ∀ ms' volts', .policy ms' volts' ∈ history → volts'.atLeast cfg.wakeV = true →
            ms' + cfg.delayMs.toNat ≤ ms) ∧
      ((smCriticalEval (sleepAfter cfg history).critical volts (.ofNat ms)).1 = true →
        volts.atLeast smCriticalClearV = false ∧
          ∃ newer ms₀ volts₀ older, history = newer ++ .critical ms₀ volts₀ :: older ∧
            volts₀.below smCriticalV = true ∧ ms₀ + smCriticalDelayMs.toNat ≤ ms ∧
            ∀ ms' volts', .critical ms' volts' ∈ newer → volts'.atLeast smCriticalClearV = false) ∧
      ((sleepAfter cfg history).policy.state = .sleeping →
        ∃ since, asleepSince cfg history = some since ∧
          (cfg.periodic = true → since + cfg.intervalMs.toNat ≤ ms →
            volts.above smCriticalV = true → volts.below cfg.wakeV = true →
            ((smPolicyEval (sleepAfter cfg history).policy cfg volts (.ofNat ms)).1 =
                .periodicWake ↔
              (ms - (since + cfg.intervalMs.toNat)) % 2 ^ 32 < 2 ^ 31))) := by
  have hup := uptime htimely hdelay hrange hfresh
  refine ⟨fun henter => ?_, fun htrip => ?_, fun hstate => ?_⟩
  · obtain ⟨hlow, hwake, hreached⟩ := smPolicyEval_enterSleep henter
    obtain ⟨due, hdue, since, hsince, hall⟩ := hup.low hlow
    have hcome := (hdue.later hnow).reached hreached
    refine ⟨hwake, fun ms' volts' hmem hwoke => ?_⟩
    have hle := hall ms' volts' hmem hwoke
    omega
  · obtain ⟨harmed, hclear, hreached⟩ := smCriticalEval_trips htrip
    obtain ⟨due, hdue, hfor⟩ := hup.trip harmed
    exact ⟨hclear, hfor.mono ((hdue.later hnow).reached hreached)⟩
  · have hasleep : (sleepAfter cfg history).policy.asleep = true := by
      rw [SmPolicy.asleep, hstate]
      rfl
    obtain ⟨since, hsince, hset⟩ := hup.checkIn hasleep
    refine ⟨since, hsince, fun hperiodic helapsed habove hbelow => ?_⟩
    rw [smPolicyEval_checkIn hstate hperiodic (Volts.atLeast_of_below hbelow) habove, reached,
      hset, decide_eq_true_eq]
    exact stamp_reached_iff helapsed

/-! ## A flat battery -/

/-- The settings as they come, with the periodic check-in on. -/
def periodicCfg : SmCfg := ⟨131 / 10, 132 / 10, 500, 300000, true, 1800000⟩

/-- 12 V for five minutes, read every minute, and the device is asleep. -/
def fallingAsleep : SleepHistory :=
  [.policy 300000 (some 12), .critical 300000 (some 12), .policy 240000 (some 12),
    .critical 240000 (some 12), .policy 180000 (some 12), .critical 180000 (some 12),
    .policy 120000 (some 12), .critical 120000 (some 12), .policy 60000 (some 12),
    .critical 60000 (some 12), .policy 0 (some 12), .critical 0 (some 12)]

/-- Then 11 V, read every minute `n` times. -/
def flatFor : ℕ → SleepHistory
  | 0 => fallingAsleep
  | n + 1 => .policy (300000 + 60000 * (n + 1)) (some 11) :: flatFor n

/-- Calls are at most a minute apart. -/
def MinuteApart : SleepHistory → Prop
  | [] => True
  | op :: earlier =>
    (earlier = [] ∨ op.ms ≤ latestMs earlier + 60000) ∧ MinuteApart earlier

theorem latestMs_flatFor (n : ℕ) : latestMs (flatFor n) = 300000 + 60000 * n := by
  cases n with
  | zero => simp only [flatFor, fallingAsleep, latestMs, SleepOp.ms, Nat.mul_zero, Nat.add_zero]
  | succ n => rw [flatFor, latestMs, SleepOp.ms]

theorem flatFor_past (n : ℕ) : ∀ op ∈ flatFor n, op.ms ≤ 300000 + 60000 * n := by
  induction n with
  | zero => decide
  | succ n ih =>
    intro op hop
    rcases mem_cons.mp hop with rfl | hold
    · exact le_rfl
    · exact (ih op hold).trans (by omega)

theorem timely_flatFor (n : ℕ) : Timely (flatFor n) := by
  induction n with
  | zero =>
    rw [Timely]
    decide
  | succ n ih =>
    refine pairwise_cons.mpr ⟨fun op hop => (flatFor_past n op hop).trans ?_, ih⟩
    rw [SleepOp.ms]
    omega

theorem minuteApart_flatFor (n : ℕ) : MinuteApart (flatFor n) := by
  induction n with
  | zero => simp [flatFor, fallingAsleep, MinuteApart, latestMs, SleepOp.ms]
  | succ n ih =>
    refine ⟨.inr ?_, ih⟩
    rw [latestMs_flatFor, SleepOp.ms]
    omega

theorem inRange_flatFor (n : ℕ) : ∀ op ∈ flatFor n, op.InRange := by
  induction n with
  | zero =>
    intro op hop
    simp only [flatFor, fallingAsleep, mem_cons, not_mem_nil, or_false] at hop
    rcases hop with rfl | rfl | rfl | rfl | rfl | rfl | rfl | rfl | rfl | rfl | rfl | rfl
    all_goals exact trivial
  | succ n ih =>
    intro op hop
    rcases mem_cons.mp hop with rfl | hold
    · exact trivial
    · exact ih op hold

theorem capsFresh_flatFor (n : ℕ) : CapsFresh periodicCfg (flatFor n) := by
  induction n with
  | zero => exact ⟨trivial, trivial, trivial, trivial, trivial, trivial, trivial, trivial, trivial,
      trivial, trivial, trivial, trivial⟩
  | succ n ih => exact ⟨trivial, ih⟩

/-- The device that fell asleep at 300000 ms. -/
def flatDevice : SleepDevice := ⟨⟨.sleeping, 300000, 0, 2100000⟩, ⟨false, 0⟩, ⟨false, 0, 0⟩⟩

theorem sleepAfter_flatFor (n : ℕ) : sleepAfter periodicCfg (flatFor n) = flatDevice := by
  induction n with
  | zero => decide +kernel
  | succ n ih =>
    have hquiet : (smPolicyEval flatDevice.policy periodicCfg (some 11)
        (.ofNat (300000 + 60000 * (n + 1)))).2 = flatDevice.policy := by
      have hwake : Volts.atLeast (some 11) periodicCfg.wakeV = false := by decide +kernel
      have hcritical : Volts.above (some 11) smCriticalV = false := by decide +kernel
      simp [smPolicyEval, flatDevice, hwake, hcritical]
    rw [flatFor, sleepAfter, ih, sleepNext, hquiet]

theorem asleepSince_flatFor (n : ℕ) : asleepSince periodicCfg (flatFor n) = some 300000 := by
  induction n with
  | zero => decide +kernel
  | succ n ih =>
    have hquiet : (smPolicyEval flatDevice.policy periodicCfg (some 11)
        (.ofNat (300000 + 60000 * (n + 1)))).1 = .none := by
      have hwake : Volts.atLeast (some 11) periodicCfg.wakeV = false := by decide +kernel
      have hcritical : Volts.above (some 11) smCriticalV = false := by decide +kernel
      simp [smPolicyEval, flatDevice, hwake, hcritical]
    rw [flatFor, asleepSince, fallsAsleep, sleepAfter_flatFor, hquiet, ih]
    rfl

/-- After half an hour with a flat battery, the first good reading is a check-in. -/
theorem sleep_uptime_checks_in :
    (smPolicyEval (sleepAfter periodicCfg (flatFor 30)).policy periodicCfg (some (25 / 2))
      (.ofNat 2160000)).1 = .periodicWake := by
  have hnow : latestMs (flatFor 30) ≤ 2160000 := by
    rw [latestMs_flatFor]
    omega
  obtain ⟨-, -, hasleep⟩ := sleep_uptime (timely_flatFor 30) (by decide) (inRange_flatFor 30)
    (capsFresh_flatFor 30) hnow (some (25 / 2))
  obtain ⟨since, hsince, hchecks⟩ := hasleep (by rw [sleepAfter_flatFor]; rfl)
  rw [asleepSince_flatFor] at hsince
  cases hsince
  exact (hchecks rfl (by decide) (by decide +kernel) (by decide +kernel)).mpr (by decide)

/-- **The check-in that does not come.** The battery is flat for 25 days, read every
minute; then it reads 12.5 V, weeks after the interval has elapsed, and the device
sleeps on. -/
theorem uptime_late :
    Timely (flatFor 35822) ∧ MinuteApart (flatFor 35822) ∧
      (∀ op ∈ flatFor 35822, op.InRange) ∧ CapsFresh periodicCfg (flatFor 35822) ∧
      latestMs (flatFor 35822) = 2149620000 ∧
      (sleepAfter periodicCfg (flatFor 35822)).policy.state = .sleeping ∧
      asleepSince periodicCfg (flatFor 35822) = some 300000 ∧
      300000 + periodicCfg.intervalMs.toNat ≤ 2149680000 ∧ periodicCfg.periodic = true ∧
      Volts.above (some (25 / 2)) smCriticalV = true ∧
      Volts.below (some (25 / 2)) periodicCfg.wakeV = true ∧
      (smPolicyEval (sleepAfter periodicCfg (flatFor 35822)).policy periodicCfg (some (25 / 2))
        (.ofNat 2149680000)).1 = .none := by
  refine ⟨timely_flatFor _, minuteApart_flatFor _, inRange_flatFor _, capsFresh_flatFor _,
    latestMs_flatFor _, ?_, asleepSince_flatFor _, by decide, rfl, by decide +kernel,
    by decide +kernel, ?_⟩
  · rw [sleepAfter_flatFor]
    rfl
  · rw [sleepAfter_flatFor]
    decide +kernel

end Meatpi
