import Mathlib.Data.Rat.Lemmas
import Meatpi.Library.WrapClock

/-!
# The sleep policy (`sleep_manager_policy.c`)

The battery voltage drives a small ladder: low for long enough is sleep, a recovery
that holds is a wake, and a sleeping device checks in periodically unless the battery
is critically low. A second tracker sleeps a device whose battery stays under a
critical floor. Deadlines are kept as wrapping 32-bit milliseconds; a hold moves them
out.
-/

namespace Meatpi

/-! ## Voltages -/

/-- A reading, `none` where the float is not a number. -/
abbrev Volts := Option ℚ

/-- `volts < level` -/
def Volts.below (volts : Volts) (level : ℚ) : Bool := volts.any fun v => decide (v < level)

/-- `volts >= level` -/
def Volts.atLeast (volts : Volts) (level : ℚ) : Bool := volts.any fun v => decide (level ≤ v)

/-- `volts > level` -/
def Volts.above (volts : Volts) (level : ℚ) : Bool := volts.any fun v => decide (level < v)

/-- `SM_CRITICAL_V`: the float nearest to 11.90. -/
def smCriticalV : ℚ := 6239027 / 524288

/-- `SM_CRITICAL_V + SM_CRITICAL_HYST_V`, added as floats. -/
def smCriticalClearV : ℚ := 12530483 / 1048576

def smCriticalDelayMs : UInt32 := 300000

/-! ## The state -/

inductive SleepManagerState where
  | normal
  | lowVoltage
  | sleeping
  | wakePending
  deriving DecidableEq

inductive SleepManagerPending where
  | none
  | delay
  | critical
  deriving DecidableEq

inductive SmAction where
  | none
  | enterSleep
  | wakeReboot
  | periodicWake
  deriving DecidableEq

structure SmCfg where
  sleepV : ℚ
  wakeV : ℚ
  wakeHoldMs : UInt32
  delayMs : UInt32
  periodic : Bool
  intervalMs : UInt32

structure SmPolicy where
  state : SleepManagerState
  tLow : UInt32
  tStable : UInt32
  tPeriodic : UInt32
  deriving DecidableEq

def smPolicyInit : SmPolicy := ⟨.normal, 0, 0, 0⟩

structure SmCritical where
  armed : Bool
  tTrip : UInt32
  deriving DecidableEq

def smCriticalInit : SmCritical := ⟨false, 0⟩

structure SmActivity where
  active : Bool
  capUntil : UInt32
  heldUntil : UInt32
  deriving DecidableEq

def smActivityInit : SmActivity := ⟨false, 0, 0⟩

/-- Asleep, or about to wake up. -/
def SmPolicy.asleep (p : SmPolicy) : Bool :=
  decide (p.state = .sleeping) || decide (p.state = .wakePending)

/-! ## The evaluations -/

def reached (deadline now : UInt32) : Bool := decide (0 ≤ (now - deadline).toInt32.toInt)

def smCriticalEval (c : SmCritical) (volts : Volts) (nowMs : UInt32) : Bool × SmCritical :=
  if volts.atLeast smCriticalClearV then
    (false, { c with armed := false })
  else if ¬c.armed then
    if volts.below smCriticalV then
      (false, ⟨true, nowMs + smCriticalDelayMs⟩)
    else
      (false, c)
  else if reached c.tTrip nowMs then
    (true, { c with armed := false })
  else
    (false, c)

def smPolicyEval (p : SmPolicy) (cfg : SmCfg) (volts : Volts) (nowMs : UInt32) :
    SmAction × SmPolicy :=
  match p.state with
  | .normal =>
    if volts.below cfg.sleepV then
      (.none, { p with state := .lowVoltage, tLow := nowMs + cfg.delayMs })
    else
      (.none, p)
  | .lowVoltage =>
    if volts.atLeast cfg.wakeV then
      (.none, { p with state := .normal })
    else if reached p.tLow nowMs then
      (.enterSleep, { p with state := .sleeping, tPeriodic := nowMs + cfg.intervalMs })
    else
      (.none, p)
  | .sleeping =>
    if volts.atLeast cfg.wakeV then
      (.none, { p with state := .wakePending, tStable := nowMs + cfg.wakeHoldMs })
    else if cfg.periodic ∧ volts.above smCriticalV ∧ reached p.tPeriodic nowMs then
      (.periodicWake, p)
    else
      (.none, p)
  | .wakePending =>
    if volts.below cfg.wakeV then
      (.none, { p with state := .sleeping })
    else if reached p.tStable nowMs then
      (.wakeReboot, p)
    else
      (.none, p)

/-! ## The countdown and its holds -/

def msLeft (deadline now : UInt32) : ℕ := (deadline - now).toInt32.toInt.toNat

/-- `sm_pending_eval`: what counts, and its deadline. -/
def smPendingEval (p : SmPolicy) (ladderOn : Bool) (c : SmCritical) (nowMs : UInt32)
    (deadlineMs : UInt32) : SleepManagerPending × UInt32 :=
  if p.asleep then
    (.none, deadlineMs)
  else
    let ladder : SleepManagerPending × UInt32 :=
      if ladderOn ∧ p.state = .lowVoltage then (.delay, p.tLow) else (.none, deadlineMs)
    if c.armed ∧ (ladder.1 = .none ∨ msLeft c.tTrip nowMs ≤ msLeft p.tLow nowMs) then
      (.critical, c.tTrip)
    else
      ladder

def pushOut (deadline target : UInt32) : UInt32 :=
  if 0 < (target - deadline).toInt32.toInt then target else deadline

/-- The ladder counts. -/
def SmPolicy.counting (p : SmPolicy) (ladderOn : Bool) : Bool :=
  ladderOn && decide (p.state = .lowVoltage)

/-- Both deadlines move out, where they count. -/
def pushOutBoth (p : SmPolicy) (ladderOn : Bool) (c : SmCritical) (target : UInt32) :
    SmPolicy × SmCritical :=
  (if p.counting ladderOn then { p with tLow := pushOut p.tLow target } else p,
    if c.armed then { c with tTrip := pushOut c.tTrip target } else c)

def smHoldApply (p : SmPolicy) (ladderOn : Bool) (c : SmCritical) (nowMs holdMs : UInt32) :
    Bool × SmPolicy × SmCritical :=
  if p.asleep then
    (false, p, c)
  else
    (p.counting ladderOn || c.armed, pushOutBoth p ladderOn c (nowMs + holdMs))

/-- The cap that a read finds or sets. -/
def activityCap (a : SmActivity) (nowMs capMs : UInt32) : UInt32 :=
  if a.active then a.capUntil else nowMs + capMs

/-- Where a read holds to: never past the cap. -/
def activityTarget (cap nowMs holdMs : UInt32) : UInt32 :=
  if 0 < (nowMs + holdMs - cap).toInt32.toInt then cap else nowMs + holdMs

def smActivityApply (p : SmPolicy) (ladderOn : Bool) (c : SmCritical) (a : SmActivity)
    (nowMs holdMs capMs : UInt32) : Bool × SmPolicy × SmCritical × SmActivity :=
  if p.asleep ∨ (p.counting ladderOn = false ∧ c.armed = false) then
    (false, p, c, { a with active := false })
  else
    let cap := activityCap a nowMs capMs
    let target := activityTarget cap nowMs holdMs
    let (p', c') := pushOutBoth p ladderOn c target
    (true, p', c', ⟨true, cap, target⟩)

/-! ## What a call does -/

section

variable {p : SmPolicy} {cfg : SmCfg} {c : SmCritical} {volts : Volts} {nowMs : UInt32}

theorem smPolicyEval_low (h : (smPolicyEval p cfg volts nowMs).2.state = .lowVoltage) :
    (smPolicyEval p cfg volts nowMs).2.tLow = nowMs + cfg.delayMs ∨
      p.state = .lowVoltage ∧ volts.atLeast cfg.wakeV = false ∧
        (smPolicyEval p cfg volts nowMs).2.tLow = p.tLow := by
  cases hstate : p.state with
  | normal =>
    simp only [smPolicyEval, hstate] at h ⊢
    by_cases hlow : volts.below cfg.sleepV = true
    · rw [if_pos hlow]
      exact .inl rfl
    · rw [if_neg hlow, hstate] at h
      cases h
  | lowVoltage =>
    simp only [smPolicyEval, hstate] at h ⊢
    by_cases hwake : volts.atLeast cfg.wakeV = true
    · rw [if_pos hwake] at h
      cases h
    · by_cases hdue : reached p.tLow nowMs = true
      · rw [if_neg hwake, if_pos hdue] at h
        cases h
      · rw [if_neg hwake, if_neg hdue]
        exact .inr ⟨trivial, Bool.not_eq_true _ ▸ hwake, rfl⟩
  | sleeping =>
    simp only [smPolicyEval, hstate] at h
    split_ifs at h
    all_goals simp [hstate] at h
  | wakePending =>
    simp only [smPolicyEval, hstate] at h
    split_ifs at h
    all_goals simp [hstate] at h

theorem smPolicyEval_enterSleep (h : (smPolicyEval p cfg volts nowMs).1 = .enterSleep) :
    p.state = .lowVoltage ∧ volts.atLeast cfg.wakeV = false ∧ reached p.tLow nowMs = true := by
  cases hstate : p.state with
  | normal =>
    simp only [smPolicyEval, hstate] at h
    split_ifs at h
  | lowVoltage =>
    simp only [smPolicyEval, hstate] at h
    by_cases hwake : volts.atLeast cfg.wakeV = true
    · rw [if_pos hwake] at h
      cases h
    · by_cases hdue : reached p.tLow nowMs = true
      · exact ⟨rfl, Bool.not_eq_true _ ▸ hwake, hdue⟩
      · rw [if_neg hwake, if_neg hdue] at h
        cases h
  | sleeping =>
    simp only [smPolicyEval, hstate] at h
    split_ifs at h
  | wakePending =>
    simp only [smPolicyEval, hstate] at h
    split_ifs at h

theorem smPolicyEval_asleep (h : (smPolicyEval p cfg volts nowMs).2.asleep = true) :
    (smPolicyEval p cfg volts nowMs).1 = .enterSleep ∧
        (smPolicyEval p cfg volts nowMs).2.tPeriodic = nowMs + cfg.intervalMs ∨
      (smPolicyEval p cfg volts nowMs).1 ≠ .enterSleep ∧ p.asleep = true ∧
        (smPolicyEval p cfg volts nowMs).2.tPeriodic = p.tPeriodic := by
  cases hstate : p.state with
  | normal =>
    simp only [smPolicyEval, hstate] at h
    split_ifs at h
    all_goals simp [SmPolicy.asleep, hstate] at h
  | lowVoltage =>
    simp only [smPolicyEval, hstate] at h ⊢
    by_cases hwake : volts.atLeast cfg.wakeV = true
    · rw [if_pos hwake] at h
      cases h
    · by_cases hdue : reached p.tLow nowMs = true
      · rw [if_neg hwake, if_pos hdue]
        exact .inl ⟨rfl, rfl⟩
      · rw [if_neg hwake, if_neg hdue] at h
        simp [SmPolicy.asleep, hstate] at h
  | sleeping =>
    right
    simp only [smPolicyEval, hstate, SmPolicy.asleep]
    split_ifs
    all_goals exact ⟨SmAction.noConfusion, rfl, rfl⟩
  | wakePending =>
    right
    simp only [smPolicyEval, hstate, SmPolicy.asleep]
    split_ifs
    all_goals exact ⟨SmAction.noConfusion, rfl, rfl⟩

theorem smPolicyEval_checkIn (hstate : p.state = .sleeping) (hperiodic : cfg.periodic = true)
    (hwake : volts.atLeast cfg.wakeV = false) (hcritical : volts.above smCriticalV = true) :
    (smPolicyEval p cfg volts nowMs).1 = .periodicWake ↔ reached p.tPeriodic nowMs = true := by
  simp only [smPolicyEval, hstate, hwake, hperiodic, hcritical, Bool.false_eq_true, if_false,
    true_and]
  by_cases hdue : reached p.tPeriodic nowMs = true
  · rw [if_pos hdue]
    exact ⟨fun _ => hdue, fun _ => rfl⟩
  · rw [if_neg hdue]
    exact ⟨fun h => SmAction.noConfusion h, fun h => absurd h hdue⟩

theorem smCriticalEval_armed (h : (smCriticalEval c volts nowMs).2.armed = true) :
    volts.below smCriticalV = true ∧
        (smCriticalEval c volts nowMs).2.tTrip = nowMs + smCriticalDelayMs ∨
      c.armed = true ∧ volts.atLeast smCriticalClearV = false ∧
        (smCriticalEval c volts nowMs).2.tTrip = c.tTrip := by
  rw [smCriticalEval] at h ⊢
  by_cases hclear : volts.atLeast smCriticalClearV = true
  · rw [if_pos hclear] at h
    cases h
  rw [if_neg hclear] at h ⊢
  by_cases harmed : c.armed = true
  · rw [if_neg (not_not_intro harmed)] at h ⊢
    by_cases hdue : reached c.tTrip nowMs = true
    · rw [if_pos hdue] at h
      cases h
    · rw [if_neg hdue]
      exact .inr ⟨harmed, Bool.not_eq_true _ ▸ hclear, rfl⟩
  · rw [if_pos harmed] at h ⊢
    by_cases hlow : volts.below smCriticalV = true
    · rw [if_pos hlow]
      exact .inl ⟨hlow, rfl⟩
    · rw [if_neg hlow] at h
      exact absurd h harmed

theorem smCriticalEval_trips (h : (smCriticalEval c volts nowMs).1 = true) :
    c.armed = true ∧ volts.atLeast smCriticalClearV = false ∧ reached c.tTrip nowMs = true := by
  rw [smCriticalEval] at h
  by_cases hclear : volts.atLeast smCriticalClearV = true
  · rw [if_pos hclear] at h
    cases h
  rw [if_neg hclear] at h
  by_cases harmed : c.armed = true
  · rw [if_neg (not_not_intro harmed)] at h
    by_cases hdue : reached c.tTrip nowMs = true
    · exact ⟨harmed, Bool.not_eq_true _ ▸ hclear, hdue⟩
    · rw [if_neg hdue] at h
      cases h
  · rw [if_pos harmed] at h
    split_ifs at h

end

@[simp] theorem pushOutBoth_state (p : SmPolicy) (ladderOn : Bool) (c : SmCritical)
    (target : UInt32) : (pushOutBoth p ladderOn c target).1.state = p.state := by
  rw [pushOutBoth]
  cases p.counting ladderOn <;> rfl

@[simp] theorem pushOutBoth_tPeriodic (p : SmPolicy) (ladderOn : Bool) (c : SmCritical)
    (target : UInt32) : (pushOutBoth p ladderOn c target).1.tPeriodic = p.tPeriodic := by
  rw [pushOutBoth]
  cases p.counting ladderOn <;> rfl

theorem pushOutBoth_tLow (p : SmPolicy) (ladderOn : Bool) (c : SmCritical) (target : UInt32) :
    (pushOutBoth p ladderOn c target).1.tLow =
      if p.counting ladderOn then pushOut p.tLow target else p.tLow := by
  rw [pushOutBoth]
  cases p.counting ladderOn <;> rfl

theorem pushOutBoth_tTrip (p : SmPolicy) (ladderOn : Bool) (c : SmCritical) (target : UInt32) :
    (pushOutBoth p ladderOn c target).2.tTrip =
      if c.armed then pushOut c.tTrip target else c.tTrip := by
  rw [pushOutBoth]
  cases h : c.armed <;> simp

@[simp] theorem pushOutBoth_armed (p : SmPolicy) (ladderOn : Bool) (c : SmCritical)
    (target : UInt32) : (pushOutBoth p ladderOn c target).2.armed = c.armed := by
  rw [pushOutBoth]
  cases h : c.armed <;> simp [h]

end Meatpi
