import Meatpi.Library.WrapClock

/-!
# Bus-off backoff (`can_core_recovery.c`)

A bus-off that comes soon after the one before makes the node wait longer and longer
after its recovery; an isolated one does not. What is meant by *soon* and by *due* is
said in true time by `BusOffPolicy`; the code has 32-bit milliseconds and the sign of
their differences. `canRecovery_backoff` says exactly when the two give one answer.
-/

namespace Meatpi

/-- `CAN_CORE_RECOVERY_BACKOFF_FIRST_MS` -/
def canRecoveryFirstMs : UInt32 := 1000
/-- `CAN_CORE_RECOVERY_BACKOFF_MAX_MS` -/
def canRecoveryMaxMs : UInt32 := 30000
/-- `CAN_CORE_RECOVERY_STABLE_MS` -/
def canRecoveryStableMs : UInt32 := 60000

/-- `can_core_recovery_t` -/
structure CanRecovery where
  offCount : UInt32
  backoffMs : UInt32
  lastOffMs : UInt32
  restartPending : Bool
  restartDueMs : UInt32

def timeReached (now due : UInt32) : Bool := 0 ≤ (now - due).toInt32.toInt

namespace CanRecovery

/-- `can_core_recovery_reset` -/
def reset : CanRecovery := ⟨0, 0, 0, false, 0⟩

/-- The backoff after this one, within one streak. -/
def longer (backoffMs : UInt32) : UInt32 :=
  if backoffMs = 0 then canRecoveryFirstMs
  else if backoffMs < canRecoveryMaxMs then
    let next := backoffMs * 2
    if next < canRecoveryMaxMs then next else canRecoveryMaxMs
  else backoffMs

/-- The bus-off before is not yet `CAN_CORE_RECOVERY_STABLE_MS` old. -/
def rapid (r : CanRecovery) (now : UInt32) : Bool :=
  decide (0 < r.offCount) && !timeReached now (r.lastOffMs + canRecoveryStableMs)

/-- `can_core_recovery_on_bus_off` -/
def onBusOff (r : CanRecovery) (now : UInt32) : CanRecovery × UInt32 :=
  -- an isolated fault: restart as soon as recovered
  let backoff := if r.rapid now then longer r.backoffMs else 0
  ({ r with
    offCount := r.offCount + 1
    backoffMs := backoff
    lastOffMs := now
    restartPending := false }, backoff)

/-- `can_core_recovery_on_recovered` -/
def onRecovered (r : CanRecovery) (now : UInt32) : CanRecovery :=
  if r.offCount = 0 then r -- spurious
  else
    { r with
      restartPending := true
      restartDueMs := now + r.backoffMs }

/-- `can_core_recovery_restart_due` -/
def restartDue (r : CanRecovery) (now : UInt32) : CanRecovery × Bool :=
  if !r.restartPending || !timeReached now r.restartDueMs then (r, false)
  else ({ r with restartPending := false }, true)

end CanRecovery

/-! ## Calls -/

/-- What `can_service_recovery` calls. -/
inductive RecoveryOp where
  | busOff
  | recovered
  | poll

/-- What is answered: a backoff in milliseconds, nothing, or whether to restart now. -/
inductive RecoveryAnswer where
  | backoff (ms : ℕ)
  | noted
  | restart (now : Bool)
  deriving DecidableEq

def CanRecovery.call (r : CanRecovery) (now : UInt32) : RecoveryOp → CanRecovery × RecoveryAnswer
  | .busOff => ((r.onBusOff now).1, .backoff (r.onBusOff now).2.toNat)
  | .recovered => (r.onRecovered now, .noted)
  | .poll => ((r.restartDue now).1, .restart (r.restartDue now).2)

/-- The answers to calls that come each a while after the one before; what is read of
the time is its 32 bits. -/
def CanRecovery.answers (r : CanRecovery) (t : ℕ) : List (ℕ × RecoveryOp) → List RecoveryAnswer
  | [] => []
  | (gap, op) :: calls =>
    (r.call (UInt32.ofNat (t + gap)) op).2 ::
      (r.call (UInt32.ofNat (t + gap)) op).1.answers (t + gap) calls

/-! ## The policy -/

/-- What the policy goes by: how many bus-offs there were, when the last one was, the
delay of its episode, and when the restart that waits is due. -/
structure BusOffPolicy where
  count : ℕ
  last : ℕ
  delay : ℕ
  waits : Option ℕ

namespace BusOffPolicy

def init : BusOffPolicy := ⟨0, 0, 0, none⟩

/-- The doubling sequence, capped at 30 s. -/
def doubled (delay : ℕ) : ℕ := if delay = 0 then 1000 else min (2 * delay) 30000

/-- **The policy**: a bus-off 60 s or more after the one before is recovered without
delay, one that comes sooner with the delay that is next; the restart waits for it. -/
def call (p : BusOffPolicy) (t : ℕ) : RecoveryOp → BusOffPolicy × RecoveryAnswer
  | .busOff =>
    let delay := if p.count = 0 ∨ p.last + 60000 ≤ t then 0 else doubled p.delay
    (⟨p.count + 1, t, delay, none⟩, .backoff delay)
  | .recovered => ({ p with waits := if p.count = 0 then none else some (t + p.delay) }, .noted)
  | .poll =>
    if p.waits.any (· ≤ t) then ({ p with waits := none }, .restart true) else (p, .restart false)

def answers (p : BusOffPolicy) (t : ℕ) : List (ℕ × RecoveryOp) → List RecoveryAnswer
  | [] => []
  | (gap, op) :: calls => (p.call (t + gap) op).2 :: (p.call (t + gap) op).1.answers (t + gap) calls

/-- The 32 bits show what the call goes by: a bus-off that is old does not lie in the
half wrap of the clock where it seems to be ahead, nor does a restart that is due, and
the count of bus-offs does not stand at a multiple of 2^32, where it seems to be none. -/
def Clear (p : BusOffPolicy) (t : ℕ) : RecoveryOp → Prop
  | .busOff =>
    if p.count = 0 then True
    else if p.last + 60000 ≤ t then
      p.count % 2 ^ 32 = 0 ∨ (t - (p.last + 60000)) % 2 ^ 32 < 2 ^ 31
    else p.count % 2 ^ 32 ≠ 0
  | .recovered => True
  | .poll => ∀ due, p.waits = some due → due ≤ t →
      p.count % 2 ^ 32 ≠ 0 ∧ (t - due) % 2 ^ 32 < 2 ^ 31

/-- Every call of the run is clear. -/
def ClearAlong (p : BusOffPolicy) (t : ℕ) : List (ℕ × RecoveryOp) → Prop
  | [] => True
  | (gap, op) :: calls =>
    p.Clear (t + gap) op ∧ (p.call (t + gap) op).1.ClearAlong (t + gap) calls

end BusOffPolicy

/-! ## What the 32 bits show -/

theorem timeReached_iff {now due : UInt32} :
    timeReached now due = true ↔ 0 ≤ (now - due).toInt32.toInt := decide_eq_true_iff

theorem offCount_eq_zero {n : ℕ} : UInt32.ofNat n = 0 ↔ n % 2 ^ 32 = 0 := by
  rw [← UInt32.toNat_inj]
  rfl

theorem longer_toNat {ms : UInt32} {delay : ℕ} (h : ms.toNat = delay) (hle : delay ≤ 30000) :
    (CanRecovery.longer ms).toNat = BusOffPolicy.doubled delay := by
  have hzero : ms = 0 ↔ delay = 0 := by
    rw [← UInt32.toNat_inj, h]
    rfl
  have htwice : (ms * 2).toNat = 2 * delay := by
    rw [UInt32.toNat_mul, show (2 : UInt32).toNat = 2 from rfl]
    omega
  rw [CanRecovery.longer, BusOffPolicy.doubled]
  by_cases h0 : delay = 0
  · rw [if_pos (hzero.mpr h0), if_pos h0]
    rfl
  rw [if_neg (mt hzero.mp h0), if_neg h0]
  by_cases hmax : ms < canRecoveryMaxMs
  · rw [if_pos hmax]
    by_cases hnext : ms * 2 < canRecoveryMaxMs
    · rw [if_pos hnext, htwice]
      rw [UInt32.lt_iff_toNat_lt, htwice] at hnext
      exact (min_eq_left (Nat.le_of_lt hnext)).symm
    · rw [if_neg hnext]
      rw [UInt32.lt_iff_toNat_lt, htwice] at hnext
      exact (min_eq_right (Nat.le_of_not_lt hnext)).symm
  · rw [if_neg hmax, h]
    rw [UInt32.lt_iff_toNat_lt, h] at hmax
    have hat : delay = 30000 := Nat.le_antisymm hle (Nat.le_of_not_lt hmax)
    rw [hat]
    rfl

namespace BusOffPolicy

theorem doubled_le (delay : ℕ) : doubled delay ≤ 30000 := by
  rw [doubled]
  split_ifs
  · omega
  · exact min_le_right _ _

theorem doubled_pos (delay : ℕ) : 0 < doubled delay := by
  rw [doubled]
  split_ifs with h
  · omega
  · exact lt_min (by omega) (by omega)

/-- The code's state stands for the policy's, at time `t` or later. -/
structure Shows (r : CanRecovery) (p : BusOffPolicy) (t : ℕ) : Prop where
  count : r.offCount = UInt32.ofNat p.count
  last : p.count ≠ 0 → r.lastOffMs = UInt32.ofNat p.last
  past : p.last ≤ t
  delay : r.backoffMs.toNat = p.delay
  capped : p.delay ≤ 30000
  /-- a restart waits, unless the count read as none when the node had recovered -/
  waits : r.restartPending = true ↔ p.waits ≠ none ∧ p.count % 2 ^ 32 ≠ 0
  due : r.restartPending = true → ∀ due, p.waits = some due →
    r.restartDueMs = UInt32.ofNat due ∧ due ≤ t + 30000

theorem shows_init (t : ℕ) : Shows .reset init t where
  count := rfl
  last hno := absurd rfl hno
  past := Nat.zero_le t
  delay := rfl
  capped := Nat.zero_le _
  waits := ⟨fun hno => (by cases hno), fun hno => absurd rfl hno.1⟩
  due hno := by cases hno

variable {r : CanRecovery} {p : BusOffPolicy} {t₀ t : ℕ}

theorem Shows.rapid (h : Shows r p t₀) (ht : t₀ ≤ t) :
    r.rapid (UInt32.ofNat t) = true ↔ p.count % 2 ^ 32 ≠ 0 ∧
      (p.last + 60000 ≤ t → ¬ (t - (p.last + 60000)) % 2 ^ 32 < 2 ^ 31) := by
  have hpos : decide (0 < r.offCount) = true ↔ p.count % 2 ^ 32 ≠ 0 := by
    rw [decide_eq_true_iff, h.count, UInt32.pos_iff_ne_zero, Ne, offCount_eq_zero]
  rw [CanRecovery.rapid, Bool.and_eq_true, hpos, Bool.not_eq_true', ← Bool.not_eq_true]
  refine and_congr_right fun hcount => ?_
  have hlast : r.lastOffMs + canRecoveryStableMs = UInt32.ofNat (p.last + 60000) := by
    rw [h.last (by rintro h0; rw [h0] at hcount; exact hcount rfl), stamp_add]
    rfl
  rw [timeReached_iff, hlast]
  by_cases hold : p.last + 60000 ≤ t
  · rw [stamp_reached_iff hold]
    exact ⟨fun hno _ => hno, fun hno => hno hold⟩
  · refine ⟨fun _ hno => absurd hno hold, fun _ hno => hold (le_of_stamp_reached ?_ hno)⟩
    have := h.past
    omega

theorem Shows.clear_busOff (h : Shows r p t₀) (ht : t₀ ≤ t) :
    p.Clear t .busOff ↔
      (r.rapid (UInt32.ofNat t) = true ↔ ¬ (p.count = 0 ∨ p.last + 60000 ≤ t)) := by
  rw [h.rapid ht, Clear]
  by_cases hnone : p.count = 0
  · rw [hnone]
    simp
  rw [if_neg hnone]
  by_cases hold : p.last + 60000 ≤ t
  · simp only [hold, or_true, not_true_eq_false, iff_false, not_and, forall_const, not_not]
    exact Decidable.or_iff_not_imp_left
  · simp [hnone, hold]

/-- **A bus-off**: the delay is the policy's when the call is clear, and then only. -/
theorem Shows.busOff (h : Shows r p t₀) (ht : t₀ ≤ t) :
    (r.onBusOff (UInt32.ofNat t)).2.toNat =
      (if p.count = 0 ∨ p.last + 60000 ≤ t then 0 else doubled p.delay) ↔ p.Clear t .busOff := by
  have hlonger := longer_toNat h.delay h.capped
  have hpos := doubled_pos p.delay
  rw [h.clear_busOff ht]
  show (if r.rapid (UInt32.ofNat t) then CanRecovery.longer r.backoffMs else 0 : UInt32).toNat = _ ↔ _
  by_cases hrapid : r.rapid (UInt32.ofNat t) = true
  · rw [if_pos hrapid, hlonger]
    split_ifs with hold
    · exact ⟨fun hno => absurd hno hpos.ne', fun hno => absurd hold (hno.mp hrapid)⟩
    · exact ⟨fun _ => ⟨fun _ => hold, fun _ => hrapid⟩, fun _ => rfl⟩
  · split_ifs with hold
    · exact ⟨fun _ => ⟨fun hno => absurd hno hrapid, fun hno => absurd hold hno⟩, fun _ => rfl⟩
    · exact ⟨fun hno => absurd hno hpos.ne, fun hno => absurd (hno.mpr hold) hrapid⟩

/-- **A look**: the restart is reported when it is due, if the call is clear, and then only. -/
theorem Shows.poll (h : Shows r p t₀) (ht : t₀ ≤ t) :
    ((r.restartDue (UInt32.ofNat t)).2 = p.waits.any (· ≤ t)) ↔ p.Clear t .poll := by
  have hcode : (r.restartDue (UInt32.ofNat t)).2 =
      (r.restartPending && timeReached (UInt32.ofNat t) r.restartDueMs) := by
    rw [CanRecovery.restartDue]
    cases r.restartPending <;> cases timeReached (UInt32.ofNat t) r.restartDueMs <;> rfl
  rw [hcode]
  cases hwaits : p.waits with
  | none =>
    have hidle : r.restartPending = false := by
      rw [← Bool.not_eq_true, h.waits]
      exact fun hno => hno.1 hwaits
    rw [hidle]
    exact ⟨fun _ due hno => absurd (hwaits.symm.trans hno) (Option.some_ne_none due).symm,
      fun _ => rfl⟩
  | some due =>
    have hclear : p.Clear t .poll ↔
        (due ≤ t → p.count % 2 ^ 32 ≠ 0 ∧ (t - due) % 2 ^ 32 < 2 ^ 31) := by
      refine ⟨fun hall => hall due hwaits, fun hdue due' hdue' => ?_⟩
      rw [hwaits] at hdue'
      cases hdue'
      exact hdue
    rw [hclear, Option.any_some]
    have hpending := h.waits
    rw [hwaits] at hpending
    cases hp : r.restartPending with
    | false =>
      have hcount : ¬ p.count % 2 ^ 32 ≠ 0 := fun hno =>
        Bool.false_ne_true (hp.symm.trans (hpending.mpr ⟨Option.some_ne_none due, hno⟩))
      rw [Bool.false_and, eq_comm, decide_eq_false_iff_not]
      exact ⟨fun hno hdue => absurd hdue hno, fun hdue hno => hcount (hdue hno).1⟩
    | true =>
      obtain ⟨hat, hnear⟩ := h.due hp due hwaits
      have hcount := (hpending.mp hp).2
      rw [Bool.true_and, hat, Bool.eq_iff_iff, timeReached_iff, decide_eq_true_iff]
      by_cases hdue : due ≤ t
      · rw [stamp_reached_iff hdue]
        exact ⟨fun hreached _ => ⟨hcount, hreached.mpr hdue⟩,
          fun hreached => ⟨fun _ => hdue, fun _ => (hreached hdue).2⟩⟩
      · exact ⟨fun _ hno => absurd hno hdue, fun _ =>
          ⟨le_of_stamp_reached (by omega), fun hno => absurd hno hdue⟩⟩

/-- **A call**: the answer is the policy's when the call is clear, and then only. -/
theorem Shows.answer (h : Shows r p t₀) (ht : t₀ ≤ t) (op : RecoveryOp) :
    (r.call (UInt32.ofNat t) op).2 = (p.call t op).2 ↔ p.Clear t op := by
  cases op with
  | busOff =>
    rw [← h.busOff ht]
    show RecoveryAnswer.backoff _ = .backoff _ ↔ _
    rw [RecoveryAnswer.backoff.injEq]
  | recovered => exact ⟨fun _ => trivial, fun _ => rfl⟩
  | poll =>
    rw [← h.poll ht]
    have hpolicy : (p.call t .poll).2 = .restart (p.waits.any (· ≤ t)) := by
      rw [call]
      cases p.waits.any (· ≤ t) <;> rfl
    rw [hpolicy]
    show RecoveryAnswer.restart _ = .restart _ ↔ _
    rw [RecoveryAnswer.restart.injEq]

/-- **A clear call** is followed by the policy. -/
theorem Shows.call (h : Shows r p t₀) (ht : t₀ ≤ t) {op : RecoveryOp} (hclear : p.Clear t op) :
    Shows (r.call (UInt32.ofNat t) op).1 (p.call t op).1 t := by
  have hpast : p.last ≤ t := h.past.trans ht
  cases op with
  | busOff =>
    refine ⟨?_, fun _ => rfl, Nat.le_refl t, (h.busOff ht).mpr hclear, ?_,
      ⟨fun hno => (by cases hno), fun hno => absurd rfl hno.1⟩, fun hno => by cases hno⟩
    · show r.offCount + 1 = UInt32.ofNat (p.count + 1)
      rw [h.count, UInt32.ofNat_add]
      rfl
    · show (if _ then _ else _ : ℕ) ≤ 30000
      split_ifs
      · exact Nat.zero_le _
      · exact doubled_le _
  | recovered =>
    show Shows (r.onRecovered (UInt32.ofNat t)) ⟨p.count, p.last, p.delay, _⟩ t
    rw [CanRecovery.onRecovered]
    by_cases hoff : r.offCount = 0
    · rw [if_pos hoff]
      have hcount : p.count % 2 ^ 32 = 0 := offCount_eq_zero.mp (h.count ▸ hoff)
      have hidle : ¬ r.restartPending = true := fun hno => (h.waits.mp hno).2 hcount
      exact ⟨h.count, h.last, hpast, h.delay, h.capped,
        ⟨fun hno => absurd hno hidle, fun hno => absurd hcount hno.2⟩,
        fun hno => absurd hno hidle⟩
    · rw [if_neg hoff]
      have hcount : p.count % 2 ^ 32 ≠ 0 := fun hno => hoff (h.count ▸ offCount_eq_zero.mpr hno)
      have hsome : ¬ p.count = 0 := by
        intro hno
        rw [hno] at hcount
        exact hcount rfl
      rw [if_neg hsome]
      refine ⟨h.count, h.last, hpast, h.delay, h.capped,
        ⟨fun _ => ⟨Option.some_ne_none _, hcount⟩, fun _ => rfl⟩, fun _ due hdue => ?_⟩
      cases hdue
      refine ⟨?_, Nat.add_le_add_left h.capped t⟩
      rw [stamp_add, h.delay]
  | poll =>
    have hanswer := (h.poll ht).mpr hclear
    have hsame : Shows r p t := ⟨h.count, h.last, hpast, h.delay, h.capped, h.waits,
      fun hp due hdue => ⟨(h.due hp due hdue).1, by
        have := (h.due hp due hdue).2
        omega⟩⟩
    have hnext : (r.restartDue (UInt32.ofNat t)).1 =
        if (r.restartDue (UInt32.ofNat t)).2 then { r with restartPending := false } else r := by
      rw [CanRecovery.restartDue]
      by_cases hidle : (!r.restartPending || !timeReached (UInt32.ofNat t) r.restartDueMs) = true
      · rw [if_pos hidle]
        rfl
      · rw [if_neg hidle]
        rfl
    show Shows (r.restartDue (UInt32.ofNat t)).1 (p.call t .poll).1 t
    rw [hnext, hanswer, BusOffPolicy.call]
    split_ifs
    · exact ⟨h.count, h.last, hpast, h.delay, h.capped,
        ⟨fun hno => (by cases hno), fun hno => absurd rfl hno.1⟩, fun hno => by cases hno⟩
    · exact hsame

end BusOffPolicy

/-- **Which runs keep to the policy**: the code answers as the policy does, call by call,
exactly when every call is clear. -/
theorem canRecovery_backoff (start : ℕ) (calls : List (ℕ × RecoveryOp)) :
    CanRecovery.reset.answers start calls = BusOffPolicy.init.answers start calls ↔
      BusOffPolicy.init.ClearAlong start calls := by
  have hall : ∀ (calls : List (ℕ × RecoveryOp)) {r : CanRecovery} {p : BusOffPolicy} {t : ℕ},
      BusOffPolicy.Shows r p t → (r.answers t calls = p.answers t calls ↔ p.ClearAlong t calls) := by
    intro calls
    induction calls with
    | nil => exact fun _ => ⟨fun _ => trivial, fun _ => rfl⟩
    | cons call calls ih =>
      intro r p t h
      obtain ⟨gap, op⟩ := call
      rw [CanRecovery.answers, BusOffPolicy.answers, List.cons.injEq,
        h.answer (Nat.le_add_right t gap)]
      exact and_congr_right fun hclear => ih (h.call (Nat.le_add_right t gap) hclear)
  exact hall calls (BusOffPolicy.shows_init start)

/-- Two bus-offs, 25 days apart: the second one is made to wait. -/
theorem not_canRecovery_backoff :
    ¬ ∀ (start : ℕ) (calls : List (ℕ × RecoveryOp)),
      CanRecovery.reset.answers start calls = BusOffPolicy.init.answers start calls := by
  intro hall
  have hno := hall 0 [(1000, .busOff), (60000 + 2 ^ 31, .busOff)]
  revert hno
  decide

end Meatpi
