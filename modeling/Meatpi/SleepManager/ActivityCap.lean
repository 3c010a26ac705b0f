import Meatpi.SleepManager.Uptime

/-!
# The cap on the activity hold

A reader of the log holds a counting device awake, and never longer than a cap past the
first read of the countdown. `sm_activity_apply` keeps that cap and forgets it where it
sees nothing counting; a countdown that ends and another that starts between two reads
are the caller's to tell apart. `state_task` does so: after every evaluation
`publish_pending` forgets the cap if nothing counts.
-/

namespace Meatpi

/-! ## The calls -/

/-- A call at a true time, of which the code gets the remainder. -/
inductive CapOp where
  /-- `sm_policy_eval` -/
  | policy (ms : ℕ) (cfg : SmCfg) (volts : Volts)
  /-- `sm_critical_eval` -/
  | critical (ms : ℕ) (volts : Volts)
  /-- `sm_hold_apply` -/
  | hold (ms : ℕ) (holdMs : UInt32)
  /-- `sm_activity_apply` -/
  | activity (ms : ℕ) (holdMs capMs : UInt32)
  /-- `publish_pending` -/
  | publish (ms : ℕ)
  /-- `state_task` once the floor or the boot-loop guard has tripped -/
  | park (ms : ℕ) (intervalMs : UInt32)

/-- The device after a call; `ladderOn` is `s_run`. -/
def capNext (ladderOn : Bool) (d : SleepDevice) : CapOp → SleepDevice
  | .policy ms cfg volts => { d with policy := (smPolicyEval d.policy cfg volts (.ofNat ms)).2 }
  | .critical ms volts => { d with critical := (smCriticalEval d.critical volts (.ofNat ms)).2 }
  | .hold ms holdMs =>
    let r := smHoldApply d.policy ladderOn d.critical (.ofNat ms) holdMs
    { d with policy := r.2.1, critical := r.2.2 }
  | .activity ms holdMs capMs =>
    let r := smActivityApply d.policy ladderOn d.critical d.activity (.ofNat ms) holdMs capMs
    ⟨r.2.1, r.2.2.1, r.2.2.2⟩
  | .publish ms =>
    if (smPendingEval d.policy ladderOn d.critical (.ofNat ms) (.ofNat ms)).1 = .none then
      { d with activity := { d.activity with active := false } }
    else d
  | .park ms intervalMs =>
    ⟨{ d.policy with state := .sleeping, tPeriodic := .ofNat ms + intervalMs }, d.critical,
      { d.activity with active := false }⟩

/-- The calls since the start, the newest first. -/
abbrev CapHistory := List CapOp

/-- The device after them. -/
def capAfter (ladderOn : Bool) : CapHistory → SleepDevice
  | [] => ⟨smPolicyInit, smCriticalInit, smActivityInit⟩
  | op :: earlier => capNext ladderOn (capAfter ladderOn earlier) op

/-- A countdown is going on. -/
def SleepDevice.counts (ladderOn : Bool) (d : SleepDevice) : Bool :=
  !d.policy.asleep && (d.policy.counting ladderOn || d.critical.armed)

/-- The cap of a countdown after a call: the first read sets it, to its time and `cap_ms`. -/
def CapOp.readCap (cap : Option ℕ) : CapOp → Option ℕ
  | .activity ms _ capMs => some (cap.getD (ms + capMs.toNat))
  | _ => cap

/-- The cap of the countdown that is going on, if it was read. -/
def countdownCap (ladderOn : Bool) : CapHistory → Option ℕ
  | [] => none
  | op :: earlier =>
    if (capAfter ladderOn (op :: earlier)).counts ladderOn then
      op.readCap (countdownCap ladderOn earlier)
    else none

def CapOp.evaluates : CapOp → Bool
  | .policy _ _ _ => true
  | .critical _ _ => true
  | _ => false

def CapOp.settles : CapOp → Bool
  | .publish _ => true
  | .park _ _ => true
  | _ => false

/-- After an evaluation the next call is `publish_pending`, or the device is parked. -/
def Published : CapHistory → Prop
  | [] => True
  | op :: earlier =>
    (∀ last ∈ earlier.head?, last.evaluates = true → op.settles = true) ∧ Published earlier

/-! ## What a read does to a deadline -/

/-- `b` is later than `a` on the clock that wraps. -/
def Later (a b : UInt32) : Prop := 0 < (b - a).toInt32.toInt

instance (a b : UInt32) : Decidable (Later a b) :=
  inferInstanceAs (Decidable (0 < (b - a).toInt32.toInt))

/-- A deadline before and after a read that asks for `target` and may have `cap`: it
moves later only and not past the cap, and what is asked is had as far as the cap goes.
Of times less than half a wrap apart it is exactly the later of the deadline and what is
asked and allowed. -/
structure HeldTo (cap target : ℕ) (before after : UInt32) : Prop where
  later : after = before ∨ Later before after
  capped : after = before ∨ ¬ Later (.ofNat cap) after
  asked : Later after (.ofNat target) → ¬ Later after (.ofNat cap)
  exact : ∀ due, before = .ofNat due → Near due cap → Near due target → Near cap target →
    after = .ofNat (max due (min target cap))

/-- What a read does to the device: what counts is held, and nothing else moves. -/
structure ActivityHeld (ladderOn : Bool) (cap target : ℕ) (d d' : SleepDevice) : Prop where
  low : if !d.policy.asleep && d.policy.counting ladderOn
    then HeldTo cap target d.policy.tLow d'.policy.tLow else d'.policy.tLow = d.policy.tLow
  trip : if !d.policy.asleep && d.critical.armed
    then HeldTo cap target d.critical.tTrip d'.critical.tTrip
    else d'.critical.tTrip = d.critical.tTrip

theorem not_later_self (a : UInt32) : ¬ Later a a := by
  rw [Later, UInt32.sub_self]
  decide

theorem later_iff {a b : ℕ} (h : Near a b) : Later (.ofNat a) (.ofNat b) ↔ a < b :=
  stamp_later_iff h

theorem pushOut_later (deadline target : UInt32) :
    pushOut deadline target = if Later deadline target then target else deadline := rfl

/-- **A push to the target of a read.** -/
theorem heldTo_pushOut (cap ms : ℕ) (holdMs before : UInt32) :
    HeldTo cap (ms + holdMs.toNat) before
      (pushOut before (activityTarget (.ofNat cap) (.ofNat ms) holdMs)) := by
  have hallowed : activityTarget (.ofNat cap) (.ofNat ms) holdMs =
      if Later (.ofNat cap) (.ofNat (ms + holdMs.toNat)) then UInt32.ofNat cap
      else UInt32.ofNat (ms + holdMs.toNat) := by
    rw [activityTarget, stamp_add]
    rfl
  rw [pushOut_later]
  generalize hgoal : activityTarget (.ofNat cap) (.ofNat ms) holdMs = goal at hallowed ⊢
  refine ⟨?_, ?_, ?_, ?_⟩
  · by_cases hmove : Later before goal
    · rw [if_pos hmove]
      exact .inr hmove
    · exact .inl (if_neg hmove)
  · by_cases hmove : Later before goal
    · right
      rw [if_pos hmove, hallowed]
      by_cases hover : Later (.ofNat cap) (.ofNat (ms + holdMs.toNat))
      · rw [if_pos hover]
        exact not_later_self _
      · rw [if_neg hover]
        exact hover
    · exact .inl (if_neg hmove)
  · -- whatever was asked, the deadline does not stay behind where the push goes
    have hreached : ¬ Later (if Later before goal then goal else before) goal := by
      by_cases hmove : Later before goal
      · rw [if_pos hmove]
        exact not_later_self _
      · rw [if_neg hmove]
        exact hmove
    intro hshort
    by_cases hover : Later (.ofNat cap) (.ofNat (ms + holdMs.toNat))
    · rw [if_pos hover] at hallowed
      rw [← hallowed]
      exact hreached
    · rw [if_neg hover] at hallowed
      rw [← hallowed] at hshort
      exact absurd hshort hreached
  · intro due hdue hcap htarget hboth
    have hmin : goal = .ofNat (min (ms + holdMs.toNat) cap) := by
      rw [hallowed]
      by_cases hover : cap < ms + holdMs.toNat
      · rw [if_pos ((later_iff hboth).2 hover), Nat.min_eq_right hover.le]
      · rw [if_neg (mt (later_iff hboth).1 hover), Nat.min_eq_left (Nat.le_of_not_lt hover)]
    have hnear : Near due (min (ms + holdMs.toNat) cap) := by
      unfold Near at *
      omega
    rw [hmin, hdue]
    by_cases hmove : due < min (ms + holdMs.toNat) cap
    · rw [if_pos ((later_iff hnear).2 hmove), Nat.max_eq_right hmove.le]
    · rw [if_neg (mt (later_iff hnear).1 hmove), Nat.max_eq_left (Nat.le_of_not_lt hmove)]

theorem activityHeld_apply {ladderOn : Bool} {d : SleepDevice} {ms cap : ℕ} {holdMs capMs : UInt32}
    (hcap : d.counts ladderOn = true → activityCap d.activity (.ofNat ms) capMs = .ofNat cap) :
    ActivityHeld ladderOn cap (ms + holdMs.toNat) d
      (capNext ladderOn d (.activity ms holdMs capMs)) := by
  simp only [capNext, smActivityApply]
  cases hasleep : d.policy.asleep with
  | true =>
    constructor <;> simp [hasleep]
  | false =>
    by_cases hidle : d.policy.counting ladderOn = false ∧ d.critical.armed = false
    · constructor <;> simp [hidle.1, hidle.2]
    · have hcounts : d.counts ladderOn = true := by
        rw [SleepDevice.counts, hasleep]
        cases hlow : d.policy.counting ladderOn with
        | true => rfl
        | false =>
          cases harmed : d.critical.armed with
          | true => rfl
          | false => exact absurd ⟨hlow, harmed⟩ hidle
      rw [if_neg (by simpa using hidle), hcap hcounts]
      constructor
      · rw [pushOutBoth_tLow, hasleep]
        cases hlow : d.policy.counting ladderOn with
        | true =>
          simp only [Bool.not_false, Bool.and_self, if_true]
          exact heldTo_pushOut cap ms holdMs d.policy.tLow
        | false => simp
      · rw [pushOutBoth_tTrip, hasleep]
        cases harmed : d.critical.armed with
        | true =>
          simp only [Bool.not_false, Bool.and_self, if_true]
          exact heldTo_pushOut cap ms holdMs d.critical.tTrip
        | false => simp

/-! ## The cap of a countdown -/

/-- What the tracker knows: the cap of the countdown that is going on, and no other. Only
an evaluation that ended a countdown leaves a cap behind. -/
structure CapKnown (ladderOn : Bool) (history : CapHistory) : Prop where
  fresh : (capAfter ladderOn history).counts ladderOn = true →
    (capAfter ladderOn history).activity.active = false → countdownCap ladderOn history = none
  known : (capAfter ladderOn history).counts ladderOn = true →
    (capAfter ladderOn history).activity.active = true →
      ∃ cap, countdownCap ladderOn history = some cap ∧
        (capAfter ladderOn history).activity.capUntil = .ofNat cap
  forgotten : (capAfter ladderOn history).counts ladderOn = false →
    (capAfter ladderOn history).activity.active = false ∨
      ∃ last ∈ history.head?, last.evaluates = true

variable {ladderOn : Bool} {history : CapHistory}

theorem countdownCap_idle (h : (capAfter ladderOn history).counts ladderOn = false) :
    countdownCap ladderOn history = none := by
  cases history with
  | nil => rfl
  | cons op earlier =>
    rw [countdownCap, if_neg (by rw [h]; exact Bool.false_ne_true)]

theorem CapKnown.cap (h : CapKnown ladderOn history) (ms : ℕ) (capMs : UInt32)
    (hcounts : (capAfter ladderOn history).counts ladderOn = true) :
    activityCap (capAfter ladderOn history).activity (.ofNat ms) capMs =
      .ofNat ((countdownCap ladderOn history).getD (ms + capMs.toNat)) := by
  rw [activityCap]
  cases hactive : (capAfter ladderOn history).activity.active with
  | true =>
    obtain ⟨cap, hcap, huntil⟩ := h.known hcounts hactive
    rw [hcap]
    exact huntil
  | false =>
    rw [h.fresh hcounts hactive]
    exact stamp_add ms capMs

theorem CapKnown.idle (h : CapKnown ladderOn history) {op : CapOp}
    (hpub : Published (op :: history)) (hop : op.settles = false)
    (hidle : (capAfter ladderOn history).counts ladderOn = false) :
    (capAfter ladderOn history).activity.active = false := by
  rcases h.forgotten hidle with hactive | ⟨last, hlast, heval⟩
  · exact hactive
  · rw [hpub.1 last hlast heval] at hop
    cases hop

theorem countdownCap_counts {op : CapOp}
    (h : (capAfter ladderOn (op :: history)).counts ladderOn = true) :
    countdownCap ladderOn (op :: history) = op.readCap (countdownCap ladderOn history) := by
  rw [countdownCap, if_pos h]

theorem CapKnown.quiet (h : CapKnown ladderOn history) {op : CapOp}
    (hpub : Published (op :: history)) (hop : op.settles = false)
    (hactivity : (capAfter ladderOn (op :: history)).activity =
      (capAfter ladderOn history).activity)
    (hread : ∀ cap, op.readCap cap = cap)
    (hcounts : op.evaluates = true ∨ (capAfter ladderOn (op :: history)).counts ladderOn =
      (capAfter ladderOn history).counts ladderOn) :
    CapKnown ladderOn (op :: history) where
  fresh hcounts' hactive := by
    rw [hactivity] at hactive
    rw [countdownCap_counts hcounts', hread]
    cases hbefore : (capAfter ladderOn history).counts ladderOn with
    | true => exact h.fresh hbefore hactive
    | false => exact countdownCap_idle hbefore
  known hcounts' hactive := by
    rw [hactivity] at hactive ⊢
    rw [countdownCap_counts hcounts', hread]
    cases hbefore : (capAfter ladderOn history).counts ladderOn with
    | true => exact h.known hbefore hactive
    | false =>
      rw [h.idle hpub hop hbefore] at hactive
      cases hactive
  forgotten hidle := by
    rcases hcounts with heval | hsame
    · exact .inr ⟨op, rfl, heval⟩
    · rw [hsame] at hidle
      rw [hactivity]
      exact .inl (h.idle hpub hop hidle)

/-! ### The calls one by one -/

theorem counts_pushOutBoth (d : SleepDevice) (target : UInt32) (a : SmActivity) :
    SleepDevice.counts ladderOn
      ⟨(pushOutBoth d.policy ladderOn d.critical target).1,
        (pushOutBoth d.policy ladderOn d.critical target).2, a⟩ = d.counts ladderOn := by
  simp [SleepDevice.counts, SmPolicy.asleep, SmPolicy.counting]

theorem counts_hold (d : SleepDevice) (ms : ℕ) (holdMs : UInt32) :
    (capNext ladderOn d (.hold ms holdMs)).counts ladderOn = d.counts ladderOn := by
  simp only [capNext, smHoldApply]
  by_cases hasleep : d.policy.asleep = true
  · rw [if_pos hasleep]
  · rw [if_neg hasleep]
    exact counts_pushOutBoth d _ _

theorem not_counts_iff (d : SleepDevice) : d.counts ladderOn = false ↔
    d.policy.asleep = true ∨ d.policy.counting ladderOn = false ∧ d.critical.armed = false := by
  rw [SleepDevice.counts]
  cases d.policy.asleep <;> cases d.policy.counting ladderOn <;> cases d.critical.armed <;> simp

theorem capNext_activity (ladderOn : Bool) (d : SleepDevice) (ms : ℕ) (holdMs capMs : UInt32) :
    (capNext ladderOn d (.activity ms holdMs capMs)).counts ladderOn = d.counts ladderOn ∧
      (capNext ladderOn d (.activity ms holdMs capMs)).activity.active = d.counts ladderOn ∧
      (d.counts ladderOn = true →
        (capNext ladderOn d (.activity ms holdMs capMs)).activity.capUntil =
          activityCap d.activity (.ofNat ms) capMs) := by
  simp only [capNext, smActivityApply]
  by_cases hidle : d.policy.asleep = true ∨
      d.policy.counting ladderOn = false ∧ d.critical.armed = false
  · have hcounts := (not_counts_iff d).2 hidle
    rw [if_pos hidle, hcounts]
    exact ⟨hcounts, rfl, fun h => by cases h⟩
  · have hcounts : d.counts ladderOn = true :=
      Bool.eq_true_of_not_eq_false (mt (not_counts_iff d).1 hidle)
    rw [if_neg hidle, hcounts]
    exact ⟨(counts_pushOutBoth d _ _).trans hcounts, rfl, fun _ => rfl⟩

theorem smPendingEval_none_iff (d : SleepDevice) (nowMs deadlineMs : UInt32) :
    (smPendingEval d.policy ladderOn d.critical nowMs deadlineMs).1 = .none ↔
      d.counts ladderOn = false := by
  rw [not_counts_iff, smPendingEval]
  cases hasleep : d.policy.asleep with
  | true => simp
  | false =>
    have hlow : (ladderOn = true ∧ d.policy.state = .lowVoltage) ↔
        d.policy.counting ladderOn = true := by
      simp [SmPolicy.counting]
    simp only [hlow, Bool.false_eq_true, if_false, false_or]
    cases d.policy.counting ladderOn with
    | true =>
      simp only [if_true, Bool.true_eq_false, false_and, iff_false]
      split_ifs <;> simp
    | false =>
      cases harmed : d.critical.armed <;> simp

/-- **Every call that is published keeps the cap known.** -/
theorem CapKnown.next (h : CapKnown ladderOn history) {op : CapOp}
    (hpub : Published (op :: history)) : CapKnown ladderOn (op :: history) := by
  cases op with
  | policy ms cfg volts => exact h.quiet hpub rfl rfl (fun _ => rfl) (.inl rfl)
  | critical ms volts => exact h.quiet hpub rfl rfl (fun _ => rfl) (.inl rfl)
  | hold ms holdMs =>
    exact h.quiet hpub rfl rfl (fun _ => rfl) (.inr (counts_hold _ ms holdMs))
  | activity ms holdMs capMs =>
    obtain ⟨hcounts, hactive, huntil⟩ :=
      capNext_activity ladderOn (capAfter ladderOn history) ms holdMs capMs
    refine ⟨fun hcounts' hoff => ?_, fun hcounts' hon => ?_, fun hidle => .inl ?_⟩
    · rw [capAfter, hactive, ← hcounts, ← capAfter, hcounts'] at hoff
      cases hoff
    · rw [countdownCap_counts hcounts']
      rw [capAfter, hcounts] at hcounts'
      exact ⟨_, rfl, (huntil hcounts').trans (h.cap ms capMs hcounts')⟩
    · rw [capAfter, hcounts] at hidle
      rw [capAfter, hactive, hidle]
  | publish ms =>
    have hcounts : (capAfter ladderOn (.publish ms :: history)).counts ladderOn =
        (capAfter ladderOn history).counts ladderOn := by
      simp only [capAfter, capNext]
      split_ifs <;> rfl
    by_cases hidle : (capAfter ladderOn history).counts ladderOn = false
    · have hoff : (capAfter ladderOn (.publish ms :: history)).activity.active = false := by
        simp only [capAfter, capNext]
        rw [if_pos ((smPendingEval_none_iff _ _ _).2 hidle)]
      refine ⟨fun hcounts' _ => ?_, fun _ hon => ?_, fun _ => .inl hoff⟩
      · rw [hcounts, hidle] at hcounts'
        cases hcounts'
      · rw [hoff] at hon
        cases hon
    · have hsame : capAfter ladderOn (.publish ms :: history) = capAfter ladderOn history := by
        simp only [capAfter, capNext]
        rw [if_neg (mt (smPendingEval_none_iff _ _ _).1 hidle)]
      have hcap : countdownCap ladderOn (.publish ms :: history) =
          countdownCap ladderOn history := by
        rw [countdownCap_counts (by rw [hcounts]; exact Bool.eq_true_of_not_eq_false hidle)]
        rfl
      refine ⟨?_, ?_, fun hidle' => ?_⟩
      · rw [hsame, hcap]
        exact h.fresh
      · rw [hsame, hcap]
        exact h.known
      · rw [hsame] at hidle'
        exact absurd hidle' hidle
  | park ms intervalMs =>
    refine ⟨fun hcounts _ => ?_, fun hcounts _ => ?_, fun _ => .inl rfl⟩
    · cases hcounts
    · cases hcounts

theorem capKnown (hpub : Published history) : CapKnown ladderOn history := by
  induction history with
  | nil =>
    refine ⟨fun hcounts _ => ?_, fun hcounts _ => ?_, fun _ => .inl rfl⟩
    · rfl
    · have hoff : (capAfter ladderOn []).counts ladderOn = false := by
        cases ladderOn <;> rfl
      rw [hoff] at hcounts
      cases hcounts
  | cons op earlier ih => exact (ih hpub.2).next hpub

/-- **The activity hold is bounded per countdown**: a read after any published calls moves
what counts later only, never past the cap that the first read of this countdown set, and
a countdown that was not read yet gets the full cap. -/
theorem activity_held (ladderOn : Bool) (history : CapHistory) (ms : ℕ) (holdMs capMs : UInt32)
    (hpub : Published (.activity ms holdMs capMs :: history)) :
    ActivityHeld ladderOn ((countdownCap ladderOn history).getD (ms + capMs.toNat))
      (ms + holdMs.toNat) (capAfter ladderOn history)
      (capAfter ladderOn (.activity ms holdMs capMs :: history)) :=
  activityHeld_apply ((capKnown hpub.2).cap ms capMs)

/-! ## A cap that is left behind -/

/-- Low at 0 s and read; recovered at 10 s; low again at 700 s. -/
def recovered : CapHistory :=
  [.policy 700000 periodicCfg (some 12), .policy 10000 periodicCfg (some 14),
    .activity 0 60000 600000, .policy 0 periodicCfg (some 12)]

/-- The same, as `state_task` does it. -/
def recoveredPublished : CapHistory :=
  [.publish 700000, .policy 700000 periodicCfg (some 12), .publish 10000,
    .policy 10000 periodicCfg (some 14), .activity 0 60000 600000, .publish 0,
    .policy 0 periodicCfg (some 12)]

/-- Published, the read of the second countdown holds it for its minute. -/
theorem activity_held_recovered :
    ActivityHeld true 1590000 1050000 (capAfter true recoveredPublished)
      (capAfter true (.activity 990000 60000 600000 :: recoveredPublished)) := by
  have hfirst : countdownCap true recoveredPublished = none := by decide +kernel
  have hheld := activity_held true recoveredPublished 990000 60000 600000 (by
    simp [Published, recoveredPublished, CapOp.evaluates, CapOp.settles])
  rw [hfirst] at hheld
  exact hheld

/-- **Without `publish_pending` the cap of the first countdown is left behind**, and the
second one, not read before, is not held. -/
theorem activity_cap_left :
    countdownCap true recovered = none ∧ (capAfter true recovered).counts true = true ∧
      (capAfter true (.activity 990000 60000 600000 :: recovered)).policy.tLow = 1000000 ∧
      ¬ ActivityHeld true 1590000 1050000 (capAfter true recovered)
        (capAfter true (.activity 990000 60000 600000 :: recovered)) := by
  have hbefore : (capAfter true recovered).policy = ⟨.lowVoltage, 1000000, 0, 0⟩ := by
    decide +kernel
  have hafter : (capAfter true (.activity 990000 60000 600000 :: recovered)).policy.tLow =
      1000000 := by decide +kernel
  refine ⟨by decide +kernel, by decide +kernel, hafter, fun hheld => ?_⟩
  have hlow := hheld.low
  rw [hbefore] at hlow
  have hexact := hlow.exact 1000000 rfl ⟨by decide, by decide⟩ ⟨by decide, by decide⟩
    ⟨by decide, by decide⟩
  rw [hafter] at hexact
  exact absurd hexact (by decide)

end Meatpi
