import Mathlib.Data.Int.Order.Basic
import Meatpi.Library.Run

/-!
# The vehicle-bus gate (`obd_gate_core.c`)

One requester at a time holds the gate, until it releases it or its hold expires.
The first one that is refused becomes the waiter and owns the next turn, as long as
it keeps trying. The reservation is honoured where a hold is reaped for somebody
else, but not where its holder extends it: a holder that tries again after its hold
expired keeps the gate (`gate_turn_taken`).
-/

namespace Meatpi

open Option

universe u

variable {Owner : Type u} [DecidableEq Owner]

structure OgCore (Owner : Type u) where
  owner : Option Owner
  deadlineMs : ℤ
  waiter : Option Owner
  waiterDeadlineMs : ℤ
  acquires : UInt32
  steals : UInt32
  expiries : UInt32

/-- A gate that is free. -/
def OgCore.init : OgCore Owner := ⟨none, 0, none, 0, 0, 0, 0⟩

def ogReserveMs : ℤ := 500

def reservationLive (g : OgCore Owner) (nowMs : ℤ) : Bool :=
  g.waiter.isSome && decide (nowMs < g.waiterDeadlineMs)

/-- The end of `og_core_try`: the gate is free or ours, or was reaped. -/
def ogTake (g : OgCore Owner) (owner : Owner) (nowMs : ℤ) (holdMs : UInt32) :
    Bool × OgCore Owner :=
  if g.owner = none ∧ reservationLive g nowMs = true ∧ g.waiter ≠ some owner then
    (false, g)
  else
    (true, { g with
      waiter := if g.waiter = some owner then none else g.waiter
      owner := some owner
      deadlineMs := nowMs + holdMs.toNat
      acquires := g.acquires + 1 })

def ogCoreTry (g : OgCore Owner) (owner : Owner) (nowMs : ℤ) (holdMs : UInt32) :
    Bool × OgCore Owner :=
  match g.owner with
  | none => ogTake g owner nowMs holdMs
  | some holder =>
    if holder = owner then
      ogTake g owner nowMs holdMs
    else if nowMs < g.deadlineMs then
      if g.waiter = some owner ∨ reservationLive g nowMs = false then
        (false, { g with waiter := some owner, waiterDeadlineMs := nowMs + ogReserveMs })
      else
        (false, g)
    else
      ogTake { g with expiries := g.expiries + 1, owner := none } owner nowMs holdMs

def ogCoreForce (g : OgCore Owner) (owner : Owner) (nowMs : ℤ) (holdMs : UInt32) :
    OgCore Owner :=
  { g with
    waiter := if g.waiter = some owner then none else g.waiter
    owner := some owner
    deadlineMs := nowMs + holdMs.toNat
    steals := g.steals + 1 }

def ogCoreRelease (g : OgCore Owner) (owner : Owner) : OgCore Owner :=
  if g.owner = some owner then { g with owner := none } else g

/-! ## Runs -/

/-- What a requester asks of the gate. -/
inductive OgOp (Owner : Type u) where
  | attempt (owner : Owner) (holdMs : UInt32)
  | release (owner : Owner)
  | force (owner : Owner) (holdMs : UInt32)

/-- A call, and when it is made. -/
structure OgCall (Owner : Type u) where
  nowMs : ℤ
  op : OgOp Owner

/-- A call: whether the gate was granted, and the gate after it. -/
def ogCall (g : OgCore Owner) (call : OgCall Owner) : Bool × OgCore Owner :=
  match call.op with
  | .attempt owner holdMs => ogCoreTry g owner call.nowMs holdMs
  | .release owner => (false, ogCoreRelease g owner)
  | .force owner holdMs => (true, ogCoreForce g owner call.nowMs holdMs)

/-- The gate after a call. -/
def ogNext (g : OgCore Owner) (call : OgCall Owner) : OgCore Owner := (ogCall g call).2

/-- A holder loses the gate by its own release, by force, or because its hold had
expired. -/
def KeepsHolder (g : OgCore Owner) (call : OgCall Owner) : Prop :=
  ∀ holder, g.owner = some holder → (ogCall g call).2.owner ≠ some holder →
    call.op = .release holder ∨ (∃ owner holdMs, call.op = .force owner holdMs) ∨
      g.deadlineMs ≤ call.nowMs

theorem ogTake_owner (g : OgCore Owner) (owner : Owner) (nowMs : ℤ) (holdMs : UInt32) :
    (ogTake g owner nowMs holdMs).2.owner = some owner ∨
      (ogTake g owner nowMs holdMs).2.owner = g.owner := by
  rw [ogTake]
  by_cases hrefused : g.owner = none ∧ reservationLive g nowMs = true ∧ g.waiter ≠ some owner
  · rw [if_pos hrefused]
    exact .inr rfl
  · rw [if_neg hrefused]
    exact .inl rfl

/-- **The gate is exclusive**, at every step of every run. -/
theorem keepsHolder (g : OgCore Owner) (call : OgCall Owner) : KeepsHolder g call := by
  intro holder hholder hlost
  obtain ⟨nowMs, op⟩ := call
  cases op with
  | attempt owner holdMs =>
    right
    right
    by_contra hnow
    have hlive : nowMs < g.deadlineMs := Int.not_le.mp hnow
    apply hlost
    simp only [ogCall, ogCoreTry, hholder]
    by_cases hsame : holder = owner
    · rw [if_pos hsame]
      rcases ogTake_owner g owner nowMs holdMs with h | h
      · rw [h, hsame]
      · rw [h, hholder]
    · rw [if_neg hsame, if_pos hlive]
      split_ifs
      · rfl
      · exact hholder
  | release owner =>
    left
    by_cases hsame : holder = owner
    · rw [hsame]
    · exfalso
      apply hlost
      have hne : ¬g.owner = some owner := by
        rw [hholder]
        exact fun h => hsame (some.inj h)
      simp only [ogCall, ogCoreRelease, if_neg hne]
      exact hholder
  | force owner holdMs => exact .inr (.inl ⟨owner, holdMs, rfl⟩)

/-! ## The waiter's turn -/

/-- The gate as one waiter sees it: whether the hold it waits on is over, when it
last tried, and whether it got the gate. -/
structure OgWatch (Owner : Type u) where
  gate : OgCore Owner
  ended : Bool
  lastMs : ℤ
  served : Bool

/-- Nobody holds the gate, or the hold has expired. -/
def holdOver (g : OgCore Owner) (nowMs : ℤ) : Bool :=
  g.owner.isNone || decide (g.deadlineMs ≤ nowMs)

/-- The hold that the waiter waits on is over by the time of this call. -/
def OgWatch.over (s : OgWatch Owner) (call : OgCall Owner) : Bool :=
  s.ended || holdOver s.gate call.nowMs

/-- The calls that `w` makes to get the gate. -/
def OgCall.isTurnOf (call : OgCall Owner) (w : Owner) : Bool :=
  match call.op with
  | .attempt owner _ => decide (owner = w)
  | .force owner _ => decide (owner = w)
  | .release _ => false

/-- A call, as the waiter `w` sees it. -/
def ogWatchNext (w : Owner) (s : OgWatch Owner) (call : OgCall Owner) : OgWatch Owner where
  gate := ogNext s.gate call
  ended := s.over call
  lastMs := if call.isTurnOf w then call.nowMs else s.lastMs
  served := s.served || (call.isTurnOf w && (ogCall s.gate call).1)

/-- Until it gets the gate, the waiter tries again at least every `OG_RESERVE_MS`. -/
def Retries (s : OgWatch Owner) (call : OgCall Owner) : Prop :=
  s.served = false → call.nowMs ≤ s.lastMs + ogReserveMs

instance (s : OgWatch Owner) (call : OgCall Owner) : Decidable (Retries s call) :=
  inferInstanceAs (Decidable (_ → _))

/-- Nobody gets in front of the retry that is due this very millisecond. -/
def RetriesFirst (w : Owner) (s : OgWatch Owner) (call : OgCall Owner) : Prop :=
  s.served = false → ∀ owner holdMs, owner ≠ w → call.op = .attempt owner holdMs →
    call.nowMs ≠ s.lastMs + ogReserveMs

/-- Once the hold is over nobody else is granted the gate before the waiter. -/
def FairTo (w : Owner) (s : OgWatch Owner) (call : OgCall Owner) : Prop :=
  s.served = false → s.over call = true →
    ∀ owner holdMs, owner ≠ w → call.op = .attempt owner holdMs → (ogCall s.gate call).1 = false

/-- Once the hold is over, it is not extended. -/
def NotExtended (w : Owner) (s : OgWatch Owner) (call : OgCall Owner) : Prop :=
  s.served = false → s.over call = true →
    ∀ owner holdMs, owner ≠ w → call.op = .attempt owner holdMs → s.gate.owner ≠ some owner

/-- The next turn is `w`'s, for as long as it keeps trying. -/
def TurnOf (w : Owner) (s : OgWatch Owner) : Prop :=
  s.served = false →
    s.gate.waiter = some w ∧ s.gate.waiterDeadlineMs = s.lastMs + ogReserveMs

section

variable {g : OgCore Owner} {w owner : Owner} {nowMs : ℤ}

theorem ogCoreTry_other (holdMs : UInt32) (hw : g.waiter = some w)
    (hlive : nowMs < g.waiterDeadlineMs) (hne : owner ≠ w) :
    (ogCoreTry g owner nowMs holdMs).1 = decide (g.owner = some owner) ∧
      (ogCoreTry g owner nowMs holdMs).2.waiter = some w ∧
        (ogCoreTry g owner nowMs holdMs).2.waiterDeadlineMs = g.waiterDeadlineMs := by
  have hreserved : reservationLive g nowMs = true := by
    rw [reservationLive, hw, isSome_some, Bool.true_and, decide_eq_true hlive]
  have hother : g.waiter ≠ some owner := by
    rw [hw]
    exact fun h => hne (some.inj h).symm
  cases howner : g.owner with
  | none =>
    simp only [ogCoreTry, howner, ogTake]
    rw [if_pos ⟨trivial, hreserved, hother⟩]
    exact ⟨by simp, hw, rfl⟩
  | some holder =>
    simp only [ogCoreTry, howner]
    by_cases hsame : holder = owner
    · -- the holder tries again: no reservation is looked at
      rw [if_pos hsame, ogTake, if_neg fun h => some_ne_none holder (howner ▸ h.1)]
      refine ⟨by simp [hsame], ?_, rfl⟩
      simp only [if_neg hother]
      exact hw
    · have hnot : decide (some holder = some owner) = false :=
        decide_eq_false fun h => hsame (some.inj h)
      rw [if_neg hsame, hnot]
      by_cases hheld : nowMs < g.deadlineMs
      · rw [if_pos hheld, if_neg (by simp [hother, hreserved])]
        exact ⟨rfl, hw, rfl⟩
      · rw [if_neg hheld, ogTake, if_pos ⟨rfl, hreserved, hother⟩]
        exact ⟨rfl, hw, rfl⟩

theorem ogCoreTry_waiter (nowMs : ℤ) (holdMs : UInt32) (hw : g.waiter = some w) :
    (ogCoreTry g w nowMs holdMs).1 = true ∨ (ogCoreTry g w nowMs holdMs).2.waiter = some w ∧
        (ogCoreTry g w nowMs holdMs).2.waiterDeadlineMs = nowMs + ogReserveMs := by
  have htake : ∀ g' : OgCore Owner, g'.waiter = some w → (ogTake g' w nowMs holdMs).1 = true := by
    intro g' hw'
    rw [ogTake, if_neg fun h => h.2.2 hw']
  cases howner : g.owner with
  | none =>
    simp only [ogCoreTry, howner]
    exact .inl (htake g hw)
  | some holder =>
    simp only [ogCoreTry, howner]
    by_cases hsame : holder = w
    · rw [if_pos hsame]
      exact .inl (htake g hw)
    · rw [if_neg hsame]
      by_cases hheld : nowMs < g.deadlineMs
      · rw [if_pos hheld, if_pos (.inl hw)]
        exact .inr ⟨rfl, rfl⟩
      · rw [if_neg hheld]
        exact .inl (htake _ hw)

end

section

variable {w : Owner} {s : OgWatch Owner} {call : OgCall Owner}

theorem TurnOf.other (hturn : TurnOf w s) (hserved : s.served = false) (hretries : Retries s call)
    (hfirst : RetriesFirst w s call) {owner : Owner} {holdMs : UInt32} (hne : owner ≠ w)
    (hop : call.op = .attempt owner holdMs) :
    (ogCall s.gate call).1 = decide (s.gate.owner = some owner) ∧
      (ogNext s.gate call).waiter = some w ∧
        (ogNext s.gate call).waiterDeadlineMs = s.lastMs + ogReserveMs := by
  obtain ⟨hw, hdeadline⟩ := hturn hserved
  have hlive : call.nowMs < s.gate.waiterDeadlineMs := by
    rw [hdeadline]
    exact lt_of_le_of_ne (hretries hserved) (hfirst hserved owner holdMs hne hop)
  have htry := ogCoreTry_other holdMs hw hlive hne
  rw [ogNext, ogCall, hop, ← hdeadline]
  exact htry

/-- **The reservation outlives every step** of a waiter that keeps trying. -/
theorem TurnOf.next (hturn : TurnOf w s) (hretries : Retries s call)
    (hfirst : RetriesFirst w s call) : TurnOf w (ogWatchNext w s call) := by
  intro hserved'
  obtain ⟨hserved, hmissed⟩ := Bool.or_eq_false_iff.mp hserved'
  obtain ⟨hw, hdeadline⟩ := hturn hserved
  simp only [ogWatchNext]
  cases hop : call.op with
  | attempt owner holdMs =>
    by_cases hsame : owner = w
    · subst hsame
      have hturnOf : call.isTurnOf owner = true := by simp [OgCall.isTurnOf, hop]
      rw [hturnOf, Bool.true_and] at hmissed
      rw [hturnOf]
      simp only [ogNext, ogCall, hop] at hmissed ⊢
      rcases ogCoreTry_waiter call.nowMs holdMs hw with hgranted | hstays
      · rw [hmissed] at hgranted
        cases hgranted
      · exact hstays
    · have hturnOf : call.isTurnOf w = false := by simp [OgCall.isTurnOf, hop, hsame]
      rw [hturnOf]
      exact (hturn.other hserved hretries hfirst hsame hop).2
  | release owner =>
    have hturnOf : call.isTurnOf w = false := by simp [OgCall.isTurnOf, hop]
    rw [hturnOf, if_neg Bool.false_ne_true]
    simp only [ogNext, ogCall, hop, ogCoreRelease]
    split_ifs
    · exact ⟨hw, hdeadline⟩
    · exact ⟨hw, hdeadline⟩
  | force owner holdMs =>
    by_cases hsame : owner = w
    · simp [OgCall.isTurnOf, hop, hsame, ogCall] at hmissed
    · have hturnOf : call.isTurnOf w = false := by simp [OgCall.isTurnOf, hop, hsame]
      have hother : ¬s.gate.waiter = some owner := by
        rw [hw]
        exact fun h => hsame (some.inj h).symm
      rw [hturnOf]
      simp only [ogNext, ogCall, hop, ogCoreForce, if_neg hother]
      exact ⟨hw, hdeadline⟩

theorem TurnOf.fair_iff (hturn : TurnOf w s) (hretries : Retries s call)
    (hfirst : RetriesFirst w s call) : FairTo w s call ↔ NotExtended w s call := by
  constructor
  · intro hfair hserved hover owner holdMs hne hop howner
    have hrefused := hfair hserved hover owner holdMs hne hop
    rw [(hturn.other hserved hretries hfirst hne hop).1, decide_eq_false_iff_not] at hrefused
    exact hrefused howner
  · intro hkept hserved hover owner holdMs hne hop
    rw [(hturn.other hserved hretries hfirst hne hop).1]
    exact decide_eq_false (hkept hserved hover owner holdMs hne hop)

end

/-- The gate as `w` finds it after the try at `tMs` that made it the waiter. -/
def OgWatch.registered (g : OgCore Owner) (tMs : ℤ) : OgWatch Owner := ⟨g, false, tMs, false⟩

/-- **Whose turn it is.** The gate is exclusive whatever is called. A waiter that
keeps trying, and that comes first in the millisecond its retry is due, is the next
one to be granted the gate exactly if no hold that is over is extended meanwhile. -/
theorem gate_turn {w : Owner} {g : OgCore Owner} {tMs : ℤ} {calls : List (OgCall Owner)}
    (hwaiter : g.waiter = some w) (hdeadline : g.waiterDeadlineMs = tMs + ogReserveMs)
    (hretries : Along (ogWatchNext w) Retries (.registered g tMs) calls) :
    (∀ (g₀ : OgCore Owner) (calls₀ : List (OgCall Owner)), Along ogNext KeepsHolder g₀ calls₀) ∧
      (Along (ogWatchNext w) (RetriesFirst w) (.registered g tMs) calls →
        (Along (ogWatchNext w) (FairTo w) (.registered g tMs) calls ↔
          Along (ogWatchNext w) (NotExtended w) (.registered g tMs) calls)) := by
  refine ⟨fun g₀ calls₀ => Along.of_forall keepsHolder calls₀ g₀, fun hfirst => ?_⟩
  refine Along.congr (I := TurnOf w) (K := fun s call => Retries s call ∧ RetriesFirst w s call)
    (fun s call hturn h => hturn.next h.1 h.2) (fun s call hturn h => hturn.fair_iff h.1 h.2)
    (fun _ => ⟨hwaiter, hdeadline⟩) (hretries.and hfirst)

/-- Owner 0 holds the gate from 0 to 2000 ms, owner 1 was refused at 1600 ms. -/
def heldAndWaited : OgCore ℕ :=
  ogNext (ogNext .init ⟨0, .attempt 0 2000⟩) ⟨1600, .attempt 1 1000⟩

/-- The waiter tries again, and collects its turn when the hold is released. -/
theorem gate_turn_collected :
    heldAndWaited.waiter = some 1 ∧
      Along (ogWatchNext 1) (FairTo 1) (.registered heldAndWaited 1600)
        [⟨1900, .attempt 1 1000⟩, ⟨1950, .release 0⟩, ⟨1960, .attempt 2 1000⟩,
          ⟨2100, .attempt 1 1000⟩] := by
  refine ⟨rfl, ((gate_turn (w := 1) rfl (rfl : _ = 1600 + ogReserveMs) ?_).2 ?_).mpr ?_⟩
  · exact ⟨by decide, by decide, by decide, by decide, trivial⟩
  · refine ⟨?_, ?_, ?_, ?_, trivial⟩
    all_goals
      intro _ owner holdMs hne hop
      cases hop
      try decide
  · refine ⟨?_, ?_, ?_, ?_, trivial⟩
    all_goals
      intro _ hover owner holdMs hne hop
      cases hop
      try decide

/-- **Somebody else's turn.** The waiter tried a millisecond ago and again right
after, but the holder, whose hold has run out, comes in between and is granted the
gate again. -/
theorem gate_turn_taken :
    heldAndWaited.waiter = some 1 ∧ heldAndWaited.waiterDeadlineMs = 1600 + ogReserveMs ∧
      Along (ogWatchNext 1) Retries (.registered heldAndWaited 1600)
        [⟨1999, .attempt 1 1000⟩, ⟨2000, .attempt 0 2000⟩, ⟨2001, .attempt 1 1000⟩] ∧
      ¬Along (ogWatchNext 1) (FairTo 1) (.registered heldAndWaited 1600)
        [⟨1999, .attempt 1 1000⟩, ⟨2000, .attempt 0 2000⟩, ⟨2001, .attempt 1 1000⟩] := by
  refine ⟨rfl, rfl, ⟨by decide, by decide, by decide, trivial⟩, fun hfair => ?_⟩
  have hrefused := hfair.2.1 (by decide) (by decide) 0 2000 (by decide) rfl
  revert hrefused
  decide

end Meatpi
