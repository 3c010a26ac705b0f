import Meatpi.EspnetlinkLink.Pairing
import Meatpi.Library.WrapClock

/-!
# The power cycles (`espnetlink_link_core.c`)

A VBUS cycle re-boots a dongle that could not be paired. The machine counts its
cycles since the last success and keeps the time of the last one, on the 32-bit
clock. A run is followed at its true times.
-/

namespace Meatpi

open List

/-- An event at its true time. The engine may write `reboot_pending` before it. -/
structure EspnlInput where
  ev : EspnlSmEvent
  time : ℕ
  rebootPending : Bool

/-- A step of a run: what it found and what it asked for. -/
structure EspnlMove where
  before : EspnlSm
  ev : EspnlSmEvent
  time : ℕ
  act : EspnlSmAction
  deriving DecidableEq

/-- The step at the wrapping time. -/
def EspnlSm.stepAt (sm : EspnlSm) (i : EspnlInput) : EspnlSm × EspnlSmAction :=
  { sm with rebootPending := i.rebootPending }.step i.ev (UInt32.ofNat i.time)

/-- The cut landed. -/
def EspnlMove.landed (m : EspnlMove) : Bool :=
  m.ev = .linkDown && (m.before.state = .waitDrop || m.before.state = .cut)

/-- The dongle answered to the sharing that this is how it is set, or, `withoutApi`,
that it has no such settings. -/
def EspnlMove.shared (m : EspnlMove) : Bool := m.before.state = .ncmShare && m.ev = .ok

def EspnlMove.withoutApi (m : EspnlMove) : Bool :=
  m.before.state = .ncmShare && m.ev = .unsupported

/-- What starts the budget afresh. -/
def EspnlMove.success (m : EspnlMove) : Bool := m.landed || m.shared || m.withoutApi

/-- Cycles since the last success. -/
def espnlSpent (success : EspnlMove → Bool) (ms : List EspnlMove) : ℕ :=
  ms.foldl (fun n m => if success m then 0 else if m.act = .vbusCycle then n + 1 else n) 0

/-- The time of the last cycle, or the start. -/
def espnlLast (start : ℕ) (ms : List EspnlMove) : ℕ :=
  ms.foldl (fun t m => if m.act = .vbusCycle then m.time else t) start

/-- Cycles are spaced and budgeted in a run, told what the successes are, and what it is
for the last cycle to be too near. -/
structure EspnlCycles (success : EspnlMove → Bool) (near : ℕ → ℕ → Prop) (start : ℕ)
    (ms : List EspnlMove) : Prop where
  /-- `ESPNL_SM_CYCLE_GAP_MS` lie between cycles. -/
  spaced : (ms.filter (·.act = .vbusCycle)).Pairwise fun m m' =>
    m.time + espnlSmCycleGapMs.toNat ≤ m'.time
  /-- There are never more than `ESPNL_SM_MAX_CYCLES` since the last success. -/
  budgeted : ∀ pre, pre <+: ms → (espnlSpent success pre : ℤ) ≤ espnlSmMaxCycles
  /-- None comes from a state that waits for the link or the operator. -/
  quiet : ∀ m ∈ ms, m.act = .vbusCycle →
    m.before.state ∉ [.idle, .foreign, .tether, .hold, .unsupported, .ncmUp]
  /-- The machine gives up when the budget is spent or the last cycle is too near. -/
  givesUp : ∀ pre m, pre ++ [m] <+: ms → m.act = .giveUp →
    espnlSmMaxCycles ≤ espnlSpent success pre ∨ near (espnlLast start pre) m.time

/-! ## What a step does to the count and the time -/

/-- A step issues a cycle, or leaves the time alone. -/
def EspnlSm.Spends (sm : EspnlSm) (success : Bool) (nowMs : UInt32)
    (r : EspnlSm × EspnlSmAction) : Prop :=
  (r.2 = .vbusCycle ∧ sm.cycles < espnlSmMaxCycles ∧
      espnlSmCycleGapMs ≤ nowMs - sm.lastCycleMs ∧ r.1.cycles = sm.cycles + 1 ∧
      r.1.lastCycleMs = nowMs ∧ success = false ∧
      sm.state ∉ [.idle, .foreign, .tether, .hold, .unsupported, .ncmUp]) ∨
    (r.2 ≠ .vbusCycle ∧ r.1.lastCycleMs = sm.lastCycleMs ∧
      r.1.cycles = (if success then 0 else sm.cycles) ∧
      (r.2 = .giveUp →
        espnlSmMaxCycles ≤ sm.cycles ∨ nowMs - sm.lastCycleMs < espnlSmCycleGapMs))

namespace EspnlSm

variable {sm : EspnlSm} {nowMs : UInt32}

theorem spends_recover (hs : sm.state ∉ [.idle, .foreign, .tether, .hold, .unsupported, .ncmUp]) :
    sm.Spends false nowMs (sm.recover nowMs) := by
  unfold recover
  split_ifs with h
  · exact .inr ⟨EspnlSmAction.noConfusion, rfl, rfl, fun _ => h⟩
  · rw [not_or, not_le, UInt32.not_lt] at h
    exact .inl ⟨rfl, h.1, h.2, rfl, rfl, rfl, hs⟩

theorem spends_other {r : EspnlSm × EspnlSmAction} (hv : r.2 ≠ .vbusCycle) (hg : r.2 ≠ .giveUp)
    (hl : r.1.lastCycleMs = sm.lastCycleMs) (hc : r.1.cycles = sm.cycles) :
    sm.Spends false nowMs r :=
  .inr ⟨hv, hl, hc, fun h => absurd h hg⟩

/-- **Every step but a re-pair** spends as its state and event say. -/
theorem spends_step {i : EspnlInput} (hev : i.ev ≠ .repair) :
    sm.Spends (EspnlMove.success ⟨sm, i.ev, i.time, .none⟩) (UInt32.ofNat i.time)
      (sm.stepAt i) := by
  obtain ⟨ev, time, flag⟩ := i
  have hstate : ∀ ev, ev ≠ .linkDown →
      sm.Spends (EspnlMove.success ⟨sm, ev, time, .none⟩) (UInt32.ofNat time)
        ({ sm with rebootPending := flag }.onState ev (UInt32.ofNat time)) := by
    intro ev hdown
    have hrecover : sm.state ∉ [.idle, .foreign, .tether, .hold, .unsupported, .ncmUp] →
        sm.Spends false (UInt32.ofNat time)
          ({ sm with rebootPending := flag }.recover (UInt32.ofNat time)) :=
      @spends_recover { sm with rebootPending := flag } _
    cases hs : sm.state <;>
      simp only [onState, hs, EspnlMove.success, EspnlMove.landed, EspnlMove.shared,
        EspnlMove.withoutApi, hdown, decide_false, Bool.false_and, Bool.or_false, Bool.false_or,
        reduceCtorEq, decide_true, Bool.true_and]
    case ncmShare =>
      unfold onNcmShare
      split_ifs with hyes
      · rcases hyes with rfl | rfl
        · exact .inr ⟨EspnlSmAction.noConfusion, rfl, rfl, EspnlSmAction.noConfusion⟩
        · exact .inr ⟨EspnlSmAction.noConfusion, rfl, rfl, EspnlSmAction.noConfusion⟩
      all_goals
        rw [not_or] at hyes
        rw [decide_eq_false hyes.1, decide_eq_false hyes.2]
        exact spends_other (by simp) (by simp) rfl rfl
    case done =>
      split_ifs
      · exact hrecover (by simp [hs])
      · exact spends_other (by simp) (by simp) rfl rfl
    case idle | foreign | tether | hold | unsupported | ncmUp =>
      exact spends_other (by simp) (by simp) rfl rfl
    -- the states that wait for an answer
    all_goals
      simp only [onIdentify, onUnreachable, onReadKey, onCut, onWaitDrop]
      split_ifs <;> first
        | exact hrecover (by simp [hs])
        | exact spends_other (by simp) (by simp) rfl rfl
  cases ev
  case repair => exact absurd rfl hev
  case linkDown =>
    simp only [stepAt, step, onLinkDown, EspnlMove.success, EspnlMove.landed, EspnlMove.shared,
      EspnlMove.withoutApi]
    split_ifs with hwait <;> simp [Spends, enter, hwait]
  case linkUp =>
    simp only [stepAt, step, onLinkUp, EspnlMove.success, EspnlMove.landed, EspnlMove.shared,
      EspnlMove.withoutApi]
    simp [Spends, enter]
  case linkUpOther =>
    simp only [stepAt, step, EspnlMove.success, EspnlMove.landed, EspnlMove.shared,
      EspnlMove.withoutApi]
    simp [Spends, enter]
  all_goals exact hstate _ EspnlSmEvent.noConfusion

end EspnlSm

/-! ## A run -/

theorem toNat_sub_cycle {now free : ℕ} (h : free ≤ now + espnlSmCycleGapMs.toNat) :
    (UInt32.ofNat now - (UInt32.ofNat free - espnlSmCycleGapMs)).toNat =
      (now + espnlSmCycleGapMs.toNat - free) % 2 ^ 32 := by
  have hgap : UInt32.ofNat now - (UInt32.ofNat free - espnlSmCycleGapMs) =
      UInt32.ofNat (now + espnlSmCycleGapMs.toNat) - UInt32.ofNat free := by
    rw [← stamp_add, sub_sub_eq_add_sub]
  rw [hgap, stamp_sub]
  omega

/-- The machine's books after the moves of a run. -/
structure EspnlBooks (start : ℕ) (times : List ℕ) (ms : List EspnlMove) (sm : EspnlSm) : Prop where
  cycles : sm.cycles = espnlSpent EspnlMove.success ms
  few : sm.cycles ≤ espnlSmMaxCycles
  last : espnlLast start ms ∈ start :: times
  free : ∃ free, sm.lastCycleMs = UInt32.ofNat free - espnlSmCycleGapMs ∧
    (free = espnlLast start ms ∨ free = espnlLast start ms + espnlSmCycleGapMs.toNat) ∧
    ∀ m ∈ ms, m.act = .vbusCycle → m.time + espnlSmCycleGapMs.toNat ≤ free

/-- Too near on the 32-bit clock: within the gap, or past a wrap of it. -/
def espnlNear (last now : ℕ) : Prop :=
  now < last + espnlSmCycleGapMs.toNat ∨ last + (2 ^ 32 - espnlSmCycleGapMs.toNat) ≤ now

variable {start : ℕ} {times : List ℕ} {ms : List EspnlMove} {sm : EspnlSm}

theorem EspnlCycles.snoc (hc : EspnlCycles EspnlMove.success espnlNear start ms) {m : EspnlMove}
    (hspaced : m.act = .vbusCycle →
      ∀ m' ∈ ms, m'.act = .vbusCycle → m'.time + espnlSmCycleGapMs.toNat ≤ m.time)
    (hspent : (espnlSpent EspnlMove.success (ms ++ [m]) : ℤ) ≤ espnlSmMaxCycles)
    (hquiet : m.act = .vbusCycle →
      m.before.state ∉ [.idle, .foreign, .tether, .hold, .unsupported, .ncmUp])
    (hgive : m.act = .giveUp → espnlSmMaxCycles ≤ espnlSpent EspnlMove.success ms ∨
      espnlNear (espnlLast start ms) m.time) :
    EspnlCycles EspnlMove.success espnlNear start (ms ++ [m]) := by
  refine ⟨?_, fun pre hpre => ?_, fun m' hm' hact => ?_, fun pre m' hpre hact => ?_⟩
  · rw [filter_append, pairwise_append]
    refine ⟨hc.spaced, (pairwise_singleton _ m).filter _, fun m₁ h₁ m₂ h₂ => ?_⟩
    rw [mem_filter, mem_singleton] at h₂
    rw [mem_filter] at h₁
    rw [h₂.1]
    exact hspaced (of_decide_eq_true (h₂.1 ▸ h₂.2)) m₁ h₁.1 (of_decide_eq_true h₁.2)
  · rcases prefix_concat_iff.1 hpre with rfl | hpre
    · exact hspent
    · exact hc.budgeted pre hpre
  · rcases mem_append.1 hm' with hm' | hm'
    · exact hc.quiet m' hm' hact
    · rw [mem_singleton.1 hm'] at hact ⊢
      exact hquiet hact
  · rcases prefix_concat_iff.1 hpre with heq | hpre
    · obtain ⟨rfl, hmm⟩ := append_inj' heq rfl
      rw [singleton_inj.1 hmm] at hact ⊢
      exact hgive hact
    · exact hc.givesUp pre m' hpre hact

/-- **One move more**, at a time that is not before the others. -/
theorem EspnlBooks.snoc (hb : EspnlBooks start times ms sm)
    (hc : EspnlCycles EspnlMove.success espnlNear start ms) {i : EspnlInput}
    (hrepair : i.ev ≠ .repair) (htime : ∀ t ∈ start :: times, t ≤ i.time) :
    EspnlBooks start (times ++ [i.time]) (ms ++ [⟨sm, i.ev, i.time, (sm.stepAt i).2⟩])
        (sm.stepAt i).1 ∧
      EspnlCycles EspnlMove.success espnlNear start
        (ms ++ [⟨sm, i.ev, i.time, (sm.stepAt i).2⟩]) := by
  obtain ⟨free, hlast, hfree, hms⟩ := hb.free
  have hle := htime _ hb.last
  have hread := @toNat_sub_cycle i.time free (by omega)
  have h60 : espnlSmCycleGapMs.toNat = 60000 := rfl
  rw [← hlast] at hread
  rcases @EspnlSm.spends_step sm _ hrepair with
    ⟨hv, hlt, hgap, hcycles, hstamp, hsuccess, hstate⟩ | ⟨hv, hstamp, hcycles, hgive⟩
  · -- a cycle: the time from which it was allowed has come
    have hnow : free ≤ i.time := by
      rw [UInt32.le_iff_toNat_le, hread] at hgap
      omega
    have hspent : (espnlSpent EspnlMove.success (ms ++ [⟨sm, i.ev, i.time, (sm.stepAt i).2⟩]) : ℤ) =
        sm.cycles + 1 := by
      rw [hb.cycles, hv]
      have hs : EspnlMove.success ⟨sm, i.ev, i.time, .vbusCycle⟩ = false := hsuccess
      simp [espnlSpent, hs]
    have hnewLast : espnlLast start (ms ++ [⟨sm, i.ev, i.time, (sm.stepAt i).2⟩]) = i.time := by
      simp [espnlLast, hv]
    have hold : ∀ m ∈ ms, m.act = .vbusCycle → m.time + espnlSmCycleGapMs.toNat ≤ i.time :=
      fun m hm hact => (hms m hm hact).trans hnow
    refine ⟨⟨hcycles.trans hspent.symm, hcycles ▸ hlt, by simp [hnewLast],
      i.time + espnlSmCycleGapMs.toNat, ?_, .inr (by rw [hnewLast]), ?_⟩,
      hc.snoc (fun _ => hold) (hspent ▸ hlt) (fun _ => hstate) fun h => ?_⟩
    · rw [hstamp, ← stamp_add, UInt32.add_sub_cancel]
    · rw [forall_mem_append, forall_mem_singleton]
      exact ⟨fun m hm hact => (hold m hm hact).trans (Nat.le_add_right _ _), fun _ => le_rfl⟩
    · rw [hv] at h
      cases h
  · -- no cycle
    have hnewLast : espnlLast start (ms ++ [⟨sm, i.ev, i.time, (sm.stepAt i).2⟩]) =
        espnlLast start ms := by
      simp [espnlLast, hv]
    have hspent : (espnlSpent EspnlMove.success (ms ++ [⟨sm, i.ev, i.time, (sm.stepAt i).2⟩]) : ℤ) =
        if EspnlMove.success ⟨sm, i.ev, i.time, (sm.stepAt i).2⟩ then 0 else sm.cycles := by
      rw [hb.cycles]
      simp [espnlSpent, hv]
    have hfew : (sm.stepAt i).1.cycles ≤ espnlSmMaxCycles := by
      rw [hcycles]
      split_ifs
      exacts [by decide, hb.few]
    refine ⟨⟨hcycles.trans hspent.symm, hfew, ?_, free, hstamp.trans hlast, hnewLast ▸ hfree, ?_⟩,
      hc.snoc (fun h => absurd h hv) ?_ (fun h => absurd h hv) fun h => ?_⟩
    · rw [hnewLast, ← cons_append]
      exact mem_append_left _ hb.last
    · rw [forall_mem_append, forall_mem_singleton]
      exact ⟨hms, fun h => absurd h hv⟩
    · exact hspent ▸ hcycles ▸ hfew
    · rw [← hb.cycles]
      refine (hgive h).imp_right fun hlt => ?_
      rw [UInt32.lt_iff_toNat_lt, hread] at hlt
      rw [espnlNear]
      dsimp only
      omega

end Meatpi
