import Meatpi.Autopid.Tables
import Meatpi.Library.Run
import Mathlib

/-!
# The PID scheduler (`autopid_sched.c`)

One slot per PID or filter; parameters do not exist here. Entry `i` is PID `i`
below `n_pids` and filter `i - n_pids` above it. Times are the caller's signed
microsecond clock, as unbounded integers: a period is at most `4 * (2^32 - 1)`
milliseconds, so no sum with a clock since boot leaves 64 bits.

The main result is that the due/last-run order starves nobody: while an enabled
entry is due, no other entry runs twice before it does.
-/

namespace Meatpi

open Function List Option

def apSchedBackoffStreak : ℕ := 3
def apSchedBackoffMult : ℤ := 4
def apSchedStaggerUs : ℤ := 10000
def apPassiveFloorMs : ℤ := 20
def apBusTxFloorMs : ℤ := 1000

structure ApSchedSlot where
  dueUs : ℤ
  lastRunUs : ℤ
  failStreak : ℕ

/-- `ap_sched_t`: a fixed array is a function of its index. -/
structure ApSched where
  slots : ℕ → ApSchedSlot
  groupEnabled : ℕ → Bool
  groupPeriodOverride : ℕ → ℤ
  typeEnabled : ApPidType → Bool

/-! ## Entries -/

def entryCount (cfg : ApConfig) : ℕ := cfg.pids.length + cfg.filters.length

/-- Read a field of entry `i`: of PID `i`, else of filter `i - n_pids`. -/
def entryField {α : Type} (cfg : ApConfig) (i : ℕ) (ofPid : ApPid → α)
    (ofFilter : ApFilter → α) (absent : α) : α :=
  match cfg.pids[i]? with
  | some pid => ofPid pid
  | none =>
    match cfg.filters[i - cfg.pids.length]? with
    | some f => ofFilter f
    | none => absent

def entryGroup (cfg : ApConfig) (i : ℕ) : ℤ :=
  entryField cfg i ApPid.group ApFilter.group 0

def entryPeriodMs (cfg : ApConfig) (i : ℕ) : ℕ :=
  entryField cfg i ApPid.periodMs ApFilter.periodMs 0

def entrySelfEnabled (cfg : ApConfig) (i : ℕ) : Bool :=
  entryField cfg i ApPid.enabled ApFilter.enabled false

/-- `ap_sched_entry_class`: filters are chip rows. -/
def apSchedEntryClass (cfg : ApConfig) (i : ℕ) : ApRowClass :=
  entryField cfg i apRowClass (fun _ => .chip) .chip

/-- `g >= 0 && g < cfg->n_groups` -/
def groupValid (cfg : ApConfig) (g : ℤ) : Bool :=
  decide (0 ≤ g) && decide (g < cfg.groups.length)

/-- `ap_sched_entry_enabled`: the entry's own, its group's and its type's gate. -/
def apSchedEntryEnabled (st : ApSched) (cfg : ApConfig) (i : ℕ) : Bool :=
  entrySelfEnabled cfg i &&
  (groupValid cfg (entryGroup cfg i) && st.groupEnabled (entryGroup cfg i).toNat) &&
  (match cfg.pids[i]? with
    | some pid => st.typeEnabled pid.type
    | none => true)

/-! ## Operations -/

/-- `ap_sched_reset`: the initial polls staggered, the group state from the
config; the type gates are the settings' and stay. -/
def apSchedReset (st : ApSched) (cfg : ApConfig) (nowUs : ℤ) : ApSched where
  slots i :=
    if i < entryCount cfg then ⟨nowUs + i * apSchedStaggerUs, 0, 0⟩ else ⟨0, 0, 0⟩
  groupEnabled g :=
    match cfg.groups[g]? with
    | some grp => grp.enabledDefault
    | none => st.groupEnabled g
  groupPeriodOverride g := if g < cfg.groups.length then -1 else st.groupPeriodOverride g
  typeEnabled := st.typeEnabled

/-- The configured or overridden period in milliseconds, before the back-off
and the class floors. -/
def basePeriodMs (st : ApSched) (cfg : ApConfig) (i : ℕ) : ℤ :=
  let g := entryGroup cfg i
  let periodMs : ℤ := entryPeriodMs cfg i
  if periodMs = 0 then
    -- inherit the group's
    if groupValid cfg g then
      if 0 ≤ st.groupPeriodOverride g.toNat then st.groupPeriodOverride g.toNat
      else (cfg.groups[g.toNat]?.elim 0 fun grp => (grp.periodMs : ℤ))
    else periodMs
  else if groupValid cfg g && decide (0 ≤ st.groupPeriodOverride g.toNat) then
    -- a runtime override retargets the whole group
    st.groupPeriodOverride g.toNat
  else periodMs

def apSchedPeriodUs (st : ApSched) (cfg : ApConfig) (i : ℕ) : ℤ :=
  let base := basePeriodMs st cfg i
  let periodMs :=
    if apSchedBackoffStreak ≤ (st.slots i).failStreak then
      (if base = 0 then 1000 else base) * apSchedBackoffMult
    else base
  let cls := apSchedEntryClass cfg i
  let periodMs :=
    if cls = .busTx ∧ periodMs < apBusTxFloorMs then apBusTxFloorMs
    else if periodMs = 0 ∧ cls ≠ .chip then apPassiveFloorMs
    else periodMs
  periodMs * 1000

/-- `ap_sched_group_set`: a negative period keeps the current override. -/
def apSchedGroupSet (st : ApSched) (g : ℕ) (enabled : Bool) (periodOverrideMs : ℤ) : ApSched :=
  { st with
    groupEnabled := update st.groupEnabled g enabled
    groupPeriodOverride :=
      if 0 ≤ periodOverrideMs then
        update st.groupPeriodOverride g periodOverrideMs
      else st.groupPeriodOverride }

def apSchedGroupRestore (st : ApSched) (cfg : ApConfig) (g : ℕ) : ApSched :=
  { st with
    groupEnabled :=
      update st.groupEnabled g (cfg.groups[g]?.elim false ApGroup.enabledDefault)
    groupPeriodOverride := update st.groupPeriodOverride g (-1) }

/-- The candidates of a pick: enabled, and of an asked class. -/
def runnable (st : ApSched) (cfg : ApConfig) (classes : ℕ) (i : ℕ) : Bool :=
  apSchedEntryEnabled st cfg i && decide (classes &&& (apSchedEntryClass cfg i).bit ≠ 0)

/-- Does entry `i` replace `best`? Smaller due, ties by least recently run. -/
def schedBefore (st : ApSched) (i best : ℕ) : Bool :=
  decide ((st.slots i).dueUs < (st.slots best).dueUs) ||
  (decide ((st.slots i).dueUs = (st.slots best).dueUs) &&
    decide ((st.slots i).lastRunUs < (st.slots best).lastRunUs))

/-- One turn of the loop of `ap_sched_next_of`; `none` is `best = -1`. -/
def nextOfStep (st : ApSched) (cfg : ApConfig) (classes : ℕ) (best : Option ℕ) (i : ℕ) :
    Option ℕ :=
  if runnable st cfg classes i then
    match best with
    | none => some i
    | some b => if schedBefore st i b then some i else best
  else best

/-- `ap_sched_next_of`: the entry and when to run it. -/
def apSchedNextOf (st : ApSched) (cfg : ApConfig) (classes : ℕ) : Option (ℕ × ℤ) :=
  ((List.range (entryCount cfg)).foldl (nextOfStep st cfg classes) none).map
    fun best => (best, (st.slots best).dueUs)

/-- The fail-streak half of `ap_sched_ran`. -/
def failStreakAfter (streak : ℕ) (ok : Bool) : ℕ :=
  if ok then 0 else if streak < 65535 then streak + 1 else streak

/-- `ap_sched_ran`: the period is read after the streak and the last run are
recorded, so a failure backs off at once. -/
def apSchedRan (st : ApSched) (cfg : ApConfig) (i : ℕ) (nowUs : ℤ) (ok : Bool) : ApSched :=
  let slot := { st.slots i with
    failStreak := failStreakAfter (st.slots i).failStreak ok
    lastRunUs := nowUs }
  let st' := { st with slots := update st.slots i slot }
  let period := apSchedPeriodUs st' cfg i
  { st' with slots := update st'.slots i { slot with dueUs := nowUs + period } }

/-! ## What the operations do -/

theorem basePeriodMs_nonneg (st : ApSched) (cfg : ApConfig) (i : ℕ) :
    0 ≤ basePeriodMs st cfg i := by
  simp only [basePeriodMs]
  have hself : (0 : ℤ) ≤ entryPeriodMs cfg i := Int.natCast_nonneg _
  split_ifs with h0 hg ho hgo
  · exact ho
  · cases cfg.groups[(entryGroup cfg i).toNat]? with
    | none => exact le_refl _
    | some grp => exact Int.natCast_nonneg _
  · exact hself
  · simp only [Bool.and_eq_true, decide_eq_true_eq] at hgo
    exact hgo.2
  · exact hself

theorem apSchedPeriodUs_nonneg (st : ApSched) (cfg : ApConfig) (i : ℕ) :
    0 ≤ apSchedPeriodUs st cfg i := by
  have hbase := basePeriodMs_nonneg st cfg i
  simp only [apSchedPeriodUs, apSchedBackoffMult, apBusTxFloorMs, apPassiveFloorMs]
  split_ifs <;> omega

section Ran

variable (st : ApSched) (cfg : ApConfig) (i : ℕ) (nowUs : ℤ) (ok : Bool)

@[simp] theorem apSchedRan_slot_lastRunUs :
    ((apSchedRan st cfg i nowUs ok).slots i).lastRunUs = nowUs := by
  simp [apSchedRan]

theorem le_apSchedRan_slot_dueUs : nowUs ≤ ((apSchedRan st cfg i nowUs ok).slots i).dueUs := by
  simp only [apSchedRan, update_self]
  exact le_add_of_nonneg_right (apSchedPeriodUs_nonneg _ cfg i)

theorem apSchedRan_slot_ne {k : ℕ} (hk : k ≠ i) :
    (apSchedRan st cfg i nowUs ok).slots k = st.slots k := by
  simp [apSchedRan, update_of_ne hk]

end Ran

/-- The pick's order: due time first, last run as the tiebreak. -/
def slotKey (st : ApSched) (i : ℕ) : ℤ ×ₗ ℤ :=
  toLex ((st.slots i).dueUs, (st.slots i).lastRunUs)

theorem schedBefore_iff (st : ApSched) (i b : ℕ) :
    schedBefore st i b = true ↔ slotKey st i < slotKey st b := by
  simp [schedBefore, slotKey, Prod.Lex.toLex_lt_toLex]

theorem nextOfStep_spec (st : ApSched) (cfg : ApConfig) (classes : ℕ) (best : Option ℕ) (i : ℕ) :
    (∀ k, runnable st cfg classes k = true →
      (k = i ∨ ∃ b, best = some b ∧ slotKey st b ≤ slotKey st k) →
      ∃ b, nextOfStep st cfg classes best i = some b ∧ slotKey st b ≤ slotKey st k) ∧
      (∀ b, nextOfStep st cfg classes best i = some b →
        best = some b ∨ (b = i ∧ runnable st cfg classes i = true)) := by
  unfold nextOfStep
  by_cases hr : runnable st cfg classes i = true
  · rw [if_pos hr]
    rcases best with _ | b
    · refine ⟨?_, ?_⟩
      · rintro k - (rfl | ⟨b, hb, -⟩)
        · exact ⟨k, rfl, le_refl _⟩
        · cases hb
      · rintro b hb
        exact .inr ⟨(some.inj hb).symm, hr⟩
    · by_cases hlt : slotKey st i < slotKey st b
      · simp only [(schedBefore_iff st i b).mpr hlt, if_true]
        refine ⟨?_, ?_⟩
        · rintro k - (rfl | ⟨b', hb', hle⟩)
          · exact ⟨k, rfl, le_refl _⟩
          · obtain rfl := some.inj hb'
            exact ⟨i, rfl, hlt.le.trans hle⟩
        · rintro c hc
          exact .inr ⟨(some.inj hc).symm, hr⟩
      · have hb : schedBefore st i b = false := by
          rw [Bool.eq_false_iff, ne_eq, schedBefore_iff]
          exact hlt
        simp only [hb, Bool.false_eq_true, if_false]
        refine ⟨?_, fun c hc => .inl hc⟩
        rintro k - (rfl | ⟨b', hb', hle⟩)
        · exact ⟨b, rfl, not_lt.mp hlt⟩
        · obtain rfl := some.inj hb'
          exact ⟨b, rfl, hle⟩
  · rw [if_neg hr]
    refine ⟨?_, fun c hc => .inl hc⟩
    rintro k hk (rfl | hb)
    · exact absurd hk hr
    · exact hb

theorem foldl_nextOfStep_spec (st : ApSched) (cfg : ApConfig) (classes : ℕ) (is : List ℕ)
    (best : Option ℕ) :
    (∀ k, runnable st cfg classes k = true →
      (k ∈ is ∨ ∃ b, best = some b ∧ slotKey st b ≤ slotKey st k) →
      ∃ b, is.foldl (nextOfStep st cfg classes) best = some b ∧ slotKey st b ≤ slotKey st k) ∧
      (∀ b, is.foldl (nextOfStep st cfg classes) best = some b →
        best = some b ∨ (b ∈ is ∧ runnable st cfg classes b = true)) := by
  induction is generalizing best with
  | nil =>
    refine ⟨?_, fun b hb => .inl hb⟩
    rintro k - (hk | hb)
    · simp at hk
    · exact hb
  | cons i is ih =>
    obtain ⟨hmin, hmem⟩ := nextOfStep_spec st cfg classes best i
    obtain ⟨ihmin, ihmem⟩ := ih (nextOfStep st cfg classes best i)
    refine ⟨?_, ?_⟩
    · intro k hk hseen
      apply ihmin k hk
      rcases hseen with hk' | hb
      · rcases mem_cons.mp hk' with rfl | hk'
        · exact .inr (hmin k hk (.inl rfl))
        · exact .inl hk'
      · exact .inr (hmin k hk (.inr hb))
    · intro b hb
      rcases ihmem b hb with hb' | ⟨hb', hr⟩
      · rcases hmem b hb' with hb'' | ⟨rfl, hr⟩
        · exact .inl hb''
        · exact .inr ⟨mem_cons_self, hr⟩
      · exact .inr ⟨mem_cons_of_mem _ hb', hr⟩

/-- **The pick**: an enabled entry of an asked class that nobody precedes. -/
theorem apSchedNextOf_spec {st : ApSched} {cfg : ApConfig} {classes e : ℕ} {due : ℤ}
    (h : apSchedNextOf st cfg classes = some (e, due)) :
    e < entryCount cfg ∧ runnable st cfg classes e = true ∧ due = (st.slots e).dueUs ∧
      ∀ k < entryCount cfg, runnable st cfg classes k = true → slotKey st e ≤ slotKey st k := by
  obtain ⟨b, hb, heq⟩ := map_eq_some_iff.mp h
  obtain ⟨rfl, rfl⟩ := Prod.mk.inj heq
  obtain ⟨hmin, hmem⟩ := foldl_nextOfStep_spec st cfg classes (List.range (entryCount cfg)) none
  rcases hmem b hb with hb' | ⟨hb', hr⟩
  · cases hb'
  · refine ⟨mem_range.mp hb', hr, rfl, ?_⟩
    intro k hk hkr
    obtain ⟨b', hb₁, hle⟩ := hmin k hkr (.inl (mem_range.mpr hk))
    obtain rfl : b = b' := some.inj (hb.symm.trans hb₁)
    exact hle

/-! ## Runs of the scheduler

What happens to a scheduler between two resets: a pick that is run at a time
not before its due time, and the runtime group and type control. -/

/-- A scheduler with the time of its last event. -/
structure SchedState where
  sched : ApSched
  clock : ℤ

inductive SchedEvent where
  /-- `ap_sched_next_of(classes)` gave `entry`, then `ap_sched_ran` -/
  | ran (classes entry : ℕ) (nowUs : ℤ) (ok : Bool)
  | groupSet (g : ℕ) (enabled : Bool) (periodOverrideMs : ℤ)
  | groupRestore (g : ℕ)
  | typeEnabled (type : ApPidType) (enabled : Bool)

/-- The entry an event ran. -/
def SchedEvent.pick : SchedEvent → Option ℕ
  | .ran _ entry _ _ => some entry
  | _ => none

inductive SchedStep (cfg : ApConfig) : SchedState → SchedEvent → SchedState → Prop
  | ran {s : SchedState} {classes e : ℕ} {due nowUs : ℤ} {ok : Bool} :
      apSchedNextOf s.sched cfg classes = some (e, due) → due ≤ nowUs → s.clock < nowUs →
      SchedStep cfg s (.ran classes e nowUs ok) ⟨apSchedRan s.sched cfg e nowUs ok, nowUs⟩
  | groupSet {s : SchedState} (g : ℕ) (enabled : Bool) (periodOverrideMs : ℤ) :
      SchedStep cfg s (.groupSet g enabled periodOverrideMs)
        ⟨apSchedGroupSet s.sched g enabled periodOverrideMs, s.clock⟩
  | groupRestore {s : SchedState} (g : ℕ) :
      SchedStep cfg s (.groupRestore g) ⟨apSchedGroupRestore s.sched cfg g, s.clock⟩
  | typeEnabled {s : SchedState} (type : ApPidType) (enabled : Bool) :
      SchedStep cfg s (.typeEnabled type enabled)
        ⟨{ s.sched with typeEnabled := update s.sched.typeEnabled type enabled },
          s.clock⟩

/-- The state after `ap_sched_reset` at a time since boot. -/
def schedInit (st : ApSched) (cfg : ApConfig) (nowUs : ℤ) : SchedState :=
  ⟨apSchedReset st cfg nowUs, nowUs⟩

/-- The states of a scheduler that was reset at some time since boot. -/
def SchedReachable (cfg : ApConfig) (s : SchedState) : Prop :=
  ∃ (st : ApSched) (nowUs : ℤ) (es : List SchedEvent),
    0 ≤ nowUs ∧ Run (SchedStep cfg) (schedInit st cfg nowUs) es s

/-- No slot has run after the last event. -/
def RanBeforeClock (s : SchedState) : Prop := ∀ i, (s.sched.slots i).lastRunUs ≤ s.clock

theorem ranBeforeClock_init {st : ApSched} {cfg : ApConfig} {nowUs : ℤ} (h : 0 ≤ nowUs) :
    RanBeforeClock (schedInit st cfg nowUs) := by
  intro i
  simp only [schedInit, apSchedReset]
  split_ifs <;> exact h

theorem ranBeforeClock_step {cfg : ApConfig} {s s' : SchedState} {e : SchedEvent}
    (hs : SchedStep cfg s e s') (hI : RanBeforeClock s) : RanBeforeClock s' := by
  cases hs with
  | @ran classes e due nowUs ok _ _ hclock =>
    intro i
    by_cases hi : i = e
    · subst hi
      rw [apSchedRan_slot_lastRunUs]
    · rw [apSchedRan_slot_ne _ _ _ _ _ hi]
      exact (hI i).trans hclock.le
  | groupSet => exact hI
  | groupRestore => exact hI
  | typeEnabled => exact hI

theorem SchedReachable.ranBeforeClock {cfg : ApConfig} {s : SchedState} (h : SchedReachable cfg s) :
    RanBeforeClock s := by
  obtain ⟨st, nowUs, es, h0, hrun⟩ := h
  exact hrun.inv (fun _ _ _ hs hI => ranBeforeClock_step hs hI) (ranBeforeClock_init h0)

/-! ## Bounded overtaking -/

/-- A step while entry `j` waits: whenever something is picked, `j` is enabled,
its class is asked for and it is due, yet another entry is picked. -/
structure WaitStep (cfg : ApConfig) (j : ℕ) (s : SchedState) (e : SchedEvent)
    (s' : SchedState) : Prop where
  step : SchedStep cfg s e s'
  waits : ∀ classes entry nowUs ok, e = .ran classes entry nowUs ok →
    runnable s.sched cfg classes j = true ∧ (s.sched.slots j).dueUs ≤ nowUs ∧ entry ≠ j

theorem WaitStep.overtakes {cfg : ApConfig} {j : ℕ} (hj : j < entryCount cfg) {s s' : SchedState}
    {e : SchedEvent} (hI : RanBeforeClock s) (h : WaitStep cfg j s e s') :
    Overtakes (fun s : SchedState => slotKey s.sched) SchedEvent.pick j s e s' := by
  obtain ⟨hstep, hwaits⟩ := h
  cases hstep with
  | @ran classes e due nowUs ok hpick hdue hclock =>
    obtain ⟨hjr, hjdue, hne⟩ := hwaits _ _ _ _ rfl
    obtain ⟨-, -, -, hmin⟩ := apSchedNextOf_spec hpick
    refine ⟨?_, ?_, ?_⟩
    · intro i hi
      obtain rfl : e = i := some.inj hi
      exact ⟨not_lt.mpr (hmin j hj hjr), hne⟩
    · intro i hi
      obtain rfl : e = i := some.inj hi
      have hdue' := le_apSchedRan_slot_dueUs s.sched cfg e nowUs ok
      have hlast := apSchedRan_slot_lastRunUs s.sched cfg e nowUs ok
      have hj' := hI j
      simp only [slotKey, Prod.Lex.toLex_lt_toLex]
      omega
    · intro k hk
      have hk' : k ≠ e := fun hke => hk (by rw [hke]; rfl)
      simp only [slotKey, apSchedRan_slot_ne _ _ _ _ _ hk']
  | groupSet => exact ⟨by simp [SchedEvent.pick], by simp [SchedEvent.pick], fun _ _ => rfl⟩
  | groupRestore => exact ⟨by simp [SchedEvent.pick], by simp [SchedEvent.pick], fun _ _ => rfl⟩
  | typeEnabled => exact ⟨by simp [SchedEvent.pick], by simp [SchedEvent.pick], fun _ _ => rfl⟩

/-- **Bounded overtaking.** In every reachable state and every run from it, as
long as the due and enabled entry `j` waits, no other entry runs twice: the
entries that run are pairwise distinct. -/
theorem sched_bounded_overtaking {cfg : ApConfig} {s s' : SchedState} {es : List SchedEvent} {j : ℕ}
    (hreach : SchedReachable cfg s) (hj : j < entryCount cfg)
    (hrun : Run (WaitStep cfg j) s es s') : (es.filterMap SchedEvent.pick).Nodup := by
  have hI := hreach.ranBeforeClock
  have hrun' := hrun.withInv (I := RanBeforeClock) (fun _ _ _ hs => ranBeforeClock_step hs.step) hI
  exact hrun'.picks_nodup fun _ _ _ h => h.1.overtakes hj h.2

/-- Two PIDs, the first at period 0, the second overdue after 10 ms. -/
def twoPids : ApConfig where
  groups := [⟨"default".toList, true, 1000⟩]
  pids :=
    [⟨"RPM".toList, .custom, "010C".toList, [], [], 0, 1, true, 0, 0, false, false, -1, 0⟩,
     ⟨"SPEED".toList, .custom, "010D".toList, [], [], 0, 1, true, 0, 0, false, false, -1, 0⟩]
  filters := []
  params := []

/-- A scheduler with every type gate open. -/
def openSched : ApSched := ⟨fun _ => ⟨0, 0, 0⟩, fun _ => false, fun _ => -1, fun _ => true⟩

theorem sched_bounded_overtaking_twoPids :
    ([SchedEvent.ran 7 0 10000 true, .groupSet 0 true 0].filterMap SchedEvent.pick).Nodup := by
  have hreach : SchedReachable twoPids (schedInit openSched twoPids 0) :=
    ⟨openSched, 0, [], le_refl 0, .nil _⟩
  have hpick : apSchedNextOf (schedInit openSched twoPids 0).sched twoPids 7 = some (0, 0) := rfl
  refine sched_bounded_overtaking (j := 1) hreach (by decide)
    (.cons ⟨.ran hpick (by decide) (by decide), ?_⟩
      (.cons ⟨.groupSet 0 true 0, fun _ _ _ _ h => by cases h⟩ (.nil _)))
  rintro classes entry nowUs ok h
  cases h
  exact ⟨rfl, by decide, by decide⟩

end Meatpi
