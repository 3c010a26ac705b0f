import Mathlib.Algebra.BigOperators.Group.List.Basic
import Meatpi.Library.WrapClock

/-!
# Re-basing after a clock step (`data_logger_clock.c`, `data_logger_journal.c`)

A record carries the wall clock of the moment it was taken and a monotonic
stamp of 32 bits. When the clock is set, the step is kept with its own
monotonic stamp; a record that is popped later gets the deltas of the kept steps
that came after it. Which came first is asked of the difference of two stamps,
read as a signed number: right when they are less than half a wrap apart.
-/

namespace Meatpi

open List

/-! ## Records and steps -/

def dlClockStepsKeep : ℕ := 8
def dlRecAbs : UInt8 := 0x01

/-- The payload of a record, by its kind; a `double` is its 64 bits. -/
inductive DlPayload where
  | param (value : UInt64) (param : Int16)
  | frame (id : UInt32) (data : List UInt8) (dlc flags : UInt8)
  | other (kind : UInt8)
  deriving DecidableEq

structure DlRecord where
  tsMs : ℤ
  payload : DlPayload
  flags : UInt8
  monoMs : UInt32
  deriving DecidableEq

structure DlClockStep where
  generation : UInt32
  monoMs : UInt32
  deltaMs : ℤ
  wallMs : ℤ
  source : UInt8

/-- A step with the time it truly happened, in milliseconds since boot; the code
has its remainder. -/
structure TimedStep where
  step : DlClockStep
  trueMs : ℕ
  stamped : step.monoMs = UInt32.ofNat trueMs

/-- The comparison of `dl_clock_rebase`. -/
def stepAfter (step : DlClockStep) (rec : DlRecord) : Bool :=
  decide (0 < (step.monoMs - rec.monoMs).toInt32.toInt)

/-- The loop of `dl_clock_rebase`: the record so far, and the number of steps
applied. -/
def dlClockRebaseLoop : List DlClockStep → DlRecord → ℕ → DlRecord × ℕ
  | [], rec, applied => (rec, applied)
  | step :: steps, rec, applied =>
    if stepAfter step rec then
      dlClockRebaseLoop steps { rec with tsMs := rec.tsMs + step.deltaMs } (applied + 1)
    else
      dlClockRebaseLoop steps rec applied

def dlClockRebase (rec : DlRecord) (steps : List DlClockStep) : DlRecord × ℕ :=
  if rec.flags &&& dlRecAbs ≠ 0 then
    (rec, 0)
  else
    dlClockRebaseLoop steps rec 0

/-! ## The journal's steps -/

/-- The steps of the journal: a ring, and how many were pushed in all. -/
structure DlJournal where
  steps : Fin dlClockStepsKeep → TimedStep
  nsteps : UInt32

/-- The journal at boot. -/
def dlJournalBoot : DlJournal where
  steps := fun _ => ⟨⟨0, 0, 0, 0, 0⟩, 0, rfl⟩
  nsteps := 0

def DlJournal.pushStep (j : DlJournal) (step : TimedStep) : DlJournal where
  steps :=
    Function.update j.steps ⟨j.nsteps.toNat % dlClockStepsKeep, Nat.mod_lt _ (by decide)⟩ step
  nsteps := j.nsteps + 1

/-- The steps that are kept. -/
def DlJournal.kept (j : DlJournal) : List TimedStep :=
  let kept := if j.nsteps.toNat < dlClockStepsKeep then j.nsteps.toNat else dlClockStepsKeep
  ((List.finRange dlClockStepsKeep).take kept).map j.steps

def dlJournalRebase (j : DlJournal) (rec : DlRecord) : DlRecord :=
  (dlClockRebase rec (j.kept.map TimedStep.step)).1

/-! ## What is kept was pushed -/

/-- The journal after some steps. -/
def DlJournal.after (steps : List TimedStep) : DlJournal :=
  steps.foldl DlJournal.pushStep dlJournalBoot

theorem after_append (steps : List TimedStep) (step : TimedStep) :
    DlJournal.after (steps ++ [step]) = (DlJournal.after steps).pushStep step := by
  rw [DlJournal.after, foldl_append]
  rfl

theorem nsteps_after (steps : List TimedStep) :
    (DlJournal.after steps).nsteps = UInt32.ofNat steps.length := by
  induction steps using List.reverseRecOn with
  | nil => rfl
  | append_singleton steps step ih =>
    have hpush : (DlJournal.after (steps ++ [step])).nsteps = (DlJournal.after steps).nsteps + 1 := by
      rw [after_append]
      rfl
    rw [hpush, ih, length_append, UInt32.ofNat_add]
    rfl

theorem steps_after_mem (steps : List TimedStep) (i : Fin dlClockStepsKeep)
    (hi : i.val < steps.length) : (DlJournal.after steps).steps i ∈ steps := by
  induction steps using List.reverseRecOn with
  | nil => cases hi
  | append_singleton steps step ih =>
    rw [after_append, DlJournal.pushStep]
    dsimp only
    rw [Function.update_apply]
    split
    · exact mem_append_right _ (mem_singleton_self step)
    · rename_i hne
      apply mem_append_left
      apply ih
      rw [length_append, length_singleton] at hi
      -- the ring's length divides 2^32, so the count may wrap
      have hslot : i.val ≠ steps.length % 8 := by
        intro heq
        apply hne
        apply Fin.ext
        dsimp only [dlClockStepsKeep]
        rw [nsteps_after, UInt32.toNat_ofNat']
        omega
      have hlt : i.val < 8 := i.isLt
      omega

theorem kept_after_mem {steps : List TimedStep} {step : TimedStep}
    (h : step ∈ (DlJournal.after steps).kept) : step ∈ steps := by
  obtain ⟨i, hi, rfl⟩ := mem_map.mp h
  apply steps_after_mem
  have hcount : (DlJournal.after steps).nsteps.toNat = steps.length % 2 ^ 32 := by
    rw [nsteps_after, UInt32.toNat_ofNat']
  have hlt : i.val < if (DlJournal.after steps).nsteps.toNat < dlClockStepsKeep then
      (DlJournal.after steps).nsteps.toNat else dlClockStepsKeep := by
    generalize (if (DlJournal.after steps).nsteps.toNat < dlClockStepsKeep then
      (DlJournal.after steps).nsteps.toNat else dlClockStepsKeep) = m at hi
    obtain ⟨k, hk, hget⟩ := mem_take_iff_getElem.mp hi
    rw [getElem_finRange] at hget
    rw [← hget]
    exact Nat.lt_of_lt_of_le hk (Nat.min_le_left _ _)
  split at hlt
  · omega
  · rename_i hfull
    omega

/-! ## The comparison -/

theorem stepAfter_iff (step : DlClockStep) (rec : DlRecord) :
    stepAfter step rec = true ↔
      0 < (step.monoMs - rec.monoMs).toNat ∧ (step.monoMs - rec.monoMs).toNat < 2 ^ 31 := by
  rw [stepAfter, decide_eq_true_iff, toInt32_pos_iff]

/-! ## Re-basing over true times -/

/-- The sum of the deltas of some steps. -/
def stepDeltas (steps : List DlClockStep) : ℤ :=
  steps.foldr (fun step total => step.deltaMs + total) 0

/-- The sum of the deltas of some timed steps. -/
def deltas (steps : List TimedStep) : ℤ := stepDeltas (steps.map TimedStep.step)

/-- A step of before the record that its stamp puts after it: more than half a
wrap ago, modulo the wrap. -/
def misjudged (takenMs : ℕ) (s : TimedStep) : Bool :=
  decide (s.trueMs ≤ takenMs ∧ 2 ^ 31 < (takenMs - s.trueMs) % 2 ^ 32)

/-- A step that truly happened after the record was taken. -/
def trulyAfter (takenMs : ℕ) (s : TimedStep) : Bool := decide (takenMs < s.trueMs)

theorem stepAfter_timed {s : TimedStep} {rec : DlRecord} {takenMs : ℕ}
    (hstamp : rec.monoMs = UInt32.ofNat takenMs) (hsoon : s.trueMs < takenMs + 2 ^ 31) :
    stepAfter s.step rec = (trulyAfter takenMs s || misjudged takenMs s) := by
  rw [Bool.eq_iff_iff, stepAfter_iff, s.stamped, hstamp, stamp_sub, Bool.or_eq_true, trulyAfter,
    misjudged, decide_eq_true_iff, decide_eq_true_iff]
  rcases Nat.lt_or_ge takenMs s.trueMs with hafter | hbefore
  · omega
  · omega

theorem dlClockRebaseLoop_eq (steps : List DlClockStep) (rec : DlRecord) (applied : ℕ) :
    (dlClockRebaseLoop steps rec applied).1 =
      { rec with tsMs := rec.tsMs + stepDeltas (steps.filter fun s => stepAfter s rec) } := by
  induction steps generalizing rec applied with
  | nil =>
    rw [List.filter_nil, stepDeltas, List.foldr_nil, add_zero]
    rfl
  | cons step steps ih =>
    rw [dlClockRebaseLoop, List.filter_cons]
    cases hafter : stepAfter step rec with
    | true =>
      rw [if_pos rfl, if_pos rfl, stepDeltas, List.foldr_cons, ← add_assoc]
      exact ih _ _
    | false =>
      exact ih rec applied

theorem dlClockRebase_eq {rec : DlRecord} (habs : rec.flags &&& dlRecAbs = 0)
    (steps : List DlClockStep) : (dlClockRebase rec steps).1 =
      { rec with tsMs := rec.tsMs + stepDeltas (steps.filter fun s => stepAfter s rec) } := by
  rw [dlClockRebase, if_neg (fun h => h habs)]
  exact dlClockRebaseLoop_eq steps rec 0

theorem deltas_filter_or {p q : TimedStep → Bool} (hpq : ∀ s, p s = true → q s = false)
    (steps : List TimedStep) :
    deltas (steps.filter fun s => p s || q s) =
      deltas (steps.filter p) + deltas (steps.filter q) := by
  induction steps with
  | nil => rfl
  | cons s steps ih =>
    rw [List.filter_cons, List.filter_cons, List.filter_cons]
    cases hp : p s with
    | true =>
      rw [hpq s hp]
      exact (congrArg _ ih).trans (add_assoc _ _ _).symm
    | false =>
      cases hq : q s with
      | true =>
        exact (congrArg _ ih).trans (add_left_comm _ _ _)
      | false =>
        exact ih

/-- 24 days in milliseconds. -/
def days24Ms : ℕ := 24 * 24 * 60 * 60 * 1000

/-- **Re-basing.** A record that is popped less than 24 days after it was taken
gets exactly the deltas of the kept steps that truly happened after it, if and
only if those of the kept steps before it that lie more than half a wrap back,
modulo the wrap, sum up to nothing. A record with an explicit stamp is left
alone, which is right when nothing was to be added. -/
theorem journal_rebase_right {steps : List TimedStep} {rec : DlRecord} {takenMs poppedMs : ℕ}
    (hstamp : rec.monoMs = UInt32.ofNat takenMs) (hsteps : ∀ s ∈ steps, s.trueMs ≤ poppedMs)
    (htaken : takenMs ≤ poppedMs) (hsoon : poppedMs - takenMs < days24Ms) :
    dlJournalRebase (DlJournal.after steps) rec = { rec with
          tsMs := rec.tsMs + deltas ((DlJournal.after steps).kept.filter (trulyAfter takenMs)) } ↔
      deltas ((DlJournal.after steps).kept.filter
        (if rec.flags &&& dlRecAbs = 0 then misjudged takenMs else trulyAfter takenMs)) = 0 := by
  by_cases habs : rec.flags &&& dlRecAbs = 0
  case neg =>
    rw [dlJournalRebase, dlClockRebase, if_pos habs, if_neg habs]
    constructor
    · intro h
      have hts := congrArg DlRecord.tsMs h
      dsimp only at hts
      omega
    · intro h
      rw [h, add_zero]
  rw [if_pos habs]
  have hsplit : ∀ s ∈ (DlJournal.after steps).kept,
      stepAfter s.step rec = (trulyAfter takenMs s || misjudged takenMs s) := by
    intro s hs
    apply stepAfter_timed hstamp
    have hknown := hsteps s (kept_after_mem hs)
    rw [days24Ms] at hsoon
    omega
  have hexclude : ∀ s, trulyAfter takenMs s = true → misjudged takenMs s = false := by
    intro s hs
    rw [trulyAfter, decide_eq_true_iff] at hs
    rw [misjudged, decide_eq_false_iff_not]
    omega
  have hsum : stepDeltas (((DlJournal.after steps).kept.map TimedStep.step).filter
      fun s => stepAfter s rec) =
        deltas ((DlJournal.after steps).kept.filter (trulyAfter takenMs)) +
          deltas ((DlJournal.after steps).kept.filter (misjudged takenMs)) := by
    have hkept : (DlJournal.after steps).kept.filter ((fun s => stepAfter s rec) ∘ TimedStep.step) =
          (DlJournal.after steps).kept.filter
            fun s => trulyAfter takenMs s || misjudged takenMs s := filter_congr hsplit
    rw [← deltas_filter_or hexclude, filter_map, hkept]
    rfl
  rw [dlJournalRebase, dlClockRebase_eq habs, DlRecord.mk.injEq]
  simp only [and_true]
  omega

/-- A step by the time server, an hour after boot. -/
def hourStep : TimedStep := ⟨⟨1, 3600000, 5000, 0, 2⟩, 3600000, rfl⟩

/-- A record of a frame. -/
def sampleRecord (takenMs : ℕ) : DlRecord where
  tsMs := 0
  payload := .frame 0x7E8 [0, 0, 0, 0, 0, 0, 0, 0] 8 0
  flags := 0
  monoMs := UInt32.ofNat takenMs

/-- A record of a minute before the step, popped a minute after it. -/
theorem journal_rebase_right_hour :
    dlJournalRebase (DlJournal.after [hourStep]) (sampleRecord 3540000) =
      { sampleRecord 3540000 with
        tsMs := 0 + deltas ((DlJournal.after [hourStep]).kept.filter (trulyAfter 3540000)) } := by
  have hsteps : ∀ s ∈ [hourStep], s.trueMs ≤ 3660000 := by
    intro s hs
    rw [mem_singleton.mp hs]
    decide
  have hstamp : (sampleRecord 3540000).monoMs = UInt32.ofNat 3540000 := rfl
  exact (journal_rebase_right hstamp hsteps (by decide) (by decide)).mpr (by decide)

/-- A record of 25 days after the step, popped at once, is moved by it. -/
theorem journal_rebase_wrong :
    deltas ((DlJournal.after [hourStep]).kept.filter (trulyAfter (3600000 + 25 * 86400000))) = 0 ∧
    (dlJournalRebase (DlJournal.after [hourStep]) (sampleRecord (3600000 + 25 * 86400000))).tsMs =
      5000 := by
  decide

end Meatpi
