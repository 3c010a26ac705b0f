import Meatpi.CanManager.Autobaud
import Meatpi.Library.WrapClock

/-!
# What the core takes for silence (`can_autobaud_core.c`)

A bitrate is taken on silence when two 32-bit differences are zero and a third is 300 ms
or more. Here the core is fed by a bus, with frames and errors at true times and what its
evidence began with kept beside it. A count of errors can be given up when its span
starts again, and a counter can go round; `canAb_silence` says that what is not shown is
all that can be wrong.
-/

namespace Meatpi

/-- A call into the core; the reading it is fed is the bus's. -/
inductive CanAbCall where
  | step
  | wantNormal (want : Bool)
  | adopt (kbps : UInt16)
  | mark

def CanAbCall.at (r : CanReading) : CanAbCall → CanAbOp
  | .step => .step r
  | .wantNormal want => .wantNormal want r
  | .adopt kbps => .adopt kbps r
  | .mark => .mark r

theorem CanAbCall.at_reading (c : CanAbCall) (r : CanReading) : (c.at r).reading = r := by
  cases c <;> rfl

/-- The call takes a bitrate that no frame has proved: a step that begins to run
unverified, or an adoption that reports `taken`. -/
def CanAb.Takes (ab : CanAb) : CanAbOp → Prop
  | .step r => ab.state ≠ .running ∧ (ab.step r).1.state = .running ∧ (ab.step r).1.verified = false
  | .adopt kbps r => (ab.adopt kbps r).2.2 = true
  | _ => False

/-! ## The bus -/

/-- The core on its bus, at the time `now` in milliseconds: how many frames and errors
were counted and when the last ones were. The rest is what the core's evidence stands
for: when and at how many frames it began to count, from how many errors it counts, and
when the last error was that a count had in it when it was given up. -/
structure CanBus where
  ab : CanAb
  now : ℕ
  frames : ℕ
  bad : ℕ
  lastFrame : ℕ
  lastBad : ℕ
  enter : ℕ
  enterFrames : ℕ
  base : ℕ
  given : Option ℕ

/-- What happens on the bus. -/
inductive CanBusEvent where
  | wait (ms : ℕ)
  | frame
  | error
  | call (c : CanAbCall)

namespace CanBus

/-- What a call is fed. -/
def reading (b : CanBus) : CanReading :=
  ⟨UInt32.ofNat b.now, UInt32.ofNat b.frames, UInt32.ofNat b.bad⟩

/-- After `can_ab_init`; what was counted before is taken to be counted just now. -/
def init (cfg : CanAbCfg) (now frames bad : ℕ) : CanBus :=
  ⟨(CanAb.init cfg ⟨UInt32.ofNat now, UInt32.ofNat frames, UInt32.ofNat bad⟩).1, now, frames, bad,
    now, now, now, frames, bad, none⟩

/-- A call; where the core keeps its evidence, a count of errors that it begins anew is
one that it gives up. -/
def call (b : CanBus) (c : CanAbCall) : CanBus :=
  let ab := b.ab.call (c.at b.reading)
  let keeps := ab.enterMs = b.ab.enterMs ∧ ab.frames0 = b.ab.frames0
  let counts := ab.spanBad0 = b.ab.spanBad0
  { b with
    ab := ab
    enter := if keeps then b.enter else b.now
    enterFrames := if keeps then b.enterFrames else b.frames
    base := if counts then b.base else b.bad
    given := if keeps then if counts then b.given else some b.lastBad else none }

def apply (b : CanBus) : CanBusEvent → CanBus
  | .wait ms => { b with now := b.now + ms }
  | .frame =>
    { b with
      frames := b.frames + 1
      lastFrame := b.now }
  | .error =>
    { b with
      bad := b.bad + 1
      lastBad := b.now }
  | .call c => b.call c

/-- A run. -/
def run (b : CanBus) (es : List CanBusEvent) : CanBus := es.foldl apply b

/-- **Silence**: no frame and no error for `CAN_AB_SILENT_MS`. -/
def Silent (b : CanBus) : Prop := b.lastFrame + 300 ≤ b.now ∧ b.lastBad + 300 ≤ b.now

/-- What the differences do not show is old: the frames and the errors of a counter that
went round, and the errors of a count that was given up. -/
def HiddenOld (b : CanBus) : Prop :=
  (b.frames ≠ b.enterFrames → b.lastFrame + 300 ≤ b.now) ∧
    (b.bad ≠ b.base → b.lastBad + 300 ≤ b.now) ∧ ∀ g ∈ b.given, g + 300 ≤ b.now

/-! ## The invariant -/

/-- What the core's evidence stands for. -/
structure Told (b : CanBus) : Prop where
  enterMs : b.ab.enterMs = UInt32.ofNat b.enter
  frames0 : b.ab.frames0 = UInt32.ofNat b.enterFrames
  spanBad0 : b.ab.spanBad0 = UInt32.ofNat b.base
  enter_le : b.enter ≤ b.now
  frames_le : b.enterFrames ≤ b.frames
  base_le : b.base ≤ b.bad
  lastFrame_le : b.lastFrame ≤ b.now
  lastBad_le : b.lastBad ≤ b.now
  /-- without a difference, what was counted last is older than the evidence -/
  noFrame : b.frames = b.enterFrames → b.lastFrame ≤ b.enter
  /-- or it was an error of a count that was given up -/
  noBad : b.bad = b.base → b.lastBad ≤ b.enter ∨ b.given = some b.lastBad
  given_le : ∀ g ∈ b.given, g ≤ b.lastBad

theorem told_init (cfg : CanAbCfg) (now frames bad : ℕ) : (init cfg now frames bad).Told where
  enterMs := rfl
  frames0 := rfl
  spanBad0 := rfl
  enter_le := Nat.le_refl now
  frames_le := Nat.le_refl frames
  base_le := Nat.le_refl bad
  lastFrame_le := Nat.le_refl now
  lastBad_le := Nat.le_refl now
  noFrame _ := Nat.le_refl now
  noBad _ := .inl (Nat.le_refl now)
  given_le g hg := by cases hg

variable {b : CanBus}

theorem call_evidence (ab : CanAb) (op : CanAbOp) :
    ((ab.call op).enterMs = ab.enterMs ∧ (ab.call op).frames0 = ab.frames0 ∨
        (ab.call op).enterMs = op.reading.nowMs ∧ (ab.call op).frames0 = op.reading.frames) ∧
      ((ab.call op).spanBad0 = ab.spanBad0 ∨ (ab.call op).spanBad0 = op.reading.bad) := by
  have hmarked : ∀ {ab' : CanAb}, ab'.Marked op.reading →
      (ab'.enterMs = ab.enterMs ∧ ab'.frames0 = ab.frames0 ∨
        ab'.enterMs = op.reading.nowMs ∧ ab'.frames0 = op.reading.frames) ∧
      (ab'.spanBad0 = ab.spanBad0 ∨ ab'.spanBad0 = op.reading.bad) :=
    fun h => ⟨.inr ⟨h.enterMs, h.frames0⟩, .inr h.spanBad0⟩
  cases ab.call_moves op with
  | counts _ _ henter hframes _ hspan => exact ⟨.inl ⟨henter, hframes⟩, hspan⟩
  | marks _ _ _ h => exact hmarked h
  | proven _ _ _ _ _ _ _ _ h => exact hmarked h
  | rests _ _ _ _ _ h => exact hmarked h
  | silent _ _ _ _ _ _ _ _ _ _ h => exact hmarked h

/-- **A call keeps the books.** -/
theorem Told.call (h : b.Told) (c : CanAbCall) : (b.call c).Told := by
  obtain ⟨hevidence, hcount⟩ := call_evidence b.ab (c.at b.reading)
  rw [c.at_reading] at hevidence hcount
  rw [CanBus.call]
  generalize b.ab.call (c.at b.reading) = ab at hevidence hcount ⊢
  -- the errors are counted from where they were, or from here
  have hbase : ab.spanBad0 = UInt32.ofNat (if ab.spanBad0 = b.ab.spanBad0 then b.base else b.bad) ∧
      (if ab.spanBad0 = b.ab.spanBad0 then b.base else b.bad) ≤ b.bad := by
    split_ifs with hsame
    · exact ⟨hsame.trans h.spanBad0, h.base_le⟩
    · exact ⟨hcount.resolve_left hsame, Nat.le_refl _⟩
  by_cases hkeeps : ab.enterMs = b.ab.enterMs ∧ ab.frames0 = b.ab.frames0
  · simp only [if_pos hkeeps]
    refine ⟨hkeeps.1.trans h.enterMs, hkeeps.2.trans h.frames0, hbase.1, h.enter_le, h.frames_le,
      hbase.2, h.lastFrame_le, h.lastBad_le, h.noFrame, fun hbad => ?_, fun g hg => ?_⟩
    · split_ifs at hbad ⊢
      · exact h.noBad hbad
      · exact .inr rfl
    · split_ifs at hg
      · exact h.given_le g hg
      · cases hg
        exact Nat.le_refl _
  · obtain ⟨henter, hframes⟩ := hevidence.resolve_left hkeeps
    simp only [if_neg hkeeps]
    exact ⟨henter, hframes, hbase.1, Nat.le_refl _, Nat.le_refl _, hbase.2, h.lastFrame_le,
      h.lastBad_le, fun _ => h.lastFrame_le, fun _ => .inl h.lastBad_le, fun g hg => by cases hg⟩

theorem Told.apply (h : b.Told) (e : CanBusEvent) : (b.apply e).Told := by
  have hframes := h.frames_le
  have hbase := h.base_le
  cases e with
  | wait ms =>
    exact ⟨h.enterMs, h.frames0, h.spanBad0, h.enter_le.trans (Nat.le_add_right _ _), h.frames_le,
      h.base_le, h.lastFrame_le.trans (Nat.le_add_right _ _),
      h.lastBad_le.trans (Nat.le_add_right _ _), h.noFrame, h.noBad, h.given_le⟩
  | frame =>
    refine ⟨h.enterMs, h.frames0, h.spanBad0, h.enter_le, hframes.trans (Nat.le_succ _), h.base_le,
      Nat.le_refl _, h.lastBad_le, fun hno => ?_, h.noBad, h.given_le⟩
    exact absurd hno (Nat.lt_succ_of_le hframes).ne'
  | error =>
    refine ⟨h.enterMs, h.frames0, h.spanBad0, h.enter_le, h.frames_le, hbase.trans (Nat.le_succ _),
      h.lastFrame_le, Nat.le_refl _, h.noFrame, fun hno => ?_,
      fun g hg => (h.given_le g hg).trans h.lastBad_le⟩
    exact absurd hno (Nat.lt_succ_of_le hbase).ne'
  | call c => exact h.call c

theorem Told.run (h : b.Told) (es : List CanBusEvent) : (b.run es).Told := by
  induction es generalizing b with
  | nil => exact h
  | cons e es ih => exact ih (h.apply e)

end CanBus

/-! ## Silence -/

variable {ab : CanAb}

theorem CanAb.adopt_taken {kbps : UInt16} {r : CanReading} (h : (ab.adopt kbps r).2.2 = true) :
    ab.state ≠ .running ∧ (ab.adopt kbps r).1.state = .running ∧
      (ab.adopt kbps r).1.verified = false := by
  rw [adopt] at h ⊢
  by_cases hno : ab.cfg.candidates.length < 2 ∨ ab.state = .running ∨ ab.bitten = true
  · rw [if_pos hno] at h
    cases h
  rw [if_neg hno] at h ⊢
  by_cases hloud : r.frames - ab.frames0 ≠ 0 ∨ r.bad - ab.spanBad0 ≠ 0 ∨
      r.nowMs - ab.enterMs < canAbSilentMs
  · rw [if_pos hloud] at h
    cases h
  rw [if_neg hloud] at h ⊢
  by_cases hunknown : candidateOf ab.cfg.candidates kbps = ab.cfg.candidates.length
  · rw [if_pos hunknown] at h
    cases h
  rw [if_neg hunknown]
  exact ⟨fun hrun => hno (.inr (.inl hrun)), rfl, rfl⟩

theorem CanAb.Takes.quiet {op : CanAbOp} (h : ab.Takes op) : ab.Quiet op.reading := by
  have hrun : ab.state ≠ .running ∧ (ab.call op).state = .running ∧
      (ab.call op).verified = false := by
    cases op with
    | step r => exact h
    | adopt kbps r => exact adopt_taken h
    | wantNormal want r => exact h.elim
    | mark r => exact h.elim
  obtain ⟨hnot, hstate, hverified⟩ := hrun
  cases ab.call_moves op with
  | counts hs => exact absurd (hs.state ▸ hstate) hnot
  | marks hs => exact absurd (hs.state ▸ hstate) hnot
  | proven _ _ _ _ _ _ htrue => exact absurd (hverified.symm.trans htrue) Bool.false_ne_true
  | rests hno => exact absurd hstate hno
  | silent _ _ _ hquiet => exact hquiet

theorem old_of_age {now enter : ℕ} (hle : enter ≤ now)
    (h : canAbSilentMs ≤ UInt32.ofNat now - UInt32.ofNat enter) : enter + 300 ≤ now := by
  rw [UInt32.le_iff_toNat_le, stamp_sub, show canAbSilentMs.toNat = 300 from rfl] at h
  omega

/-- **Silence means silence**, as far as the differences show: in every run, where a fixed
bitrate is promoted on silence or a stated one is adopted, nothing was counted for 300 ms
exactly when what the differences do not show is that old. -/
theorem canAb_silence (cfg : CanAbCfg) (now frames bad : ℕ) (es : List CanBusEvent) (c : CanAbCall)
    (htakes : ((CanBus.init cfg now frames bad).run es).ab.Takes
      (c.at ((CanBus.init cfg now frames bad).run es).reading)) :
    ((CanBus.init cfg now frames bad).run es).Silent ↔
      ((CanBus.init cfg now frames bad).run es).HiddenOld := by
  have htold : ((CanBus.init cfg now frames bad).run es).Told :=
    (CanBus.told_init cfg now frames bad).run es
  generalize (CanBus.init cfg now frames bad).run es = b at htakes htold ⊢
  have hquiet := htakes.quiet
  rw [c.at_reading] at hquiet
  have hage : b.enter + 300 ≤ b.now := old_of_age htold.enter_le (htold.enterMs ▸ hquiet.age)
  constructor
  · rintro ⟨hframe, hbad⟩
    exact ⟨fun _ => hframe, fun _ => hbad,
      fun g hg => (Nat.add_le_add_right (htold.given_le g hg) 300).trans hbad⟩
  · rintro ⟨hframe, hbad, hgiven⟩
    refine ⟨?_, ?_⟩
    · by_cases hcount : b.frames = b.enterFrames
      · exact (Nat.add_le_add_right (htold.noFrame hcount) 300).trans hage
      · exact hframe hcount
    · by_cases hcount : b.bad = b.base
      · rcases htold.noBad hcount with hold | hold
        · exact (Nat.add_le_add_right hold 300).trans hage
        · exact hgiven _ hold
      · exact hbad hcount

/-- A bus without traffic is silent after 300 ms. -/
theorem canAb_silence_fixed : ((CanBus.init fixedCfg 0 0 0).run [.wait 300]).Silent :=
  (canAb_silence fixedCfg 0 0 0 [.wait 300] .step (by refine ⟨?_, ?_, ?_⟩ <;> decide)).mpr
    ⟨fun hno => absurd rfl hno, fun hno => absurd rfl hno, fun g hg => by cases hg⟩

/-- Eight errors at 290 ms, read in a step: ten milliseconds later the step takes the bus
for silent. -/
theorem not_canAb_silence :
    ¬ ∀ (cfg : CanAbCfg) (now frames bad : ℕ) (es : List CanBusEvent) (c : CanAbCall),
      ((CanBus.init cfg now frames bad).run es).ab.Takes
        (c.at ((CanBus.init cfg now frames bad).run es).reading) →
      ((CanBus.init cfg now frames bad).run es).Silent := by
  intro hall
  have hsilent := (hall fixedCfg 0 0 0 ([.wait 290] ++ List.replicate 8 .error ++
    [.call .step, .wait 10]) .step (by refine ⟨?_, ?_, ?_⟩ <;> decide)).2
  exact absurd hsilent (by decide)

end Meatpi
