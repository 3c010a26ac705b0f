import Meatpi.Library.Run

/-!
# Listen before talk (`can_autobaud_core.c`)

A node at the wrong bitrate destroys the traffic of its bus, so it starts
listen-only and talks when two counters allow it: frames prove the bitrate, and
errors without a frame disprove it. A bus that is silent proves nothing; a fixed
bitrate, or one a tester states, is taken on silence all the same, until
unreadable traffic was seen once. Counters and times are `uint32`, read with
every call, and are only ever compared by their difference.
-/

namespace Meatpi

open List

def canAbMaxCandidates : ℕ := 8
def canAbOkFrames : UInt32 := 2
def canAbBadMin : UInt32 := 8
def canAbSpanMs : UInt32 := 1000
def canAbSilentMs : UInt32 := 300
def canAbWatchMs : UInt32 := 100
def canAbRetryMs : UInt32 := 2000
def canAbConfirmMs : UInt32 := 10

inductive CanAbState where
  | listening
  | mismatch
  | running
  deriving DecidableEq

structure CanAbCfg where
  candidates : List UInt16
  wantNormal : Bool
  retryMs : UInt16

structure CanAbAction where
  apply : Bool
  baudKbps : UInt16
  listenOnly : Bool

structure CanAb where
  cfg : CanAbCfg
  state : CanAbState
  idx : ℕ
  normal : Bool
  verified : Bool
  bitten : Bool
  adopted : Bool
  misses : UInt8
  detectedKbps : UInt16
  enterMs : UInt32
  frames0 : UInt32
  spanMs : UInt32
  spanFrames0 : UInt32
  spanBad0 : UInt32
  suspect : Bool
  suspectMs : UInt32
  switches : UInt32
  demotions : UInt32

/-- What a call is fed: the time and the two counters. -/
structure CanReading where
  nowMs : UInt32
  frames : UInt32
  bad : UInt32

namespace CanAb

def noAction : CanAbAction := ⟨false, 0, false⟩

/-- `can_ab_baud` -/
def baud (ab : CanAb) : UInt16 :=
  if ab.cfg.candidates = [] then 500 else ab.cfg.candidates.getD ab.idx 0

def applyAction (ab : CanAb) (listenOnly : Bool) : CanAbAction := ⟨true, ab.baud, listenOnly⟩

def restartSpan (ab : CanAb) (r : CanReading) : CanAb :=
  { ab with
    spanMs := r.nowMs
    spanFrames0 := r.frames
    spanBad0 := r.bad }

def confirmed (ab : CanAb) (r : CanReading) : CanAb × Bool :=
  if ab.suspect = true ∧ canAbConfirmMs ≤ r.nowMs - ab.suspectMs then
    ({ ab with suspect := false }, true)
  else
    let ab := if ab.suspect = false then
        { ab with
          suspect := true
          suspectMs := r.nowMs }
      else ab
    (ab.restartSpan r, false)

def nextCandidate (ab : CanAb) : CanAb :=
  { ab with
    idx := (ab.idx + 1) % ab.cfg.candidates.length
    switches := ab.switches + 1
    verified := false
    adopted := false }

/-- `can_ab_mark` -/
def mark (ab : CanAb) (r : CanReading) : CanAb :=
  { ab with
    enterMs := r.nowMs
    frames0 := r.frames
    suspect := false }.restartSpan r

/-- `can_ab_init` -/
def init (cfg : CanAbCfg) (r : CanReading) : CanAb × CanAbAction :=
  let ab : CanAb :=
    { cfg := if cfg.candidates ≠ [] then
        { cfg with candidates := cfg.candidates.take canAbMaxCandidates }
      -- nothing to go by: listen at 500k and never talk
      else ⟨[500], false, 0⟩
      state := .listening, idx := 0, normal := false, verified := false, bitten := false,
      adopted := false, misses := 0, detectedKbps := 0, enterMs := 0, frames0 := 0, spanMs := 0,
      spanFrames0 := 0, spanBad0 := 0, suspect := false, suspectMs := 0, switches := 0,
      demotions := 0 }
  (ab.mark r, ab.applyAction true)

/-- `can_ab_want_normal` -/
def wantNormal (ab : CanAb) (want : Bool) (r : CanReading) : CanAb × CanAbAction :=
  if ab.cfg.candidates = [] then (ab, noAction)
  else
    let ab := { ab with cfg := { ab.cfg with wantNormal := want } }
    if want = false then
      if ab.normal = false then (ab, noAction)
      else
        let ab := { ab with normal := false }.mark r
        (ab, ab.applyAction true)
    else if ab.state = .running ∧ ab.normal = false then
      let ab := { ab with normal := true }.mark r
      (ab, ab.applyAction false)
    else (ab, noAction) -- no verdict yet: the policy promotes later

/-- The last candidate with that bitrate; their number when there is none. -/
def candidateOf (candidates : List UInt16) (kbps : UInt16) : ℕ :=
  candidates.zipIdx.foldl (fun idx c => if c.1 = kbps then c.2 else idx) candidates.length

/-- `can_ab_adopt`, with `taken`. -/
def adopt (ab : CanAb) (kbps : UInt16) (r : CanReading) : CanAb × CanAbAction × Bool :=
  if ab.cfg.candidates.length < 2 ∨ ab.state = .running ∨ ab.bitten = true then
    (ab, noAction, false)
  else if r.frames - ab.frames0 ≠ 0 ∨ r.bad - ab.spanBad0 ≠ 0 ∨
      r.nowMs - ab.enterMs < canAbSilentMs then
    (ab, noAction, false)
  else
    let idx := candidateOf ab.cfg.candidates kbps
    if idx = ab.cfg.candidates.length then (ab, noAction, false) -- not a bitrate this node knows
    else
      let ab := if idx ≠ ab.idx then
          { ab with
            idx := idx
            switches := ab.switches + 1 }
        else ab
      let ab := { ab with
          state := .running
          verified := false
          adopted := true
          misses := 0
          normal := ab.cfg.wantNormal }.mark r
      (ab, ab.applyAction !ab.cfg.wantNormal, true)

def proven (ab : CanAb) (r : CanReading) : CanAb × CanAbAction :=
  let ab' := { ab with
      verified := true
      misses := 0
      detectedKbps := ab.baud
      state := .running }.mark r
  if ab.cfg.wantNormal = true ∧ ab.normal = false then
    ({ ab' with normal := true }, ab'.applyAction false)
  else (ab', noAction)

def mismatch (ab : CanAb) (r : CanReading) : CanAb × CanAbAction :=
  let wasNormal := ab.normal
  let ab := { ab with
      bitten := true
      verified := false
      adopted := false
      normal := false
      demotions := if wasNormal then ab.demotions + 1 else ab.demotions }
  let ab := if 1 < ab.cfg.candidates.length then { ab with misses := ab.misses + 1 } else ab
  if 1 < ab.cfg.candidates.length ∧ ab.misses.toNat < ab.cfg.candidates.length then
    let ab := { ab.nextCandidate with state := .listening }.mark r
    (ab, ab.applyAction true)
  else
    let ab := { ab with state := .mismatch }.mark r
    (ab, if wasNormal then ab.applyAction true else noAction)

/-- The watchdog of `can_ab_step`, for a node that runs. -/
def watch (ab : CanAb) (r : CanReading) (dfEnter spanAge : UInt32) (garbage : Bool) :
    CanAb × CanAbAction :=
  if garbage then ab.mismatch r
  else
    let ab := if ab.verified = false ∧ canAbOkFrames ≤ dfEnter then
        { ab with
          verified := true
          detectedKbps := ab.baud }
      else ab
    (if canAbWatchMs ≤ spanAge then ab.restartSpan r else ab, noAction)

/-- The rest of `can_ab_step`, for a node that listens. -/
def listen (ab : CanAb) (r : CanReading) (dfEnter dfSpan dbSpan age spanAge : UInt32)
    (garbage : Bool) : CanAb × CanAbAction :=
  if canAbOkFrames ≤ dfEnter then ab.proven r
  else if ab.state = .mismatch ∧ 1 < ab.cfg.candidates.length ∧
      (if ab.cfg.retryMs ≠ 0 then ab.cfg.retryMs.toUInt32 else canAbRetryMs) ≤ age then
    -- auto, after a full round without a readable bitrate: again
    let ab := { { ab with misses := 0 }.nextCandidate with state := .listening }.mark r
    (ab, ab.applyAction true)
  else if garbage then
    if ab.state = .mismatch then (ab.restartSpan r, noAction) -- still unreadable
    else ab.mismatch r
  else if ab.state = .listening ∧ dfEnter = 0 ∧ dbSpan = 0 ∧ canAbSilentMs ≤ age ∧
      ab.cfg.candidates.length = 1 ∧ ab.bitten = false then
    -- a silent bus and a fixed bitrate: the configured mode
    let ab := { ab with state := .running }.mark r
    if ab.cfg.wantNormal then
      let ab := { ab with normal := true }
      (ab, ab.applyAction false)
    else (ab, noAction)
  else if canAbSpanMs ≤ spanAge then
    if ab.state = .mismatch ∧ dbSpan = 0 ∧ dfSpan = 0 then
      -- the unreadable traffic stopped
      ({ ab with state := .listening }.mark r, noAction)
    else (ab.restartSpan r, noAction)
  else (ab, noAction)

/-- Errors and no frame in the span. -/
def garbage (ab : CanAb) (r : CanReading) : Prop :=
  canAbBadMin ≤ r.bad - ab.spanBad0 ∧ r.frames - ab.spanFrames0 = 0

instance (ab : CanAb) (r : CanReading) : Decidable (ab.garbage r) :=
  inferInstanceAs (Decidable (_ ∧ _))

/-- `can_ab_step` -/
def step (ab : CanAb) (r : CanReading) : CanAb × CanAbAction :=
  if ab.cfg.candidates = [] then (ab, noAction)
  else
    let dfEnter := r.frames - ab.frames0
    let dfSpan := r.frames - ab.spanFrames0
    let dbSpan := r.bad - ab.spanBad0
    let age := r.nowMs - ab.enterMs
    let spanAge := r.nowMs - ab.spanMs
    let bad := decide (ab.garbage r)
    -- a frame was read: the errors were its own
    let ab := if dfSpan ≠ 0 then { ab with suspect := false } else ab
    -- listening: the evidence has to come twice
    let (ab, bad) := if bad = true ∧ ab.normal = false then ab.confirmed r else (ab, bad)
    if ab.state = .running then ab.watch r dfEnter spanAge bad
    else ab.listen r dfEnter dfSpan dbSpan age spanAge bad

end CanAb

/-! ## What a call can do -/

/-- Evidence is counted from this reading. -/
structure CanAb.Marked (ab : CanAb) (r : CanReading) : Prop where
  enterMs : ab.enterMs = r.nowMs
  frames0 : ab.frames0 = r.frames
  spanBad0 : ab.spanBad0 = r.bad

/-- The verdict and the bitrate stay. -/
structure CanAb.Stays (ab ab' : CanAb) : Prop where
  candidates : ab'.cfg.candidates = ab.cfg.candidates
  state : ab'.state = ab.state
  idx : ab'.idx = ab.idx
  bitten : ab'.bitten = ab.bitten
  adopted : ab'.adopted = ab.adopted

/-- A node that talks did so before, or runs and is wanted to. -/
def CanAb.MayTalk (ab ab' : CanAb) : Prop :=
  ab'.normal = true →
    (ab.normal = true ∧ (ab.cfg.wantNormal = true → ab'.cfg.wantNormal = true)) ∨
      (ab'.cfg.wantNormal = true ∧ ab'.state = .running)

/-- No frame and no error since the node began to count. -/
structure CanAb.Quiet (ab : CanAb) (r : CanReading) : Prop where
  frames : r.frames = ab.frames0
  bad : r.bad = ab.spanBad0
  age : canAbSilentMs ≤ r.nowMs - ab.enterMs

/-- **What a call does**: it counts on, it starts to count again, frames prove
the bitrate, the node rests, or it runs on silence, where `S` allows that. -/
inductive CanAb.Moves (S : Prop) (ab : CanAb) (r : CanReading) : CanAb → Prop
  | counts {ab' : CanAb} (hstays : ab.Stays ab') (htalk : ab.MayTalk ab')
      (henter : ab'.enterMs = ab.enterMs) (hframes : ab'.frames0 = ab.frames0)
      (hverified : ab'.verified = ab.verified ∨
        ab'.verified = true ∧ ab.state = .running ∧ canAbOkFrames ≤ r.frames - ab.frames0)
      (hspan : ab'.spanBad0 = ab.spanBad0 ∨ ab'.spanBad0 = r.bad) : Moves S ab r ab'
  | marks {ab' : CanAb} (hstays : ab.Stays ab') (htalk : ab.MayTalk ab')
      (hverified : ab'.verified = ab.verified) (hmarked : ab'.Marked r) : Moves S ab r ab'
  | proven {ab' : CanAb} (hnot : ab.state ≠ .running)
      (hframes : canAbOkFrames ≤ r.frames - ab.frames0) (hstate : ab'.state = .running)
      (hcandidates : ab'.cfg.candidates = ab.cfg.candidates) (hidx : ab'.idx = ab.idx)
      (hbitten : ab'.bitten = ab.bitten) (hverified : ab'.verified = true)
      (htalk : ab.MayTalk ab') (hmarked : ab'.Marked r) : Moves S ab r ab'
  | rests {ab' : CanAb} (hstate : ab'.state ≠ .running)
      (hcandidates : ab'.cfg.candidates = ab.cfg.candidates)
      (hbitten : ab.bitten = true → ab'.bitten = true)
      (hverified : ab'.verified = true → ab.verified = true ∧ ab.state ≠ .running)
      (htalk : ab'.normal = true → ab.normal = true ∧ ab.state ≠ .running)
      (hmarked : ab'.Marked r) : Moves S ab r ab'
  | silent {ab' : CanAb} (hallowed : S) (hnot : ab.state ≠ .running)
      (hbitten : ab.bitten = false) (hquiet : ab.Quiet r) (hstate : ab'.state = .running)
      (hcandidates : ab'.cfg.candidates = ab.cfg.candidates) (hbitten' : ab'.bitten = false)
      (hfixed : ab'.cfg.candidates.length = 1 ∨ ab'.adopted = true)
      (hverified : ab'.verified = true → ab.verified = true)
      (htalk : ab'.normal = true → ab.normal = true ∨ ab'.cfg.wantNormal = true)
      (hmarked : ab'.Marked r) : Moves S ab r ab'

namespace CanAb

variable {S : Prop} {ab : CanAb} {r : CanReading}

theorem listening_ne_running : CanAbState.listening ≠ .running := by decide

theorem mismatch_ne_running : CanAbState.mismatch ≠ .running := by decide

theorem counter_sub_eq_zero {a b : UInt32} : a - b = 0 ↔ a = b := by
  rw [UInt32.sub_eq_iff_eq_add, UInt32.zero_add]

theorem Stays.refl (ab : CanAb) : ab.Stays ab := ⟨rfl, rfl, rfl, rfl, rfl⟩

theorem MayTalk.refl (ab : CanAb) : ab.MayTalk ab := fun h => .inl ⟨h, id⟩

theorem Moves.same (ab : CanAb) (r : CanReading) : Moves S ab r ab :=
  .counts (.refl ab) (.refl ab) rfl rfl (.inl rfl) (.inl rfl)

/-- Only the span and the suspicion change. -/
structure SameEvidence (ab ab' : CanAb) (r : CanReading) : Prop where
  stays : ab.Stays ab'
  cfg : ab'.cfg = ab.cfg
  normal : ab'.normal = ab.normal
  verified : ab'.verified = ab.verified
  enterMs : ab'.enterMs = ab.enterMs
  frames0 : ab'.frames0 = ab.frames0
  spanBad0 : ab'.spanBad0 = ab.spanBad0 ∨ ab'.spanBad0 = r.bad

theorem SameEvidence.moves {ab' : CanAb} (h : ab.SameEvidence ab' r) : Moves S ab r ab' :=
  .counts h.stays (fun hn => .inl ⟨h.normal ▸ hn, fun hw => h.cfg ▸ hw⟩) h.enterMs h.frames0
    (.inl h.verified) h.spanBad0

theorem sameEvidence_confirmed (ab : CanAb) (r : CanReading) :
    ab.SameEvidence (ab.confirmed r).1 r := by
  rw [confirmed]
  split_ifs
  · exact ⟨⟨rfl, rfl, rfl, rfl, rfl⟩, rfl, rfl, rfl, rfl, rfl, .inl rfl⟩
  · exact ⟨⟨rfl, rfl, rfl, rfl, rfl⟩, rfl, rfl, rfl, rfl, rfl, .inr rfl⟩
  · exact ⟨⟨rfl, rfl, rfl, rfl, rfl⟩, rfl, rfl, rfl, rfl, rfl, .inr rfl⟩

theorem SameEvidence.trans {ab' ab'' : CanAb} (h : ab.SameEvidence ab' r)
    (h' : ab'.SameEvidence ab'' r) : ab.SameEvidence ab'' r where
  stays := ⟨h'.stays.candidates.trans h.stays.candidates, h'.stays.state.trans h.stays.state,
    h'.stays.idx.trans h.stays.idx, h'.stays.bitten.trans h.stays.bitten,
    h'.stays.adopted.trans h.stays.adopted⟩
  cfg := h'.cfg.trans h.cfg
  normal := h'.normal.trans h.normal
  verified := h'.verified.trans h.verified
  enterMs := h'.enterMs.trans h.enterMs
  frames0 := h'.frames0.trans h.frames0
  spanBad0 := h'.spanBad0.elim (fun heq => heq ▸ h.spanBad0) .inr

theorem sameEvidence_restartSpan (ab : CanAb) (r : CanReading) :
    ab.SameEvidence (ab.restartSpan r) r :=
  ⟨⟨rfl, rfl, rfl, rfl, rfl⟩, rfl, rfl, rfl, rfl, rfl, .inr rfl⟩

/-- **A mismatch**: the node rests, listen-only. -/
theorem mismatch_spec (ab : CanAb) (r : CanReading) :
    (ab.mismatch r).1.state ≠ .running ∧ (ab.mismatch r).1.normal = false ∧
      (ab.mismatch r).1.bitten = true ∧ (ab.mismatch r).1.verified = false ∧
      (ab.mismatch r).1.cfg = ab.cfg ∧ (ab.mismatch r).1.Marked r ∧
      (ab.normal = true → (ab.mismatch r).2.apply = true ∧
        (ab.mismatch r).2.listenOnly = true) := by
  rw [mismatch]
  dsimp only
  split_ifs
  all_goals refine ⟨?_, rfl, rfl, rfl, rfl, ⟨rfl, rfl, rfl⟩, ?_⟩
  all_goals first
    | exact listening_ne_running
    | exact mismatch_ne_running
    | exact fun _ => ⟨rfl, rfl⟩
    | exact fun hnormal => absurd hnormal ‹_›

theorem moves_mismatch {ab' : CanAb} (h : ab.SameEvidence ab' r) :
    Moves S ab r (ab'.mismatch r).1 := by
  obtain ⟨hstate, hnormal, hbitten, hverified, hcfg, hmarked, -⟩ := mismatch_spec ab' r
  refine .rests hstate ?_ (fun _ => hbitten) (fun hv => ?_) (fun hn => ?_) hmarked
  · rw [hcfg, h.stays.candidates]
  · rw [hverified] at hv
    cases hv
  · rw [hnormal] at hn
    cases hn

/-- **Frames** prove the bitrate. -/
theorem moves_proven {ab' : CanAb} (h : ab.SameEvidence ab' r) (hnot : ab.state ≠ .running)
    (hframes : canAbOkFrames ≤ r.frames - ab.frames0) : Moves S ab r (ab'.proven r).1 := by
  rw [proven]
  split_ifs with hwant
  · exact .proven hnot hframes rfl h.stays.candidates h.stays.idx h.stays.bitten rfl
      (fun _ => .inr ⟨hwant.1, rfl⟩) ⟨rfl, rfl, rfl⟩
  · exact .proven hnot hframes rfl h.stays.candidates h.stays.idx h.stays.bitten rfl
      (fun hn => .inl ⟨h.normal ▸ hn, fun hw => h.cfg ▸ hw⟩) ⟨rfl, rfl, rfl⟩

theorem moves_watch {ab' : CanAb} (h : ab.SameEvidence ab' r) (hrun : ab.state = .running)
    (spanAge : UInt32) (bad : Bool) :
    Moves S ab r (ab'.watch r (r.frames - ab.frames0) spanAge bad).1 := by
  rw [watch]
  by_cases hbad : bad = true
  · rw [if_pos hbad]
    exact moves_mismatch h
  · -- running on the word of the settings until frames prove it
    have hword : ∀ ab₁ : CanAb, ab₁ = (if ab'.verified = false ∧
        canAbOkFrames ≤ r.frames - ab.frames0 then
          { ab' with
            verified := true
            detectedKbps := ab'.baud }
        else ab') → ab.Stays ab₁ ∧ ab₁.cfg = ab.cfg ∧ ab₁.normal = ab.normal ∧
          ab₁.enterMs = ab.enterMs ∧ ab₁.frames0 = ab.frames0 ∧
          (ab₁.verified = ab.verified ∨ ab₁.verified = true ∧ ab.state = .running ∧
              canAbOkFrames ≤ r.frames - ab.frames0) ∧
          (ab₁.spanBad0 = ab.spanBad0 ∨ ab₁.spanBad0 = r.bad) := by
      rintro ab₁ rfl
      split_ifs with hframes
      · exact ⟨⟨h.stays.candidates, h.stays.state, h.stays.idx, h.stays.bitten, h.stays.adopted⟩,
          h.cfg, h.normal, h.enterMs, h.frames0, .inr ⟨rfl, hrun, hframes.2⟩, h.spanBad0⟩
      · exact ⟨h.stays, h.cfg, h.normal, h.enterMs, h.frames0, .inl h.verified, h.spanBad0⟩
    generalize hab : (if ab'.verified = false ∧ canAbOkFrames ≤ r.frames - ab.frames0 then _
      else _ : CanAb) = ab₁
    obtain ⟨hstays, hcfg, hnormal, henter, hframes, hverified, hspan⟩ := hword ab₁ hab.symm
    split_ifs
    · exact .counts ⟨hstays.candidates, hstays.state, hstays.idx, hstays.bitten, hstays.adopted⟩
        (fun hn => .inl ⟨hnormal ▸ hn, fun hw => hcfg ▸ hw⟩) henter hframes hverified (.inr rfl)
    · exact .counts hstays (fun hn => .inl ⟨hnormal ▸ hn, fun hw => hcfg ▸ hw⟩) henter hframes
        hverified hspan

theorem moves_listen {ab' : CanAb} (h : ab.SameEvidence ab' r) (hnot : ab.state ≠ .running)
    (dfSpan spanAge : UInt32) (bad : Bool) :
    Moves (ab.cfg.candidates.length = 1 ∧ ab.state = .listening ∧ ab.bitten = false ∧ ab.Quiet r)
      ab r (ab'.listen r (r.frames - ab.frames0) dfSpan (r.bad - ab.spanBad0)
        (r.nowMs - ab.enterMs) spanAge bad).1 := by
  have hrests : ∀ ab'' : CanAb, ab''.state ≠ .running → ab''.cfg = ab'.cfg →
      ab''.bitten = ab'.bitten → (ab''.verified = true → ab'.verified = true) →
      ab''.normal = ab'.normal → ab''.Marked r →
      Moves (ab.cfg.candidates.length = 1 ∧ ab.state = .listening ∧ ab.bitten = false ∧
        ab.Quiet r) ab r ab'' := by
    intro ab'' hstate hcfg hbitten hverified hnormal hmarked
    refine .rests hstate (by rw [hcfg, h.stays.candidates]) (fun hb => ?_)
      (fun hv => ⟨h.verified ▸ hverified hv, hnot⟩) (fun hn => ⟨?_, hnot⟩) hmarked
    · rw [hbitten, h.stays.bitten, hb]
    · rw [← h.normal, ← hnormal, hn]
  rw [listen]
  by_cases hframes : canAbOkFrames ≤ r.frames - ab.frames0
  · rw [if_pos hframes]
    exact moves_proven h hnot hframes
  rw [if_neg hframes]
  by_cases hretry : ab'.state = .mismatch ∧ 1 < ab'.cfg.candidates.length ∧
      (if ab'.cfg.retryMs ≠ 0 then ab'.cfg.retryMs.toUInt32 else canAbRetryMs) ≤
        r.nowMs - ab.enterMs
  · rw [if_pos hretry]
    exact hrests _ listening_ne_running rfl rfl (fun hv => absurd hv Bool.false_ne_true) rfl
      ⟨rfl, rfl, rfl⟩
  rw [if_neg hretry]
  by_cases hbad : bad = true
  · rw [if_pos hbad]
    by_cases hstate : ab'.state = .mismatch
    · rw [if_pos hstate]
      exact (h.trans (sameEvidence_restartSpan ab' r)).moves
    · rw [if_neg hstate]
      exact moves_mismatch h
  rw [if_neg hbad]
  by_cases hsilent : ab'.state = .listening ∧ r.frames - ab.frames0 = 0 ∧
      r.bad - ab.spanBad0 = 0 ∧ canAbSilentMs ≤ r.nowMs - ab.enterMs ∧
      ab'.cfg.candidates.length = 1 ∧ ab'.bitten = false
  · rw [if_pos hsilent]
    obtain ⟨hstate, hdf, hdb, hage, hone, hbitten⟩ := hsilent
    have hquiet : ab.Quiet r := ⟨counter_sub_eq_zero.1 hdf, counter_sub_eq_zero.1 hdb, hage⟩
    have hbitten₀ : ab.bitten = false := h.stays.bitten ▸ hbitten
    have hallowed : ab.cfg.candidates.length = 1 ∧ ab.state = .listening ∧ ab.bitten = false ∧
        ab.Quiet r :=
      ⟨h.stays.candidates ▸ hone, h.stays.state ▸ hstate, hbitten₀, hquiet⟩
    dsimp only
    split_ifs with hwant
    · exact .silent hallowed hnot hbitten₀ hquiet rfl h.stays.candidates hbitten (.inl hone)
        (fun hv => h.verified ▸ hv) (fun _ => .inr hwant) ⟨rfl, rfl, rfl⟩
    · exact .silent hallowed hnot hbitten₀ hquiet rfl h.stays.candidates hbitten (.inl hone)
        (fun hv => h.verified ▸ hv) (fun hn => .inl (h.normal ▸ hn)) ⟨rfl, rfl, rfl⟩
  rw [if_neg hsilent]
  by_cases hspan : canAbSpanMs ≤ spanAge
  · split_ifs with hstopped
    · exact hrests _ listening_ne_running rfl rfl id rfl ⟨rfl, rfl, rfl⟩
    · exact (h.trans (sameEvidence_restartSpan ab' r)).moves
  · rw [if_neg hspan]
    exact h.moves

theorem sameEvidence_read (ab : CanAb) (r : CanReading) (dfSpan : UInt32) :
    ab.SameEvidence (if dfSpan ≠ 0 then { ab with suspect := false } else ab) r := by
  split_ifs
  · exact ⟨⟨rfl, rfl, rfl, rfl, rfl⟩, rfl, rfl, rfl, rfl, rfl, .inl rfl⟩
  · exact ⟨.refl ab, rfl, rfl, rfl, rfl, rfl, .inl rfl⟩

/-- The policy runs on silence: a fixed bitrate, never bitten. -/
def FixedOnSilence (ab : CanAb) (r : CanReading) : Prop :=
  ab.cfg.candidates.length = 1 ∧ ab.state = .listening ∧ ab.bitten = false ∧ ab.Quiet r

/-- A tester's bitrate is taken on silence. -/
def AdoptsOnSilence (ab : CanAb) (kbps : UInt16) (r : CanReading) : Prop :=
  2 ≤ ab.cfg.candidates.length ∧ ab.state ≠ .running ∧ ab.bitten = false ∧
    kbps ∈ ab.cfg.candidates ∧ ab.Quiet r

/-- **One step** of the policy. -/
theorem step_moves (ab : CanAb) (r : CanReading) :
    Moves (ab.FixedOnSilence r) ab r (ab.step r).1 := by
  rw [step]
  by_cases hnone : ab.cfg.candidates = []
  · rw [if_pos hnone]
    exact .same ab r
  rw [if_neg hnone]
  dsimp only
  generalize hread : (if r.frames - ab.spanFrames0 ≠ 0 then _ else ab : CanAb) = ab₁
  have h₁ : ab.SameEvidence ab₁ r := hread ▸ sameEvidence_read ab r _
  generalize hconfirmed : (if decide (ab.garbage r) = true ∧ ab₁.normal = false then
    ab₁.confirmed r else (ab₁, decide (ab.garbage r))) = c
  have h₂ : ab.SameEvidence c.1 r := by
    rw [← hconfirmed]
    split_ifs
    · exact h₁.trans (sameEvidence_confirmed ab₁ r)
    · exact h₁
  obtain ⟨ab₂, bad⟩ := c
  by_cases hrun : ab₂.state = .running
  · rw [if_pos hrun]
    exact moves_watch h₂ (h₂.stays.state ▸ hrun) _ bad
  · rw [if_neg hrun]
    exact moves_listen h₂ (h₂.stays.state ▸ hrun) _ _ bad

/-- **What the settings want.** -/
theorem wantNormal_moves (ab : CanAb) (want : Bool) (r : CanReading) :
    Moves S ab r (ab.wantNormal want r).1 := by
  rw [wantNormal]
  by_cases hnone : ab.cfg.candidates = []
  · rw [if_pos hnone]
    exact .same ab r
  rw [if_neg hnone]
  dsimp only
  split_ifs with hwant hnormal hrun
  · exact .counts ⟨rfl, rfl, rfl, rfl, rfl⟩ (fun hn => absurd (hnormal ▸ hn) Bool.false_ne_true)
      rfl rfl (.inl rfl) (.inl rfl)
  · exact .marks ⟨rfl, rfl, rfl, rfl, rfl⟩ (fun hn => absurd hn Bool.false_ne_true) rfl
      ⟨rfl, rfl, rfl⟩
  · exact .marks ⟨rfl, rfl, rfl, rfl, rfl⟩
      (fun _ => .inr ⟨Bool.not_eq_false _ ▸ hwant, hrun.1⟩) rfl ⟨rfl, rfl, rfl⟩
  · exact .counts ⟨rfl, rfl, rfl, rfl, rfl⟩
      (fun hn => .inl ⟨hn, fun _ => Bool.not_eq_false _ ▸ hwant⟩) rfl rfl (.inl rfl) (.inl rfl)

theorem candidateOf_mem {candidates : List UInt16} {kbps : UInt16}
    (h : candidateOf candidates kbps ≠ candidates.length) : kbps ∈ candidates := by
  by_contra hno
  have hkeep : ∀ (cs : List (UInt16 × ℕ)) (idx : ℕ), (∀ c ∈ cs, c.1 ≠ kbps) →
      cs.foldl (fun idx c => if c.1 = kbps then c.2 else idx) idx = idx := by
    intro cs
    induction cs with
    | nil => exact fun _ _ => rfl
    | cons c cs ih =>
      intro idx hcs
      rw [foldl_cons, if_neg (hcs c mem_cons_self)]
      exact ih idx fun c' hc' => hcs c' (mem_cons_of_mem c hc')
  refine h (hkeep _ _ fun c hc heq => hno ?_)
  exact heq ▸ fst_mem_of_mem_zipIdx hc

/-- **A tester's bitrate.** -/
theorem adopt_moves (ab : CanAb) (kbps : UInt16) (r : CanReading) :
    Moves (ab.AdoptsOnSilence kbps r) ab r (ab.adopt kbps r).1 := by
  rw [adopt]
  by_cases hno : ab.cfg.candidates.length < 2 ∨ ab.state = .running ∨ ab.bitten = true
  · rw [if_pos hno]
    exact .same ab r
  rw [if_neg hno]
  by_cases hloud : r.frames - ab.frames0 ≠ 0 ∨ r.bad - ab.spanBad0 ≠ 0 ∨
      r.nowMs - ab.enterMs < canAbSilentMs
  · rw [if_pos hloud]
    exact .same ab r
  rw [if_neg hloud]
  by_cases hunknown : candidateOf ab.cfg.candidates kbps = ab.cfg.candidates.length
  · rw [if_pos hunknown]
    exact .same ab r
  rw [if_neg hunknown]
  rw [not_or, not_or] at hno hloud
  obtain ⟨htwo, hnot, hbitten⟩ := hno
  obtain ⟨hdf, hdb, hage⟩ := hloud
  rw [Bool.not_eq_true] at hbitten
  rw [not_ne_iff] at hdf hdb
  have hquiet : ab.Quiet r :=
    ⟨counter_sub_eq_zero.1 hdf, counter_sub_eq_zero.1 hdb, UInt32.not_lt.1 hage⟩
  have hallowed : ab.AdoptsOnSilence kbps r :=
    ⟨Nat.le_of_not_lt htwo, hnot, hbitten, candidateOf_mem hunknown, hquiet⟩
  generalize hab : (if candidateOf ab.cfg.candidates kbps ≠ ab.idx then _ else ab : CanAb) = ab₁
  have hkept : ab₁.cfg = ab.cfg ∧ ab₁.bitten = ab.bitten := by
    rw [← hab]
    split_ifs
    · exact ⟨rfl, rfl⟩
    · exact ⟨rfl, rfl⟩
  exact .silent hallowed hnot hbitten hquiet rfl (congrArg _ hkept.1) (hkept.2.trans hbitten)
    (.inr rfl) (fun hv => absurd hv Bool.false_ne_true) (fun hn => .inr hn) ⟨rfl, rfl, rfl⟩

theorem mark_moves (ab : CanAb) (r : CanReading) : Moves S ab r (ab.mark r) :=
  .marks ⟨rfl, rfl, rfl, rfl, rfl⟩ (fun hn => .inl ⟨hn, id⟩) rfl ⟨rfl, rfl, rfl⟩

end CanAb

/-! ## Runs -/

/-- A call into the core. -/
inductive CanAbOp where
  | step (r : CanReading)
  | wantNormal (want : Bool) (r : CanReading)
  | adopt (kbps : UInt16) (r : CanReading)
  | mark (r : CanReading)

def CanAbOp.reading : CanAbOp → CanReading
  | .step r | .wantNormal _ r | .adopt _ r | .mark r => r

/-- The call takes the bitrate on silence. -/
def CanAb.OnSilence (ab : CanAb) : CanAbOp → Prop
  | .step r => ab.FixedOnSilence r
  | .adopt kbps r => ab.AdoptsOnSilence kbps r
  | _ => False

def CanAb.call (ab : CanAb) : CanAbOp → CanAb
  | .step r => (ab.step r).1
  | .wantNormal want r => (ab.wantNormal want r).1
  | .adopt kbps r => (ab.adopt kbps r).1
  | .mark r => ab.mark r

theorem CanAb.call_moves (ab : CanAb) (op : CanAbOp) :
    Moves (ab.OnSilence op) ab op.reading (ab.call op) := by
  cases op with
  | step r => exact ab.step_moves r
  | wantNormal want r => exact ab.wantNormal_moves want r
  | adopt kbps r => exact ab.adopt_moves kbps r
  | mark r => exact ab.mark_moves r

/-- The core and what it was fed: the readings since its bitrate was entered,
those up to when it last began to run, and when it began to count errors. -/
structure CanAbWorld where
  ab : CanAb
  here : List CanReading
  entry : List CanReading
  baseMs : UInt32

namespace CanAbWorld

/-- After `can_ab_init`. -/
def init (cfg : CanAbCfg) (r : CanReading) : CanAbWorld :=
  ⟨(CanAb.init cfg r).1, [r], [], r.nowMs⟩

def apply (w : CanAbWorld) (op : CanAbOp) : CanAbWorld where
  ab := w.ab.call op
  here := if (w.ab.call op).idx = w.ab.idx then w.here ++ [op.reading] else [op.reading]
  entry := if w.ab.state ≠ .running ∧ (w.ab.call op).state = .running then
      w.here ++ [op.reading]
    else w.entry
  baseMs := if (w.ab.call op).idx = w.ab.idx ∧ (w.ab.call op).enterMs = w.ab.enterMs ∧
      (w.ab.call op).spanBad0 = w.ab.spanBad0 then
      w.baseMs
    else op.reading.nowMs

/-- At least two frames were read between two of the readings. -/
def FramesRead (rs : List CanReading) : Prop :=
  ∃ p q, [p, q].Sublist rs ∧ canAbOkFrames ≤ q.frames - p.frames

/-- No frame and no error for `CAN_AB_SILENT_MS` before the last reading. -/
def Silent (rs : List CanReading) : Prop :=
  ∃ q ∈ rs.getLast?,
    (∃ p ∈ rs, canAbSilentMs ≤ q.nowMs - p.nowMs ∧ p.frames = q.frames) ∧
    (∃ p ∈ rs, canAbSilentMs ≤ q.nowMs - p.nowMs ∧ p.bad = q.bad)

/-- **Listen before talk.** -/
def Listens (w : CanAbWorld) : Prop :=
  w.ab.normal = true → w.ab.cfg.wantNormal = true ∧ w.ab.state = .running ∧
    (FramesRead w.here ∨
      (w.ab.cfg.candidates.length = 1 ∨ w.ab.adopted = true) ∧ w.ab.bitten = false ∧
        Silent w.entry)

/-- A bitrate is taken on silence no sooner than `CAN_AB_SILENT_MS` after the
errors began to be counted: no count with errors in it was given up meanwhile. -/
def Still (w : CanAbWorld) (op : CanAbOp) : Prop :=
  w.ab.OnSilence op → canAbSilentMs ≤ op.reading.nowMs - w.baseMs

/-- A call that meets the condition. -/
def Calls (w : CanAbWorld) (op : CanAbOp) (w' : CanAbWorld) : Prop := w.Still op ∧ w' = w.apply op

/-! ## The invariant -/

/-- What the counters of the core stand for, and what its verdict rests on. -/
structure Kept (w : CanAbWorld) : Prop where
  some : w.ab.cfg.candidates ≠ []
  entered : ∃ p ∈ w.here, p.nowMs = w.ab.enterMs ∧ p.frames = w.ab.frames0
  based : ∃ p ∈ w.here, p.nowMs = w.baseMs ∧ p.bad = w.ab.spanBad0
  rests : w.ab.state ≠ .running → w.ab.normal = false ∧ w.ab.verified = false
  talks : w.ab.normal = true → w.ab.cfg.wantNormal = true
  proven : w.ab.verified = true → FramesRead w.here
  silent : w.ab.state = .running → w.ab.verified = false →
    (w.ab.cfg.candidates.length = 1 ∨ w.ab.adopted = true) ∧ w.ab.bitten = false ∧ Silent w.entry

variable {w : CanAbWorld} {op : CanAbOp}

theorem Kept.listens (h : w.Kept) : w.Listens := by
  intro hnormal
  have hrun : w.ab.state = .running := by
    by_contra hno
    exact absurd ((h.rests hno).1 ▸ hnormal) Bool.false_ne_true
  refine ⟨h.talks hnormal, hrun, ?_⟩
  cases hverified : w.ab.verified with
  | true => exact .inl (h.proven hverified)
  | false => exact .inr (h.silent hrun hverified)

theorem Kept.init (cfg : CanAbCfg) (r : CanReading) : (CanAbWorld.init cfg r).Kept where
  some := by
    change (if cfg.candidates ≠ [] then _ else _ : CanAbCfg).candidates ≠ []
    split_ifs with hcfg
    · exact fun hnil => hcfg ((take_eq_nil_iff.1 hnil).resolve_left (by decide))
    · exact cons_ne_nil _ _
  entered := ⟨r, mem_singleton_self r, rfl, rfl⟩
  based := ⟨r, mem_singleton_self r, rfl, rfl⟩
  rests _ := ⟨rfl, rfl⟩
  talks hn := absurd hn Bool.false_ne_true
  proven hv := absurd hv Bool.false_ne_true
  silent hrun := absurd hrun CanAb.listening_ne_running

theorem reading_mem_here (w : CanAbWorld) (op : CanAbOp) : op.reading ∈ (w.apply op).here := by
  change _ ∈ (if _ then _ else _ : List CanReading)
  split_ifs
  · exact mem_append_right _ (mem_singleton_self _)
  · exact mem_singleton_self _

theorem here_of_idx (hidx : (w.ab.call op).idx = w.ab.idx) :
    (w.apply op).here = w.here ++ [op.reading] := if_pos hidx

theorem FramesRead.append {rs : List CanReading} (h : FramesRead rs) (r : CanReading) :
    FramesRead (rs ++ [r]) := by
  obtain ⟨p, q, hsub, hframes⟩ := h
  exact ⟨p, q, hsub.trans (sublist_append_left rs [r]), hframes⟩

theorem framesRead_of_mem {rs : List CanReading} {p r : CanReading} (hp : p ∈ rs)
    (hframes : canAbOkFrames ≤ r.frames - p.frames) : FramesRead (rs ++ [r]) :=
  ⟨p, r, (singleton_sublist.2 hp).append (List.Sublist.refl [r]), hframes⟩

theorem entered_of_marked (h : (w.ab.call op).Marked op.reading) :
    ∃ p ∈ (w.apply op).here, p.nowMs = (w.apply op).ab.enterMs ∧
      p.frames = (w.apply op).ab.frames0 :=
  ⟨op.reading, reading_mem_here w op, h.enterMs.symm, h.frames0.symm⟩

theorem Kept.based_apply (h : w.Kept)
    (hspan : (w.ab.call op).idx = w.ab.idx ∧ (w.ab.call op).enterMs = w.ab.enterMs ∧
        (w.ab.call op).spanBad0 = w.ab.spanBad0 ∨
      (w.ab.call op).spanBad0 = op.reading.bad) :
    ∃ p ∈ (w.apply op).here, p.nowMs = (w.apply op).baseMs ∧ p.bad = (w.apply op).ab.spanBad0 := by
  by_cases hsame : (w.ab.call op).idx = w.ab.idx ∧ (w.ab.call op).enterMs = w.ab.enterMs ∧
      (w.ab.call op).spanBad0 = w.ab.spanBad0
  · obtain ⟨p, hp, hnow, hbad⟩ := h.based
    refine ⟨p, ?_, hnow.trans (if_pos hsame).symm, hbad.trans hsame.2.2.symm⟩
    rw [here_of_idx hsame.1]
    exact mem_append_left _ hp
  · exact ⟨op.reading, reading_mem_here w op, (if_neg hsame).symm, (hspan.resolve_left hsame).symm⟩

/-- **A call keeps the invariant**, where silence is what it is taken for. -/
theorem Kept.apply (h : w.Kept) (hstill : w.Still op) : (w.apply op).Kept := by
  have hmoves := w.ab.call_moves op
  have hentry : ∀ hno : ¬ (w.ab.state ≠ .running ∧ (w.ab.call op).state = .running),
      (w.apply op).entry = w.entry := fun hno => if_neg hno
  -- a verdict that stays rests on what it rested on
  have hstays : ∀ (hs : w.ab.Stays (w.ab.call op)) (ht : w.ab.MayTalk (w.ab.call op)),
      (w.ab.call op).cfg.candidates ≠ [] ∧
      ((w.ab.call op).state ≠ .running → (w.ab.call op).normal = false) ∧
      ((w.ab.call op).normal = true → (w.ab.call op).cfg.wantNormal = true) ∧
      (w.ab.verified = true → FramesRead (w.apply op).here) ∧
      ((w.ab.call op).state = .running → w.ab.verified = false →
        ((w.ab.call op).cfg.candidates.length = 1 ∨ (w.ab.call op).adopted = true) ∧
          (w.ab.call op).bitten = false ∧ Silent (w.apply op).entry) := by
    intro hs ht
    refine ⟨hs.candidates ▸ h.some, fun hnot => ?_, fun hn => ?_, fun hv => ?_, fun hrun hv => ?_⟩
    · by_contra hn
      rw [Bool.not_eq_false] at hn
      rcases ht hn with ⟨hold, -⟩ | ⟨-, hrun⟩
      · exact absurd ((h.rests (hs.state ▸ hnot)).1 ▸ hold) Bool.false_ne_true
      · exact hnot hrun
    · rcases ht hn with ⟨hold, hwant⟩ | ⟨hwant, -⟩
      · exact hwant (h.talks hold)
      · exact hwant
    · rw [here_of_idx hs.idx]
      exact (h.proven hv).append op.reading
    · have hold : w.ab.state = .running := hs.state ▸ hrun
      rw [hs.candidates, hs.adopted, hs.bitten, hentry fun hno => hno.1 hold]
      exact h.silent hold hv
  cases hmoves with
  | counts hs ht henter hframes hverified hspan =>
    obtain ⟨hsome, hrests, htalks, hproven, hsilent⟩ := hstays hs ht
    obtain ⟨p, hp, hnow, hpframes⟩ := h.entered
    have hp' : p ∈ (w.apply op).here := by
      rw [here_of_idx hs.idx]
      exact mem_append_left _ hp
    refine ⟨hsome, ⟨p, hp', hnow.trans henter.symm, hpframes.trans hframes.symm⟩,
      h.based_apply (hspan.imp_left fun heq => ⟨hs.idx, henter, heq⟩),
      fun hnot => ⟨hrests hnot, ?_⟩, htalks, fun hv => ?_, fun hrun hv => ?_⟩
    · rcases hverified with heq | ⟨-, hrun, -⟩
      · exact heq.trans (h.rests (hs.state ▸ hnot)).2
      · exact absurd (hs.state.trans hrun) hnot
    · rcases hverified with heq | ⟨-, -, hread⟩
      · exact hproven (heq ▸ hv)
      · rw [here_of_idx hs.idx]
        exact framesRead_of_mem hp (hpframes ▸ hread)
    · rcases hverified with heq | ⟨htrue, -, -⟩
      · exact hsilent hrun (heq ▸ hv)
      · exact absurd (hv.symm.trans htrue) Bool.false_ne_true
  | marks hs ht hverified hmarked =>
    obtain ⟨hsome, hrests, htalks, hproven, hsilent⟩ := hstays hs ht
    exact ⟨hsome, entered_of_marked hmarked, h.based_apply (.inr hmarked.spanBad0),
      fun hnot => ⟨hrests hnot, hverified.trans (h.rests (hs.state ▸ hnot)).2⟩, htalks,
      fun hv => hproven (hverified ▸ hv), fun hrun hv => hsilent hrun (hverified ▸ hv)⟩
  | proven hnot hframes hstate hcandidates hidx hbitten hverified ht hmarked =>
    obtain ⟨p, hp, hnow, hpframes⟩ := h.entered
    refine ⟨hcandidates ▸ h.some, entered_of_marked hmarked,
      h.based_apply (.inr hmarked.spanBad0), fun hno => absurd hstate hno, fun hn => ?_,
      fun _ => ?_, fun _ hv => absurd (hv.symm.trans hverified) Bool.false_ne_true⟩
    · rcases ht hn with ⟨hold, -⟩ | ⟨hwant, -⟩
      · exact absurd ((h.rests hnot).1 ▸ hold) Bool.false_ne_true
      · exact hwant
    · rw [here_of_idx hidx]
      exact framesRead_of_mem hp (hpframes ▸ hframes)
  | rests hstate hcandidates hbitten hverified ht hmarked =>
    -- nothing it held at rest is left to hold
    have hquiet : (w.ab.call op).normal = false := by
      by_contra hn
      obtain ⟨hold, hnot⟩ := ht (Bool.not_eq_false _ ▸ hn)
      exact absurd ((h.rests hnot).1 ▸ hold) Bool.false_ne_true
    have hunproven : (w.ab.call op).verified = false := by
      by_contra hv
      obtain ⟨hold, hnot⟩ := hverified (Bool.not_eq_false _ ▸ hv)
      exact absurd ((h.rests hnot).2 ▸ hold) Bool.false_ne_true
    exact ⟨hcandidates ▸ h.some, entered_of_marked hmarked,
      h.based_apply (.inr hmarked.spanBad0), fun _ => ⟨hquiet, hunproven⟩,
      fun hn => absurd (hquiet ▸ hn) Bool.false_ne_true,
      fun hv => absurd (hunproven ▸ hv) Bool.false_ne_true, fun hrun => absurd hrun hstate⟩
  | silent hallowed hnot hbitten hquiet hstate hcandidates hbitten' hfixed hverified ht hmarked =>
    obtain ⟨hidle, hunproven⟩ := h.rests hnot
    refine ⟨hcandidates ▸ h.some, entered_of_marked hmarked,
      h.based_apply (.inr hmarked.spanBad0), fun hno => absurd hstate hno, fun hn => ?_,
      fun hv => absurd (hunproven ▸ hverified hv) Bool.false_ne_true,
      fun _ _ => ⟨hfixed, hbitten', ?_⟩⟩
    · exact (ht hn).resolve_left fun hold => absurd (hidle ▸ hold) Bool.false_ne_true
    · obtain ⟨p, hp, hnow, hpframes⟩ := h.entered
      obtain ⟨b, hb, hbase, hbbad⟩ := h.based
      have heq : (w.apply op).entry = w.here ++ [op.reading] := if_pos ⟨hnot, hstate⟩
      rw [heq]
      refine ⟨op.reading, ?_, ⟨p, mem_append_left _ hp, ?_, ?_⟩, ⟨b, mem_append_left _ hb, ?_, ?_⟩⟩
      · rw [List.getLast?_concat]
        rfl
      · exact hnow ▸ hquiet.age
      · exact hpframes.trans hquiet.frames.symm
      · exact hbase ▸ hstill hallowed
      · exact hbbad.trans hquiet.bad.symm

theorem Kept.run {ops : List CanAbOp} {w' : CanAbWorld} (hrun : Run Calls w ops w') (h : w.Kept) :
    w'.Kept :=
  hrun.inv (fun _ _ _ hcall hkept => hcall.2 ▸ hkept.apply hcall.1) h

theorem bitten_apply (hbitten : w.ab.bitten = true) (op : CanAbOp) :
    (w.apply op).ab.bitten = true := by
  have hmoves := w.ab.call_moves op
  cases hmoves with
  | counts hs => exact hs.bitten.trans hbitten
  | marks hs => exact hs.bitten.trans hbitten
  | proven _ _ _ _ _ heq => exact heq.trans hbitten
  | rests _ _ hb => exact hb hbitten
  | silent _ _ hno => exact absurd (hno ▸ hbitten) Bool.false_ne_true

theorem not_onSilence (hbitten : w.ab.bitten = true) (op : CanAbOp) : ¬ w.ab.OnSilence op := by
  intro hsilence
  cases op with
  | step r => exact absurd (hsilence.2.2.1 ▸ hbitten) Bool.false_ne_true
  | adopt kbps r => exact absurd (hsilence.2.2.1 ▸ hbitten) Bool.false_ne_true
  | wantNormal want r => exact hsilence
  | mark r => exact hsilence

/-- **Garbage** takes a talking node off the bus at once. -/
theorem Kept.garbage (h : w.Kept) {r : CanReading} (hnormal : w.ab.normal = true)
    (hgarbage : w.ab.garbage r) :
    (w.ab.step r).1.normal = false ∧ (w.ab.step r).1.state ≠ .running ∧
      (w.ab.step r).2.apply = true ∧ (w.ab.step r).2.listenOnly = true := by
  have hstep : w.ab.step r = w.ab.mismatch r := by
    have htalking : ¬ (decide (w.ab.garbage r) = true ∧ w.ab.normal = false) :=
      fun hno => absurd (hno.2.symm.trans hnormal) Bool.false_ne_true
    rw [CanAb.step, if_neg h.some]
    dsimp only
    rw [if_neg (not_not_intro hgarbage.2), if_neg htalking]
    rw [if_pos (h.listens hnormal).2.1, CanAb.watch, if_pos (decide_eq_true hgarbage)]
  obtain ⟨hstate, hidle, -, -, -, -, haction⟩ := CanAb.mismatch_spec w.ab r
  rw [hstep]
  exact ⟨hidle, hstate, haction hnormal⟩

end CanAbWorld

/-- **Listen before talk**: in every state reached by calls that meet the
condition the node transmits only if it was asked to, runs, and has read two
frames at its bitrate or took a fixed or stated one on silence, unbitten. Eight
errors without a frame take it off the bus in that step. Once bitten it stays
so, and whatever is called next it transmits on frames alone. -/
theorem canAb_listens {cfg : CanAbCfg} {r₀ : CanReading} {ops : List CanAbOp} {w : CanAbWorld}
    (hrun : Run CanAbWorld.Calls (.init cfg r₀) ops w) :
    w.Listens ∧ (∀ r, w.ab.normal = true → w.ab.garbage r →
        (w.ab.step r).1.normal = false ∧ (w.ab.step r).1.state ≠ .running ∧
          (w.ab.step r).2.apply = true ∧ (w.ab.step r).2.listenOnly = true) ∧
      (∀ op, w.ab.bitten = true → (w.apply op).ab.bitten = true ∧
        ((w.apply op).ab.normal = true → CanAbWorld.FramesRead (w.apply op).here)) := by
  have hkept := CanAbWorld.Kept.run hrun (.init cfg r₀)
  refine ⟨hkept.listens, fun r => hkept.garbage, fun op hbitten => ?_⟩
  have hbitten' := CanAbWorld.bitten_apply hbitten op
  refine ⟨hbitten', fun hnormal => ?_⟩
  have hnext := hkept.apply fun hsilence => absurd hsilence (CanAbWorld.not_onSilence hbitten op)
  obtain ⟨-, -, hframes | ⟨-, hno, -⟩⟩ := hnext.listens hnormal
  · exact hframes
  · exact absurd (hno ▸ hbitten') Bool.false_ne_true

/-- A fixed bitrate, to talk at. -/
def fixedCfg : CanAbCfg := ⟨[500], true, 0⟩

/-- Silence lets the node talk; eight errors stop it. -/
theorem canAb_listens_fixed : let w := (CanAbWorld.init fixedCfg ⟨0, 0, 0⟩).apply (.step ⟨300, 0, 0⟩)
    w.ab.normal = true ∧ w.Listens ∧ (w.ab.step ⟨305, 0, 8⟩).1.normal = false := by
  have hrun : Run CanAbWorld.Calls (.init fixedCfg ⟨0, 0, 0⟩) [.step ⟨300, 0, 0⟩]
      ((CanAbWorld.init fixedCfg ⟨0, 0, 0⟩).apply (.step ⟨300, 0, 0⟩)) :=
    .cons ⟨fun _ => by decide, rfl⟩ (.nil _)
  obtain ⟨hlistens, hgarbage, -⟩ := canAb_listens hrun
  exact ⟨rfl, hlistens, (hgarbage ⟨305, 0, 8⟩ rfl (by decide)).1⟩

/-- Eight errors, seen once, start the count again: ten milliseconds later the
bus passes for silent. -/
theorem canAb_listens_counted :
    ¬ ∀ (cfg : CanAbCfg) (r₀ : CanReading) (ops : List CanAbOp) (w : CanAbWorld),
      Run (fun w op w' => w' = w.apply op) (.init cfg r₀) ops w → w.Listens := by
  intro hall
  have hlistens := hall fixedCfg ⟨0, 0, 0⟩ [.step ⟨290, 0, 8⟩, .step ⟨300, 0, 8⟩] _
    (.cons rfl (.cons rfl (.nil _)))
  have hhere : ∀ p ∈ (((CanAbWorld.init fixedCfg ⟨0, 0, 0⟩).apply (.step ⟨290, 0, 8⟩)).apply
      (.step ⟨300, 0, 8⟩)).here, p.frames = 0 := by decide
  have hentry : ∀ q ∈ (((CanAbWorld.init fixedCfg ⟨0, 0, 0⟩).apply (.step ⟨290, 0, 8⟩)).apply
      (.step ⟨300, 0, 8⟩)).entry.getLast?, ∀ p ∈ (((CanAbWorld.init fixedCfg ⟨0, 0, 0⟩).apply
      (.step ⟨290, 0, 8⟩)).apply (.step ⟨300, 0, 8⟩)).entry,
      ¬ (canAbSilentMs ≤ q.nowMs - p.nowMs ∧ p.bad = q.bad) := by decide
  obtain ⟨-, -, ⟨p, q, hsub, hframes⟩ | ⟨-, -, q, hq, -, p, hp, hsilent⟩⟩ := hlistens rfl
  · have hp := hhere p (hsub.subset mem_cons_self)
    have hq := hhere q (hsub.subset (mem_cons_of_mem p mem_cons_self))
    rw [hp, hq] at hframes
    exact absurd hframes (by decide)
  · exact hentry q hq p hp hsilent

end Meatpi
