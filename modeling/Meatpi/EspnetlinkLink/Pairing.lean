import Mathlib.Data.Int.Notation
import Meatpi.Library.Run

/-!
# The pairing machine (`espnetlink_link_core.c`, `espnetlink_link_usb.c`)

A dongle on the USB port is identified, its key is read and stored, and its data
lines are cut; once the cut has landed a changed key asks for one restart. The
obligation is one flag. The engine writes it at every key read, and the machine
clears it at every enumeration, whether or not the restart it stands for has
happened.
-/

namespace Meatpi

open List

inductive EspnlSmState
  | idle | identify | readKey | cut | waitDrop | done | tether | foreign | ncmShare | ncmUp
  | hold | unsupported | unreachable
  deriving DecidableEq

inductive EspnlSmEvent
  | tick | linkUp | linkUpOther | linkDown | ok | fail | conflict | notEspnetlink | apStale
  | repair | hold | unsupported
  deriving DecidableEq

inductive EspnlSmAction
  | none | getInfo | getKey | postCut | ensureShare | vbusCycle | reboot | giveUp
  deriving DecidableEq

def espnlSmIdentifyMs : UInt32 := 15000
def espnlSmUnreachRetryMs : UInt32 := 10000
def espnlSmUnreachCycleMs : UInt32 := 120000
def espnlSmUnreachSlowMs : UInt32 := 60000
def espnlSmReadKeyMs : UInt32 := 5000
def espnlSmDropRetryMs : UInt32 := 3000
def espnlSmDropFailMs : UInt32 := 10000
def espnlSmShareMs : UInt32 := 10000
def espnlSmCycleGapMs : UInt32 := 60000
def espnlSmMaxCycles : ℤ := 3

/-- `espnl_sm_t`; the times wrap. -/
structure EspnlSm where
  state : EspnlSmState
  ncmMode : Bool
  cutRetries : ℤ
  sinceMs : UInt32
  lastCycleMs : UInt32
  cycles : ℤ
  cutPosts : ℤ
  rebootPending : Bool
  linkUp : Bool
  lastTryMs : UInt32
  retries : ℤ
  deriving DecidableEq

namespace EspnlSm

/-- `espnl_sm_init` -/
def init (ncmMode : Bool) (cutRetries : ℤ) (nowMs : UInt32) : EspnlSm where
  state := .idle
  ncmMode := ncmMode
  cutRetries := if cutRetries < 1 then 1 else if cutRetries > 5 then 5 else cutRetries
  sinceMs := nowMs
  -- allow a recovery cycle right away on the first failure run
  lastCycleMs := nowMs - espnlSmCycleGapMs
  cycles := 0
  cutPosts := 0
  rebootPending := false
  linkUp := false
  lastTryMs := 0
  retries := 0

def enter (sm : EspnlSm) (s : EspnlSmState) (nowMs : UInt32) : EspnlSm :=
  { sm with state := s, sinceMs := nowMs }

def elapsed (sm : EspnlSm) (nowMs : UInt32) : UInt32 := nowMs - sm.sinceMs

/-- `recover`: a VBUS cycle, spaced and budgeted. -/
def recover (sm : EspnlSm) (nowMs : UInt32) : EspnlSm × EspnlSmAction :=
  if espnlSmMaxCycles ≤ sm.cycles ∨ nowMs - sm.lastCycleMs < espnlSmCycleGapMs then
    (sm.enter .foreign nowMs, .giveUp)
  else
    ({ sm with cycles := sm.cycles + 1, lastCycleMs := nowMs, cutPosts := 0 }.enter .idle nowMs,
      .vbusCycle)

def onLinkUp (sm : EspnlSm) (nowMs : UInt32) : EspnlSm × EspnlSmAction :=
  ({ sm with linkUp := true, cutPosts := 0, rebootPending := false }.enter .identify nowMs,
    .getInfo)

/-! ## The step, case by case -/

/-- A link drop, in any state. -/
def onLinkDown (sm : EspnlSm) (nowMs : UInt32) : EspnlSm × EspnlSmAction :=
  if sm.state = .waitDrop ∨ sm.state = .cut then
    -- the cut landed: cable is power only from here
    ({ sm with linkUp := false, cycles := 0 }.enter .done nowMs,
      if sm.rebootPending then .reboot else .none)
  else if sm.state ≠ .done then ({ sm with linkUp := false }.enter .idle nowMs, .none)
  else ({ sm with linkUp := false }, .none)

/-- `case ESPNL_SM_IDENTIFY` -/
def onIdentify (sm : EspnlSm) (ev : EspnlSmEvent) (nowMs : UInt32) : EspnlSm × EspnlSmAction :=
  if ev = .ok then
    if sm.ncmMode then (sm.enter .ncmShare nowMs, .ensureShare)
    else (sm.enter .readKey nowMs, .getKey)
  else if ev = .notEspnetlink then (sm.enter .foreign nowMs, .none)
  else if ev = .unsupported then (sm.enter .unsupported nowMs, .none)
  else if ev = .tick ∨ ev = .fail then
    if espnlSmIdentifyMs ≤ sm.elapsed nowMs then
      ({ sm.enter .unreachable nowMs with lastTryMs := nowMs, retries := 0 }, .none)
    else (sm, if ev = .tick then .getInfo else .none)
  else (sm, .none)

/-- `case ESPNL_SM_UNREACHABLE` -/
def onUnreachable (sm : EspnlSm) (ev : EspnlSmEvent) (nowMs : UInt32) :
    EspnlSm × EspnlSmAction :=
  if ev = .ok then
    if sm.ncmMode then (sm.enter .ncmShare nowMs, .ensureShare)
    else (sm.enter .readKey nowMs, .getKey)
  else if ev = .notEspnetlink then (sm.enter .foreign nowMs, .none)
  else if ev = .unsupported then (sm.enter .unsupported nowMs, .none)
  else if ev = .tick then
    if espnlSmUnreachCycleMs ≤ sm.elapsed nowMs ∧
        (sm.cycles < espnlSmMaxCycles ∧ espnlSmCycleGapMs ≤ nowMs - sm.lastCycleMs) then
      sm.recover nowMs
    else if (if espnlSmMaxCycles ≤ sm.cycles then espnlSmUnreachSlowMs
        else espnlSmUnreachRetryMs) ≤ nowMs - sm.lastTryMs then
      ({ sm with lastTryMs := nowMs, retries := sm.retries + 1 }, .getInfo)
    else (sm, .none)
  else (sm, .none)

/-- `case ESPNL_SM_READ_KEY` -/
def onReadKey (sm : EspnlSm) (ev : EspnlSmEvent) (nowMs : UInt32) : EspnlSm × EspnlSmAction :=
  if ev = .ok then
    -- the engine stored the key before it reported OK
    ({ sm.enter .cut nowMs with cutPosts := 1 }, .postCut)
  else if ev = .hold then (sm.enter .hold nowMs, .none)
  else if ev = .unsupported then (sm.enter .unsupported nowMs, .none)
  else if ev = .tick ∨ ev = .fail then
    if espnlSmReadKeyMs ≤ sm.elapsed nowMs then sm.recover nowMs
    else (sm, if ev = .tick then .getKey else .none)
  else (sm, .none)

/-- `case ESPNL_SM_CUT` -/
def onCut (sm : EspnlSm) (ev : EspnlSmEvent) (nowMs : UInt32) : EspnlSm × EspnlSmAction :=
  if ev = .ok then (sm.enter .waitDrop nowMs, .none)
  else if ev = .conflict then (sm.enter .tether nowMs, .none)
  else if ev = .tick then
    if sm.cutRetries ≤ sm.cutPosts then sm.recover nowMs
    else ({ sm with cutPosts := sm.cutPosts + 1 }, .postCut)
  else (sm, .none)

/-- `case ESPNL_SM_WAIT_DROP` -/
def onWaitDrop (sm : EspnlSm) (ev : EspnlSmEvent) (nowMs : UInt32) : EspnlSm × EspnlSmAction :=
  if ev = .tick then
    if espnlSmDropFailMs ≤ sm.elapsed nowMs then sm.recover nowMs
    else if espnlSmDropRetryMs ≤ sm.elapsed nowMs ∧ sm.cutPosts ≤ sm.cutRetries then
      -- one more POST; a dongle that did cut answers "already"
      ({ sm with cutPosts := sm.cutRetries + 1 }, .postCut)
    else (sm, .none)
  else if ev = .conflict then (sm.enter .tether nowMs, .none)
  else (sm, .none)

/-- `case ESPNL_SM_NCM_SHARE` -/
def onNcmShare (sm : EspnlSm) (ev : EspnlSmEvent) (nowMs : UInt32) : EspnlSm × EspnlSmAction :=
  if ev = .ok ∨ ev = .unsupported then ({ sm with cycles := 0 }.enter .ncmUp nowMs, .none)
  else if ev = .tick ∨ ev = .fail then
    if espnlSmShareMs ≤ sm.elapsed nowMs then (sm.enter .ncmUp nowMs, .none)
    else (sm, if ev = .tick then .ensureShare else .none)
  else (sm, .none)

/-- The `switch` of `espnl_sm_step`. -/
def onState (sm : EspnlSm) (ev : EspnlSmEvent) (nowMs : UInt32) : EspnlSm × EspnlSmAction :=
  match sm.state with
  | .idle | .foreign | .tether | .hold | .unsupported => (sm, .none)
  | .identify => sm.onIdentify ev nowMs
  | .unreachable => sm.onUnreachable ev nowMs
  | .readKey => sm.onReadKey ev nowMs
  | .cut => sm.onCut ev nowMs
  | .waitDrop => sm.onWaitDrop ev nowMs
  | .done => if ev = .apStale then sm.recover nowMs else (sm, .none)
  | .ncmShare => sm.onNcmShare ev nowMs
  | .ncmUp => (sm, .none)

/-- `espnl_sm_step` -/
def step (sm : EspnlSm) (ev : EspnlSmEvent) (nowMs : UInt32) : EspnlSm × EspnlSmAction :=
  match ev with
  | .linkDown => sm.onLinkDown nowMs
  | .linkUpOther => ({ sm with linkUp := true }.enter .foreign nowMs, .none)
  | .linkUp => sm.onLinkUp nowMs
  | .repair => { sm with cycles := 0, lastCycleMs := nowMs - espnlSmCycleGapMs }.recover nowMs
  | ev => sm.onState ev nowMs

end EspnlSm

/-! ## What a step leaves alone -/

/-- The states before the key is read: from these the machine asks for it. -/
def EspnlSmState.Asks (s : EspnlSmState) : Prop := s = .identify ∨ s = .unreachable ∨ s = .readKey

/-- What every event but an enumeration leaves alone: the flag, and being past the
key read. The key is asked for only in `read_key`. -/
structure EspnlSm.Keeps (sm : EspnlSm) (r : EspnlSm × EspnlSmAction) : Prop where
  flag : r.1.rebootPending = sm.rebootPending
  asks : r.1.state.Asks → sm.state.Asks
  getKey : r.2 = .getKey → r.1.state = .readKey

namespace EspnlSm

variable {sm : EspnlSm} {ev : EspnlSmEvent} {nowMs : UInt32}

theorem keeps_enter {sm' : EspnlSm} {s : EspnlSmState} {a : EspnlSmAction}
    (hflag : sm'.rebootPending = sm.rebootPending) (hs : s.Asks → sm.state.Asks)
    (ha : a = .getKey → s = .readKey) : sm.Keeps (sm'.enter s nowMs, a) :=
  ⟨hflag, hs, ha⟩

theorem keeps_self {sm' : EspnlSm} {a : EspnlSmAction}
    (hflag : sm'.rebootPending = sm.rebootPending) (hs : sm'.state = sm.state)
    (ha : a = .getKey → sm.state = .readKey) : sm.Keeps (sm', a) :=
  ⟨hflag, fun h => hs ▸ h, fun h => hs.trans (ha h)⟩

theorem keeps_recover {sm' : EspnlSm} (hflag : sm'.rebootPending = sm.rebootPending) :
    sm.Keeps (sm'.recover nowMs) := by
  unfold recover
  split_ifs
  · exact keeps_enter hflag (by simp [EspnlSmState.Asks]) (by simp)
  · exact keeps_enter hflag (by simp [EspnlSmState.Asks]) (by simp)

theorem keeps_onLinkDown : sm.Keeps (sm.onLinkDown nowMs) := by
  unfold onLinkDown
  split_ifs <;> first
    | exact keeps_enter rfl (by simp [EspnlSmState.Asks]) (by simp)
    | exact keeps_self rfl rfl (by simp)

theorem keeps_onIdentify (hs : sm.state = .identify) : sm.Keeps (sm.onIdentify ev nowMs) := by
  have hasks : sm.state.Asks := .inl hs
  unfold onIdentify
  split_ifs <;> exact ⟨rfl, fun _ => hasks, by simp [enter]⟩

theorem keeps_onUnreachable (hs : sm.state = .unreachable) :
    sm.Keeps (sm.onUnreachable ev nowMs) := by
  have hasks : sm.state.Asks := .inr (.inl hs)
  unfold onUnreachable
  split_ifs <;> first
    | exact keeps_recover rfl
    | exact ⟨rfl, fun _ => hasks, by simp [enter]⟩

theorem keeps_onReadKey (hs : sm.state = .readKey) : sm.Keeps (sm.onReadKey ev nowMs) := by
  have hasks : sm.state.Asks := .inr (.inr hs)
  unfold onReadKey
  split_ifs <;> first
    | exact keeps_recover rfl
    | exact ⟨rfl, fun _ => hasks, by simp [enter, hs]⟩

theorem keeps_onCut : sm.Keeps (sm.onCut ev nowMs) := by
  unfold onCut
  split_ifs <;> first
    | exact keeps_recover rfl
    | exact keeps_self rfl rfl (by simp)
    | exact keeps_enter rfl (by simp [EspnlSmState.Asks]) (by simp)

theorem keeps_onWaitDrop : sm.Keeps (sm.onWaitDrop ev nowMs) := by
  unfold onWaitDrop
  split_ifs <;> first
    | exact keeps_recover rfl
    | exact keeps_self rfl rfl (by simp)
    | exact keeps_enter rfl (by simp [EspnlSmState.Asks]) (by simp)

theorem keeps_onNcmShare : sm.Keeps (sm.onNcmShare ev nowMs) := by
  unfold onNcmShare
  split_ifs <;> first
    | exact keeps_self rfl rfl (by simp)
    | exact keeps_enter rfl (by simp [EspnlSmState.Asks]) (by simp)

theorem keeps_onState : sm.Keeps (sm.onState ev nowMs) := by
  have hquiet : sm.Keeps (sm, .none) := keeps_self rfl rfl (by simp)
  cases hs : sm.state <;> simp only [onState, hs]
  case identify => exact keeps_onIdentify hs
  case unreachable => exact keeps_onUnreachable hs
  case readKey => exact keeps_onReadKey hs
  case cut => exact keeps_onCut
  case waitDrop => exact keeps_onWaitDrop
  case ncmShare => exact keeps_onNcmShare
  case done =>
    split_ifs
    · exact keeps_recover rfl
    · exact hquiet
  all_goals exact hquiet

/-- **Only an enumeration clears the flag**, or leads back to a key read. -/
theorem keeps_step (hev : ev ≠ .linkUp) : sm.Keeps (sm.step ev nowMs) := by
  cases ev <;> simp only [step]
  case linkUp => exact absurd rfl hev
  case linkDown => exact keeps_onLinkDown
  case linkUpOther => exact keeps_enter rfl (by simp [EspnlSmState.Asks]) (by simp)
  case repair => exact keeps_recover rfl
  all_goals exact keeps_onState

theorem step_linkDown_action (hs : sm.state ≠ .done)
    (hdone : (sm.step .linkDown nowMs).1.state = .done) :
    (sm.step .linkDown nowMs).2 = .reboot ↔ sm.rebootPending = true := by
  simp only [step, onLinkDown] at hdone ⊢
  split_ifs at hdone ⊢ with hwait hflag
  · exact iff_of_true rfl hflag
  · exact iff_of_false (by simp) hflag
  · simp [enter] at hdone

theorem step_ok_readKey (hs : sm.state = .readKey) :
    sm.step .ok nowMs = ({ sm.enter .cut nowMs with cutPosts := 1 }, .postCut) := by
  simp [step, onState, onReadKey, hs]

end EspnlSm

/-! ## The engine around it -/

/-- The engine: the machine, the action it was last told to perform, and the key
that is stored. -/
structure Pairing (K : Type) where
  sm : EspnlSm
  act : EspnlSmAction
  stored : K

/-- What happens to the engine: an event, or a key read whose store went through. -/
inductive PairingMove (K : Type)
  | event (ev : EspnlSmEvent) (nowMs : UInt32)
  | keyRead (key : K) (nowMs : UInt32)

variable {K : Type} [DecidableEq K]

/-- `espnl_usb_init` -/
def Pairing.init (ncmMode : Bool) (cutRetries : ℤ) (nowMs : UInt32) (stored : K) : Pairing K :=
  ⟨.init ncmMode cutRetries nowMs, .none, stored⟩

/-- One turn of `run`. -/
def Pairing.feed (p : Pairing K) (ev : EspnlSmEvent) (nowMs : UInt32) : Pairing K :=
  { p with sm := (p.sm.step ev nowMs).1, act := (p.sm.step ev nowMs).2 }

/-- The end of `act_get_key`: the key is stored, `reboot_pending` is whether that
changed anything, and OK is fed back. -/
def Pairing.actGetKey (p : Pairing K) (key : K) (nowMs : UInt32) : Pairing K :=
  let changed : Bool := key ≠ p.stored
  Pairing.feed { p with stored := key, sm := { p.sm with rebootPending := changed } } .ok nowMs

/-- Any event at any time; a key read when the machine has just asked for it. -/
inductive PairingStep : Pairing K → PairingMove K → Pairing K → Prop
  | event (p : Pairing K) (ev : EspnlSmEvent) (nowMs : UInt32) :
      PairingStep p (.event ev nowMs) (p.feed ev nowMs)
  | keyRead (p : Pairing K) (key : K) (nowMs : UInt32) (hact : p.act = .getKey) :
      PairingStep p (.keyRead key nowMs) (p.actGetKey key nowMs)

/-- A landed cut: a link drop that enters `done`. -/
def Lands (p : Pairing K) (m : PairingMove K) (p' : Pairing K) : Prop :=
  (∃ nowMs, m = .event .linkDown nowMs) ∧ p.sm.state ≠ .done ∧ p'.sm.state = .done

/-- A run that stores a changed key, and its first landed cut after that: the key,
the moves in between, and the engine after the cut. -/
inductive FirstCut (p₀ : Pairing K) : K → List (PairingMove K) → Pairing K → Prop
  | intro {pre mid : List (PairingMove K)} {p p₁ p₂ p' : Pairing K} {key : K}
      {nowMs : UInt32} {m : PairingMove K}
      (hpre : Run PairingStep p₀ pre p)
      (hread : PairingStep p (.keyRead key nowMs) p₁)
      (hchanged : key ≠ p.stored)
      (hmid : Run (fun p m p' => PairingStep p m p' ∧ ¬ Lands p m p') p₁ mid p₂)
      (hcut : PairingStep p₂ m p')
      (hlands : Lands p₂ m p') : FirstCut p₀ key mid p'

/-- The key that is stored after some moves. -/
def storedAfter (key : K) : List (PairingMove K) → K
  | [] => key
  | .event _ _ :: moves => storedAfter key moves
  | .keyRead key' _ :: moves => storedAfter key' moves

/-- Every enumeration among the moves is followed by the read of a key that is
again not the stored one. -/
def ChangesAgain (key : K) (moves : List (PairingMove K)) : Prop :=
  ∀ pre nowMs post, moves = pre ++ .event .linkUp nowMs :: post →
    ∃ before key' nowMs' after, post = before ++ .keyRead key' nowMs' :: after ∧
      key' ≠ storedAfter key (pre ++ .event .linkUp nowMs :: before)

/-! ## The condition along a run -/

omit [DecidableEq K] in
theorem storedAfter_append (key : K) (ms ms' : List (PairingMove K)) :
    storedAfter key (ms ++ ms') = storedAfter (storedAfter key ms) ms' := by
  induction ms generalizing key with
  | nil => rfl
  | cons m ms ih => cases m <;> exact ih _

omit [DecidableEq K] in
theorem changesAgain_nil (key : K) : ChangesAgain key [] := by
  intro pre nowMs post h
  simp at h

omit [DecidableEq K] in
theorem not_changesAgain_linkUp (key : K) (ms : List (PairingMove K)) (nowMs : UInt32) :
    ¬ ChangesAgain key (ms ++ [.event .linkUp nowMs]) := by
  intro h
  obtain ⟨before, key', nowMs', after, hpost, _⟩ := h ms nowMs [] rfl
  simp at hpost

omit [DecidableEq K] in
theorem changesAgain_changed {key key' : K} {ms : List (PairingMove K)} (nowMs : UInt32)
    (hne : key' ≠ storedAfter key ms) : ChangesAgain key (ms ++ [.keyRead key' nowMs]) := by
  intro pre nowMs' post h
  rcases eq_nil_or_concat post with rfl | ⟨before, m, rfl⟩
  · have hlast := congrArg List.getLast? h
    simp at hlast
  · rw [concat_eq_append, ← cons_append, ← append_assoc] at h
    obtain ⟨rfl, hm⟩ := append_inj' h rfl
    obtain rfl := singleton_inj.1 hm
    exact ⟨before, key', nowMs, [], concat_eq_append, hne⟩

omit [DecidableEq K] in
theorem changesAgain_other {key : K} {ms : List (PairingMove K)} {m : PairingMove K}
    (hup : ∀ nowMs, m ≠ .event .linkUp nowMs)
    (hkey : ∀ key' nowMs, m = .keyRead key' nowMs → key' = storedAfter key ms) :
    ChangesAgain key (ms ++ [m]) ↔ ChangesAgain key ms := by
  constructor
  · intro h pre nowMs post hms
    obtain ⟨before, key', nowMs', after, hpost, hne⟩ := h pre nowMs (post ++ [m]) (by simp [hms])
    rcases eq_nil_or_concat after with rfl | ⟨after, m', rfl⟩
    · -- the read would be `m` itself, which changes nothing
      obtain ⟨rfl, hm⟩ := append_inj' hpost rfl
      exact absurd ((hkey key' nowMs' (singleton_inj.1 hm)).trans (by rw [hms])) hne
    · rw [concat_eq_append, ← cons_append, ← append_assoc] at hpost
      obtain ⟨rfl, _⟩ := append_inj' hpost rfl
      exact ⟨before, key', nowMs', after, rfl, hne⟩
  · intro h pre nowMs post hms
    rcases eq_nil_or_concat post with rfl | ⟨post, m', rfl⟩
    · obtain ⟨_, hm⟩ := append_inj' hms rfl
      exact absurd (singleton_inj.1 hm) (hup nowMs)
    · rw [concat_eq_append, ← cons_append, ← append_assoc] at hms
      obtain ⟨hms, _⟩ := append_inj' hms rfl
      obtain ⟨before, key', nowMs', after, rfl, hne⟩ := h pre nowMs post hms
      exact ⟨before, key', nowMs', after ++ [m'], by simp, hne⟩

/-- What holds after the key was stored and `ms` followed: the flag is set exactly
if no enumeration among them is left unanswered. -/
structure Waits (key : K) (ms : List (PairingMove K)) (p : Pairing K) : Prop where
  getKey : p.act = .getKey → p.sm.state = .readKey
  stored : p.stored = storedAfter key ms
  asks : p.sm.state.Asks → p.sm.rebootPending = false
  flag : p.sm.rebootPending = true ↔ ChangesAgain key ms

omit [DecidableEq K] in
theorem getKey_feed {p : Pairing K} {ev : EspnlSmEvent} {nowMs : UInt32}
    (h : (p.feed ev nowMs).act = .getKey) : (p.feed ev nowMs).sm.state = .readKey := by
  by_cases hev : ev = .linkUp
  · subst hev
    simp [Pairing.feed, EspnlSm.step, EspnlSm.onLinkUp] at h
  · exact (EspnlSm.keeps_step hev).getKey h

theorem actGetKey_eq {p : Pairing K} (hs : p.sm.state = .readKey) (key : K) (nowMs : UInt32) :
    p.actGetKey key nowMs =
      ⟨{ p.sm.enter .cut nowMs with cutPosts := 1, rebootPending := decide (key ≠ p.stored) },
        .postCut, key⟩ := by
  simp [Pairing.actGetKey, Pairing.feed, EspnlSm.step_ok_readKey, hs, EspnlSm.enter]

theorem PairingStep.getKey {p p' : Pairing K} {m : PairingMove K} (hstep : PairingStep p m p')
    (h : p.act = .getKey → p.sm.state = .readKey) : p'.act = .getKey → p'.sm.state = .readKey := by
  cases hstep with
  | event ev nowMs => exact getKey_feed
  | keyRead key nowMs hact =>
    rw [actGetKey_eq (h hact)]
    simp

theorem Waits.step {key : K} {ms : List (PairingMove K)} {p p' : Pairing K} {m : PairingMove K}
    (hstep : PairingStep p m p') (h : Waits key ms p) : Waits key (ms ++ [m]) p' := by
  have hgetKey := hstep.getKey h.getKey
  have hstored := h.stored
  cases hstep with
  | event ev nowMs =>
    have hstored' : (p.feed ev nowMs).stored = storedAfter key (ms ++ [.event ev nowMs]) := by
      rw [storedAfter_append]
      exact hstored
    by_cases hev : ev = .linkUp
    · subst hev
      have hclear : (p.feed .linkUp nowMs).sm.rebootPending = false := rfl
      refine ⟨hgetKey, hstored', fun _ => hclear, ?_⟩
      exact iff_of_false Bool.false_ne_true (not_changesAgain_linkUp key ms nowMs)
    · have hkeeps : p.sm.Keeps (p.sm.step ev nowMs) := EspnlSm.keeps_step hev
      have hflag : (p.feed ev nowMs).sm.rebootPending = p.sm.rebootPending := hkeeps.flag
      refine ⟨hgetKey, hstored', fun hasks => hflag.trans (h.asks (hkeeps.asks hasks)), ?_⟩
      rw [hflag, h.flag, changesAgain_other]
      · intro nowMs' heq
        injection heq with heq
        exact hev heq
      · intro key' nowMs' heq
        cases heq
  | keyRead key' nowMs hact =>
    have hread := h.getKey hact
    have hclear := h.asks (.inr (.inr hread))
    rw [actGetKey_eq hread]
    refine ⟨by simp, ?_, ?_, ?_⟩
    · rw [storedAfter_append]
      rfl
    · simp [EspnlSmState.Asks, EspnlSm.enter]
    · by_cases hne : key' = storedAfter key ms
      · -- the same key again: the flag was clear and stays clear
        have hnot : ¬ ChangesAgain key ms := by
          rw [← h.flag, hclear]
          exact Bool.false_ne_true
        rw [← changesAgain_other (m := .keyRead key' nowMs) (by simp) (by simp [hne])] at hnot
        exact iff_of_false (by simp [hstored, hne]) hnot
      · exact iff_of_true (by simp [hstored, hne]) (changesAgain_changed nowMs hne)

/-- **When a stored key is applied.** In every run of the engine, the first landed
cut after a changed key was stored asks for the restart exactly if every
enumeration in between was answered by yet another key. -/
theorem firstCut_reboots_iff {ncmMode : Bool} {cutRetries : ℤ} {nowMs : UInt32} {stored key : K}
    {mid : List (PairingMove K)} {p' : Pairing K}
    (h : FirstCut (.init ncmMode cutRetries nowMs stored) key mid p') :
    p'.act = .reboot ↔ ChangesAgain key mid := by
  obtain @⟨pre, _, p, p₁, p₂, _, _, nowMs', _, hpre, hread, hchanged, hmid, hcut,
    ⟨t, rfl⟩, hs, hdone⟩ := h
  have hreach := hpre.inv (I := fun p => p.act = .getKey → p.sm.state = .readKey)
    (fun _ _ _ => PairingStep.getKey) (by simp [Pairing.init])
  cases hread with
  | keyRead _ _ hact =>
    have hstart : Waits key [] (p.actGetKey key nowMs') := by
      rw [actGetKey_eq (hreach hact)]
      refine ⟨by simp, rfl, by simp [EspnlSmState.Asks, EspnlSm.enter], ?_⟩
      exact iff_of_true (by simpa using hchanged) (changesAgain_nil key)
    have hwait := hmid.history (I := Waits key) (fun _ _ _ _ hstep => Waits.step hstep.1) hstart
    cases hcut with
    | event _ _ => exact (EspnlSm.step_linkDown_action hs hdone).trans hwait.flag

/-- The engine that has just been told to read the key. -/
def askedForKey : Pairing ℕ := ((Pairing.init false 1 0 0).feed .linkUp 0).feed .ok 0

theorem run_askedForKey :
    Run PairingStep (Pairing.init false 1 0 0) [.event .linkUp 0, .event .ok 0] askedForKey :=
  .cons (.event _ _ _) (.cons (.event _ _ _) (.nil _))

theorem not_lands_of_event {p p' : Pairing ℕ} {ev : EspnlSmEvent} {nowMs : UInt32}
    (hev : ev ≠ .linkDown) : ¬ Lands p (.event ev nowMs) p' := by
  rintro ⟨⟨t, h⟩, -⟩
  injection h with h
  exact hev h

/-- Nothing is read between the changed key and the cut. -/
theorem firstCut_reboots_iff_straight :
    (((askedForKey.actGetKey 1 0).feed .ok 0).feed .linkDown 500).act = .reboot := by
  have hkept : ChangesAgain (K := ℕ) 1 ([] ++ [.event .ok 0]) :=
    (changesAgain_other (by rintro _ ⟨⟩) (by rintro _ _ ⟨⟩)).mpr (changesAgain_nil 1)
  exact (firstCut_reboots_iff (.intro run_askedForKey (.keyRead _ 1 0 (by decide)) (by decide)
    (.cons ⟨.event _ _ _, not_lands_of_event (by decide)⟩ (.nil _)) (.event _ .linkDown 500)
    ⟨⟨500, rfl⟩, by decide, by decide⟩)).mpr hkept

/-- The cut fails, the dongle is power-cycled and enumerates again, and its key is
now the stored one: the restart the first read asked for is lost. -/
theorem not_reboots_reenumerated :
    ¬ ∀ (ncmMode : Bool) (cutRetries : ℤ) (nowMs : UInt32) (stored key : ℕ)
      (mid : List (PairingMove ℕ)) (p' : Pairing ℕ),
      FirstCut (.init ncmMode cutRetries nowMs stored) key mid p' → p'.act = .reboot := by
  intro h
  have hcut := h false 1 0 0 1
    [.event .tick 0, .event .linkDown 0, .event .linkUp 0, .event .ok 0, .keyRead 1 0,
      .event .ok 0] _
    (.intro run_askedForKey (.keyRead _ 1 0 (by decide)) (by decide)
      (.cons ⟨.event _ _ _, not_lands_of_event (by decide)⟩
        (.cons ⟨.event _ _ _, fun hlands => absurd hlands.2.2 (by decide)⟩
          (.cons ⟨.event _ _ _, not_lands_of_event (by decide)⟩
            (.cons ⟨.event _ _ _, not_lands_of_event (by decide)⟩
              (.cons ⟨.keyRead _ _ _ (by decide), fun hlands => by
                  obtain ⟨⟨_, hm⟩, _⟩ := hlands
                  cases hm⟩
                (.cons ⟨.event _ _ _, not_lands_of_event (by decide)⟩ (.nil _)))))))
      (.event _ .linkDown 500) ⟨⟨500, rfl⟩, by decide, by decide⟩)
  exact absurd hcut (by decide)

end Meatpi
