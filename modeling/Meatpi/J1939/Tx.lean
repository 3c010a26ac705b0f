import Meatpi.J1939.ClaimBus

/-!
# What the node sends (`j1939_tx.c`)

Frames are decided under a lock, where the claim's clock ticks too, and go into
an outbox; a flush hands them to the CAN driver later. The claim core takes its
frame for sent the moment it was decided. So it may hold an address whose claim
never was on the bus: the outbox was full, the driver refused the frame, or it
waited. `TxOp.Prompt` says when none of this happens, within any grace period;
then an address that is held was claimed on the bus (`j1939Tx_claimed`).
-/

namespace Meatpi

open List

def txOutbox : ℕ := 16
/-- `TX_PRIO_CLAIM`, `TX_PRIO_ACK`, `TX_PRIO_TP` -/
def txPrioClaim : UInt8 := 6
def txPrioAck : UInt8 := 6
def txPrioTp : UInt8 := 7
/-- `J1939_PGN_ACKM`, `J1939_PGN_TP_CM`, `J1939_PGN_CLAIM` -/
def j1939PgnAckm : UInt32 := 0x00E800
def j1939PgnTpCm : UInt32 := 0x00EC00
def j1939PgnClaim : UInt32 := 0x00EE00
def j1939AckNegative : UInt8 := 1

/-! ## Frames -/

def j1939PgnIsPdu1 (pgn : UInt32) : Bool := (pgn >>> 8) &&& 0xFF ≤ 0xEF

def j1939IdMake (prio : UInt8) (pgn : UInt32) (sa da : UInt8) : UInt32 :=
  let pgn := pgn &&& 0x1FFFF -- extended data page stays 0
  let pgn := if j1939PgnIsPdu1 pgn then (pgn &&& 0x1FF00) ||| da.toUInt32 else pgn
  ((prio &&& 7).toUInt32 <<< 26) ||| (pgn <<< 8) ||| sa.toUInt32

def j1939AckmBuild (control address : UInt8) (pgn : UInt32) : List UInt8 :=
  [control, 0xFF, 0xFF, 0xFF, address, pgn.toUInt8, (pgn >>> 8).toUInt8,
    ((pgn >>> 16) &&& 3).toUInt8]

/-- `out_frame_t`; `dlc` is the length of the data. -/
structure OutFrame where
  id : UInt32
  data : List UInt8

/-- The frame of `queue_claim`. -/
def ClaimFrame.frame (o : ClaimFrame) : OutFrame where
  id := j1939IdMake txPrioClaim j1939PgnClaim o.sa j1939AddrAll
  data := List.ofFn o.data

/-! ## The sender -/

/-- The sender's counters. -/
structure TxStats where
  txFrames : UInt32
  txFailed : UInt32
  outboxLost : UInt32
  nacksSent : UInt32

/-- The sender's state: the claim, whether active mode is on and the claim went
out, the outbox, the counters, and the transport protocol it answers for. -/
structure J1939Tx where
  claim : J1939Claim
  active : Bool
  started : Bool
  out : List OutFrame
  st : TxStats
  tp : J1939Tp

namespace J1939Tx

def queueFrame (tx : J1939Tx) (f : OutFrame) : J1939Tx :=
  if txOutbox ≤ tx.out.length then
    { tx with st := { tx.st with outboxLost := tx.st.outboxLost + 1 } }
  else { tx with out := tx.out ++ [f] }

def queueClaim (tx : J1939Tx) : Option ClaimFrame → J1939Tx
  | some o => tx.queueFrame o.frame
  | none => tx

def syncAddress (tx : J1939Tx) : J1939Tx :=
  { tx with
    tp := j1939TpSetAddress tx.tp
      (if tx.claim.state = .claimed then tx.claim.sa else j1939AddrNone) }

/-- `j1939_tx_start` -/
def start (tx : J1939Tx) (name : J1939Name) (address : UInt8) (active : Bool) : J1939Tx :=
  { tx with
    claim := j1939ClaimInit name address
    active := active
    started := false
    out := []
    tp := j1939TpSetAddress tx.tp j1939AddrNone }

/-- `j1939_tx_stop` -/
def stop (tx : J1939Tx) : J1939Tx :=
  { tx with
    claim := j1939ClaimInit tx.claim.name tx.claim.preferred
    started := false
    out := []
    tp := j1939TpSetAddress tx.tp j1939AddrNone }

/-- `j1939_tx_tick` -/
def tick (tx : J1939Tx) (txReady : Bool) (now : ℤ) : J1939Tx :=
  if tx.active = false then tx
  else if tx.started = false then
    if txReady = false then tx
    else
      let (c, o) := j1939ClaimStart tx.claim now
      { ({ tx with claim := c }.queueClaim o) with started := true }
  else { tx with claim := j1939ClaimTick tx.claim now }.syncAddress

/-- `j1939_tx_on_claim`; our own claim, should the controller echo it, is no contest. -/
def onClaim (tx : J1939Tx) (sa : UInt8) (name : J1939Name) (now : ℤ) : J1939Tx :=
  if tx.active = false ∨ tx.started = false then tx
  else if sa = tx.claim.sa ∧ List.ofFn name = List.ofFn tx.claim.name then tx
  else
    let (c, o) := j1939ClaimRx tx.claim sa name now
    ({ tx with claim := c }.queueClaim o).syncAddress

/-- `j1939_tx_on_request` -/
def onRequest (tx : J1939Tx) (sa da : UInt8) (pgn : UInt32) : J1939Tx :=
  if tx.active = false ∨ tx.started = false then tx
  else if pgn = j1939PgnClaim then
    if da = j1939AddrAll ∨ da = tx.claim.sa then
      let (c, o) := j1939ClaimRequest tx.claim
      { tx with claim := c }.queueClaim o
    else tx
  else if tx.claim.state ≠ .claimed ∨ da ≠ tx.claim.sa then tx
  else
    let tx := tx.queueFrame ⟨j1939IdMake txPrioAck j1939PgnAckm tx.claim.sa j1939AddrAll,
      j1939AckmBuild j1939AckNegative sa pgn⟩
    { tx with st := { tx.st with nacksSent := tx.st.nacksSent + 1 } }

/-- One turn of `j1939_tx_flush` under the lock: the frame to send, if any. -/
def takeFrame (tx : J1939Tx) : J1939Tx × Option OutFrame :=
  if tx.active = false then (tx, none)
  else
    match tx.out with
    | f :: out => ({ tx with out := out }, some f)
    | [] =>
      if tx.claim.state = .claimed then
        match j1939TpReplyTake tx.tp with
        | (tp, some r) => ({ tx with tp := tp },
            some ⟨j1939IdMake txPrioTp j1939PgnTpCm tx.claim.sa r.da, List.ofFn r.data⟩)
        | (_, none) => (tx, none)
      else (tx, none)

/-- `send_frame`: `accepted` is the driver's word. -/
def sendFrame (tx : J1939Tx) (accepted : Bool) : J1939Tx :=
  if accepted then { tx with st := { tx.st with txFrames := tx.st.txFrames + 1 } }
  else { tx with st := { tx.st with txFailed := tx.st.txFailed + 1 } }

end J1939Tx

/-! ## Runs -/

/-- The sender, the time, and, beside the program's state, what the driver
accepted and when. -/
structure TxWorld where
  tx : J1939Tx
  clock : ℤ
  sent : List (ℤ × OutFrame)

/-- A locked section, a turn of the flush, or time that passes. A received frame
carries the time it was received at. -/
inductive TxOp where
  | start (name : J1939Name) (address : UInt8) (active : Bool)
  | stop
  | pass (us : ℕ)
  | tick (txReady : Bool)
  | onClaim (sa : UInt8) (name : J1939Name) (t : ℤ)
  | onRequest (sa da : UInt8) (pgn : UInt32)
  | transport (call : TpCall)
  | flush (accepted : Bool)

/-- Nothing was started. -/
def TxWorld.init (tp : J1939Tp) (t₀ : ℤ) : TxWorld where
  tx := ⟨j1939ClaimInit (fun _ => 0) 0, false, false, [], ⟨0, 0, 0, 0⟩, tp⟩
  clock := t₀
  sent := []

namespace TxOp

def apply (w : TxWorld) : TxOp → TxWorld
  | start name address active => { w with tx := w.tx.start name address active }
  | stop => { w with tx := w.tx.stop }
  | pass us => { w with clock := w.clock + us }
  | tick txReady => { w with tx := w.tx.tick txReady w.clock }
  | onClaim sa name t => { w with tx := w.tx.onClaim sa name t }
  | onRequest sa da pgn => { w with tx := w.tx.onRequest sa da pgn }
  | transport call => { w with tx := { w.tx with tp := (tpCall w.tx.tp call).1 } }
  | flush accepted =>
    match w.tx.takeFrame with
    | (_, none) => w
    | (tx, some f) => { w with
        tx := tx.sendFrame accepted
        sent := if accepted then w.sent ++ [(w.clock, f)] else w.sent }

/-- Frames were received before they are looked at. -/
def Allowed (w : TxWorld) : TxOp → Prop
  | onClaim _ _ t => t ≤ w.clock
  | _ => True

end TxOp

/-- The address-claimed frame of the address that is claimed. -/
def J1939Claim.frame (c : J1939Claim) : OutFrame := ClaimFrame.frame ⟨c.sa, c.name⟩

/-- The driver accepted it since the node went for this address. -/
def TxWorld.OnBus (w : TxWorld) : Prop :=
  ∃ u, (u, w.tx.claim.frame) ∈ w.sent ∧ w.tx.claim.sentUs ≤ u

/-- The claim is decided, and was not accepted yet. -/
def TxWorld.Unsent (w : TxWorld) : Prop := w.tx.claim.state = .claiming ∧ ¬ w.OnBus

namespace TxOp

/-- Nothing keeps a claim off the bus for longer than the grace period: when one
is decided there is room in the outbox and the frame that called for it is not
older than that; the driver accepts it; it waits no longer; and no tick ends the
wait within that time. -/
def Prompt (grace : ℕ) (w : TxWorld) : TxOp → Prop
  | tick txReady =>
    (w.tx.started = false → txReady = true → w.tx.out.length < txOutbox) ∧
      ¬ (w.tx.claim.state = .claiming ∧ w.tx.claim.sentUs + claimWaitUs ≤ w.clock ∧
        w.clock < w.tx.claim.sentUs + claimWaitUs + grace)
  | onClaim sa name t =>
    w.tx.claim.losesTo sa name → (nextCandidate w.tx.claim w.tx.claim.sa).2 ≠ j1939AddrNone →
      w.tx.out.length < txOutbox ∧ w.clock ≤ t + grace
  | pass us => w.Unsent → w.clock + us ≤ w.tx.claim.sentUs + grace
  | flush accepted => w.Unsent → w.tx.out.head? = some w.tx.claim.frame → accepted = true
  | _ => True

end TxOp

/-! ## What the sections do -/

namespace J1939Tx

variable {tx : J1939Tx}

/-- A section leaves the address alone; the outbox only grows. -/
structure Stays (tx tx' : J1939Tx) : Prop where
  claim : tx.claim.Same tx'.claim
  out : ∀ f ∈ tx.out, f ∈ tx'.out

theorem Stays.refl (tx : J1939Tx) : Stays tx tx :=
  ⟨⟨rfl, rfl, rfl, rfl, rfl, rfl, rfl⟩, fun _ hf => hf⟩

theorem queueFrame_frame (tx : J1939Tx) (f : OutFrame) :
    (tx.queueFrame f).claim = tx.claim ∧ ∀ g ∈ tx.out, g ∈ (tx.queueFrame f).out := by
  rw [queueFrame]
  split_ifs
  · exact ⟨rfl, fun g hg => hg⟩
  · exact ⟨rfl, fun g hg => mem_append_left _ hg⟩

theorem queueFrame_mem {f : OutFrame} (hroom : tx.out.length < txOutbox) :
    f ∈ (tx.queueFrame f).out := by
  rw [queueFrame, if_neg (not_le.mpr hroom)]
  exact mem_append_right _ (mem_singleton_self f)

theorem queueClaim_frame (tx : J1939Tx) (o : Option ClaimFrame) :
    (tx.queueClaim o).claim = tx.claim ∧ ∀ g ∈ tx.out, g ∈ (tx.queueClaim o).out := by
  cases o with
  | none => exact ⟨rfl, fun g hg => hg⟩
  | some o => exact queueFrame_frame tx o.frame

theorem stays_queueClaim {c : J1939Claim} (hsame : tx.claim.Same c) (o : Option ClaimFrame) :
    Stays tx ({ tx with claim := c }.queueClaim o) := by
  obtain ⟨hclaim, hout⟩ := queueClaim_frame { tx with claim := c } o
  exact ⟨hclaim.symm ▸ hsame, hout⟩

theorem stays_onRequest (tx : J1939Tx) (sa da : UInt8) (pgn : UInt32) :
    Stays tx (tx.onRequest sa da pgn) := by
  rw [onRequest]
  split_ifs
  · exact .refl tx
  · exact stays_queueClaim (claimRequest_same tx.claim) _
  · exact .refl tx
  · exact .refl tx
  · obtain ⟨hclaim, hout⟩ := queueFrame_frame tx
      ⟨j1939IdMake txPrioAck j1939PgnAckm tx.claim.sa j1939AddrAll,
        j1939AckmBuild j1939AckNegative sa pgn⟩
    refine ⟨?_, hout⟩
    rw [hclaim]
    exact ⟨rfl, rfl, rfl, rfl, rfl, rfl, rfl⟩

/-- A node goes for an address: it claims it from now on, and the frame that
says so is in the outbox if there was room. -/
structure GoesFor (tx tx' : J1939Tx) (now : ℤ) : Prop where
  state : tx'.claim.state = .claiming
  sentUs : tx'.claim.sentUs = now
  frame : tx.out.length < txOutbox → tx'.claim.frame ∈ tx'.out

theorem goesFor_claim (tx : J1939Tx) (c : J1939Claim) (sa : UInt8) (now : ℤ) :
    GoesFor tx ({ tx with claim := (c.claim sa now).1 }.queueClaim (c.claim sa now).2) now := by
  have hclaim := (queueClaim_frame { tx with claim := (c.claim sa now).1 } (c.claim sa now).2).1
  refine ⟨by rw [hclaim]; rfl, by rw [hclaim]; rfl, fun hroom => ?_⟩
  rw [hclaim]
  exact queueFrame_mem hroom

/-- **A tick** does nothing, goes for the address, or ends the wait. -/
theorem tick_cases (tx : J1939Tx) (txReady : Bool) (now : ℤ) :
    Stays tx (tx.tick txReady now) ∨
      (tx.started = false ∧ txReady = true ∧ GoesFor tx (tx.tick txReady now) now) ∨
      (tx.claim.state = .claiming ∧ claimWaitUs ≤ now - tx.claim.sentUs ∧
        (tx.tick txReady now).claim = { tx.claim with state := .claimed } ∧
        (tx.tick txReady now).out = tx.out) := by
  rw [tick]
  split_ifs with hactive hstarted hready
  · exact .inl (.refl tx)
  · exact .inl (.refl tx)
  · refine .inr (.inl ⟨hstarted, by simpa using hready, ?_⟩)
    obtain ⟨hstate, hsent, hframe⟩ := goesFor_claim tx { tx.claim with
      nextDyn := claimAddrMin
      triedTool2 := false } tx.claim.preferred now
    exact ⟨hstate, hsent, hframe⟩
  · rw [j1939ClaimTick]
    split_ifs with hwait
    · exact .inr (.inr ⟨hwait.1, hwait.2, rfl, rfl⟩)
    · exact .inl ⟨⟨rfl, rfl, rfl, rfl, rfl, rfl, rfl⟩, fun f hf => hf⟩

theorem nextCandidate_stats (c : J1939Claim) (st : ClaimStats) (lost : UInt8) :
    (nextCandidate { c with stats := st } lost).2 = (nextCandidate c lost).2 := by
  rw [nextCandidate, nextCandidate]
  split_ifs <;> rfl

/-- **A claim that is received** leaves the address alone, or takes it away, or
makes the node go for the next one. -/
theorem onClaim_cases (tx : J1939Tx) (sa : UInt8) (name : J1939Name) (now : ℤ) :
    Stays tx (tx.onClaim sa name now) ∨ (tx.onClaim sa name now).claim.state = .cannot ∨
      (tx.claim.losesTo sa name ∧ (nextCandidate tx.claim tx.claim.sa).2 ≠ j1939AddrNone ∧
        GoesFor tx (tx.onClaim sa name now) now) := by
  rw [onClaim]
  split_ifs with hoff hown
  · exact .inl (.refl tx)
  · exact .inl (.refl tx)
  · by_cases hlose : tx.claim.losesTo sa name
    · right
      have hrx : j1939ClaimRx tx.claim sa name now =
          if (nextCandidate { tx.claim with stats := { tx.claim.stats with
              contests := tx.claim.stats.contests + 1
              lost := tx.claim.stats.lost + 1 } } tx.claim.sa).2 = j1939AddrNone then
            (nextCandidate { tx.claim with stats := { tx.claim.stats with
              contests := tx.claim.stats.contests + 1
              lost := tx.claim.stats.lost + 1 } } tx.claim.sa).1.cannot
          else (nextCandidate { tx.claim with stats := { tx.claim.stats with
              contests := tx.claim.stats.contests + 1
              lost := tx.claim.stats.lost + 1 } } tx.claim.sa).1.claim
            (nextCandidate { tx.claim with stats := { tx.claim.stats with
              contests := tx.claim.stats.contests + 1
              lost := tx.claim.stats.lost + 1 } } tx.claim.sa).2 now := by
        rw [j1939ClaimRx, if_neg (not_not.mpr hlose.1)]
        rw [if_neg (not_le.mpr hlose.2)]
      have hcand := nextCandidate_stats tx.claim { tx.claim.stats with
        contests := tx.claim.stats.contests + 1
        lost := tx.claim.stats.lost + 1 } tx.claim.sa
      generalize nextCandidate { tx.claim with stats := { tx.claim.stats with
        contests := tx.claim.stats.contests + 1
        lost := tx.claim.stats.lost + 1 } } tx.claim.sa = r at hrx hcand
      rw [hrx]
      split_ifs with hnone
      · left
        have hclaim := (queueClaim_frame { tx with claim := r.1.cannot.1 } r.1.cannot.2).1
        exact (congrArg J1939Claim.state hclaim).trans rfl
      · right
        obtain ⟨hstate, hsent, hframe⟩ := goesFor_claim tx r.1 r.2 now
        exact ⟨hlose, hcand ▸ hnone, hstate, hsent, hframe⟩
    · left
      obtain ⟨hsame, hout⟩ := stays_queueClaim (claimRx_kept now hlose)
        (j1939ClaimRx tx.claim sa name now).2
      exact ⟨hsame, hout⟩

theorem takeFrame_spec {tx tx' : J1939Tx} {f : OutFrame} (h : tx.takeFrame = (tx', some f)) :
    tx'.claim = tx.claim ∧ ∀ g ∈ tx.out, g = f ∧ tx.out.head? = some f ∨ g ∈ tx'.out := by
  rw [takeFrame] at h
  by_cases hactive : tx.active = false
  · rw [if_pos hactive] at h
    cases h
  rw [if_neg hactive] at h
  cases hout : tx.out with
  | cons g out =>
    rw [hout] at h
    obtain ⟨rfl, hf⟩ := Prod.mk.inj h
    obtain rfl := Option.some.inj hf
    refine ⟨rfl, fun x hx => ?_⟩
    rcases mem_cons.mp hx with rfl | hx
    · exact .inl ⟨rfl, rfl⟩
    · exact .inr hx
  | nil =>
    rw [hout] at h
    refine ⟨?_, fun g hg => absurd hg not_mem_nil⟩
    dsimp only at h
    split_ifs at h
    · split at h
      · exact (congrArg (fun r => J1939Tx.claim r.1) h).symm
      · cases h
    · cases h

end J1939Tx

/-! ## The invariant -/

/-- A claim that is decided waits in the outbox or was accepted, no later than
the grace period; one that is held was accepted the wait before. -/
structure TxWorld.Kept (grace : ℕ) (w : TxWorld) : Prop where
  sent_le : ∀ u f, (u, f) ∈ w.sent → u ≤ w.clock
  claiming : w.tx.claim.state = .claiming → w.tx.claim.sentUs ≤ w.clock ∧
    ((∃ u, (u, w.tx.claim.frame) ∈ w.sent ∧ w.tx.claim.sentUs ≤ u ∧
        u ≤ w.tx.claim.sentUs + grace) ∨
      (w.tx.claim.frame ∈ w.tx.out ∧ w.clock ≤ w.tx.claim.sentUs + grace))
  claimed : w.tx.claim.state = .claimed →
    ∃ u, (u, w.tx.claim.frame) ∈ w.sent ∧ w.tx.claim.sentUs ≤ u ∧ u + claimWaitUs ≤ w.clock

theorem J1939Claim.Same.frame {c c' : J1939Claim} (h : c.Same c') : c'.frame = c.frame := by
  rw [J1939Claim.frame, J1939Claim.frame, h.sa, h.name]

namespace TxWorld

variable {grace : ℕ} {w : TxWorld}

theorem Kept.init (tp : J1939Tp) (t₀ : ℤ) : (TxWorld.init tp t₀).Kept grace :=
  ⟨fun _ _ h => absurd h not_mem_nil, nofun, nofun⟩

theorem Kept.stays (h : w.Kept grace) {tx : J1939Tx} (hstays : w.tx.Stays tx) :
    { w with tx := tx }.Kept grace := by
  obtain ⟨hsame, hout⟩ := hstays
  refine ⟨h.sent_le, fun hstate => ?_, fun hstate => ?_⟩
  · obtain ⟨hle, hcases⟩ := h.claiming (hsame.state ▸ hstate)
    rw [hsame.frame, hsame.sentUs]
    exact ⟨hle, hcases.imp_right fun ⟨hmem, hgrace⟩ => ⟨hout _ hmem, hgrace⟩⟩
  · obtain ⟨u, hu⟩ := h.claimed (hsame.state ▸ hstate)
    refine ⟨u, ?_⟩
    rw [hsame.frame, hsame.sentUs]
    exact hu

theorem Kept.silent (h : w.Kept grace) {tx : J1939Tx}
    (hstate : tx.claim.state = .idle ∨ tx.claim.state = .cannot) :
    { w with tx := tx }.Kept grace := by
  refine ⟨h.sent_le, fun hclaiming => ?_, fun hclaimed => ?_⟩
  · rw [hclaiming] at hstate
    rcases hstate with hstate | hstate <;> cases hstate
  · rw [hclaimed] at hstate
    rcases hstate with hstate | hstate <;> cases hstate

/-- **A claim is decided**: its frame is in the outbox. -/
theorem Kept.goesFor (h : w.Kept grace) {tx : J1939Tx} {t : ℤ} (hgoes : w.tx.GoesFor tx t)
    (hroom : w.tx.out.length < txOutbox) (hle : t ≤ w.clock) (hgrace : w.clock ≤ t + grace) :
    { w with tx := tx }.Kept grace := by
  refine ⟨h.sent_le, fun _ => ?_, fun hclaimed => ?_⟩
  · rw [hgoes.sentUs]
    exact ⟨hle, .inr ⟨hgoes.frame hroom, hgrace⟩⟩
  · rw [hgoes.state] at hclaimed
    cases hclaimed

/-- **The wait ends**: by then the frame has been on the bus for as long. -/
theorem Kept.ends (h : w.Kept grace) {tx : J1939Tx} (hstate : w.tx.claim.state = .claiming)
    (hwait : w.tx.claim.sentUs + claimWaitUs + grace ≤ w.clock)
    (hclaim : tx.claim = { w.tx.claim with state := .claimed }) :
    { w with tx := tx }.Kept grace := by
  refine ⟨h.sent_le, fun hclaiming => ?_, fun _ => ?_⟩
  · rw [hclaim] at hclaiming
    cases hclaiming
  · have hframe : tx.claim.frame = w.tx.claim.frame := by
      rw [hclaim]
      rfl
    have hsent : tx.claim.sentUs = w.tx.claim.sentUs := by rw [hclaim]
    have hpos : 0 < claimWaitUs := by decide
    dsimp only
    rw [hframe, hsent]
    obtain ⟨-, ⟨u, hu, hle, hgrace⟩ | ⟨-, hgrace⟩⟩ := h.claiming hstate
    · exact ⟨u, hu, hle, by omega⟩
    · omega

theorem Kept.pass (h : w.Kept grace) {us : ℕ}
    (hprompt : w.Unsent → w.clock + us ≤ w.tx.claim.sentUs + grace) :
    { w with clock := w.clock + us }.Kept grace := by
  refine ⟨fun u f hu => ?_, fun hstate => ?_, fun hstate => ?_⟩
  · have hle := h.sent_le u f hu
    dsimp only
    omega
  · obtain ⟨hle, hcases⟩ := h.claiming hstate
    dsimp only at hcases ⊢
    refine ⟨by omega, ?_⟩
    rcases hcases with hsent | ⟨hmem, hgrace⟩
    · exact .inl hsent
    · by_cases hbus : w.OnBus
      · obtain ⟨u, hu, hfrom⟩ := hbus
        have hto := h.sent_le u _ hu
        exact .inl ⟨u, hu, hfrom, by omega⟩
      · exact .inr ⟨hmem, hprompt ⟨hstate, hbus⟩⟩
  · obtain ⟨u, hu, hfrom, hto⟩ := h.claimed hstate
    exact ⟨u, hu, hfrom, by dsimp only; omega⟩

/-- **A frame is sent**: a claim that is due is accepted. -/
theorem Kept.flush (h : w.Kept grace) {tx : J1939Tx} {f : OutFrame} {accepted : Bool}
    (htake : w.tx.takeFrame = (tx, some f))
    (hprompt : w.Unsent → w.tx.out.head? = some w.tx.claim.frame → accepted = true) :
    TxWorld.Kept grace { w with
      tx := tx.sendFrame accepted
      sent := if accepted then w.sent ++ [(w.clock, f)] else w.sent } := by
  obtain ⟨hclaim, hout⟩ := J1939Tx.takeFrame_spec htake
  have hsend : (tx.sendFrame accepted).claim = w.tx.claim ∧ (tx.sendFrame accepted).out = tx.out := by
    rw [J1939Tx.sendFrame]
    split_ifs <;> exact ⟨hclaim, rfl⟩
  have hmore : ∀ p ∈ w.sent, p ∈ if accepted then w.sent ++ [(w.clock, f)] else w.sent := by
    intro p hp
    split_ifs
    · exact mem_append_left _ hp
    · exact hp
  refine ⟨fun u g hu => ?_, fun hstate => ?_, fun hstate => ?_⟩
  · split_ifs at hu
    · rcases mem_append.mp hu with hu | hu
      · exact h.sent_le u g hu
      · rw [mem_singleton, Prod.mk.injEq] at hu
        exact hu.1.le
    · exact h.sent_le u g hu
  · rw [hsend.1] at hstate ⊢
    rw [hsend.2]
    obtain ⟨hle, hcases⟩ := h.claiming hstate
    refine ⟨hle, ?_⟩
    rcases hcases with ⟨u, hu, hfrom, hto⟩ | ⟨hmem, hgrace⟩
    · exact .inl ⟨u, hmore _ hu, hfrom, hto⟩
    · rcases hout _ hmem with ⟨hf, hhead⟩ | hstill
      · by_cases hbus : w.OnBus
        · obtain ⟨u, hu, hfrom⟩ := hbus
          have hto := h.sent_le u _ hu
          exact .inl ⟨u, hmore _ hu, hfrom, hto.trans hgrace⟩
        · have hacc := hprompt ⟨hstate, hbus⟩ (hf ▸ hhead)
          refine .inl ⟨w.clock, ?_, hle, hgrace⟩
          rw [hacc, hf]
          exact mem_append_right _ (mem_singleton_self _)
      · exact .inr ⟨hstill, hgrace⟩
  · rw [hsend.1] at hstate ⊢
    obtain ⟨u, hu, hfrom, hto⟩ := h.claimed hstate
    exact ⟨u, hmore _ hu, hfrom, hto⟩

end TxWorld

/-- A step that keeps claims off the bus for no longer than the grace period. -/
def TxStep (grace : ℕ) (w : TxWorld) (op : TxOp) (w' : TxWorld) : Prop :=
  op.Allowed w ∧ op.Prompt grace w ∧ w' = op.apply w

theorem TxStep.kept {grace : ℕ} {w w' : TxWorld} {op : TxOp} (hstep : TxStep grace w op w')
    (h : w.Kept grace) : w'.Kept grace := by
  obtain ⟨hallowed, hprompt, rfl⟩ := hstep
  cases op with
  | start name address active => exact h.silent (.inl rfl)
  | stop => exact h.silent (.inl rfl)
  | pass us => exact h.pass hprompt
  | tick txReady =>
    obtain ⟨hroom, hwindow⟩ := hprompt
    rcases w.tx.tick_cases txReady w.clock with hstays | ⟨hstarted, hready, hgoes⟩ |
      ⟨hstate, hwait, hclaim, -⟩
    · exact h.stays hstays
    · exact h.goesFor hgoes (hroom hstarted hready) (le_refl _) (by omega)
    · refine h.ends hstate ?_ hclaim
      by_contra hearly
      exact hwindow ⟨hstate, by omega, by omega⟩
  | onClaim sa name t =>
    rcases w.tx.onClaim_cases sa name t with hstays | hcannot | ⟨hlose, hnext, hgoes⟩
    · exact h.stays hstays
    · exact h.silent (.inr hcannot)
    · obtain ⟨hroom, hgrace⟩ := hprompt hlose hnext
      exact h.goesFor hgoes hroom hallowed hgrace
  | onRequest sa da pgn => exact h.stays (w.tx.stays_onRequest sa da pgn)
  | transport call => exact h.stays ⟨⟨rfl, rfl, rfl, rfl, rfl, rfl, rfl⟩, fun _ hf => hf⟩
  | flush accepted =>
    rw [TxOp.apply]
    rcases htake : w.tx.takeFrame with ⟨tx, _ | f⟩
    · exact h
    · exact h.flush htake hprompt

/-- **The node holds an address only after its claim was on the bus**: in every
run in which nothing keeps a claim off the bus, the frame of the address it
holds was accepted by the driver, since it went for it, the wait before. -/
theorem j1939Tx_claimed {grace : ℕ} {tp : J1939Tp} {t₀ : ℤ} {ops : List TxOp} {w : TxWorld}
    (hrun : Run (TxStep grace) (TxWorld.init tp t₀) ops w)
    (hclaimed : w.tx.claim.state = .claimed) :
    ∃ u, (u, w.tx.claim.frame) ∈ w.sent ∧ w.tx.claim.sentUs ≤ u ∧ u + claimWaitUs ≤ w.clock :=
  (hrun.inv (I := TxWorld.Kept grace) (fun _ _ _ hstep => hstep.kept)
    (.init tp t₀)).claimed hclaimed

/-! ## A claim that the driver refuses -/

def quietTp : J1939Tp := ⟨fun _ => .zero, fun _ _ => 0, .zero, j1939AddrNone, []⟩

/-- Active mode is on, the bus is open, and the claim goes to the driver. -/
def claimSent (accepted : Bool) : List TxOp :=
  [.start (fun _ => 0) 249 true, .tick true, .flush accepted, .pass 250000, .tick true]

theorem j1939Tx_claimed_accepted :
    ∃ w, w = (claimSent true).foldl TxOp.apply (TxWorld.init quietTp 1000000) ∧
      w.tx.claim.state = .claimed ∧
      ∃ u, (u, w.tx.claim.frame) ∈ w.sent ∧ w.tx.claim.sentUs ≤ u ∧ u + claimWaitUs ≤ w.clock := by
  have hrun : Run (TxStep 0) (TxWorld.init quietTp 1000000) (claimSent true)
      ((claimSent true).foldl TxOp.apply (TxWorld.init quietTp 1000000)) := by
    refine .cons ⟨trivial, trivial, rfl⟩ (.cons ⟨trivial, ⟨by decide, ?_⟩, rfl⟩
      (.cons ⟨trivial, fun _ _ => rfl, rfl⟩ (.cons ⟨trivial, ?_, rfl⟩
        (.cons ⟨trivial, ⟨by decide, ?_⟩, rfl⟩ (.nil _)))))
    · rintro ⟨hstate, -⟩
      cases hstate
    · rintro ⟨-, hunsent⟩
      exact absurd ⟨1000000, mem_cons_self, le_refl _⟩ hunsent
    · rintro ⟨-, hle, hlt⟩
      exact absurd hlt (not_lt.mpr hle)
  exact ⟨_, rfl, rfl, j1939Tx_claimed hrun rfl⟩

/-- The driver refuses the frame, and the node holds the address all the same. -/
theorem j1939Tx_claimed_refused :
    ∃ w, Run (fun w op w' => op.Allowed w ∧ w' = TxOp.apply w op) (TxWorld.init quietTp 1000000)
        (claimSent false) w ∧
      w.tx.claim.state = .claimed ∧ ¬ ∃ u, (u, w.tx.claim.frame) ∈ w.sent := by
  refine ⟨_, .cons ⟨trivial, rfl⟩ (.cons ⟨trivial, rfl⟩ (.cons ⟨trivial, rfl⟩
    (.cons ⟨trivial, rfl⟩ (.cons ⟨trivial, rfl⟩ (.nil _))))), rfl, ?_⟩
  rintro ⟨u, hu⟩
  exact absurd hu not_mem_nil

end Meatpi
