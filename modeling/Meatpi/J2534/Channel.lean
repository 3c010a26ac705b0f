import Mathlib.Data.List.FinRange
import Meatpi.Library.Lease

/-!
# A pass-through channel (`j2534_channel.c`, `j2534_channel_iso.c`)

A channel keeps a table of filters and a table of ISO-TP sessions. A
`FLOW_CONTROL` filter opens the session of one ECU and names its slot; a write
picks the session by the request id, and opens it again when the message wants
the other padding. What the provider (`can_isotp.h`) answers in a call comes
with the call, and what it has open is kept beside the channel, so that a
session can be looked up where it lives. Every function runs under the
channel's lock.
-/

namespace Meatpi

/-! ## The tables -/

def j2534ChMaxFilters : ℕ := 8
def j2534ChMaxSessions : ℕ := 4
def j2534ChMaxInd : ℕ := 4
def j2534MaxData : ℕ := 4128

def j2534ProtJ1850vpw : UInt32 := 1
def j2534ProtCan : UInt32 := 5
def j2534ProtIso15765 : UInt32 := 6

def j2534PassFilter : UInt32 := 1
def j2534BlockFilter : UInt32 := 2
def j2534FlowControlFilter : UInt32 := 3

/-- `J2534_TX_ISO15765_FRAME_PAD` -/
def j2534TxFramePad : UInt32 := 0x40
/-- `J2534_TX_ISO15765_ADDR_TYPE` -/
def j2534TxAddrType : UInt32 := 0x80
def j2534TxCan29bitId : UInt32 := 0x100
/-- `J2534_RX_TX_MSG_TYPE | J2534_RX_TX_INDICATION` -/
def j2534TxDone : UInt32 := 0x09

/-- The statuses these functions return. -/
inductive J2534Status where
  | noerror
  | notSupported
  | invalidChannelId
  | nullParameter
  | failed
  | timeout
  | invalidMsg
  | exceededLimit
  | msgProtocolId
  | invalidFilterId
  | noFlowControl
  deriving DecidableEq

/-- What a call of another component fails with (`esp_err_t`). -/
inductive EspErr where
  | noMem
  | invalidState
  | timeout
  | other (code : ℤ)
  deriving DecidableEq

/-- `j2534_msg_t`, with the `data_size` bytes of `data`. -/
structure J2534Msg where
  txFlags : UInt32
  data : List UInt8

/-- A session slot of the channel. -/
abbrev SessSlot := Fin j2534ChMaxSessions

/-- What the provider names an open session by; never `NULL`. -/
abbrev IsotpHandle := ℕ

/-- `j2534_ch_filter_t`; the session is -1 for a filter that opened none. -/
structure J2534ChFilter where
  id : UInt32
  type : UInt32
  mask : List UInt8
  pattern : List UInt8
  len : UInt8
  session : Option SessSlot

/-- `j2534_iso_session_t`, all zero when it was closed. -/
structure J2534IsoSession where
  inUse : Bool := false
  txId : UInt32 := 0
  rxId : UInt32 := 0
  ext : Bool := false
  pad : Bool := false
  isotp : Option IsotpHandle := none

structure CanIsotpCfg where
  txId : UInt32
  rxId : UInt32
  extId : Bool
  blockSize : UInt8
  stminMs : UInt8
  paddingByte : UInt8
  usePadding : Bool

structure J2534ChInd where
  rxStatus : UInt32
  id : UInt32
  ext : Bool
  tsUs : UInt32

/-- `j2534_channel_t`, with the filters and the pending indications in order. -/
structure J2534Channel where
  inUse : Bool
  protocol : UInt32
  flags : UInt32
  ext : Bool
  filters : List J2534ChFilter
  nextFilterId : UInt32
  sess : SessSlot → J2534IsoSession
  ind : List J2534ChInd

/-- A channel, and the sessions the provider has open for it. -/
structure J2534World where
  ch : J2534Channel
  isotp : IsotpHandle → Option CanIsotpCfg

/-- The provider's `open` in one call: given the sessions it has out, it fails,
or names the new session by a handle that is not out. -/
structure IsotpProvider where
  openSession : (IsotpHandle → Option CanIsotpCfg) → CanIsotpCfg → Except EspErr IsotpHandle
  fresh : ∀ held cfg h, openSession held cfg = .ok h → held h = none

/-- What the other components answer during one call. -/
structure J2534Env where
  /-- a provider is registered and the CAN node is up -/
  providerReady : Bool
  /-- the provider's `open` -/
  provider : IsotpProvider
  /-- `can_manager_tx_ready` -/
  txReady : Bool
  /-- the provider's `send` -/
  sent : Except EspErr Unit
  /-- `can_manager_send` -/
  canSent : Except EspErr Unit
  /-- the channel got its bus subscription -/
  subscribed : Bool
  /-- what the J1850 side answers -/
  legacy : J2534Status
  /-- the clock -/
  nowUs : UInt32

/-- What a write does besides changing the channel. -/
inductive J2534Eff where
  | gateAcquire
  | gateRelease
  | sayRefused
  | noteReflash (sid : UInt8)
  | isotpSend (handle : Option IsotpHandle) (payload : List UInt8) (timeoutMs : ℕ)
  | canSend (id : UInt32) (ext : Bool) (frame : List UInt8)

def getIdBe (data : List UInt8) : UInt32 :=
  ((data.getD 0 0).toUInt32 <<< 24) ||| ((data.getD 1 0).toUInt32 <<< 16) |||
    ((data.getD 2 0).toUInt32 <<< 8) ||| (data.getD 3 0).toUInt32

/-- A flag of `tx_flags`. -/
def hasFlag (flags bit : UInt32) : Bool := flags &&& bit != 0

/-- The bits of an id, 11 or 29. -/
def idMask (ext : Bool) : UInt32 := if ext then 0x1FFFFFFF else 0x7FF

/-! ## The session table -/

/-- The configuration a record is opened with. -/
def J2534IsoSession.cfg (s : J2534IsoSession) : CanIsotpCfg where
  txId := s.txId
  rxId := s.rxId
  extId := s.ext
  blockSize := 0
  stminMs := 0
  paddingByte := 0xAA
  usePadding := s.pad

def findFree (c : J2534Channel) : Option SessSlot :=
  (List.finRange j2534ChMaxSessions).find? fun i => !(c.sess i).inUse

def findByRx (c : J2534Channel) (rxId : UInt32) (ext : Bool) : Option SessSlot :=
  (List.finRange j2534ChMaxSessions).find? fun i =>
    (c.sess i).inUse && (c.sess i).rxId == rxId && (c.sess i).ext == ext

def findByTx (c : J2534Channel) (txId : UInt32) (ext : Bool) : Option SessSlot :=
  (List.finRange j2534ChMaxSessions).find? fun i =>
    (c.sess i).inUse && (c.sess i).txId == txId && (c.sess i).ext == ext

namespace J2534World

/-- Write one session record. -/
def setSess (w : J2534World) (i : SessSlot) (s : J2534IsoSession) : J2534World :=
  { w with ch := { w.ch with sess := Function.update w.ch.sess i s } }

/-- `session_open` on the record of a slot, whose ids and padding are set. -/
def sessionOpen (w : J2534World) (env : J2534Env) (i : SessSlot) : J2534World × J2534Status :=
  match env.provider.openSession w.isotp (w.ch.sess i).cfg with
  | .ok h =>
    ({ w.setSess i { w.ch.sess i with isotp := some h, inUse := true } with
        isotp := Function.update w.isotp h (some (w.ch.sess i).cfg) }, .noerror)
  | .error e =>
    (w.setSess i { w.ch.sess i with isotp := none, inUse := false },
      if e = .noMem then .exceededLimit else .failed)

def sessionClose (w : J2534World) (i : SessSlot) : J2534World :=
  let s := w.ch.sess i
  { w.setSess i {} with
    isotp := match s.inUse, s.isotp with
      | true, some h => Function.update w.isotp h none
      | _, _ => w.isotp }

/-- Set the ids and the padding of a record and open it. -/
def sessionArm (w : J2534World) (env : J2534Env) (i : SessSlot) (txId rxId : UInt32)
    (ext pad : Bool) : J2534World × J2534Status :=
  (w.setSess i { w.ch.sess i with txId := txId, rxId := rxId, ext := ext, pad := pad }).sessionOpen
    env i

/-- `j2534_iso_bind`: open the session of an ECU, or, for an id the channel
already serves, open it again in its slot. -/
def isoBind (w : J2534World) (env : J2534Env) (txId rxId : UInt32) (ext pad : Bool) :
    J2534World × J2534Status × Option SessSlot :=
  if !env.providerReady then
    (w, .failed, none)
  else
    match findByRx w.ch rxId ext with
    | some i =>
      let r := (w.sessionClose i).sessionArm env i txId rxId ext pad
      (r.1, r.2, if r.2 = .noerror then some i else none)
    | none =>
      match findFree w.ch with
      | none => (w, .exceededLimit, none)
      | some i =>
        let r := w.sessionArm env i txId rxId ext pad
        (r.1, r.2, if r.2 = .noerror then some i else none)

/-- `j2534_iso_unbind` -/
def isoUnbind (w : J2534World) (slot : Option SessSlot) : J2534World :=
  match slot with
  | some i => w.sessionClose i
  | none => w

/-- `j2534_iso_unbind_all` -/
def isoUnbindAll (w : J2534World) : J2534World :=
  let w := (List.finRange j2534ChMaxSessions).foldl sessionClose w
  { w with ch := { w.ch with ind := [] } }

/-! ## Lifecycle -/

/-- `teardown`, as far as the record goes. -/
def teardown (w : J2534World) : J2534World :=
  { w.isoUnbindAll with
    ch :=
      { inUse := false, protocol := 0, flags := 0, ext := false, filters := [], nextFilterId := 0
        sess := fun _ => {}, ind := [] } }

/-- `j2534_channel_connect` -/
def channelConnect (w : J2534World) (env : J2534Env) (protocol flags txId rxId : UInt32)
    (ext : Bool) : J2534World × J2534Status :=
  let w := w.teardown
  let w : J2534World :=
    { w with
      ch :=
        { w.ch with
          inUse := true, protocol := protocol, flags := flags, ext := ext, nextFilterId := 1 } }
  let r : J2534World × J2534Status :=
    if protocol = j2534ProtCan then
      (w, if env.subscribed then .noerror else .failed)
    else if protocol = j2534ProtIso15765 then
      if !env.subscribed then
        (w, .failed)
      else if txId ≠ 0 ∧ rxId ≠ 0 then
        -- the ids on CONNECT; standard tools arm a FLOW_CONTROL filter instead
        let b := w.isoBind env txId rxId ext false
        (b.1, b.2.1)
      else
        (w, .noerror)
    else if protocol = j2534ProtJ1850vpw then
      (w, env.legacy)
    else
      (w, .notSupported)
  if r.2 ≠ .noerror then (r.1.teardown, r.2) else r

end J2534World

/-! ## Write -/

/-- `j2534_iso_split` -/
def isoSplit (msg : J2534Msg) : Option (UInt32 × List UInt8) :=
  if msg.data.length < 4 ∨ msg.data.length > j2534MaxData ∨ hasFlag msg.txFlags j2534TxAddrType then
    none
  else
    some (getIdBe msg.data, msg.data.drop 4)

/-- `j2534_iso_single_frame` -/
def isoSingleFrame (payload : List UInt8) (pad : Bool) : List UInt8 :=
  if payload.length = 0 ∨ payload.length > 7 then
    []
  else
    let frame := UInt8.ofNat payload.length :: payload
    if pad && frame.length < 8 then frame ++ List.replicate (8 - frame.length) 0xAA else frame

/-- `send_timeout_ms`: capped under the 6 s a tool waits for the answer. -/
def sendTimeoutMs (len : ℕ) : ℕ :=
  let frames := if len ≤ 7 then 1 else 1 + (len - 6 + 6) / 7
  min 5500 (1500 + frames * 10)

/-- `indicate`: when the pump is behind, the oldest indication goes. -/
def indicateAt (c : J2534Channel) (rxStatus id : UInt32) (ext : Bool) (nowUs : UInt32) :
    J2534Channel :=
  let pending := if c.ind.length + 1 = j2534ChMaxInd then c.ind.tail else c.ind
  { c with ind := pending ++ [⟨rxStatus, id, ext, nowUs⟩] }

/-- `j2534_ch_note_reflash`: the memory-transfer services are counted. -/
def chNoteReflash (sid : UInt8) : List J2534Eff :=
  if 0x34 ≤ sid ∧ sid ≤ 0x37 then [.noteReflash sid] else []

/-- The request id, the payload, the 29-bit flag and the padding of a message
that `j2534_iso_write` goes on with. -/
def isoRequest (msg : J2534Msg) : Option (UInt32 × List UInt8 × Bool × Bool) :=
  match isoSplit msg with
  | none => none
  | some (id, payload) =>
    if payload.length = 0 then
      none
    else
      let ext := hasFlag msg.txFlags j2534TxCan29bitId
      some (id &&& idMask ext, payload, ext, hasFlag msg.txFlags j2534TxFramePad)

namespace J2534World

/-- `pad_rebind`: a session opened the other way is opened again. -/
def padRebind (w : J2534World) (env : J2534Env) (i : SessSlot) (pad : Bool) :
    J2534World × Bool :=
  let s := w.ch.sess i
  if s.pad = pad then
    (w, true)
  else
    let r := (w.sessionClose i).sessionArm env i s.txId s.rxId s.ext pad
    (r.1, r.2 = .noerror)

/-- The end of `j2534_iso_write`: what `send` answered. -/
def writeDone (w : J2534World) (env : J2534Env) (result : Except EspErr Unit) (id : UInt32)
    (payload : List UInt8) (ext indicateDone : Bool) : J2534World × J2534Status × List J2534Eff :=
  match result with
  | .error e =>
    (w, if e = .timeout then .timeout else .failed,
      [.gateRelease] ++ if e = .invalidState then [.sayRefused] else [])
  | .ok _ =>
    (if indicateDone then { w with ch := indicateAt w.ch j2534TxDone id ext env.nowUs } else w,
      .noerror, chNoteReflash (payload.getD 0 0))

/-- `j2534_iso_write` -/
def isoWrite (w : J2534World) (env : J2534Env) (msg : J2534Msg) (indicateDone : Bool) :
    J2534World × J2534Status × List J2534Eff :=
  match isoRequest msg with
  | none => (w, .invalidMsg, [])
  | some (id, payload, ext, pad) =>
    match findByTx w.ch id ext with
    | none =>
      if payload.length > 7 then
        (w, .noFlowControl, [])
      else if !env.txReady then
        (w, .failed, [.sayRefused])
      else
        -- functional addressing: one frame, no session
        let r := w.writeDone env env.canSent id payload ext indicateDone
        (r.1, r.2.1,
          .gateAcquire :: .canSend id ext (isoSingleFrame payload pad) :: r.2.2)
    | some i =>
      if !env.txReady then
        (w, .failed, [.sayRefused])
      else
        let p := w.padRebind env i pad
        if !p.2 then
          (p.1, .failed, [.gateAcquire, .gateRelease])
        else
          let r := p.1.writeDone env env.sent id payload ext indicateDone
          (r.1, r.2.1,
            .gateAcquire ::
              .isotpSend (p.1.ch.sess i).isotp payload (sendTimeoutMs payload.length) :: r.2.2)

/-- `write_common` on a slot of the table -/
def writeCommon (w : J2534World) (env : J2534Env) (msg : J2534Msg) (indicate : Bool) :
    J2534World × J2534Status × List J2534Eff :=
  if !w.ch.inUse then
    (w, .invalidChannelId, [])
  else if w.ch.protocol = j2534ProtCan then
    if msg.data.length < 4 ∨ msg.data.length > 12 then
      (w, .invalidMsg, [])
    else
      let ext := hasFlag msg.txFlags j2534TxCan29bitId
      let eff := [.canSend (getIdBe msg.data) ext (msg.data.drop 4)]
      match env.canSent with
      | .ok _ => (w, .noerror, eff)
      | .error e => (w, .failed, eff ++ if e = .invalidState then [.sayRefused] else [])
  else if w.ch.protocol = j2534ProtIso15765 then
    w.isoWrite env msg indicate
  else if w.ch.protocol = j2534ProtJ1850vpw then
    (w, env.legacy, [])
  else
    (w, .msgProtocolId, [])

/-- `j2534_channel_write` -/
def channelWrite (w : J2534World) (env : J2534Env) (msg : J2534Msg) :
    J2534World × J2534Status × List J2534Eff :=
  w.writeCommon env msg true

/-- `j2534_channel_write_periodic` -/
def channelWritePeriodic (w : J2534World) (env : J2534Env) (msg : J2534Msg) :
    J2534World × J2534Status × List J2534Eff :=
  w.writeCommon env msg false

end J2534World

/-! ## Filters -/

/-- `filter_remove_at`: the last record takes the place. -/
def filterRemoveAt (filters : List J2534ChFilter) (i : ℕ) : List J2534ChFilter :=
  swapRemove filters i

/-- The loop of a removal: the first record with a property goes. -/
def filterRemove (filters : List J2534ChFilter) (p : J2534ChFilter → Bool) : List J2534ChFilter :=
  match filters.findIdx? p with
  | some i => filterRemoveAt filters i
  | none => filters

/-- Bytes in a field of 8. -/
def bytes8 (data : List UInt8) : List UInt8 := data ++ List.replicate (8 - data.length) 0

/-- The ids an ECU is talked to by. -/
structure J2534EcuIds where
  txId : UInt32
  rxId : UInt32
  ext : Bool

/-- The ids a `FLOW_CONTROL` filter is asked for: the pattern is the ECU's
response id, the flow control message its request id. -/
def ecuIds (pattern flowControl : J2534Msg) : J2534EcuIds :=
  let ext := hasFlag (pattern.txFlags ||| flowControl.txFlags) j2534TxCan29bitId
  { txId := getIdBe flowControl.data &&& idMask ext
    rxId := getIdBe pattern.data &&& idMask ext
    ext := ext }

namespace J2534World

/-- The `FLOW_CONTROL` branch of `j2534_channel_add_filter`. -/
def addFlowControl (w : J2534World) (env : J2534Env) (pattern flowControl : Option J2534Msg) :
    J2534World × J2534Status × Option UInt32 :=
  match pattern, flowControl with
  | some pattern, some flowControl =>
    if w.ch.protocol ≠ j2534ProtIso15765 ∨ pattern.data.length < 4 ∨ flowControl.data.length < 4 then
      (w, .invalidMsg, none)
    else if w.ch.filters.length ≥ j2534ChMaxFilters then
      (w, .exceededLimit, none)
    else
      let ids := ecuIds pattern flowControl
      let pad := hasFlag flowControl.txFlags j2534TxFramePad
      match w.isoBind env ids.txId ids.rxId ids.ext pad with
      | (w, .noerror, sess) =>
        -- the tool re-arming the same ECU: its old record goes
        let kept := filterRemove w.ch.filters fun f =>
          f.type == j2534FlowControlFilter && f.session == sess
        let f : J2534ChFilter :=
          { id := w.ch.nextFilterId, type := j2534FlowControlFilter, mask := bytes8 []
            pattern := bytes8 [], len := 0, session := sess }
        ({ w with
            ch := { w.ch with filters := kept ++ [f], nextFilterId := w.ch.nextFilterId + 1 } },
          .noerror, some f.id)
      | (w, st, _) => (w, st, none)
  | _, _ => (w, .invalidMsg, none)

/-- The `PASS` and `BLOCK` branch of `j2534_channel_add_filter`. -/
def addMatching (w : J2534World) (type : UInt32) (mask pattern : Option J2534Msg) :
    J2534World × J2534Status × Option UInt32 :=
  match mask, pattern with
  | some mask, some pattern =>
    if w.ch.filters.length ≥ j2534ChMaxFilters then
      (w, .exceededLimit, none)
    else
      let n := min mask.data.length 8
      let f : J2534ChFilter :=
        { id := w.ch.nextFilterId, type := type, mask := bytes8 (mask.data.take n)
          pattern := bytes8 (pattern.data.take n), len := UInt8.ofNat n, session := none }
      ({ w with
          ch :=
            { w.ch with filters := w.ch.filters ++ [f], nextFilterId := w.ch.nextFilterId + 1 } },
        .noerror, some f.id)
  | _, _ => (w, .nullParameter, none)

/-- `j2534_channel_add_filter`; `wantsId` says that `filter_id` is not `NULL`. -/
def addFilter (w : J2534World) (env : J2534Env) (type : UInt32)
    (mask pattern flowControl : Option J2534Msg) (wantsId : Bool) :
    J2534World × J2534Status × Option UInt32 :=
  if !w.ch.inUse then
    (w, .invalidChannelId, none)
  else if !wantsId then
    (w, .nullParameter, none)
  else if type = j2534FlowControlFilter then
    w.addFlowControl env pattern flowControl
  else if type = j2534PassFilter ∨ type = j2534BlockFilter then
    w.addMatching type mask pattern
  else
    (w, .invalidMsg, none)

/-- Close the session that a `FLOW_CONTROL` filter bound. -/
def unbindFilter (w : J2534World) (f : J2534ChFilter) : J2534World :=
  if f.type = j2534FlowControlFilter then w.isoUnbind f.session else w

/-- `j2534_channel_stop_filter` -/
def stopFilter (w : J2534World) (filterId : UInt32) : J2534World × J2534Status :=
  if !w.ch.inUse then
    (w, .invalidChannelId)
  else
    match w.ch.filters.find? fun f => f.id == filterId with
    | none => (w, .invalidFilterId)
    | some f =>
      let w := w.unbindFilter f
      ({ w with
          ch := { w.ch with filters := filterRemove w.ch.filters fun f => f.id == filterId } },
        .noerror)

/-- `j2534_channel_clear_filters`: the ids given at CONNECT keep their session. -/
def clearFilters (w : J2534World) : J2534World :=
  let v := w.ch.filters.foldl unbindFilter w
  { v with ch := { v.ch with filters := [] } }

end J2534World

end Meatpi
