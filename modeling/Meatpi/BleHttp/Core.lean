import Mathlib.Data.Rat.Floor
import Meatpi.Library.Json
import Meatpi.Library.Utf8

/-!
# The HTTP tunnel over BLE (`ble_http_core.c`)

Frames of an eight-byte header and at most 4096 bytes carry one request at a
time to the device's own web server and the answer back. The HTTP side and the
link are parameters (`BlehEnv`): what an open, a write, a fetch, a read gives and
whether a frame goes out is theirs to say. Beside the core's own state a run
keeps what was sent and which calls the HTTP side saw (`BlehLog`).
-/

namespace Meatpi

/-! ## The frame codec -/

/-- `BLEH_MAGIC`, `BLEH_VERSION` -/
def blehMagic : UInt8 := 0x57
def blehVersion : UInt8 := 0x02
/-- `BLEH_HDR_SIZE`, `BLEH_FRAME_MAX`, `BLEH_FRAME_BUF` -/
def blehHdrSize : ℕ := 8
def blehFrameMax : ℕ := 4096
def blehFrameBuf : ℕ := blehHdrSize + blehFrameMax
/-- `BLEH_T_…` -/
def blehTReq : UInt8 := 0x01
def blehTReqBody : UInt8 := 0x02
def blehTRsp : UInt8 := 0x03
def blehTRspBody : UInt8 := 0x04
def blehTAbort : UInt8 := 0x05
def blehTCredit : UInt8 := 0x06
def blehFLast : UInt8 := 0x01
/-- `BLEH_BODY_MAX`, `BLEH_CREDIT_STEP`, `BLEH_OUT_WINDOW` -/
def blehBodyMax : ℕ := 8 * 1024 * 1024
def blehCreditStep : UInt32 := 8192
def blehCreditWindow : UInt32 := 16384
def blehOutWindow : UInt32 := 16384
def blehIdleTimeoutMs : UInt32 := 30000
def blehPumpFrames : ℕ := 16

structure BlehHdr where
  type : UInt8
  flags : UInt8
  seq : UInt16
  len : UInt16

def blehCtrFlags (ctr : UInt8) (last : Bool) : UInt8 :=
  ((ctr &&& 0x0F) <<< 4) ||| (if last then blehFLast else 0)

/-- The counter in the flags. -/
def blehCtr (flags : UInt8) : UInt8 := (flags &&& 0xF0) >>> 4

def blehHdrParse : List UInt8 → Option BlehHdr
  | b₀ :: b₁ :: b₂ :: b₃ :: b₄ :: b₅ :: b₆ :: b₇ :: _ =>
    if b₀ ≠ blehMagic ∨ b₁ ≠ blehVersion then none
    else if b₂ < blehTReq ∨ blehTCredit < b₂ then none
    else if blehFrameMax < (b₆.toUInt16 ||| (b₇.toUInt16 <<< 8)).toNat then none
    else some ⟨b₂, b₃, b₄.toUInt16 ||| (b₅.toUInt16 <<< 8), b₆.toUInt16 ||| (b₇.toUInt16 <<< 8)⟩
  | _ => none

def blehHdrBuild (type flags : UInt8) (seq len : UInt16) : List UInt8 :=
  [blehMagic, blehVersion, type, flags, (seq &&& 0xFF).toUInt8, (seq >>> 8).toUInt8,
    (len &&& 0xFF).toUInt8, (len >>> 8).toUInt8]

/-- A frame. -/
structure BlehFrame where
  type : UInt8
  flags : UInt8
  seq : UInt16
  payload : List UInt8
  deriving DecidableEq

def BlehFrame.bytes (f : BlehFrame) : List UInt8 :=
  blehHdrBuild f.type f.flags f.seq (UInt16.ofNat f.payload.length) ++ f.payload

/-! ## The heads -/

structure BlehReq where
  method : List Char
  path : List Char
  ct : List Char
  len : UInt32
  deriving DecidableEq

def methodOk (m : List Char) : Bool :=
  ["GET".toList, "POST".toList, "PUT".toList, "DELETE".toList].contains m

/-- `path_ok`; the prefix is compared as the source does. -/
def pathOk (p : List Char) : Bool :=
  "/api/".toList.isPrefixOf p && p.all (fun c => 0x20 < c.toNat && c.toNat < 0x7F) &&
    ! (p.tails.any fun t => "/../".toList.isPrefixOf t || "//".toList.isPrefixOf t)

/-- A string member shorter than that. -/
def shortMember (o : Json) (key : String) (cap : ℕ) : Option (List Char) :=
  match o.getItem key.toList with
  | some (.str s) => if strlen s < cap then some s else none
  | _ => none

/-- `bleh_req_parse`, behind `cJSON_ParseWithLength`: the request, or the status
and the code to answer with. -/
def blehReqParse : Option Json → Except (ℤ × String) BlehReq
  | some (.obj members) =>
    let o : Json := .obj members
    match shortMember o "m" 8, shortMember o "p" 256 with
    | some m, some p =>
      if methodOk m = false then .error (400, "method")
      else if pathOk p = false then .error (403, "path")
      else
        let ct : Option (List Char) := match o.getItem "ct".toList with
          | some (.str s) => if strlen s < 64 then some s else none
          | _ => some []
        match ct with
        | none => .error (400, "bad_request")
        | some ct =>
          match o.getItem "len".toList with
          | none => .ok ⟨m, p, ct, 0⟩
          | some (.num q) =>
            if q < 0 ∨ (blehBodyMax : ℚ) < q then .error (400, "len")
            else .ok ⟨m, p, ct, UInt32.ofNat ⌊q⌋.toNat⟩
          | some _ => .error (400, "len")
    | _, _ => .error (400, "bad_request")
  | _ => .error (400, "bad_request")

/-- What `fetch` reads of the upstream's head. -/
structure BlehHead where
  status : ℤ
  ct : List Char
  len : ℤ

def textBytes (s : List Char) : List UInt8 := s.map fun c => UInt8.ofNat c.toNat

/-- `bleh_rsp_head`, of an answer of the tunnel's own. -/
def blehErrHead (cap : ℕ) (status : ℤ) (err : String) : List UInt8 :=
  (textBytes ("\x7b\"s\":" ++ toString status ++ ",\"err\":\"" ++ err ++ "\"\x7d").toList).take
    (cap - 1)

/-- `bleh_rsp_head`, of an upstream's answer. -/
def blehRspHead (cap : ℕ) (head : BlehHead) : List UInt8 :=
  (textBytes ("\x7b\"s\":" ++ toString head.status ++ ",\"ct\":\"" ++ String.ofList head.ct ++
    "\",\"len\":" ++ toString head.len ++ "\x7d").toList).take (cap - 1)

/-! ## The core -/

/-- `bleh_ops_t`, the emit callback and the JSON library, over a state of theirs. -/
structure BlehEnv (β : Type) where
  cjsonParse : List UInt8 → Option Json
  openReq : β → BlehReq → β × Bool
  write : β → List UInt8 → β × Bool
  fetch : β → β × Option BlehHead
  /-- Nothing at the end and on an error. -/
  read : β → ℕ → β × List UInt8
  read_le : ∀ ctx cap, (read ctx cap).2.length ≤ cap
  close : β → β
  emit : β → List UInt8 → β × Bool

inductive BlehState where
  | idle
  | body
  | responding
  deriving DecidableEq

structure BlehCounters where
  requests : UInt32
  responses : UInt32
  errors : UInt32
  resync : UInt32
  aborts : UInt32
  timeouts : UInt32
  framesRx : UInt32
  framesTx : UInt32
  bytesIn : UInt32
  bytesOut : UInt32
  holes : UInt32
  creditsRx : UInt32
  creditStalls : UInt32
  lastStatus : ℤ

/-- A call the HTTP side saw. -/
inductive BlehCall where
  | openReq (ok : Bool)
  | write (data : List UInt8) (ok : Bool)
  | fetch (ok : Bool)
  | read (data : List UInt8)
  | close
  deriving DecidableEq

/-- What a run has done so far: the frames handed to the link, those of them the
link would not take, the calls, the requests that were answered or taken, those
the link went down under, how many frames had gone out when the present request
was taken, and the bytes of the response that streams. -/
structure BlehLog where
  sent : List BlehFrame
  refused : List BlehFrame
  calls : List BlehCall
  handled : List UInt16
  dropped : List UInt16
  mark : ℕ
  streamed : ℕ

/-- `bleh_core_t`, with the state of the two sides and the log. -/
structure Bleh (β : Type) where
  ctx : β
  rx : List UInt8
  state : BlehState
  req : BlehReq
  seq : UInt16
  received : UInt32
  lastCredit : UInt32
  lastActivityMs : UInt32
  upstreamOpen : Bool
  reqCtr : UInt8
  outSent : UInt32
  outAcked : UInt32
  outWindow : UInt32
  outFrame : UInt16
  rspCtr : UInt8
  linkNotify : Bool
  linkPdu : UInt16
  outStalled : Bool
  ctr : BlehCounters
  log : BlehLog

namespace Bleh

variable {β : Type} (env : BlehEnv β)

/-- `bleh_core_init` -/
def init (ctx : β) : Bleh β where
  ctx := ctx
  rx := []
  state := .idle
  req := ⟨[], [], [], 0⟩
  seq := 0
  received := 0
  lastCredit := 0
  lastActivityMs := 0
  upstreamOpen := false
  reqCtr := 0
  outSent := 0
  outAcked := 0
  outWindow := 0
  outFrame := 0
  rspCtr := 0
  linkNotify := false
  linkPdu := 0
  outStalled := false
  ctr := ⟨0, 0, 0, 0, 0, 0, 0, 0, 0, 0, 0, 0, 0, 0⟩
  log := ⟨[], [], [], [], [], 0, 0⟩

def emitFrame (w : Bleh β) (type flags : UInt8) (seq : UInt16) (payload : List UInt8) :
    Bleh β × Bool :=
  if blehFrameMax < payload.length then (w, false)
  else
    let frame : BlehFrame := ⟨type, flags, seq, payload⟩
    match env.emit w.ctx frame.bytes with
    | (ctx, ok) =>
      let body := ok && type == blehTRspBody
      ({ w with
        ctx := ctx
        ctr := { w.ctr with
          framesTx := w.ctr.framesTx + 1
          bytesOut := if body then w.ctr.bytesOut + UInt32.ofNat payload.length
            else w.ctr.bytesOut }
        log := { w.log with
          sent := w.log.sent ++ [frame]
          refused := if ok then w.log.refused else w.log.refused ++ [frame] } }, ok)

def emitError (w : Bleh β) (seq : UInt16) (status : ℤ) (err : String) : Bleh β :=
  let w := { w with ctr := { w.ctr with
    errors := w.ctr.errors + 1
    responses := w.ctr.responses + 1
    lastStatus := status } }
  match emitFrame env w blehTRsp 0 seq (blehErrHead 64 status err) with
  | (w, false) => w
  -- every response ends with a LAST body frame, empty here (counter 0)
  | (w, true) => (emitFrame env w blehTRspBody (blehCtrFlags 0 true) seq []).1

def call (w : Bleh β) (ctx : β) (c : BlehCall) : Bleh β :=
  { w with
    ctx := ctx
    log := { w.log with calls := w.log.calls ++ [c] } }

def upstreamClose (w : Bleh β) : Bleh β :=
  if w.upstreamOpen then { w.call (env.close w.ctx) .close with upstreamOpen := false } else w

def goIdle (w : Bleh β) : Bleh β :=
  { upstreamClose env w with
    state := .idle
    received := 0
    lastCredit := 0
    outSent := 0
    outAcked := 0 }

def emitLast (w : Bleh β) : Bleh β :=
  (emitFrame env w blehTRspBody (blehCtrFlags w.rspCtr true) w.seq []).1

/-- The payload a frame may carry. -/
def frameCap (linkNotify : Bool) (linkPdu : UInt16) : UInt16 :=
  let pdu := if blehHdrSize < linkPdu.toNat then linkPdu else 20
  if linkNotify then min (pdu - 8) 4096 else 4096

/-- `BLEH_ST_RESPONDING` is entered. -/
def respond (w : Bleh β) (nowMs : UInt32) : Bleh β :=
  { w with
    state := .responding
    outSent := 0
    outAcked := 0
    outStalled := false
    rspCtr := 0
    outWindow := if w.linkNotify then blehOutWindow else 0
    outFrame := frameCap w.linkNotify w.linkPdu
    lastActivityMs := nowMs
    log := { w.log with streamed := 0 } }

def finishRequest (w : Bleh β) (nowMs : UInt32) : Bleh β :=
  match env.fetch w.ctx with
  | (ctx, none) => goIdle env (emitError env (w.call ctx (.fetch false)) w.seq 502 "upstream")
  | (ctx, some head) =>
    let w := w.call ctx (.fetch true)
    let w := { w with ctr := { w.ctr with
      responses := w.ctr.responses + 1
      lastStatus := head.status } }
    match emitFrame env w blehTRsp 0 w.seq (blehRspHead 112 head) with
    | (w, false) => goIdle env w
    | (w, true) => w.respond nowMs

/-- `bleh_core_set_link` -/
def setLink (w : Bleh β) (notify : Bool) (pduPayload : UInt16) : Bleh β :=
  { w with
    linkNotify := notify
    linkPdu := pduPayload }

/-- The window is full. -/
def Blocked (w : Bleh β) : Prop :=
  w.outWindow ≠ 0 ∧ w.outWindow < w.outSent - w.outAcked + w.outFrame.toUInt32

instance (w : Bleh β) : Decidable w.Blocked := inferInstanceAs (Decidable (_ ∧ _))

/-- A round of the loop of `bleh_core_pump`; whether it goes on. -/
def pumpFrame (w : Bleh β) (nowMs : UInt32) : Bleh β × Bool :=
  if w.Blocked then
    -- the app has a window in flight: wait for its CREDIT
    ({ w with
      outStalled := true
      ctr := { w.ctr with
        creditStalls := if w.outStalled then w.ctr.creditStalls else w.ctr.creditStalls + 1 } },
      false)
  else
    match env.read w.ctx w.outFrame.toNat with
    | (ctx, []) => (goIdle env (emitLast env (w.call ctx (.read []))), false)
    | (ctx, b :: data) =>
      match emitFrame env (w.call ctx (.read (b :: data))) blehTRspBody
        (blehCtrFlags w.rspCtr false) w.seq (b :: data) with
      | (w, false) => (goIdle env w, false)
      | (w, true) =>
        ({ w with
          rspCtr := (w.rspCtr + 1) &&& 0x0F
          outSent := w.outSent + UInt32.ofNat (b :: data).length
          lastActivityMs := nowMs
          log := { w.log with streamed := w.log.streamed + (b :: data).length } }, true)

/-- The loop of `bleh_core_pump`. -/
def pumpFrames (nowMs : UInt32) : ℕ → Bleh β → Bleh β × Bool
  | 0, w => (w, true)
  | n + 1, w =>
    match pumpFrame env w nowMs with
    | (w, false) => (w, false)
    | (w, true) => pumpFrames nowMs n w

/-- `bleh_core_pump` -/
def pump (w : Bleh β) (nowMs : UInt32) : Bleh β × Bool :=
  if w.state ≠ .responding then (w, false) else pumpFrames env nowMs blehPumpFrames w

/-! ### The frame handlers -/

def handle (w : Bleh β) (seq : UInt16) : Bleh β :=
  { w with log := { w.log with handled := w.log.handled ++ [seq] } }

/-- The request of `on_req`, opened upstream. -/
def accept (w : Bleh β) (h : BlehHdr) (req : BlehReq) (nowMs : UInt32) : Bleh β :=
  { w with
    req := req
    seq := h.seq
    received := 0
    lastCredit := 0
    reqCtr := 0
    lastActivityMs := nowMs
    ctr := { w.ctr with requests := w.ctr.requests + 1 }
    log := { w.log with mark := w.log.sent.length } }

def onReq (w : Bleh β) (h : BlehHdr) (payload : List UInt8) (nowMs : UInt32) : Bleh β :=
  if w.state ≠ .idle then
    -- one request in flight per link; the active one continues
    emitError env (w.handle h.seq) h.seq 429 "busy"
  else
    match blehReqParse (env.cjsonParse payload) with
    | .error (status, err) => emitError env (w.handle h.seq) h.seq status err
    | .ok req =>
      let w := (w.handle h.seq).accept h req nowMs
      match env.openReq w.ctx req with
      | (ctx, false) => emitError env (w.call ctx (.openReq false)) h.seq 502 "upstream"
      | (ctx, true) =>
        let w := { w.call ctx (.openReq true) with upstreamOpen := true }
        if req.len = 0 then finishRequest env w nowMs -- bodiless: head right away
        else { w with state := .body }

/-- The body goes wrong. -/
def failBody (w : Bleh β) (status : ℤ) (err : String) : Bleh β :=
  goIdle env (emitError env w w.seq status err)

/-- The payload of a CREDIT. -/
def creditBytes (v : UInt32) : List UInt8 :=
  [v.toUInt8, (v >>> 8).toUInt8, (v >>> 16).toUInt8, (v >>> 24).toUInt8]

/-- `on_req_body`, behind the write. -/
def tookBody (w : Bleh β) (h : BlehHdr) (nowMs : UInt32) : Bleh β :=
  if h.flags &&& blehFLast ≠ 0 ∧ w.received ≠ w.req.len then failBody env w 400 "short"
  else if w.received = w.req.len then finishRequest env w nowMs
  else if blehCreditStep ≤ w.received - w.lastCredit then
    match emitFrame env { w with lastCredit := w.received } blehTCredit 0 w.seq
      (creditBytes w.received) with
    | (w, false) => goIdle env w
    | (w, true) => w
  else w

/-- `ops->write`, of a body frame that carries something. -/
def writeBody (w : Bleh β) (payload : List UInt8) : Bleh β × Bool :=
  if payload = [] then (w, true)
  else
    match env.write w.ctx payload with
    | (ctx, ok) => (w.call ctx (.write payload ok), ok)

def onReqBody (w : Bleh β) (h : BlehHdr) (payload : List UInt8) (nowMs : UInt32) : Bleh β :=
  if w.state ≠ .body ∨ h.seq ≠ w.seq then w -- stray body frame
  else if blehCtr h.flags ≠ w.reqCtr then
    -- a body PDU never arrived: the stream is torn
    failBody env { w with
      lastActivityMs := nowMs
      ctr := { w.ctr with holes := w.ctr.holes + 1 } } 400 "hole"
  else if w.req.len.toNat < w.received.toNat + h.len.toNat then
    failBody env { w with
      lastActivityMs := nowMs
      reqCtr := (w.reqCtr + 1) &&& 0x0F } 400 "len"
  else
    match writeBody env { w with
      lastActivityMs := nowMs
      reqCtr := (w.reqCtr + 1) &&& 0x0F } payload with
    | (w, false) => failBody env w 502 "upstream"
    | (w, true) =>
      tookBody env { w with
        received := w.received + h.len.toUInt32
        ctr := { w.ctr with bytesIn := w.ctr.bytesIn + h.len.toUInt32 } } h nowMs

def onAbort (w : Bleh β) (h : BlehHdr) : Bleh β :=
  let w' := { w with ctr := { w.ctr with aborts := w.ctr.aborts + 1 } }
  if h.seq ≠ w.seq then w'
  else
    match w.state with
    | .body => failBody env (upstreamClose env w') 499 "aborted"
    -- the head already went: close the body early with its LAST
    | .responding => goIdle env (emitLast env (upstreamClose env w'))
    | .idle => w'

/-- A CREDIT's value. -/
def creditValue : List UInt8 → UInt32
  | [b₀, b₁, b₂, b₃] =>
    b₀.toUInt32 ||| (b₁.toUInt32 <<< 8) ||| (b₂.toUInt32 <<< 16) ||| (b₃.toUInt32 <<< 24)
  | _ => 0

def onCredit (w : Bleh β) (h : BlehHdr) (payload : List UInt8) (nowMs : UInt32) : Bleh β :=
  if w.state ≠ .responding ∨ h.seq ≠ w.seq ∨ h.len ≠ 4 then w -- a late credit
  else
    let v := creditValue payload
    let fresh := decide (w.outAcked < v ∧ v ≤ w.outSent)
    { w with
      lastActivityMs := nowMs
      ctr := { w.ctr with creditsRx := w.ctr.creditsRx + 1 }
      -- cumulative; never beyond what went out
      outAcked := if fresh then v else w.outAcked
      outStalled := if fresh then false else w.outStalled }

def handleFrame (w : Bleh β) (h : BlehHdr) (payload : List UInt8) (nowMs : UInt32) : Bleh β :=
  let w := { w with ctr := { w.ctr with framesRx := w.ctr.framesRx + 1 } }
  if h.type = blehTReq then onReq env w h payload nowMs
  else if h.type = blehTReqBody then onReqBody env w h payload nowMs
  else if h.type = blehTAbort then onAbort env w h
  else if h.type = blehTCredit then onCredit w h payload nowMs
  else w -- RSP/RSP_BODY from the app: ignored

/-! ### Reassembly -/

/-- The inner loop of `bleh_core_rx`; every round takes a byte off at least. -/
def rxFrames (nowMs : UInt32) : ℕ → Bleh β → Bleh β
  | 0, w => w
  | n + 1, w =>
    if w.rx.length < blehHdrSize then w
    else
      match blehHdrParse w.rx with
      | none =>
        -- resync: drop one byte, look for the next magic
        rxFrames nowMs n { w with
          ctr := { w.ctr with resync := w.ctr.resync + 1 }
          rx := w.rx.tail }
      | some h =>
        if w.rx.length < blehHdrSize + h.len.toNat then w -- wait for the rest
        else
          let w' := handleFrame env w h ((w.rx.drop blehHdrSize).take h.len.toNat) nowMs
          rxFrames nowMs n { w' with rx := w'.rx.drop (blehHdrSize + h.len.toNat) }

/-- The outer loop of `bleh_core_rx`. -/
def rxBytes (nowMs : UInt32) : ℕ → Bleh β → List UInt8 → Bleh β
  | 0, w, _ => w
  | n + 1, w, data =>
    if data = [] then w
    else
      let room := blehFrameBuf - w.rx.length
      let rx := w.rx ++ data.take room
      rxBytes nowMs n (rxFrames env nowMs rx.length { w with rx := rx }) (data.drop room)

/-- `bleh_core_rx` -/
def rxData (w : Bleh β) (data : List UInt8) (nowMs : UInt32) : Bleh β :=
  rxBytes env nowMs data.length w data

/-- `bleh_core_tick` -/
def tick (w : Bleh β) (nowMs : UInt32) : Bleh β :=
  if nowMs - w.lastActivityMs ≤ blehIdleTimeoutMs then w
  else
    let w' := { w with ctr := { w.ctr with timeouts := w.ctr.timeouts + 1 } }
    match w.state with
    | .body => failBody env (upstreamClose env w') 504 "timeout"
    -- the app stopped sending CREDITs: truncate with the LAST frame
    | .responding => goIdle env (emitLast env (upstreamClose env w'))
    | .idle => w

/-- `bleh_core_link_down` -/
def linkDown (w : Bleh β) : Bleh β :=
  { goIdle env w with
    rx := []
    log := { (goIdle env w).log with
      dropped := if w.state = .idle then w.log.dropped else w.log.dropped ++ [w.seq] } }

/-- What the core is called with. -/
inductive Input where
  | rx (data : List UInt8) (nowMs : UInt32)
  | pump (nowMs : UInt32)
  | tick (nowMs : UInt32)
  | setLink (notify : Bool) (pduPayload : UInt16)
  | linkDown

def take (w : Bleh β) : Input → Bleh β
  | .rx data nowMs => rxData env w data nowMs
  | .pump nowMs => (pump env w nowMs).1
  | .tick nowMs => tick env w nowMs
  | .setLink notify pduPayload => w.setLink notify pduPayload
  | .linkDown => linkDown env w

/-- One call of the core. -/
def Takes (w : Bleh β) (i : Input) (w' : Bleh β) : Prop :=
  w' = w.take env i

end Bleh

end Meatpi
