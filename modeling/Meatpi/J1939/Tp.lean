import Mathlib.Algebra.Ring.Nat
import Mathlib.Data.Fin.VecNotation
import Mathlib.Data.List.FinRange

/-!
# The transport protocol receiver (`j1939_tp_core.c`)

A pool of sessions, one for each long message that is under way, and the replies
this node owes as a destination. A session is known by its sender and its
destination alone; a data packet says nothing but its number. The functions are
those of the source, with the state as an argument and a result; a counter is
32 bits wide.
-/

namespace Meatpi

/-- `J1939_TP_SESSIONS` -/
abbrev tpSessions : ℕ := 8
/-- `J1939_TP_REPLIES` -/
def tpReplies : ℕ := 8
/-- `J1939_TP_TIMEOUT_US` -/
def tpTimeoutUs : ℤ := 1250000
def j1939MsgMax : ℕ := 1785
def tpPacketBytes : ℕ := 7
def tpMinBytes : ℕ := 9

/-- `J1939_ADDR_GLOBAL` -/
def j1939AddrAll : UInt8 := 0xFF
/-- `J1939_ADDR_NULL` -/
def j1939AddrNone : UInt8 := 0xFE

def tpCtrlRts : UInt8 := 16
def tpCtrlCts : UInt8 := 17
def tpCtrlEoma : UInt8 := 19
def tpCtrlBam : UInt8 := 32
def tpCtrlAbort : UInt8 := 255

def tpAbortBusy : UInt8 := 1
def tpAbortTimeout : UInt8 := 3
def tpAbortSequence : UInt8 := 7

instance neZeroEight : NeZero 8 := ⟨Nat.succ_ne_zero 7⟩

/-- The eight data bytes of a frame. -/
abbrev TpFrame := Fin 8 → UInt8

/-- `j1939_tp_stats_t` -/
structure TpStats where
  started : UInt32
  completed : UInt32
  seqErrors : UInt32
  timeouts : UInt32
  aborted : UInt32
  replaced : UInt32
  noSession : UInt32
  orphanDt : UInt32
  badCm : UInt32
  toMe : UInt32
  cts : UInt32
  eoma : UInt32
  abortsOut : UInt32
  replyLost : UInt32

/-- `j1939_tp_session_t` -/
structure TpSession where
  isOpen : Bool
  mine : Bool
  sa : UInt8
  da : UInt8
  packets : ℕ
  next : ℕ
  ctsMax : ℕ
  ctsLeft : ℕ
  size : ℕ
  pgn : ℕ
  lastUs : ℤ
  deriving DecidableEq

/-- `j1939_tp_reply_t` -/
structure TpReply where
  da : UInt8
  data : TpFrame

/-- `j1939_tp_msg_t`, with the bytes it points to. -/
structure TpMsg where
  pgn : ℕ
  sa : UInt8
  da : UInt8
  data : List UInt8

/-- `j1939_tp_t`; `reply` are the replies queued. -/
structure J1939Tp where
  s : Fin tpSessions → TpSession
  buf : Fin tpSessions → ℕ → UInt8
  stats : TpStats
  mySa : UInt8
  reply : List TpReply

/-- How a session ends. -/
inductive TpEnd where
  | completed
  | seqErrors
  | timeouts
  | aborted

/-- The counter of that end. -/
def TpStats.ended (st : TpStats) : TpEnd → TpStats
  | .completed => { st with completed := st.completed + 1 }
  | .seqErrors => { st with seqErrors := st.seqErrors + 1 }
  | .timeouts => { st with timeouts := st.timeouts + 1 }
  | .aborted => { st with aborted := st.aborted + 1 }

/-- `a - b` of 32-bit unsigned numbers. -/
def u32Sub (a b : ℕ) : ℕ := (a + 2 ^ 32 - b) % 2 ^ 32

namespace J1939Tp

def setSession (tp : J1939Tp) (i : Fin tpSessions) (s : TpSession) : J1939Tp :=
  { tp with s := Function.update tp.s i s }

/-- `s->open = false` and the counter that says why. -/
def close (tp : J1939Tp) (i : Fin tpSessions) (why : TpEnd) : J1939Tp :=
  { tp with
    s := Function.update tp.s i { tp.s i with isOpen := false }
    stats := tp.stats.ended why }

end J1939Tp

/-! ## Replies of this node -/

/-- `pgn_put`, the three bytes. -/
def pgnPut (pgn : ℕ) : UInt8 × UInt8 × UInt8 :=
  (UInt8.ofNat pgn, UInt8.ofNat (pgn / 256), UInt8.ofNat (pgn / 65536 % 4))

def replyQueue (tp : J1939Tp) (da : UInt8) (data : TpFrame) : J1939Tp :=
  if tpReplies ≤ tp.reply.length then
    { tp with stats := { tp.stats with replyLost := tp.stats.replyLost + 1 } }
  else { tp with reply := tp.reply ++ [⟨da, data⟩] }

/-- `reply_cts`, on the session in slot `i` -/
def replyCts (tp : J1939Tp) (i : Fin tpSessions) : J1939Tp :=
  let s := tp.s i
  let left := (u32Sub s.packets s.next + 1) % 2 ^ 32
  let s := { s with ctsLeft := if left < s.ctsMax then left else s.ctsMax }
  let (p0, p1, p2) := pgnPut s.pgn
  let tp := tp.setSession i s
  let tp := { tp with stats := { tp.stats with cts := tp.stats.cts + 1 } }
  replyQueue tp s.sa
    ![tpCtrlCts, UInt8.ofNat s.ctsLeft, UInt8.ofNat s.next, 0xFF, 0xFF, p0, p1, p2]

def replyEoma (tp : J1939Tp) (s : TpSession) : J1939Tp :=
  let (p0, p1, p2) := pgnPut s.pgn
  let tp := { tp with stats := { tp.stats with eoma := tp.stats.eoma + 1 } }
  replyQueue tp s.sa
    ![tpCtrlEoma, UInt8.ofNat s.size, UInt8.ofNat (s.size / 256), UInt8.ofNat s.packets, 0xFF,
      p0, p1, p2]

def replyAbort (tp : J1939Tp) (da : UInt8) (pgn : ℕ) (reason : UInt8) : J1939Tp :=
  let (p0, p1, p2) := pgnPut pgn
  let tp := { tp with stats := { tp.stats with abortsOut := tp.stats.abortsOut + 1 } }
  replyQueue tp da ![tpCtrlAbort, reason, 0xFF, 0xFF, 0xFF, p0, p1, p2]

def forMe (tp : J1939Tp) (da : UInt8) : Bool := tp.mySa != j1939AddrNone && da == tp.mySa

/-! ## Sessions -/

/-- Is this the open session of that sender and destination? -/
def TpSession.isOf (s : TpSession) (sa da : UInt8) : Bool := s.isOpen && s.sa == sa && s.da == da

/-- `session_find`: its slot -/
def sessionFind (tp : J1939Tp) (sa da : UInt8) : Option (Fin tpSessions) :=
  (List.finRange tpSessions).find? fun i => (tp.s i).isOf sa da

def sessionFree (tp : J1939Tp) : Option (Fin tpSessions) :=
  (List.finRange tpSessions).find? fun i => !(tp.s i).isOpen

def cmPgn (d : TpFrame) : ℕ := (d 5).toNat + (d 6).toNat * 256 + (d 7).toNat * 65536

/-- The bytes and the packets announced. -/
def cmSize (d : TpFrame) : ℕ := (d 1).toNat + (d 2).toNat * 256
def cmPackets (d : TpFrame) : ℕ := (d 3).toNat

/-- The session an announce opens. -/
def announced (mine : Bool) (sa da : UInt8) (d : TpFrame) (now : ℤ) : TpSession :=
  { isOpen := true
    mine := mine
    sa := sa
    da := da
    packets := cmPackets d
    next := 1
    size := cmSize d
    pgn := cmPgn d
    lastUs := now
    -- FF: as many as one likes
    ctsMax := if mine && d 4 != 0 then (d 4).toNat else 0xFF
    ctsLeft := 0 }

/-- The end of `announce`: the session goes into slot `i`. -/
def startSession (tp : J1939Tp) (i : Fin tpSessions) (s : TpSession) : J1939Tp :=
  let tp := tp.setSession i s
  let tp := { tp with stats := { tp.stats with started := tp.stats.started + 1 } }
  if s.mine then
    replyCts { tp with stats := { tp.stats with toMe := tp.stats.toMe + 1 } } i
  else tp

/-- `announce`: BAM or RTS -/
def announce (tp : J1939Tp) (sa da : UInt8) (d : TpFrame) (now : ℤ) : J1939Tp :=
  let mine := d 0 == tpCtrlRts && forMe tp da
  if cmSize d < tpMinBytes ∨ j1939MsgMax < cmSize d ∨
      cmPackets d ≠ (cmSize d + tpPacketBytes - 1) / tpPacketBytes then
    { tp with stats := { tp.stats with badCm := tp.stats.badCm + 1 } }
  else
    match sessionFind tp sa da with
    | some i =>
      -- the sender gave up on the open one
      startSession { tp with stats := { tp.stats with replaced := tp.stats.replaced + 1 } } i
        (announced mine sa da d now)
    | none =>
      match sessionFree tp with
      | some i => startSession tp i (announced mine sa da d now)
      | none =>
        let tp := { tp with stats := { tp.stats with noSession := tp.stats.noSession + 1 } }
        if mine then replyAbort tp sa (cmPgn d) tpAbortBusy else tp

/-- The stats of `j1939_tp_init`. -/
def TpStats.zero : TpStats := ⟨0, 0, 0, 0, 0, 0, 0, 0, 0, 0, 0, 0, 0, 0⟩

/-- A session after `memset`. -/
def TpSession.zero : TpSession := ⟨false, false, 0, 0, 0, 0, 0, 0, 0, 0, 0⟩

/-- `j1939_tp_init`; the buffers are left as they are. -/
def j1939TpInit (tp : J1939Tp) : J1939Tp :=
  { tp with s := fun _ => .zero, stats := .zero, mySa := j1939AddrNone, reply := [] }

def j1939TpSetAddress (tp : J1939Tp) (mySa : UInt8) : J1939Tp := { tp with mySa := mySa }

def j1939TpReplyTake (tp : J1939Tp) : J1939Tp × Option TpReply :=
  match tp.reply with
  | [] => (tp, none)
  | r :: reply => ({ tp with reply := reply }, some r)

/-- The CTS branch of `j1939_tp_cm`, the session in slot `i` its own. -/
def cmCts (tp : J1939Tp) (i : Fin tpSessions) (d : TpFrame) (now : ℤ) : J1939Tp :=
  let tp := tp.setSession i { tp.s i with lastUs := now }
  if d 1 = 0 then tp -- hold
  else if 1 ≤ (d 2).toNat ∧ (d 2).toNat ≤ (tp.s i).next then
    tp.setSession i { tp.s i with next := (d 2).toNat }
  else
    -- the receiver is ahead of this listener
    tp.close i .seqErrors

def j1939TpCm (tp : J1939Tp) (sa da : UInt8) (d : TpFrame) (dlc : ℕ) (now : ℤ) : J1939Tp :=
  let bad := { tp with stats := { tp.stats with badCm := tp.stats.badCm + 1 } }
  if dlc ≠ 8 then bad
  else if d 0 = tpCtrlBam then
    if da ≠ j1939AddrAll then bad else announce tp sa da d now
  else if d 0 = tpCtrlRts then
    if da = j1939AddrAll then bad else announce tp sa da d now
  else if d 0 = tpCtrlCts then
    -- from the receiver: the session is (frame's da -> frame's sa)
    match sessionFind tp da sa with
    | some i => if (tp.s i).pgn ≠ cmPgn d then tp else cmCts tp i d now
    | none => tp
  else if d 0 = tpCtrlEoma then
    match sessionFind tp da sa with
    | some i => if (tp.s i).pgn = cmPgn d then tp.close i .seqErrors else tp
    | none => tp
  else if d 0 = tpCtrlAbort then
    match (sessionFind tp sa da).or (sessionFind tp da sa) with
    | some i => if (tp.s i).pgn = cmPgn d then tp.close i .aborted else tp
    | none => tp
  else bad

/-- Where the packet that is due goes, and how many bytes of it. -/
def dtCopy (s : TpSession) : ℕ × ℕ :=
  let off := u32Sub s.next 1 * tpPacketBytes % 2 ^ 32
  let n := u32Sub s.size off
  (off, if tpPacketBytes < n then tpPacketBytes else n)

/-- `memcpy(&buf[off], &d[1], n)` -/
def copyPacket (buf : ℕ → UInt8) (off n : ℕ) (d : TpFrame) : ℕ → UInt8 := fun k =>
  if off ≤ k ∧ k < off + n then d (Fin.ofNat 8 (1 + (k - off))) else buf k

/-- `j1939_tp_dt`, with the message it hands out -/
def j1939TpDt (tp : J1939Tp) (sa da : UInt8) (d : TpFrame) (dlc : ℕ) (now : ℤ) :
    J1939Tp × Option TpMsg :=
  match sessionFind tp sa da with
  | none => ({ tp with stats := { tp.stats with orphanDt := tp.stats.orphanDt + 1 } }, none)
  | some i =>
    let s := tp.s i
    if dlc ≠ 8 ∨ (d 0).toNat ≠ s.next then
      -- a gap cannot be filled by listening
      let tp := tp.close i .seqErrors
      (if s.mine then replyAbort tp s.sa s.pgn tpAbortSequence else tp, none)
    else
      let (off, n) := dtCopy s
      let tp := { tp with buf := Function.update tp.buf i (copyPacket (tp.buf i) off n d) }
      let s := { s with lastUs := now }
      if s.next < s.packets then
        let s := { s with next := s.next + 1 }
        if s.mine ∧ 0 < s.ctsLeft then
          let s := { s with ctsLeft := s.ctsLeft - 1 }
          let tp := tp.setSession i s
          -- the window is used up: the next one
          (if s.ctsLeft = 0 then replyCts tp i else tp, none)
        else (tp.setSession i s, none)
      else
        let tp := (tp.setSession i s).close i .completed
        let tp := if s.mine then replyEoma tp s else tp
        (tp, some ⟨s.pgn, s.sa, s.da, (List.range s.size).map (tp.buf i)⟩)

/-- One turn of `j1939_tp_expire`. -/
def expireOne (now : ℤ) (tp : J1939Tp) (i : Fin tpSessions) : J1939Tp :=
  if (tp.s i).isOpen ∧ tpTimeoutUs < now - (tp.s i).lastUs then
    let tp := tp.close i .timeouts
    if (tp.s i).mine then replyAbort tp (tp.s i).sa (tp.s i).pgn tpAbortTimeout else tp
  else tp

def j1939TpExpire (tp : J1939Tp) (now : ℤ) : J1939Tp :=
  (List.finRange tpSessions).foldl (expireOne now) tp

def j1939TpOpen (tp : J1939Tp) : ℕ := (List.finRange tpSessions).countP fun i => (tp.s i).isOpen

/-! ## Calls -/

/-- A call of the receiver. -/
inductive TpCall where
  | cm (sa da : UInt8) (d : TpFrame) (dlc : ℕ) (now : ℤ)
  | dt (sa da : UInt8) (d : TpFrame) (dlc : ℕ) (now : ℤ)
  | expire (now : ℤ)
  | setAddress (mySa : UInt8)
  | replyTake

/-- The state after a call, and the message it handed out. -/
def tpCall (tp : J1939Tp) : TpCall → J1939Tp × Option TpMsg
  | .cm sa da d dlc now => (j1939TpCm tp sa da d dlc now, none)
  | .dt sa da d dlc now => j1939TpDt tp sa da d dlc now
  | .expire now => (j1939TpExpire tp now, none)
  | .setAddress mySa => (j1939TpSetAddress tp mySa, none)
  | .replyTake => ((j1939TpReplyTake tp).1, none)

/-- The state after a sequence of calls. -/
def tpRun (tp : J1939Tp) (calls : List TpCall) : J1939Tp :=
  calls.foldl (fun tp call => (tpCall tp call).1) tp

/-- The messages a sequence of calls hands out, in order. -/
def tpOut : J1939Tp → List TpCall → List TpMsg
  | _, [] => []
  | tp, call :: calls => (tpCall tp call).2.toList ++ tpOut (tpCall tp call).1 calls

end Meatpi
