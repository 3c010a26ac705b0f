import Meatpi.Library.Numeral
import Meatpi.J2534.Channel

/-!
# The wire codec (`j2534_proto.c`)

A frame is a header of twelve bytes and as many bytes as it says; a message in it
has six words in front of its data. A frame is read from any transport that hands
over some bytes, none for now, or is down (`J2534Reader`), in as many reads as it
takes.
-/

namespace Meatpi

/-! ## The header -/

/-- `J2534_MAGIC`, `J2534_WIRE_VERSION`, `J2534_HDR_SIZE` -/
def j2534Magic : ℕ := 0x4A35
def j2534WireVersion : UInt8 := 1
def j2534HdrSize : ℕ := 12
def j2534MtAck : UInt8 := 0x80
/-- `MSG_FIXED` -/
def j2534MsgFixed : ℕ := 24
def j2534RxCap : ℕ := j2534MaxData + 256

/-- `j2534_hdr_t`, whose magic and version are fixed. -/
structure J2534Hdr where
  type : UInt8
  seq : UInt16
  channel : UInt16
  length : UInt32

/-- `get_u16`, `get_u32`: the value of `n` bytes at an offset. -/
def getLe (buf : List UInt8) (off n : ℕ) : ℕ := ofLeBytes ((buf.drop off).take n)

def j2534HdrEncode (type : UInt8) (seq channel : UInt16) (length : UInt32) : List UInt8 :=
  leBytes 2 j2534Magic ++ [j2534WireVersion, type] ++ leBytes 2 seq.toNat ++
    leBytes 2 channel.toNat ++ leBytes 4 length.toNat

def j2534HdrDecode (buf : List UInt8) : Option J2534Hdr :=
  if buf.length < j2534HdrSize then none
  else if getLe buf 0 2 ≠ j2534Magic ∨ buf.getD 2 0 ≠ j2534WireVersion then none
  else some {
    type := buf.getD 3 0
    seq := UInt16.ofNat (getLe buf 4 2)
    channel := UInt16.ofNat (getLe buf 6 2)
    length := UInt32.ofNat (getLe buf 8 4) }

/-! ## Messages -/

/-- `j2534_msg_t` as the wire carries it, with the `data_size` bytes of `data`. -/
structure PassthruMsg where
  protocolId : UInt32
  rxStatus : UInt32
  txFlags : UInt32
  timestamp : UInt32
  extraDataIndex : UInt32
  data : List UInt8

/-- `j2534_msg_encode`; nothing is written where it returns 0. -/
def j2534MsgEncode (msg : PassthruMsg) (cap : ℕ) : List UInt8 :=
  if j2534MaxData < msg.data.length then []
  else if cap < j2534MsgFixed + msg.data.length then []
  else leBytes 4 msg.protocolId.toNat ++ leBytes 4 msg.rxStatus.toNat ++
    leBytes 4 msg.txFlags.toNat ++ leBytes 4 msg.timestamp.toNat ++
    leBytes 4 msg.extraDataIndex.toNat ++ leBytes 4 msg.data.length ++ msg.data

def j2534MsgDecode (buf : List UInt8) : Option PassthruMsg :=
  if buf.length < j2534MsgFixed then none
  else
    let ds := getLe buf 20 4
    if j2534MaxData < ds ∨ buf.length - j2534MsgFixed < ds then none
    else some {
      protocolId := UInt32.ofNat (getLe buf 0 4)
      rxStatus := UInt32.ofNat (getLe buf 4 4)
      txFlags := UInt32.ofNat (getLe buf 8 4)
      timestamp := UInt32.ofNat (getLe buf 12 4)
      extraDataIndex := UInt32.ofNat (getLe buf 16 4)
      data := (buf.drop j2534MsgFixed).take ds }

/-- `j2534_ack_encode`; nothing is written where it returns 0. -/
def j2534AckEncode (cap : ℕ) (seq channel : UInt16) (status : UInt32) (result : Option UInt32) :
    List UInt8 :=
  let len := if result.isSome then 8 else 4
  if cap < j2534HdrSize + len then []
  else j2534HdrEncode j2534MtAck seq channel (UInt32.ofNat len) ++ leBytes 4 status.toNat ++
    (result.map fun r => leBytes 4 r.toNat).getD []

/-! ## The framer -/

inductive J2534FrameRc where
  | ok
  | timeout
  | linkDown
  | badHdr
  | tooBig
  | stopped

/-- `j2534_read_fn` and `run`, over a state of theirs: what a read of up to that
many bytes brings, nothing on a timeout and `none` if the link is down. -/
structure J2534Reader (σ : Type) where
  read : σ → ℕ → σ × Option (List UInt8)
  run : σ → Bool

variable {σ : Type}

/-- The loop of `read_exact`, of `n` bytes with `got` of them there, in at most so
many rounds; without a buffer it reads 32 bytes at a time. -/
def readExact (rd : J2534Reader σ) (maxIdle : ℕ) (keep : Bool) (n : ℕ) :
    ℕ → σ → List UInt8 → ℕ → Option (σ × J2534FrameRc × List UInt8)
  | 0, _, _, _ => none
  | k + 1, s, got, idle =>
    if n ≤ got.length then some (s, .ok, got)
    else if rd.run s = false then some (s, .stopped, got)
    else
      let want := if keep then n - got.length else min (n - got.length) 32
      match rd.read s want with
      | (s, none) => some (s, .linkDown, got)
      | (s, some []) =>
        if maxIdle = 0 then readExact rd maxIdle keep n k s got idle
        else if maxIdle ≤ idle + 1 then some (s, .timeout, got)
        else readExact rd maxIdle keep n k s got (idle + 1)
      | (s, some (b :: bytes)) => readExact rd maxIdle keep n k s (got ++ b :: bytes) 0

/-- What `j2534_frame_read` returns and fills in. -/
structure J2534Read where
  rc : J2534FrameRc
  hdr : Option J2534Hdr
  payload : List UInt8

/-- `j2534_frame_read`, in at most so many rounds of each loop; `keep` is false
where there is no buffer for the payload. -/
def j2534FrameRead (rd : J2534Reader σ) (maxIdle : ℕ) (keep : Bool) (payloadCap fuel : ℕ) (s : σ) :
    Option (σ × J2534Read) :=
  match readExact rd maxIdle true j2534HdrSize fuel s [] 0 with
  | none => none
  | some (s, .ok, hdr) =>
    match j2534HdrDecode hdr with
    | none => some (s, ⟨.badHdr, none, []⟩)
    | some h =>
      if payloadCap < h.length.toNat then some (s, ⟨.tooBig, some h, []⟩)
      else if h.length = 0 then some (s, ⟨.ok, some h, []⟩)
      else
        match readExact rd maxIdle keep h.length.toNat fuel s [] 0 with
        | none => none
        | some (s, rc, payload) => some (s, ⟨rc, some h, if keep then payload else []⟩)
  | some (s, rc, _) => some (s, ⟨rc, none, []⟩)

/-- Calls of `j2534_frame_read` in a row. -/
def j2534FrameReads (rd : J2534Reader σ) (maxIdle : ℕ) (keep : Bool) (payloadCap fuel : ℕ) :
    ℕ → σ → Option (σ × List J2534Read)
  | 0, s => some (s, [])
  | n + 1, s =>
    match j2534FrameRead rd maxIdle keep payloadCap fuel s with
    | none => none
    | some (s, r) =>
      match j2534FrameReads rd maxIdle keep payloadCap fuel n s with
      | none => none
      | some (s, rs) => some (s, r :: rs)

end Meatpi
