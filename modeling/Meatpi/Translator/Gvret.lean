import Meatpi.Library.Feed
import Meatpi.Translator.CanWire

/-!
# The GVRET codec, from the client (`translator_gvret_codec.c`)

The client's bytes are commands: 0xF1, a command byte and its arguments. A frame to
build goes to the bus, a query is answered, everything else is swallowed; how many
bytes that takes depends on the command, and on the length of the frame in it.
-/

namespace Meatpi

/-! ## The context -/

/-- The parser states `S_IDLE` .. `S_ABSORB` -/
inductive GvretState where
  | idle
  | cmd
  | build
  | setupCanbus
  | echo
  | absorb

structure GvretCtx where
  state : GvretState
  step : ℕ
  absorbLeft : UInt8
  frame : CanFrame
  ts : UInt32

/-- The frame that `memset` leaves. -/
def CanFrame.zero : CanFrame := .of 0 false false 0 0 []

/-- `gvret_ctx_init` -/
def GvretCtx.fresh : GvretCtx := ⟨.idle, 0, 0, .zero, 0⟩

/-- Where `gvret_encode` sends frames and, if it is bound, the reply channel -/
structure GvretEnv (σ : Type) where
  sink : BridgeSink σ
  reply : Option (BridgeSink σ)

variable {σ : Type}

/-! ## Commands -/

/-- `GVRET_BUS_SPEED`, `GVRET_BUILD_NUM` -/
def gvretBusSpeed : ℕ := 500000
def gvretBuildNum : ℕ := 618

/-- The reply that `handle_command` makes to a query. -/
def gvretReplyTo (ts : UInt32) (cmd : UInt8) : Option (List UInt8) :=
  -- PROTO_TIME_SYNC, PROTO_DIG_IN, PROTO_ANA_IN
  if cmd = 1 then some ([0xF1, 1] ++ leBytes 4 ts.toNat)
  else if cmd = 2 then some [0xF1, 2, 0, 0]
  else if cmd = 3 then some ([0xF1, 3] ++ List.replicate 15 0)
  -- PROTO_GET_CANBUS, PROTO_GET_DEV_INFO
  else if cmd = 6 then
    some ([0xF1, 6, 1] ++ leBytes 4 gvretBusSpeed ++ [0, 0, 0, 0, 0])
  else if cmd = 7 then some ([0xF1, 7] ++ leBytes 2 gvretBuildNum ++ [0x20, 0, 0, 0])
  -- PROTO_KEEPALIVE, PROTO_GET_NUMBUSES, PROTO_GET_EXT_BUSES
  else if cmd = 9 then some [0xF1, 9, 0xDE, 0xAD]
  else if cmd = 12 then some [0xF1, 12, 1]
  else if cmd = 13 then some ([0xF1, 13] ++ List.replicate 15 0)
  else none

/-- `reply` -/
def gvretReply (env : GvretEnv σ) (s : σ) (bytes : List UInt8) : σ × Option ℤ :=
  env.reply.elim (s, none) fun reply => reply s bytes

/-- `handle_command` -/
def gvretHandleCommand (env : GvretEnv σ) (t : GvretCtx × σ) (cmd : UInt8) :
    (GvretCtx × σ) × Option ℤ :=
  -- PROTO_BUILD_FRAME
  if cmd = 0 then (({ t.1 with state := .build, step := 0, frame := .zero }, t.2), none)
  -- PROTO_SETUP_CANBUS, PROTO_ECHO_FRAME
  else if cmd = 5 then (({ t.1 with state := .setupCanbus, step := 0 }, t.2), none)
  else if cmd = 11 then (({ t.1 with state := .echo, step := 0 }, t.2), none)
  -- PROTO_SET_DIG_OUT, PROTO_SET_SW_MODE, PROTO_SET_SYSTYPE, PROTO_SET_EXT_BUSES
  else if cmd = 4 ∨ cmd = 8 ∨ cmd = 10 then
    (({ t.1 with state := .absorb, absorbLeft := 1 }, t.2), none)
  else if cmd = 14 then (({ t.1 with state := .absorb, absorbLeft := 12 }, t.2), none)
  else
    let replied := (gvretReplyTo t.1.ts cmd).elim (t.2, none) (gvretReply env t.2)
    (({ t.1 with state := .idle }, replied.1), replied.2)

/-! ## Bytes -/

/-- The low nibble of a length byte, 8 at most. -/
def gvretDlc (b : UInt8) : UInt8 := if 8 < b &&& 0xF then 8 else b &&& 0xF

/-- A byte of the frame being built, before its data. -/
def gvretBuildHeader (frame : CanFrame) (step : ℕ) (b : UInt8) : CanFrame :=
  match step with
  | 0 => { frame with id := b.toUInt32 }
  | 1 => { frame with id := frame.id ||| b.toUInt32 <<< 8 }
  | 2 => { frame with id := frame.id ||| b.toUInt32 <<< 16 }
  | 3 =>
    let id := frame.id ||| b.toUInt32 <<< 24
    { frame with id := id &&& 0x7FFFFFFF, ext := decide (id &&& 0x80000000 ≠ 0) }
  | 5 => { frame with dlc := gvretDlc b }
  -- the bus
  | _ => frame

/-- A data byte of the frame being built. -/
def gvretBuildData (frame : CanFrame) (i : ℕ) (b : UInt8) : CanFrame :=
  { frame with
    data := frame.data.set i b
    data_length := by rw [List.length_set, frame.data_length] }

/-- The loop of `gvret_encode`, for one byte. -/
def gvretByte (env : GvretEnv σ) (t : GvretCtx × σ) (b : UInt8) : (GvretCtx × σ) × Option ℤ :=
  let c := t.1
  match c.state with
  | .idle => ((if b = 0xF1 then { c with state := .cmd } else c, t.2), none)
  | .cmd => gvretHandleCommand env t b
  | .build =>
    if c.step < 6 then
      (({ c with step := c.step + 1, frame := gvretBuildHeader c.frame c.step b }, t.2), none)
    else if c.step < c.frame.dlc.toNat + 6 then
      (({ c with step := c.step + 1, frame := gvretBuildData c.frame (c.step - 6) b }, t.2), none)
    else
      -- the checksum: the frame is complete
      let sent := env.sink t.2 (canWireEncode c.frame)
      if sent.2 ≠ none then (({ c with state := .idle }, sent.1), sent.2)
      else (({ c with state := .idle, step := c.step + 1 }, sent.1), none)
  | .setupCanbus =>
    (({ c with step := c.step + 1,
               state := if 8 ≤ c.step + 1 then .idle else .setupCanbus }, t.2), none)
  | .echo =>
    if c.step = 5 then
      (({ c with step := c.step + 1, absorbLeft := gvretDlc b + 1 }, t.2), none)
    else if 5 < c.step then
      (({ c with step := c.step + 1, absorbLeft := c.absorbLeft - 1,
                 state := if c.absorbLeft - 1 = 0 then .idle else .echo }, t.2), none)
    else (({ c with step := c.step + 1 }, t.2), none)
  | .absorb =>
    (({ c with absorbLeft := c.absorbLeft - 1,
               state := if c.absorbLeft - 1 = 0 then .idle else .absorb }, t.2), none)

def gvretEncode (env : GvretEnv σ) (t : GvretCtx × σ) (bytes : List UInt8) :
    (GvretCtx × σ) × Option ℤ :=
  feed (gvretByte env) t bytes

/-- `gvret_encode` call after call. -/
def gvretEncodes (env : GvretEnv σ) (t : GvretCtx × σ) (calls : List (List UInt8)) :
    GvretCtx × σ :=
  feeds (gvretByte env) t calls

end Meatpi
