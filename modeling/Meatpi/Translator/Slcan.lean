import Meatpi.Library.Feed
import Meatpi.Translator.CanWire

/-!
# The slcan codec (`translator_slcan_codec.c`)

Towards the client every frame of a chunk becomes a line of ASCII, and the lines are
handed on in batches; from the client bytes are put together to lines, and a line
that is a frame goes to the bus.
-/

namespace Meatpi

/-! ## Hex digits -/

/-- `hex_nibble` -/
def slcanHexNibble (c : UInt8) : Option ℕ :=
  if 48 ≤ c ∧ c ≤ 57 then some (c.toNat - 48)
  else if 97 ≤ c ∧ c ≤ 102 then some (c.toNat - 97 + 10)
  else if 65 ≤ c ∧ c ≤ 70 then some (c.toNat - 65 + 10)
  else none

/-- `up_hex` -/
def slcanUpHex (n : ℕ) : UInt8 :=
  if n % 16 < 10 then UInt8.ofNat (48 + n % 16) else UInt8.ofNat (65 + (n % 16 - 10))

/-- `parse_id`, of eight digits at most: `v << 4 | n` for each of them. -/
def slcanParseId (cs : List UInt8) : Option ℕ := (cs.mapM slcanHexNibble).map (ofDigitsBE 16)

/-- The letter of a record. -/
def slcanType (ext rtr : Bool) : UInt8 :=
  if ext then (if rtr then 82 else 84) else (if rtr then 114 else 116)

/-- The digits of an identifier. -/
def slcanIdLen (ext : Bool) : ℕ := if ext then 8 else 3

/-! ## From the bus -/

def slcanFormatLine (f : CanFrame) : List UInt8 :=
  slcanType f.ext f.rtr :: ((digitsBE 16 (slcanIdLen f.ext) f.id.toNat).map slcanUpHex ++
    (48 + (if 8 < f.dlc then 8 else f.dlc)) ::
      ((if f.rtr then [] else (f.data.take f.dlc.toNat).flatMap fun b =>
        [slcanUpHex (b.toNat / 16), slcanUpHex (b.toNat % 16)]) ++ [13]))

/-- The size of `batch` -/
def slcanBatch : ℕ := 512

variable {σ : Type}

/-- The loop of `slcan_decode` with so many rounds left, on the rest of the chunk;
nothing if it takes more rounds or writes behind the end of `batch`. -/
def slcanDecodeLoop (sink : BridgeSink σ) :
    ℕ → List UInt8 → List UInt8 → σ → Option (σ × Option ℤ)
  | 0, _, _, _ => none
  | k + 1, rest, batch, s =>
    match canWireDecodeNext rest with
    | none => some (if 0 < batch.length then sink s batch else (s, none))
    | some p =>
      let full := decide (slcanBatch < batch.length + 32)
      let flushed := if full then sink s batch else (s, none)
      let kept := if full then [] else batch
      if flushed.2 ≠ none then some flushed
      else if slcanBatch < kept.length + (slcanFormatLine p.1).length then none
      else slcanDecodeLoop sink k (rest.drop p.2) (kept ++ slcanFormatLine p.1) flushed.1

def slcanDecode (sink : BridgeSink σ) (s : σ) (chunk : List UInt8) : Option (σ × Option ℤ) :=
  slcanDecodeLoop sink (chunk.length + 1) chunk [] s

/-- `slcan_decode` of one chunk after another. -/
def slcanDecodes (sink : BridgeSink σ) : σ → List (List UInt8) → Option σ
  | s, [] => some s
  | s, chunk :: chunks => (slcanDecode sink s chunk).bind fun r => slcanDecodes sink r.1 chunks

/-! ## To the bus -/

/-- `slcan_ctx_t`, with the `len` characters of `line`. -/
structure SlcanCtx where
  line : List UInt8
  short : line.length ≤ 47

/-- `slcan_ctx_init` -/
def SlcanCtx.fresh : SlcanCtx := ⟨[], Nat.zero_le 47⟩

/-- A character that is neither the end of the line nor skipped. -/
def SlcanCtx.push (ctx : SlcanCtx) (c : UInt8) : SlcanCtx :=
  if h : ctx.line.length < 47 then
    ⟨ctx.line ++ [c], by rw [List.length_append, List.length_singleton]; omega⟩
  else .fresh

def slcanBitrateKbps (code : UInt8) : ℕ :=
  if code < 48 ∨ 57 < code then 0
  else [10, 20, 50, 100, 125, 250, 500, 800, 1000, 83].getD (code.toNat - 48) 0

/-- The data bytes, two digits each. -/
def slcanHexBytes : ℕ → List UInt8 → Option (List UInt8)
  | 0, _ => some []
  | n + 1, hi :: lo :: cs =>
    (slcanHexNibble hi).bind fun h => (slcanHexNibble lo).bind fun l =>
      (slcanHexBytes n cs).map fun bytes => UInt8.ofNat (h * 16 + l) :: bytes
  | _ + 1, _ => none

/-- The frame that `emit_frame` makes of a line. -/
def slcanFrame (line : List UInt8) : Option CanFrame :=
  let type := line.headD 0
  let ext := decide (type = 84 ∨ type = 82)
  let rtr := decide (type = 114 ∨ type = 82)
  let idLen := slcanIdLen ext
  if ¬(type = 116 ∨ type = 114 ∨ type = 84 ∨ type = 82) then none
  else if line.length < 1 + idLen + 1 then none
  else
    (slcanParseId ((line.drop 1).take idLen)).bind fun id =>
      (slcanHexNibble (line.getD (1 + idLen) 0)).bind fun dlc =>
        if 8 < dlc then none
        else if rtr then some (.of (UInt32.ofNat id) ext rtr (UInt8.ofNat dlc) 0 [])
        else if line.length < 1 + idLen + 1 + dlc * 2 then none
        else (slcanHexBytes dlc (line.drop (1 + idLen + 1))).map fun bytes =>
          .of (UInt32.ofNat id) ext rtr (UInt8.ofNat dlc) 0 bytes

/-- Where `slcan_encode` sends frames, and `slcan_bitrate_hook` -/
structure SlcanEnv (σ : Type) where
  sink : BridgeSink σ
  bitrateHook : Option (σ → ℕ → σ)

/-- `emit_frame` -/
def slcanEmitFrame (env : SlcanEnv σ) (line : List UInt8) (s : σ) : σ × Option ℤ :=
  if line.headD 0 = 83 ∧ line.length = 2 then
    let kbps := slcanBitrateKbps (line.getD 1 0)
    (if kbps ≠ 0 then env.bitrateHook.elim s (fun hook => hook s kbps) else s, none)
  else (slcanFrame line).elim (s, none) fun f => env.sink s (canWireEncode f)

/-- The loop of `slcan_encode`, for one character. -/
def slcanChar (env : SlcanEnv σ) (t : SlcanCtx × σ) (c : UInt8) : (SlcanCtx × σ) × Option ℤ :=
  if c = 13 then
    if 0 < t.1.line.length then
      ((.fresh, (slcanEmitFrame env t.1.line t.2).1), (slcanEmitFrame env t.1.line t.2).2)
    else (t, none)
  else if c = 10 then (t, none)
  else ((t.1.push c, t.2), none)

def slcanEncode (env : SlcanEnv σ) (t : SlcanCtx × σ) (chars : List UInt8) :
    (SlcanCtx × σ) × Option ℤ :=
  feed (slcanChar env) t chars

/-- `slcan_encode` call after call, from a context that was just set up. -/
def slcanEncodes (env : SlcanEnv σ) (s : σ) (calls : List (List UInt8)) : SlcanCtx × σ :=
  feeds (slcanChar env) (.fresh, s) calls

end Meatpi
