import Meatpi.Library.Framing
import Meatpi.Library.Numeral

/-!
# One CAN frame in a chunk (`can_frame_wire.h`)

The bridges carry a CAN frame as ten bytes and its data; several frames may stand in
one chunk. Every translator reads and writes this one format.
-/

namespace Meatpi

open List Option

variable {bytes : List UInt8}

/-- `can_core_frame_t` -/
structure CanFrame where
  id : UInt32
  ext : Bool
  rtr : Bool
  dlc : UInt8
  data : List UInt8
  tsUs : UInt32
  data_length : data.length = 8

/-- The bytes at the start of an array of eight zeros. -/
def canData (bytes : List UInt8) : List UInt8 := (bytes ++ List.replicate 8 0).take 8

theorem length_canData (bytes : List UInt8) : (canData bytes).length = 8 := by
  rw [canData, length_take, length_append, length_replicate]
  omega

theorem take_canData {n : ℕ} (h : bytes.length = n) (hn : n ≤ 8) :
    (canData bytes).take n = bytes := by
  rw [canData, take_take, Nat.min_eq_left hn, take_left' h]

/-- A frame with these bytes at the start of `data` and zeros behind them. -/
def CanFrame.of (id : UInt32) (ext rtr : Bool) (dlc : UInt8) (tsUs : UInt32)
    (bytes : List UInt8) : CanFrame where
  id := id
  ext := ext
  rtr := rtr
  dlc := dlc
  data := canData bytes
  tsUs := tsUs
  data_length := length_canData bytes

/-- `CAN_WIRE_HDR`, `CAN_WIRE_FLAG_EXT`, `CAN_WIRE_FLAG_RTR` -/
def canWireHdr : ℕ := 10
def canWireFlagExt : UInt8 := 0x01
def canWireFlagRtr : UInt8 := 0x02

def canWireEncode (f : CanFrame) : List UInt8 :=
  let dlc := if 8 < f.dlc then 8 else f.dlc
  leBytes 4 f.id.toNat ++
    [(if f.ext then canWireFlagExt else 0) ||| (if f.rtr then canWireFlagRtr else 0), dlc] ++
    leBytes 4 f.tsUs.toNat ++ if f.rtr then [] else f.data.take dlc.toNat

def canWireDecode (bytes : List UInt8) : Option CanFrame :=
  if bytes.length < canWireHdr then none
  else
    let flags := bytes.getD 4 0
    let dlc := bytes.getD 5 0
    let rtr := decide (flags &&& canWireFlagRtr ≠ 0)
    if 8 < dlc then none
    else if rtr = false ∧ dlc ≠ 0 ∧ bytes.length < canWireHdr + dlc.toNat then none
    else some <| .of (UInt32.ofNat (ofLeBytes (bytes.take 4)))
      (decide (flags &&& canWireFlagExt ≠ 0)) rtr dlc
      (UInt32.ofNat (ofLeBytes ((bytes.drop 6).take 4)))
      (if rtr then [] else (bytes.drop canWireHdr).take dlc.toNat)

/-- The bytes a frame takes, as `can_wire_decode_next` counts them. -/
def CanFrame.wireLength (f : CanFrame) : ℕ := canWireHdr + if f.rtr then 0 else f.dlc.toNat

def canWireDecodeNext (bytes : List UInt8) : Option (CanFrame × ℕ) :=
  (canWireDecode bytes).map fun f => (f, f.wireLength)

/-! ## Reading frames off a chunk -/

theorem canWireDecode_eq_some {f : CanFrame} (h : canWireDecode bytes = some f) :
    f.dlc ≤ 8 ∧ f.wireLength ≤ bytes.length ∧ ∀ more, canWireDecode (bytes ++ more) = some f := by
  rw [canWireDecode, ite_none_left_eq_some] at h
  obtain ⟨hhdr, h⟩ := h
  have hlong : canWireHdr ≤ bytes.length := by omega
  rw [ite_none_left_eq_some, ite_none_left_eq_some] at h
  obtain ⟨hdlc, hdata, h⟩ := h
  have hten : canWireHdr = 10 := rfl
  -- the header lies within the bytes, and so does the data of a frame that has some
  have hget : ∀ (more : List UInt8) {i : ℕ}, i < 10 → (bytes ++ more).getD i 0 = bytes.getD i 0 := by
    intro more i hi
    rw [getD_eq_getElem?_getD, List.getElem?_append_left (by omega),
      ← getD_eq_getElem?_getD]
  have hid : ∀ more, (bytes ++ more).take 4 = bytes.take 4 := fun more =>
    take_append_of_le_length (by omega)
  have hts : ∀ more, ((bytes ++ more).drop 6).take 4 = (bytes.drop 6).take 4 := by
    intro more
    rw [drop_append_of_le_length (by omega), take_append_of_le_length]
    rw [length_drop]
    omega
  have hlen : ∀ more : List UInt8, bytes.length ≤ (bytes ++ more).length := by
    intro more
    rw [length_append]
    omega
  -- data is there if the frame has any
  have hthere : decide (bytes.getD 4 0 &&& canWireFlagRtr ≠ 0) = false →
      canWireHdr + (bytes.getD 5 0).toNat ≤ bytes.length := by
    intro hrtr
    by_cases hzero : bytes.getD 5 0 = 0
    · rw [hzero, UInt8.toNat_zero]
      omega
    · by_contra hshort
      exact hdata ⟨hrtr, hzero, by omega⟩
  obtain rfl := some.inj h
  refine ⟨UInt8.not_lt.1 hdlc, ?_, fun more => ?_⟩
  · rw [CanFrame.wireLength, CanFrame.of]
    split_ifs with hrtr
    · omega
    · exact hthere (Bool.eq_false_iff.2 hrtr)
  · rw [canWireDecode, if_neg (by have := hlen more; omega)]
    rw [hget more (by omega), hget more (by omega), if_neg hdlc, if_neg, hid more, hts more]
    · cases hrtr : decide (bytes.getD 4 0 &&& canWireFlagRtr ≠ 0) with
      | true => rfl
      | false =>
        have hbelow := hthere hrtr
        rw [if_neg Bool.false_ne_true, if_neg Bool.false_ne_true,
          drop_append_of_le_length hlong, take_append_of_le_length]
        rw [length_drop]
        omega
    · rintro ⟨hrtr, -, hshort⟩
      have hbelow := hthere hrtr
      have hmore := hlen more
      omega

/-- The frames of a chunk, taken off one by one. -/
def canWireFramer : Framer UInt8 CanFrame where
  peel := canWireDecodeNext
  pos := by
    intro bytes f n h
    obtain ⟨g, -, hg⟩ := Option.map_eq_some_iff.1 h
    obtain ⟨rfl, rfl⟩ := Prod.mk.inj hg
    exact Nat.lt_of_lt_of_le (by decide : 0 < canWireHdr) (Nat.le_add_right _ _)
  le_length := by
    intro bytes f n h
    obtain ⟨g, hdecode, hg⟩ := Option.map_eq_some_iff.1 h
    obtain ⟨rfl, rfl⟩ := Prod.mk.inj hg
    exact (canWireDecode_eq_some hdecode).2.1
  append := by
    intro bytes f n more h
    obtain ⟨g, hdecode, hg⟩ := Option.map_eq_some_iff.1 h
    obtain ⟨rfl, rfl⟩ := Prod.mk.inj hg
    rw [canWireDecodeNext, (canWireDecode_eq_some hdecode).2.2 more]
    rfl

/-! ## A frame read back -/

/-- What a chunk says of a frame. -/
def CanFrame.sent (f : CanFrame) : CanFrame :=
  .of f.id f.ext f.rtr f.dlc f.tsUs (if f.rtr then [] else f.data.take f.dlc.toNat)

theorem length_canWireEncode {f : CanFrame} (hdlc : f.dlc ≤ 8) :
    (canWireEncode f).length = f.wireLength := by
  have hle : f.dlc.toNat ≤ 8 := UInt8.le_iff_toNat_le.1 hdlc
  rw [canWireEncode, if_neg (UInt8.not_lt.2 hdlc), CanFrame.wireLength]
  cases f.rtr with
  | true => rfl
  | false =>
    simp only [length_append, length_leBytes, Bool.false_eq_true, if_false,
      length_take, f.data_length]
    rw [Nat.min_eq_left hle]
    rfl

/-- **A frame is read back** from a chunk that it starts. -/
theorem canWireDecode_encode {f : CanFrame} (hdlc : f.dlc ≤ 8) (more : List UInt8) :
    canWireDecode (canWireEncode f ++ more) = some f.sent := by
  have hlen := length_canWireEncode hdlc
  have hle : canWireHdr ≤ f.wireLength := Nat.le_add_right _ _
  generalize hflags :
    (if f.ext then canWireFlagExt else 0) ||| (if f.rtr then canWireFlagRtr else 0) = flags
  have hext : decide (flags &&& canWireFlagExt ≠ 0) = f.ext := by
    rw [← hflags]
    cases f.ext <;> cases f.rtr <;> rfl
  have hrtr : decide (flags &&& canWireFlagRtr ≠ 0) = f.rtr := by
    rw [← hflags]
    cases f.ext <;> cases f.rtr <;> rfl
  have hbytes : canWireEncode f = leBytes 4 f.id.toNat ++ [flags, f.dlc] ++
      leBytes 4 f.tsUs.toNat ++ if f.rtr then [] else f.data.take f.dlc.toNat := by
    rw [canWireEncode, if_neg (UInt8.not_lt.2 hdlc), hflags]
  suffices h : canWireDecode (canWireEncode f) = some f.sent from (canWireDecode_eq_some h).2.2 more
  -- each field lies behind the ones before it
  generalize hdata : (if f.rtr then [] else f.data.take f.dlc.toNat) = data at hbytes
  rw [hbytes] at hlen ⊢
  have hid : (leBytes 4 f.id.toNat ++ [flags, f.dlc] ++ leBytes 4 f.tsUs.toNat ++ data).take 4 =
      leBytes 4 f.id.toNat := rfl
  have hts : ((leBytes 4 f.id.toNat ++ [flags, f.dlc] ++ leBytes 4 f.tsUs.toNat ++
      data).drop 6).take 4 = leBytes 4 f.tsUs.toNat := rfl
  have hrest : (leBytes 4 f.id.toNat ++ [flags, f.dlc] ++ leBytes 4 f.tsUs.toNat ++
      data).drop canWireHdr = data := rfl
  have hfour : (leBytes 4 f.id.toNat ++ [flags, f.dlc] ++ leBytes 4 f.tsUs.toNat ++
      data).getD 4 0 = flags := rfl
  have hfive : (leBytes 4 f.id.toNat ++ [flags, f.dlc] ++ leBytes 4 f.tsUs.toNat ++
      data).getD 5 0 = f.dlc := rfl
  rw [canWireDecode, if_neg (by omega), hfour, hfive]
  rw [if_neg (UInt8.not_lt.2 hdlc), hid, hts, hrest, hext, hrtr,
    ofLeBytes_leBytes (w := 4) f.id.toNat_lt, ofLeBytes_leBytes (w := 4) f.tsUs.toNat_lt,
    UInt32.ofNat_toNat, UInt32.ofNat_toNat, if_neg, CanFrame.sent]
  · cases hframe : f.rtr with
    | true => rfl
    | false =>
      rw [hframe, if_neg Bool.false_ne_true] at hdata
      rw [if_neg Bool.false_ne_true, if_neg Bool.false_ne_true, ← hdata, take_take, Nat.min_self]
  · rintro ⟨hframe, -, hshort⟩
    rw [hlen, CanFrame.wireLength, hframe] at hshort
    exact Nat.lt_irrefl _ hshort

theorem canWireFramer_tokens {frames : List CanFrame} (hdlc : ∀ f ∈ frames, f.dlc ≤ 8) :
    canWireFramer.tokens (frames.flatMap canWireEncode) = frames.map CanFrame.sent := by
  induction frames with
  | nil => rfl
  | cons f frames ih =>
    have hf := hdlc f mem_cons_self
    have hpeel : canWireFramer.peel (canWireEncode f ++ frames.flatMap canWireEncode) =
        some (f.sent, (canWireEncode f).length) := by
      rw [length_canWireEncode hf]
      exact congrArg (Option.map _) (canWireDecode_encode hf _)
    rw [flatMap_cons, Framer.tokens_of_peel hpeel, drop_left, map_cons,
      ih fun g hg => hdlc g (mem_cons_of_mem f hg)]

/-! ## What a translator hands on -/

/-- `bridge_sink_fn_t` with its argument: what a chunk does to the receiver, and the
error if it is refused. -/
abbrev BridgeSink (σ : Type) : Type := σ → List UInt8 → σ × Option ℤ

/-- A sink that accepts every chunk, with a log of the chunks it got. -/
structure SinkRecords {σ : Type} (sink : BridgeSink σ) (log : σ → List (List UInt8)) : Prop where
  accepts : ∀ s chunk, (sink s chunk).2 = none
  logs : ∀ s chunk, log (sink s chunk).1 = log s ++ [chunk]

/-- The sink that is nothing but its log. -/
def logSink : BridgeSink (List (List UInt8)) := fun log chunk => (log ++ [chunk], none)

theorem sinkRecords_logSink : SinkRecords logSink id where
  accepts := fun _ _ => rfl
  logs := fun _ _ => rfl

end Meatpi
