import Mathlib.Data.Rat.Lemmas
import Meatpi.Library.JsonText

/-!
# The envelope of a settings file (`settings_manager_codec.c`)

A settings file is one JSON object with a checksum, a schema version and the
settings object. The checksum is that of the settings object printed again, so
that a file is checked by printing what was parsed.
-/

namespace Meatpi

/-- The errors of the settings manager (`esp_err_t`). -/
inductive SmErr where
  | invalidArg
  | notFound
  | noMem
  | invalidCrc
  | invalidState
  | invalidVersion
  | fail
  deriving DecidableEq

/-! ## The checksum -/

/-- One bit of `sm_crc32`. -/
def smCrcBit (crc : UInt32) : UInt32 := (crc >>> 1) ^^^ (0xEDB88320 &&& (0 - (crc &&& 1)))

/-- One byte of `sm_crc32`. -/
def smCrcByte (crc : UInt32) (byte : UInt8) : UInt32 :=
  smCrcBit (smCrcBit (smCrcBit (smCrcBit (smCrcBit (smCrcBit (smCrcBit (smCrcBit
    (crc ^^^ byte.toUInt32))))))))

def smCrc32 (data : List UInt8) : UInt32 := ~~~(data.foldl smCrcByte 0xFFFFFFFF)

/-! ## Encoding and decoding -/

/-- Which allocations of the codec succeed. -/
structure SmMem where
  parses : Bool
  prints : Bool
  builds : Bool

/-- Enough memory for everything. -/
def SmMem.plenty : SmMem := ⟨true, true, true⟩

/-- `cJSON_IsObject` -/
def isObject : Json → Bool
  | .obj _ => true
  | _ => false

/-- A number as a `uint32_t`, for the numbers that are one. -/
def numUInt32 (q : ℚ) : UInt32 := UInt32.ofNat (q.num.toNat / q.den)

/-- The envelope as a document. -/
def smEnvelope (crc version : UInt32) (data : Json) : Json :=
  .obj [("crc32".toList, .num crc.toNat), ("version".toList, .num version.toNat),
    ("data".toList, data)]

variable (cj : JsonCodec)

def smCodecEncode (mem : SmMem) (version : UInt32) (data : Json) : Except SmErr (List UInt8) :=
  if ¬(mem.prints ∧ mem.builds) then
    .error .noMem
  else
    .ok (cj.print (smEnvelope (smCrc32 (cj.print data)) version data))

def smCodecDecode (mem : SmMem) (text : List UInt8) : Except SmErr (UInt32 × Json) :=
  if ¬mem.parses then
    .error .invalidArg
  else
    match cj.parse text with
    | none => .error .invalidArg
    | some env =>
      match env.getItem "crc32".toList, env.getItem "data".toList with
      | some (.num crc), some data =>
        if ¬isObject data then
          .error .invalidArg
        else if ¬mem.prints then
          .error .noMem
        else if smCrc32 (cj.print data) ≠ numUInt32 crc then
          .error .invalidCrc
        else if ¬mem.builds then
          .error .noMem
        else
          match env.getItem "version".toList with
          | some (.num version) => .ok (numUInt32 version, data)
          | _ => .ok (0, data)
      | _, _ => .error .invalidArg

theorem numUInt32_toNat (n : UInt32) : numUInt32 ((n.toNat : ℕ) : ℚ) = n := by
  rw [numUInt32, Rat.num_natCast, Rat.den_natCast, Int.toNat_natCast, Nat.div_one,
    UInt32.ofNat_toNat]

/-- **Round trip.** What was encoded decodes to the same version and object. -/
theorem smCodecDecode_print (version : UInt32) {data : Json} (hobj : isObject data = true) :
    smCodecDecode cj .plenty (cj.print (smEnvelope (smCrc32 (cj.print data)) version data)) =
      .ok (version, data) := by
  have hcrc : (smEnvelope (smCrc32 (cj.print data)) version data).getItem "crc32".toList =
      some (.num (smCrc32 (cj.print data)).toNat) := rfl
  have hversion : (smEnvelope (smCrc32 (cj.print data)) version data).getItem "version".toList =
      some (.num version.toNat) := rfl
  have hdata : (smEnvelope (smCrc32 (cj.print data)) version data).getItem "data".toList =
      some data := rfl
  simp only [smCodecDecode, SmMem.plenty, cj.parse_print, hcrc, hversion, hdata, hobj,
    numUInt32_toNat, not_true_eq_false, if_false, ne_eq]

end Meatpi
