import Mathlib.Tactic.FinCases
import Meatpi.ConfigBackup.Parts

/-!
# The manifest of a copy (`config_backup_codec.c`)

A copy is a folder of sealed parts and a manifest that says of each part how long
it is, the CRC of its file and the HMAC of its content. The manifest is kept as a
JSON document, in which a part that is absent or damaged has no entry; what is
written is read back (`cbManifestFromJson_toJson`).
-/

namespace Meatpi

open List

/-! ## The checksum -/

/-- `NIBBLE` -/
def crcNibble : List UInt32 :=
  [0x00000000, 0x1DB71064, 0x3B6E20C8, 0x26D930AC, 0x76DC4190, 0x6B6B51F4, 0x4DB26158, 0x5005713C,
    0xEDB88320, 0xF00F9344, 0xD6D6A3E8, 0xCB61B38C, 0x9B64C2B0, 0x86D3D2D4, 0xA00AE278, 0xBDBDF21C]

/-- Half a byte of `cb_crc32`. -/
def crcStep (crc : UInt32) : UInt32 :=
  (crc >>> 4) ^^^ crcNibble.getD (crc &&& 0x0F).toNat 0

def cbCrc32 (p : List UInt8) : UInt32 :=
  ~~~p.foldl (fun crc b => crcStep (crcStep (crc ^^^ b.toUInt32))) 0xFFFFFFFF

/-! ## Hexadecimal text -/

/-- `DIGITS` -/
def hexLower (d : ℕ) : Char := if d < 10 then Char.ofNat (48 + d) else Char.ofNat (87 + d)

def cbHexEncode (bytes : List UInt8) : List Char :=
  bytes.flatMap fun b => [hexLower (b.toNat / 16), hexLower (b.toNat % 16)]

def hexNibble (c : Char) : Option ℕ :=
  if '0' ≤ c ∧ c ≤ '9' then some (c.toNat - 48)
  else if 'a' ≤ c ∧ c ≤ 'f' then some (c.toNat - 87)
  else if 'A' ≤ c ∧ c ≤ 'F' then some (c.toNat - 55)
  else none

/-- `cb_hex_decode` of an even number of digits, with what is in the buffer then. -/
def cbHexDecode : List Char → List UInt8 → Bool × List UInt8
  | hi :: lo :: cs, b :: out =>
    match hexNibble hi, hexNibble lo with
    | some h, some l =>
      ((cbHexDecode cs out).1, UInt8.ofNat (16 * h + l) :: (cbHexDecode cs out).2)
    | _, _ => (false, b :: out)
  | _, out => (true, out)

theorem hexNibble_hexLower : ∀ {d : ℕ}, d < 16 → hexNibble (hexLower d) = some d := by decide

theorem length_cbHexDecode : ∀ (cs : List Char) (out : List UInt8),
    (cbHexDecode cs out).2.length = out.length := by
  intro cs out
  induction cs, out using cbHexDecode.induct with
  | case1 hi lo cs b out h l hh hl ih =>
    rw [cbHexDecode, hh, hl]
    simpa using ih
  | case2 hi lo cs b out hne =>
    rw [cbHexDecode]
    split
    · next h l hh hl => exact absurd hl (hne h l hh)
    · rfl
  | case3 cs out hne =>
    rw [cbHexDecode]
    exact hne

theorem cbHexDecode_encode {bytes out : List UInt8} (hlen : out.length = bytes.length) :
    cbHexDecode (cbHexEncode bytes) out = (true, bytes) := by
  induction bytes generalizing out with
  | nil =>
    obtain rfl := eq_nil_of_length_eq_zero hlen
    rfl
  | cons b bytes ih =>
    obtain ⟨c, out, rfl⟩ := exists_cons_of_length_eq_add_one hlen
    have hlen : out.length = bytes.length := by simpa using hlen
    have hb := b.toNat_lt
    have hhi : hexNibble (hexLower (b.toNat / 16)) = some (b.toNat / 16) :=
      hexNibble_hexLower (by omega)
    have hlo : hexNibble (hexLower (b.toNat % 16)) = some (b.toNat % 16) :=
      hexNibble_hexLower (Nat.mod_lt _ (by decide))
    have hcons : cbHexEncode (b :: bytes) =
        hexLower (b.toNat / 16) :: hexLower (b.toNat % 16) :: cbHexEncode bytes := rfl
    rw [hcons, cbHexDecode, hhi, hlo]
    simp only
    rw [ih hlen, Nat.div_add_mod, UInt8.ofNat_toNat]

theorem length_cbHexEncode (bytes : List UInt8) :
    (cbHexEncode bytes).length = 2 * bytes.length := by
  induction bytes with
  | nil => rfl
  | cons b bytes ih =>
    have hcons : cbHexEncode (b :: bytes) =
        hexLower (b.toNat / 16) :: hexLower (b.toNat % 16) :: cbHexEncode bytes := rfl
    rw [hcons, length_cons, length_cons, length_cons]
    omega

/-! ## The manifest -/

/-- `CB_HMAC_LEN`, `CB_ID_LEN`, `CB_FW_LEN` and `CB_COPY_VERSION` -/
def cbHmacLen : ℕ := 32
def cbIdLen : ℕ := 16
def cbFwLen : ℕ := 32
def cbCopyVersion : ℕ := 1

/-- An HMAC. -/
abbrev CbMac := { bytes : List UInt8 // bytes.length = cbHmacLen }

structure CbManifestPart where
  present : Bool
  bytes : UInt32
  crc : UInt32
  hmac : CbMac

structure CbManifest where
  loaded : Bool
  deviceId : List Char
  fw : List Char
  refreshed : ℤ
  held : Bool
  heldSince : ℤ
  parts : CbPart → CbManifestPart

/-- A part of a manifest that is all zeroes. -/
def CbManifestPart.zero : CbManifestPart := ⟨false, 0, 0, ⟨List.replicate cbHmacLen 0, rfl⟩⟩

/-- A manifest that is all zeroes. -/
def CbManifest.zero : CbManifest := ⟨false, [], [], 0, false, 0, fun _ => .zero⟩

/-- A `double` as an integer. -/
def cTrunc (q : ℚ) : ℤ := q.num.tdiv q.den

/-- A `double` as a `uint32_t`. -/
def cU32 (q : ℚ) : UInt32 := UInt32.ofNat (cTrunc q).toNat

/-- The entry of a part. -/
def copyEntryToJson (e : CbManifestPart) : Json :=
  .obj [("bytes".toList, .num e.bytes.toNat), ("hmac".toList, .str (cbHexEncode e.hmac.1)),
    ("crc".toList, .num e.crc.toNat)]

/-- The members of the document, the parts apart. -/
def manifestHead (m : CbManifest) : List (List Char × Json) :=
  [("wican_copy".toList, .num cbCopyVersion), ("device_id".toList, .str m.deviceId),
    ("fw_version".toList, .str m.fw), ("refreshed".toList, .num m.refreshed)] ++
    if m.held then
      [("held".toList, .bool true), ("held_since".toList, .num m.heldSince)]
    else []

/-- The entries of the parts that there are. -/
def manifestParts (m : CbManifest) : List (List Char × Json) :=
  (CbPart.all.filter fun p => (m.parts p).present).map fun p =>
    (p.text.toList, copyEntryToJson (m.parts p))

def cbManifestToJson (m : CbManifest) : Json :=
  .obj (manifestHead m ++ [("parts".toList, .obj (manifestParts m))])

/-- The entry of a part, decoded. -/
def copyEntryFromJson (o : Json) (e : CbManifestPart) : CbManifestPart :=
  match o.getItem "bytes".toList, o.getItem "hmac".toList with
  | some (.num bytes), some (.str hex) =>
    if hex.length ≠ 2 * cbHmacLen then
      e
    else
      let hmac : CbMac := ⟨(cbHexDecode hex e.hmac.1).2, by rw [length_cbHexDecode, e.hmac.2]⟩
      if (cbHexDecode hex e.hmac.1).1 then
        { present := true
          bytes := cU32 bytes
          crc :=
            match o.getItem "crc".toList with
            | some (.num crc) => cU32 crc
            | _ => 0
          hmac }
      else
        -- the digits before the bad one are in the buffer
        { e with hmac }
  | _, _ => e

/-- One member of the parts. -/
def partFromJson (parts : CbPart → CbManifestPart) (o : List Char × Json) :
    CbPart → CbManifestPart :=
  match cbPartFromName (charBytes o.1) with
  | none => parts
  | some p => Function.update parts p (copyEntryFromJson o.2 (parts p))

/-- A time of the document. -/
def timeOf : Option Json → ℤ
  | some (.num q) => cTrunc q
  | _ => 0

def cbManifestFromJson (j : Json) : Option CbManifest :=
  match j.getItem "wican_copy".toList, j.getItem "device_id".toList, j.getItem "parts".toList with
  | some (.num ver), some (.str id), some (.obj parts) =>
    if ver ≠ cbCopyVersion then
      none
    else
      let held := ((j.getItem "held".toList).bind Json.asBool).getD false
      some
        { loaded := true
          deviceId := id.take (cbIdLen - 1)
          fw := (((j.getItem "fw_version".toList).bind Json.asStr).getD []).take (cbFwLen - 1)
          refreshed := timeOf (j.getItem "refreshed".toList)
          held
          heldSince := if held then timeOf (j.getItem "held_since".toList) else 0
          parts := parts.foldl partFromJson fun _ => .zero }
  | _, _, _ => none

/-! ## What is written is read back -/

/-- What a manifest's document says: the parts that are absent are gone. -/
def CbManifest.written (m : CbManifest) : CbManifest where
  loaded := true
  deviceId := m.deviceId.take (cbIdLen - 1)
  fw := m.fw.take (cbFwLen - 1)
  refreshed := m.refreshed
  held := m.held
  heldSince := if m.held then m.heldSince else 0
  parts p := if (m.parts p).present then m.parts p else .zero

theorem cTrunc_intCast (z : ℤ) : cTrunc z = z := by
  rw [cTrunc, Rat.num_intCast, Rat.den_intCast, Nat.cast_one, Int.tdiv_one]

theorem cU32_toNat (w : UInt32) : cU32 (w.toNat : ℚ) = w := by
  have h : cTrunc (w.toNat : ℚ) = (w.toNat : ℤ) := cTrunc_intCast w.toNat
  rw [cU32, h, Int.toNat_natCast, UInt32.ofNat_toNat]

theorem copyEntryFromJson_toJson {e : CbManifestPart} (hp : e.present = true)
    (e' : CbManifestPart) : copyEntryFromJson (copyEntryToJson e) e' = e := by
  have hdec := cbHexDecode_encode (e'.hmac.2.trans e.hmac.2.symm)
  have hlen : (cbHexEncode e.hmac.1).length = 2 * cbHmacLen := by
    rw [length_cbHexEncode, e.hmac.2]
  have hbytes : (copyEntryToJson e).getItem "bytes".toList = some (.num e.bytes.toNat) := rfl
  have hhmac : (copyEntryToJson e).getItem "hmac".toList = some (.str (cbHexEncode e.hmac.1)) := rfl
  have hcrc : (copyEntryToJson e).getItem "crc".toList = some (.num e.crc.toNat) := rfl
  rw [copyEntryFromJson, hbytes, hhmac, hcrc]
  simp only [hlen, ne_eq, not_true, if_false, hdec, if_true, cU32_toNat, Subtype.coe_eta]
  rw [← hp]

theorem cbPartFromName_text (p : CbPart) : cbPartFromName (charBytes p.text.toList) = some p := by
  cases p <;> decide

theorem foldl_partFromJson (m : CbManifest) {ps : List CbPart}
    (hps : ∀ p ∈ ps, (m.parts p).present = true) : ∀ parts : CbPart → CbManifestPart,
    (ps.map fun p => (p.text.toList, copyEntryToJson (m.parts p))).foldl partFromJson parts =
      fun p => if p ∈ ps then m.parts p else parts p := by
  induction ps with
  | nil => exact fun parts => rfl
  | cons q ps ih =>
    intro parts
    obtain ⟨hq, hps⟩ := forall_mem_cons.mp hps
    rw [map_cons, foldl_cons, ih hps, partFromJson, cbPartFromName_text]
    simp only
    rw [copyEntryFromJson_toJson hq]
    funext p
    by_cases hp : p ∈ ps
    · rw [if_pos hp, if_pos (mem_cons_of_mem q hp)]
    · by_cases hpq : p = q
      · subst hpq
        rw [if_neg hp, if_pos mem_cons_self, Function.update_self]
      · have hne : p ∉ q :: ps := by
          rw [mem_cons, not_or]
          exact ⟨hpq, hp⟩
        rw [if_neg hp, if_neg hne, Function.update_of_ne hpq]

theorem CbPart.mem_all (p : CbPart) : p ∈ CbPart.all := by
  cases p <;> decide

/-- **A manifest that is written is read back.** -/
theorem cbManifestFromJson_toJson (m : CbManifest) :
    cbManifestFromJson (cbManifestToJson m) = some m.written := by
  have hparts : (manifestParts m).foldl partFromJson (fun _ => .zero) = m.written.parts := by
    rw [manifestParts, foldl_partFromJson m fun p hp => (mem_filter.mp hp).2]
    funext p
    have hmem : p ∈ (CbPart.all.filter fun p => (m.parts p).present) ↔
        (m.parts p).present = true := by
      rw [mem_filter]
      exact ⟨And.right, fun h => ⟨CbPart.mem_all p, h⟩⟩
    simp only [hmem]
    rfl
  have hver : (cbManifestToJson m).getItem "wican_copy".toList = some (.num cbCopyVersion) := rfl
  have hid : (cbManifestToJson m).getItem "device_id".toList = some (.str m.deviceId) := rfl
  have hfw : (cbManifestToJson m).getItem "fw_version".toList = some (.str m.fw) := rfl
  have href : (cbManifestToJson m).getItem "refreshed".toList = some (.num m.refreshed) := rfl
  have hps : (cbManifestToJson m).getItem "parts".toList = some (.obj (manifestParts m)) := by
    cases h : m.held with
    | false => rw [cbManifestToJson, manifestHead, h]; rfl
    | true => rw [cbManifestToJson, manifestHead, h]; rfl
  have hheld : (cbManifestToJson m).getItem "held".toList =
      if m.held then some (.bool true) else none := by
    cases h : m.held with
    | false => rw [cbManifestToJson, manifestHead, h]; rfl
    | true => rw [cbManifestToJson, manifestHead, h]; rfl
  have hsince : (cbManifestToJson m).getItem "held_since".toList =
      if m.held then some (.num m.heldSince) else none := by
    cases h : m.held with
    | false => rw [cbManifestToJson, manifestHead, h]; rfl
    | true => rw [cbManifestToJson, manifestHead, h]; rfl
  rw [cbManifestFromJson, hver, hid, hps, hfw, href, hheld, hsince]
  simp only [ne_eq, not_true, if_false, hparts, timeOf, cTrunc_intCast]
  cases h : m.held with
  | false => simp [CbManifest.written, h, Json.asStr]
  | true => simp [CbManifest.written, h, Json.asStr, Json.asBool, cTrunc_intCast]

end Meatpi
