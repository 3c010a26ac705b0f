import Meatpi.Library.Feed
import Meatpi.Translator.CanWire

/-!
# The RealDash codec (`translator_realdash_codec.c`)

Towards RealDash every frame goes as twenty bytes with a CRC32. Its own frames come
in two kinds, the other one seventeen bytes with a sum; the first byte tells which.
The machine that takes them waits for a first byte, gives up on a wrong magic, and
drops a frame that does not check.
-/

namespace Meatpi

open List Nat

variable {ρ : Type}

def rd66Len : ℕ := 20
def rd44Len : ℕ := 17

/-! ## The checksums -/

/-- The table of `rd_crc32` -/
def rdCrcTable : Array UInt32 := #[
  0x00000000, 0x77073096, 0xEE0E612C, 0x990951BA, 0x076DC419, 0x706AF48F, 0xE963A535,
  0x9E6495A3, 0x0EDB8832, 0x79DCB8A4, 0xE0D5E91E, 0x97D2D988, 0x09B64C2B, 0x7EB17CBD,
  0xE7B82D07, 0x90BF1D91, 0x1DB71064, 0x6AB020F2, 0xF3B97148, 0x84BE41DE, 0x1ADAD47D,
  0x6DDDE4EB, 0xF4D4B551, 0x83D385C7, 0x136C9856, 0x646BA8C0, 0xFD62F97A, 0x8A65C9EC,
  0x14015C4F, 0x63066CD9, 0xFA0F3D63, 0x8D080DF5, 0x3B6E20C8, 0x4C69105E, 0xD56041E4,
  0xA2677172, 0x3C03E4D1, 0x4B04D447, 0xD20D85FD, 0xA50AB56B, 0x35B5A8FA, 0x42B2986C,
  0xDBBBC9D6, 0xACBCF940, 0x32D86CE3, 0x45DF5C75, 0xDCD60DCF, 0xABD13D59, 0x26D930AC,
  0x51DE003A, 0xC8D75180, 0xBFD06116, 0x21B4F4B5, 0x56B3C423, 0xCFBA9599, 0xB8BDA50F,
  0x2802B89E, 0x5F058808, 0xC60CD9B2, 0xB10BE924, 0x2F6F7C87, 0x58684C11, 0xC1611DAB,
  0xB6662D3D, 0x76DC4190, 0x01DB7106, 0x98D220BC, 0xEFD5102A, 0x71B18589, 0x06B6B51F,
  0x9FBFE4A5, 0xE8B8D433, 0x7807C9A2, 0x0F00F934, 0x9609A88E, 0xE10E9818, 0x7F6A0DBB,
  0x086D3D2D, 0x91646C97, 0xE6635C01, 0x6B6B51F4, 0x1C6C6162, 0x856530D8, 0xF262004E,
  0x6C0695ED, 0x1B01A57B, 0x8208F4C1, 0xF50FC457, 0x65B0D9C6, 0x12B7E950, 0x8BBEB8EA,
  0xFCB9887C, 0x62DD1DDF, 0x15DA2D49, 0x8CD37CF3, 0xFBD44C65, 0x4DB26158, 0x3AB551CE,
  0xA3BC0074, 0xD4BB30E2, 0x4ADFA541, 0x3DD895D7, 0xA4D1C46D, 0xD3D6F4FB, 0x4369E96A,
  0x346ED9FC, 0xAD678846, 0xDA60B8D0, 0x44042D73, 0x33031DE5, 0xAA0A4C5F, 0xDD0D7CC9,
  0x5005713C, 0x270241AA, 0xBE0B1010, 0xC90C2086, 0x5768B525, 0x206F85B3, 0xB966D409,
  0xCE61E49F, 0x5EDEF90E, 0x29D9C998, 0xB0D09822, 0xC7D7A8B4, 0x59B33D17, 0x2EB40D81,
  0xB7BD5C3B, 0xC0BA6CAD, 0xEDB88320, 0x9ABFB3B6, 0x03B6E20C, 0x74B1D29A, 0xEAD54739,
  0x9DD277AF, 0x04DB2615, 0x73DC1683, 0xE3630B12, 0x94643B84, 0x0D6D6A3E, 0x7A6A5AA8,
  0xE40ECF0B, 0x9309FF9D, 0x0A00AE27, 0x7D079EB1, 0xF00F9344, 0x8708A3D2, 0x1E01F268,
  0x6906C2FE, 0xF762575D, 0x806567CB, 0x196C3671, 0x6E6B06E7, 0xFED41B76, 0x89D32BE0,
  0x10DA7A5A, 0x67DD4ACC, 0xF9B9DF6F, 0x8EBEEFF9, 0x17B7BE43, 0x60B08ED5, 0xD6D6A3E8,
  0xA1D1937E, 0x38D8C2C4, 0x4FDFF252, 0xD1BB67F1, 0xA6BC5767, 0x3FB506DD, 0x48B2364B,
  0xD80D2BDA, 0xAF0A1B4C, 0x36034AF6, 0x41047A60, 0xDF60EFC3, 0xA867DF55, 0x316E8EEF,
  0x4669BE79, 0xCB61B38C, 0xBC66831A, 0x256FD2A0, 0x5268E236, 0xCC0C7795, 0xBB0B4703,
  0x220216B9, 0x5505262F, 0xC5BA3BBE, 0xB2BD0B28, 0x2BB45A92, 0x5CB36A04, 0xC2D7FFA7,
  0xB5D0CF31, 0x2CD99E8B, 0x5BDEAE1D, 0x9B64C2B0, 0xEC63F226, 0x756AA39C, 0x026D930A,
  0x9C0906A9, 0xEB0E363F, 0x72076785, 0x05005713, 0x95BF4A82, 0xE2B87A14, 0x7BB12BAE,
  0x0CB61B38, 0x92D28E9B, 0xE5D5BE0D, 0x7CDCEFB7, 0x0BDBDF21, 0x86D3D2D4, 0xF1D4E242,
  0x68DDB3F8, 0x1FDA836E, 0x81BE16CD, 0xF6B9265B, 0x6FB077E1, 0x18B74777, 0x88085AE6,
  0xFF0F6A70, 0x66063BCA, 0x11010B5C, 0x8F659EFF, 0xF862AE69, 0x616BFFD3, 0x166CCF45,
  0xA00AE278, 0xD70DD2EE, 0x4E048354, 0x3903B3C2, 0xA7672661, 0xD06016F7, 0x4969474D,
  0x3E6E77DB, 0xAED16A4A, 0xD9D65ADC, 0x40DF0B66, 0x37D83BF0, 0xA9BCAE53, 0xDEBB9EC5,
  0x47B2CF7F, 0x30B5FFE9, 0xBDBDF21C, 0xCABAC28A, 0x53B39330, 0x24B4A3A6, 0xBAD03605,
  0xCDD70693, 0x54DE5729, 0x23D967BF, 0xB3667A2E, 0xC4614AB8, 0x5D681B02, 0x2A6F2B94,
  0xB40BBE37, 0xC30C8EA1, 0x5A05DF1B, 0x2D02EF8D]

def rdCrcStep (crc : UInt32) (b : UInt8) : UInt32 :=
  (crc >>> 8) ^^^ rdCrcTable.getD ((crc ^^^ b.toUInt32) &&& 0xFF).toNat 0

def rdCrc32 (data : List UInt8) : UInt32 :=
  data.foldl rdCrcStep 0xFFFFFFFF ^^^ 0xFFFFFFFF

def rdChksum8 (buf : List UInt8) : UInt8 := UInt8.ofNat (buf.map UInt8.toNat).sum

/-! ## Towards RealDash -/

variable {σ : Type}

/-- The frame that `rd_emit_one` builds. -/
def rd66 (f : CanFrame) : List UInt8 :=
  let out := [0x66, 0x33, 0x22, 0x11] ++ leBytes 4 f.id.toNat ++
    canData (f.data.take (if 8 < f.dlc then 8 else f.dlc.toNat))
  out ++ leBytes 4 (rdCrc32 out).toNat

def rdEmitOne (sink : BridgeSink σ) (s : σ) (f : CanFrame) : σ × Option ℤ := sink s (rd66 f)

/-- `rd_decode`: the wire frames that `can_wire_decode_next` takes off the chunk, one by
one, up to the first whose frame is refused. -/
def rdDecode (sink : BridgeSink σ) (s : σ) (chunk : List UInt8) : σ × Option ℤ :=
  feed (rdEmitOne sink) s (canWireFramer.tokens chunk)

/-- One call for each chunk. -/
def rdDecodes (sink : BridgeSink σ) (s : σ) (chunks : List (List UInt8)) : σ :=
  chunks.foldl (fun s chunk => (rdDecode sink s chunk).1) s

/-! ## From RealDash -/

/-- `realdash_ctx_t`: the bytes up to `len`, and how many there will be -/
structure RdCtx where
  buf : List UInt8
  expected : ℕ
  buf_le : buf.length ≤ expected
  expected_le : expected ≤ rd66Len

/-- `rd_ctx_init` -/
def RdCtx.fresh : RdCtx := ⟨[], 0, Nat.le_refl _, Nat.zero_le _⟩

/-- With nothing buffered, a byte that starts a header is kept. -/
def RdCtx.header (c : RdCtx) (byte : UInt8) : RdCtx :=
  if byte = 0x66 then ⟨[byte], rd66Len, Nat.le_of_ble_eq_true rfl, Nat.le_refl _⟩
  else if byte = 0x44 then ⟨[byte], rd44Len, Nat.le_of_ble_eq_true rfl, by decide⟩
  else ⟨[], c.expected, Nat.zero_le _, c.expected_le⟩

/-- The frame in a buffer. -/
def rdFrame (b : List UInt8) : CanFrame :=
  let id := UInt32.ofNat (ofLeBytes ((b.drop 4).take 4))
  .of id (id &&& 0x1FFFF800 ≠ 0) false 8 0 ((b.drop 8).take 8)

/-- Does a complete buffer check? -/
def rdOk (b : List UInt8) : Bool :=
  if b.getD 0 0 = 0x66 ∧ b.length = rd66Len then
    (b.drop 16).take 4 == leBytes 4 (rdCrc32 (b.take 16)).toNat
  else if b.getD 0 0 = 0x44 ∧ b.length = rd44Len then
    rdChksum8 (b.take (rd44Len - 1)) == b.getD (rd44Len - 1) 0
  else false

def rdEmit (sink : BridgeSink σ) (b : List UInt8) (s : σ) : σ × Option ℤ :=
  if rdOk b then sink s (canWireEncode (rdFrame b)) else (s, none)

/-- Is this not the byte of the magic that stands there? -/
def rdBadMagic (len : ℕ) (byte : UInt8) : Bool :=
  (len = 1 ∧ byte ≠ 0x33) ∨ (len = 2 ∧ byte ≠ 0x22) ∨ (len = 3 ∧ byte ≠ 0x11)

/-- The loop body of `rd_encode` -/
def rdByte (sink : BridgeSink σ) (t : RdCtx × σ) (byte : UInt8) : (RdCtx × σ) × Option ℤ :=
  if t.1.buf = [] then ((t.1.header byte, t.2), none)
  -- the byte of a wrong magic may itself start a header
  else if rdBadMagic t.1.buf.length byte then ((t.1.header byte, t.2), none)
  else if h : t.1.expected ≤ t.1.buf.length + 1 then
    let r := rdEmit sink (t.1.buf ++ [byte]) t.2
    ((.fresh, r.1), r.2)
  else
    ((⟨t.1.buf ++ [byte], t.1.expected, by rw [List.length_append, List.length_singleton]; omega,
      t.1.expected_le⟩, t.2), none)

def rdEncode (sink : BridgeSink σ) (t : RdCtx × σ) (bytes : List UInt8) :
    (RdCtx × σ) × Option ℤ :=
  feed (rdByte sink) t bytes

/-- One call for each piece, from a fresh context. -/
def rdEncodes (sink : BridgeSink σ) (s : σ) (calls : List (List UInt8)) : RdCtx × σ :=
  feeds (rdByte sink) (.fresh, s) calls

/-! ## A stream of frames -/

/-- A frame of RealDash, of either kind. -/
structure RdFrame where
  crc : Bool
  id : UInt32
  data : List UInt8
  data_length : data.length = 8

namespace RdFrame

/-- Its bytes before the checksum. -/
def body (f : RdFrame) : List UInt8 :=
  [if f.crc then 0x66 else 0x44, 0x33, 0x22, 0x11] ++ leBytes 4 f.id.toNat ++ f.data

/-- Its bytes. -/
def bytes (f : RdFrame) : List UInt8 :=
  f.body ++ if f.crc then leBytes 4 (rdCrc32 f.body).toNat else [rdChksum8 f.body]

/-- The CAN frame it stands for. -/
def frame (f : RdFrame) : CanFrame := .of f.id (f.id &&& 0x1FFFF800 ≠ 0) false 8 0 f.data

end RdFrame

/-- A frame, or a byte between frames that starts none. -/
inductive RdToken where
  | frame (f : RdFrame)
  | gap (b : UInt8) (h : b ≠ 0x44 ∧ b ≠ 0x66)

def RdToken.bytes : RdToken → List UInt8
  | .frame f => f.bytes
  | .gap b _ => [b]

/-- The wire frames that a token brings. -/
def RdToken.wires : RdToken → List (List UInt8)
  | .frame f => [canWireEncode f.frame]
  | .gap _ _ => []

/-! ## One frame through the machine -/

theorem RdFrame.length_body (f : RdFrame) : f.body.length = 16 := by
  rw [RdFrame.body, length_append, f.data_length]
  rfl

theorem RdFrame.getD_body (f : RdFrame) (more : List UInt8) :
    (f.body ++ more).getD 0 0 = if f.crc then 0x66 else 0x44 := rfl

theorem rdOk_bytes (f : RdFrame) : rdOk f.bytes = true := by
  have hbody := f.length_body
  have htake : ∀ more : List UInt8, (f.body ++ more).take 16 = f.body := fun more =>
    take_left' hbody
  have hdrop : ∀ more : List UInt8, (f.body ++ more).drop 16 = more := fun more =>
    drop_left' hbody
  cases hcrc : f.crc with
  | true =>
    have hhead := f.getD_body (leBytes 4 (rdCrc32 f.body).toNat)
    rw [hcrc] at hhead
    have hlen : (f.body ++ leBytes 4 (rdCrc32 f.body).toNat).length = rd66Len := by
      rw [length_append, hbody]
      rfl
    rw [RdFrame.bytes, hcrc, if_pos rfl, rdOk, if_pos ⟨hhead, hlen⟩, htake, hdrop, beq_iff_eq]
    exact take_of_length_le (by rw [length_leBytes])
  | false =>
    have hhead := f.getD_body [rdChksum8 f.body]
    rw [hcrc] at hhead
    have hlen : (f.body ++ [rdChksum8 f.body]).length = rd44Len := by
      rw [length_append, hbody]
      rfl
    have hlast : (f.body ++ [rdChksum8 f.body]).getD 16 0 = rdChksum8 f.body := by
      rw [getD_eq_getElem?_getD, List.getElem?_append_right (by omega), hbody]
      rfl
    rw [RdFrame.bytes, hcrc, if_neg Bool.false_ne_true, rdOk, if_neg, if_pos ⟨hhead, hlen⟩]
    · show (rdChksum8 ((f.body ++ [rdChksum8 f.body]).take 16) == _) = true
      rw [htake]
      exact beq_iff_eq.2 hlast.symm
    · rintro ⟨h, -⟩
      rw [hhead] at h
      exact absurd h (by decide)

theorem rdFrame_bytes (f : RdFrame) : rdFrame f.bytes = f.frame := by
  generalize htail : (if f.crc then leBytes 4 (rdCrc32 f.body).toNat else [rdChksum8 f.body]) = tail
  have hbytes : f.bytes = [if f.crc then 0x66 else 0x44, 0x33, 0x22, 0x11] ++
      (leBytes 4 f.id.toNat ++ (f.data ++ tail)) := by
    rw [RdFrame.bytes, htail, RdFrame.body]
    simp only [append_assoc]
  have hid : (f.bytes.drop 4).take 4 = leBytes 4 f.id.toNat := by
    rfl
  have hdata : (f.bytes.drop 8).take 8 = f.data := by
    have hdrop : f.bytes.drop 8 = f.data ++ tail := by
      rw [hbytes]
      rfl
    rw [hdrop, take_left' f.data_length]
  rw [rdFrame, hid, hdata, ofLeBytes_leBytes (w := 4) f.id.toNat_lt, UInt32.ofNat_toNat]
  rfl

variable {sink : BridgeSink σ}

theorem rdByte_magic (sink : BridgeSink σ) (crc : Bool) {t : RdCtx × σ} (ht : t.1.buf = []) :
    ∃ t' : RdCtx × σ,
      [if crc then 0x66 else 0x44, 0x33, 0x22, 0x11].foldl (fun t b => (rdByte sink t b).1) t = t' ∧
      t'.1.buf = [if crc then 0x66 else 0x44, 0x33, 0x22, 0x11] ∧
      t'.1.expected = (if crc then rd66Len else rd44Len) ∧ t'.2 = t.2 := by
  obtain ⟨⟨buf, expected, hle, hroom⟩, s⟩ := t
  obtain rfl : buf = [] := ht
  cases crc with
  | true => exact ⟨_, rfl, rfl, rfl, rfl⟩
  | false => exact ⟨_, rfl, rfl, rfl, rfl⟩

theorem rdBadMagic_of_le {len : ℕ} (h : 4 ≤ len) (byte : UInt8) : rdBadMagic len byte = false := by
  rw [rdBadMagic, decide_eq_false_iff_not]
  omega

theorem rdByte_fill (sink : BridgeSink σ) (xs : List UInt8) :
    ∀ {t : RdCtx × σ}, 4 ≤ t.1.buf.length → t.1.buf.length + xs.length < t.1.expected →
      ∃ t' : RdCtx × σ, xs.foldl (fun t b => (rdByte sink t b).1) t = t' ∧
        t'.1.buf = t.1.buf ++ xs ∧ t'.1.expected = t.1.expected ∧ t'.2 = t.2 := by
  induction xs with
  | nil =>
    intro t _ _
    exact ⟨t, rfl, (append_nil _).symm, rfl, rfl⟩
  | cons x xs ih =>
    intro t hmagic hroom
    rw [length_cons] at hroom
    have hne : t.1.buf ≠ [] := by
      intro hnil
      rw [hnil] at hmagic
      exact absurd hmagic (by decide)
    have hstep := rdByte.eq_def sink t x
    rw [if_neg hne, rdBadMagic_of_le hmagic, dif_neg (by omega)] at hstep
    rw [foldl_cons, hstep]
    obtain ⟨t', hrun, hbuf, hexp, hs⟩ := @ih (⟨t.1.buf ++ [x], t.1.expected, _, _⟩, t.2)
      (by rw [length_append]; omega)
      (by rw [length_append, length_singleton]; show _ < t.1.expected; omega)
    refine ⟨t', hrun, ?_, hexp, hs⟩
    rw [hbuf, append_assoc, singleton_append]

theorem rdByte_last {t : RdCtx × σ} {x : UInt8} (hmagic : 4 ≤ t.1.buf.length)
    (hlast : t.1.expected = t.1.buf.length + 1) :
    rdByte sink t x =
      ((.fresh, (rdEmit sink (t.1.buf ++ [x]) t.2).1), (rdEmit sink (t.1.buf ++ [x]) t.2).2) := by
  have hne : t.1.buf ≠ [] := by
    intro hnil
    rw [hnil] at hmagic
    exact absurd hmagic (by decide)
  rw [rdByte, if_neg hne, rdBadMagic_of_le hmagic, if_neg Bool.false_ne_true,
    dif_pos (Nat.le_of_eq hlast)]

theorem RdFrame.length_bytes (f : RdFrame) :
    f.bytes.length = if f.crc then rd66Len else rd44Len := by
  rw [RdFrame.bytes, length_append, f.length_body]
  cases f.crc with
  | true => rw [if_pos rfl]; rfl
  | false => rfl

/-- **A frame is sent on** as the wire frame it stands for, and nothing is left of it. -/
theorem rdByte_frame (f : RdFrame) {t : RdCtx × σ} (ht : t.1.buf = []) :
    (f.bytes.foldl (fun t b => (rdByte sink t b).1) t) =
      (.fresh, (sink t.2 (canWireEncode f.frame)).1) := by
  obtain ⟨rest, hrest⟩ : ∃ rest,
      f.bytes = [if f.crc then 0x66 else 0x44, 0x33, 0x22, 0x11] ++ rest := by
    exact ⟨_, rfl⟩
  have hlen := f.length_bytes
  have hfour : ∀ h : UInt8, [h, 0x33, 0x22, 0x11].length = 4 := fun _ => rfl
  rw [hrest, length_append, hfour] at hlen
  have hmany : 13 ≤ rest.length := by
    revert hlen
    cases f.crc with
    | true => rw [if_pos rfl, rd66Len]; omega
    | false => rw [if_neg Bool.false_ne_true, rd44Len]; omega
  obtain ⟨mid, last, rfl⟩ : ∃ mid last, rest = mid ++ [last] := by
    have hne : rest ≠ [] := ne_nil_of_length_pos (by omega)
    exact ⟨rest.dropLast, rest.getLast hne, (dropLast_concat_getLast hne).symm⟩
  rw [length_append, length_singleton] at hlen
  obtain ⟨t₁, hrun₁, hbuf₁, hexp₁, hs₁⟩ := rdByte_magic sink f.crc ht
  have hlen₁ : t₁.1.buf.length = 4 := by rw [hbuf₁]; rfl
  obtain ⟨t₂, hrun₂, hbuf₂, hexp₂, hs₂⟩ := @rdByte_fill _ sink mid t₁
    (Nat.le_of_eq hlen₁.symm) (by omega)
  have hlen₂ : t₂.1.buf.length = 4 + mid.length := by rw [hbuf₂, length_append, hlen₁]
  have hwhole : t₂.1.buf ++ [last] = f.bytes := by
    rw [hbuf₂, hbuf₁, append_assoc, hrest]
  rw [hrest, foldl_append, hrun₁, foldl_append, hrun₂, foldl_cons, foldl_nil,
    rdByte_last (by omega) (by omega), hwhole, rdEmit, if_pos (rdOk_bytes f), rdFrame_bytes, hs₂,
    hs₁]

/-! ## Whole streams -/

variable {log : σ → List (List UInt8)}

theorem rdByte_accepts (hsink : SinkRecords sink log) (t : RdCtx × σ) (b : UInt8) :
    (rdByte sink t b).2 = none := by
  unfold rdByte
  split
  · rfl
  · split
    · rfl
    · split
      · rw [rdEmit]
        split
        · exact hsink.accepts _ _
        · rfl
      · rfl

theorem rdByte_token (hsink : SinkRecords sink log) (tok : RdToken) {t : RdCtx × σ}
    (ht : t.1.buf = []) :
    (tok.bytes.foldl (fun t b => (rdByte sink t b).1) t).1.buf = [] ∧
      log (tok.bytes.foldl (fun t b => (rdByte sink t b).1) t).2 = log t.2 ++ tok.wires := by
  cases tok with
  | frame f =>
    rw [RdToken.bytes, rdByte_frame f ht]
    exact ⟨rfl, hsink.logs _ _⟩
  | gap b h =>
    rw [RdToken.bytes, RdToken.wires, append_nil, foldl_cons, rdByte,
      if_pos ht, RdCtx.header, if_neg h.2, if_neg h.1]
    exact ⟨rfl, rfl⟩

/-- **Exactly the frames are sent on**, in order, however their stream is cut. -/
theorem rdEncodes_tokens (hsink : SinkRecords sink log) (s : σ) {toks : List RdToken}
    {calls : List (List UInt8)} (hcalls : calls.flatten = toks.flatMap RdToken.bytes) :
    log (rdEncodes sink s calls).2 = log s ++ toks.flatMap RdToken.wires := by
  rw [rdEncodes, feeds_eq_foldl (rdByte_accepts hsink), hcalls]
  exact (foldl_tokens (fun t : RdCtx × σ => t.1.buf = []) (fun t => log t.2)
    (fun tok _ t ht => rdByte_token hsink tok ht) (.fresh, s) rfl).2

/-! ## There and back -/

/-- A data frame of the bus whose identifier tells its own length. -/
structure CanFrame.PlainData (f : CanFrame) : Prop where
  rtr : f.rtr = false
  dlc : f.dlc ≤ 8
  id : if f.ext then 0x800 ≤ f.id.toNat ∧ f.id.toNat < 2 ^ 29 else f.id.toNat < 0x800

/-- What RealDash is told of a frame. -/
def CanFrame.told (f : CanFrame) : RdFrame :=
  ⟨true, f.id, canData (f.data.take f.dlc.toNat), length_canData _⟩

variable {f : CanFrame}

theorem rd66_sent (hf : f.PlainData) : rd66 f.sent = f.told.bytes := by
  have hle : f.dlc.toNat ≤ 8 := UInt8.le_iff_toNat_le.1 hf.dlc
  have hlen : (f.data.take f.dlc.toNat).length = f.dlc.toNat := by
    rw [length_take, f.data_length, Nat.min_eq_left hle]
  rw [rd66, CanFrame.sent, CanFrame.of, RdFrame.bytes, RdFrame.body, CanFrame.told]
  rw [hf.rtr, if_neg Bool.false_ne_true, if_neg (UInt8.not_lt.2 hf.dlc), take_canData hlen hle,
    if_pos rfl, if_pos rfl]

theorem and_ext_ne_zero {n : ℕ} (h : n < 2 ^ 29) : n &&& 0x1FFFF800 ≠ 0 ↔ 0x800 ≤ n := by
  have hmask : n &&& 0x1FFFF800 = ((n >>> 11) &&& (2 ^ 18 - 1)) <<< 11 := by
    apply eq_of_testBit_eq
    intro i
    rw [show (0x1FFFF800 : ℕ) = (2 ^ 18 - 1) <<< 11 from rfl]
    simp only [testBit_and, testBit_shiftLeft, testBit_shiftRight]
    by_cases hi : 11 ≤ i
    · simp [hi]
    · simp [hi]
  rw [hmask, and_two_pow_sub_one_eq_mod]
  omega

theorem told_ext (hf : f.PlainData) : decide (f.id &&& 0x1FFFF800 ≠ 0) = f.ext := by
  have hid := hf.id
  have hiff : f.id &&& 0x1FFFF800 ≠ 0 ↔ f.id.toNat &&& 0x1FFFF800 ≠ 0 := by
    rw [ne_eq, ← UInt32.toNat_inj]
    rfl
  cases hext : f.ext with
  | true =>
    rw [hext] at hid
    exact decide_eq_true (hiff.2 ((and_ext_ne_zero hid.2).2 hid.1))
  | false =>
    rw [hext, if_neg Bool.false_ne_true] at hid
    refine decide_eq_false fun h => ?_
    have hlarge := (and_ext_ne_zero (by omega)).1 (hiff.1 h)
    omega

/-- The frame of the bus that comes back: the data padded to eight bytes. -/
def CanFrame.padded (f : CanFrame) : CanFrame :=
  .of f.id f.ext false 8 0 (f.data.take f.dlc.toNat)

theorem CanFrame.of_canData (id : UInt32) (ext rtr : Bool) (dlc : UInt8) (tsUs : UInt32)
    (bytes : List UInt8) :
    CanFrame.of id ext rtr dlc tsUs (canData bytes) = .of id ext rtr dlc tsUs bytes := by
  have hdata : canData (canData bytes) = canData bytes := by
    rw [canData, take_left' (length_canData _)]
  simp only [CanFrame.of, hdata]

theorem told_frame (hf : f.PlainData) : f.told.frame = f.padded := by
  rw [RdFrame.frame, CanFrame.told, CanFrame.padded]
  rw [told_ext hf, CanFrame.of_canData]

theorem rdDecode_log {out : BridgeSink ρ} {sent : ρ → List (List UInt8)}
    (hout : SinkRecords out sent) {frames : List CanFrame} (hplain : ∀ f ∈ frames, f.PlainData) :
    ∀ r, sent (rdDecode out r (frames.flatMap canWireEncode)).1 =
      sent r ++ frames.map fun f => f.told.bytes := by
  simp only [rdDecode, canWireFramer_tokens fun f hf => (hplain f hf).dlc]
  induction frames with
  | nil =>
    intro r
    exact (append_nil _).symm
  | cons f frames ih =>
    intro r
    have hfirst : rdEmitOne out r f.sent = ((out r f.told.bytes).1, none) := by
      rw [rdEmitOne, rd66_sent (hplain f mem_cons_self)]
      exact Prod.ext rfl (hout.accepts _ _)
    rw [map_cons, map_cons, feed, hfirst]
    rw [ih fun g hg => hplain g (mem_cons_of_mem f hg), hout.logs, append_assoc, singleton_append]

theorem rdDecodes_log {out : BridgeSink ρ} {sent : ρ → List (List UInt8)}
    (hout : SinkRecords out sent) {chunks : List (List CanFrame)}
    (hplain : ∀ frames ∈ chunks, ∀ f ∈ frames, f.PlainData) :
    ∀ r, sent (rdDecodes out r (chunks.map fun frames => frames.flatMap canWireEncode)) =
      sent r ++ chunks.flatten.map fun f => f.told.bytes := by
  induction chunks with
  | nil =>
    intro r
    exact (append_nil _).symm
  | cons frames chunks ih =>
    intro r
    have hrest := ih (fun others hmem => hplain others (mem_cons_of_mem frames hmem))
      (rdDecode out r (frames.flatMap canWireEncode)).1
    rw [rdDecodes] at hrest
    rw [map_cons, rdDecodes, foldl_cons, hrest,
      rdDecode_log hout (hplain frames mem_cons_self), flatten_cons, map_append,
      append_assoc]

/-- **The RealDash codec**: exactly the frames of a stream are sent on, each with its
identifier and its eight bytes, and data frames that go there and come back are what
they were, their data padded. -/
theorem rd_codec {ρ : Type} {out : BridgeSink ρ} {sent : ρ → List (List UInt8)}
    (hout : SinkRecords out sent) (hsink : SinkRecords sink log) (r : ρ) (s : σ) :
    (∀ (toks : List RdToken) (calls : List (List UInt8)),
        calls.flatten = toks.flatMap RdToken.bytes →
          log (rdEncodes sink s calls).2 = log s ++ toks.flatMap RdToken.wires) ∧
      ∀ chunks : List (List CanFrame), (∀ frames ∈ chunks, ∀ f ∈ frames, f.PlainData) → ∃ pieces,
          sent (rdDecodes out r (chunks.map fun frames => frames.flatMap canWireEncode)) =
            sent r ++ pieces ∧
          ∀ calls : List (List UInt8), calls.flatten = pieces.flatten →
            log (rdEncodes sink s calls).2 =
              log s ++ chunks.flatten.map fun f => canWireEncode f.padded := by
  refine ⟨fun toks calls hcalls => rdEncodes_tokens hsink s hcalls, fun chunks hplain => ?_⟩
  refine ⟨_, rdDecodes_log hout hplain r, fun calls hcalls => ?_⟩
  have hall : ∀ f ∈ chunks.flatten, f.PlainData := by
    intro f hf
    obtain ⟨frames, hframes, hmem⟩ := mem_flatten.1 hf
    exact hplain frames hframes f hmem
  have htoks : calls.flatten =
      (chunks.flatten.map fun f => RdToken.frame f.told).flatMap RdToken.bytes := by
    rw [hcalls, flatMap_map]
    rfl
  rw [rdEncodes_tokens hsink s htoks, flatMap_map, append_cancel_left_eq, map_eq_flatMap]
  exact flatMap_congr fun f hf => by rw [RdToken.wires, told_frame (hall f hf)]

/-- A frame of each kind with a byte between them. -/
def rdSample : List RdToken :=
  [.frame ⟨true, 0x123, [1, 2, 3, 4, 5, 6, 7, 8], rfl⟩, .gap 0x0D (by decide),
    .frame ⟨false, 0x18DAF110, [0x44, 0x66, 0, 0, 0, 0, 0, 0], rfl⟩]

/-- A stream of both kinds, and two frames of the bus there and back. -/
theorem rd_codec_sample :
    id (rdEncodes logSink [] [rdSample.flatMap RdToken.bytes]).2 =
        id [] ++ rdSample.flatMap RdToken.wires ∧
      ∃ pieces, id (rdDecodes logSink [] ([[CanFrame.of 0x123 false false 2 77 [0xAA, 0x0B]],
          [CanFrame.of 0x18DAF110 true false 1 0 [0x66]]].map fun frames =>
            frames.flatMap canWireEncode)) = id [] ++ pieces ∧
        ∀ calls : List (List UInt8), calls.flatten = pieces.flatten →
          id (rdEncodes logSink [] calls).2 = id [] ++
            [[CanFrame.of 0x123 false false 2 77 [0xAA, 0x0B]],
              [CanFrame.of 0x18DAF110 true false 1 0 [0x66]]].flatten.map fun f =>
                canWireEncode f.padded := by
  have h := rd_codec sinkRecords_logSink sinkRecords_logSink [] []
  refine ⟨h.1 rdSample _ (by rw [flatten_singleton]), h.2 _ ?_⟩
  intro frames hframes f hf
  rcases mem_cons.1 hframes with rfl | hframes
  · rw [mem_singleton.1 hf]
    exact ⟨rfl, by decide, by decide⟩
  · rw [mem_singleton.1 hframes, mem_singleton] at hf
    rw [hf]
    exact ⟨rfl, by decide, by decide⟩

end Meatpi
