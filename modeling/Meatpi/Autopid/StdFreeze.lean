import Meatpi.Autopid.RespFrames
import Meatpi.Autopid.StdText

/-!
# Freeze frames and live values

The value `ap_frz_decode` computes for a row is the value of the row's expression over
the frame of mode 01, up to the precision the row's numbers are printed in and the
rounding of the `float` it is computed in, unless the raw value is below zero: the
expression reads it with its sign, the freeze frame without.
-/

namespace Meatpi

open List Nat

variable {prm : StdParameter}

/-! ## Agreement -/

/-- The frame of mode 01 as the chip prints it, and the payload of mode 02. -/
def liveFrame (pci pid : UInt8) (data : List UInt8) : List UInt8 := pci :: 0x41 :: pid :: data

def freezePayload (pid frame : UInt8) (data : List UInt8) : List UInt8 :=
  0x42 :: pid :: frame :: data

/-- The raw value is below zero. -/
def ReadsNegative (frame : List UInt8) (prm : StdParameter) : Prop :=
  stdSigned prm ∧ 2 ^ (prm.bitLength - 1) ≤ stdRaw frame prm

/-- A frozen value is the value of the row's expression, up to the precision its scale and
its offset are printed in, and some slack. -/
def FrozenAsLive (frame : List UInt8) (slack : StdParameter → ℚ) (prm : StdParameter)
    (val : ApFrzVal) : Prop :=
  ∃ text, stdExpression prm = .ok text ∧ ∀ v, ∃ x,
    expressionParserEval ratArith text frame v = .ok x ∧
      |x - val.value| ≤ stdRaw frame prm * scalePrecision prm + offsetPrecision prm + slack prm

theorem FrozenAsLive.close {frame : List UInt8} {slack : StdParameter → ℚ} {val : ApFrzVal}
    {text : List Char} {x : ℚ} (h : FrozenAsLive frame slack prm val)
    (htext : stdExpression prm = .ok text)
    (hx : expressionParserEval ratArith text frame 0 = .ok x) :
    |x - val.value| ≤
      stdRaw frame prm * scalePrecision prm + offsetPrecision prm + slack prm := by
  obtain ⟨text', hok, hagrees⟩ := h
  rw [htext] at hok
  cases hok
  obtain ⟨x', hx', hclose⟩ := hagrees 0
  rw [hx] at hx'
  cases hx'
  exact hclose

/-- What the `float`s cost: three roundings to 24 bits. -/
def floatSlack (frame : List UInt8) (prm : StdParameter) : ℚ :=
  (|stdRaw frame prm * prm.scale| + |prm.offset|) / 2 ^ 22

/-- A raw value with the numbers as they are printed is that value with the row's own, up
to their precision. -/
theorem stdPrinted_close (h : StdDecodes prm) (a : ℚ) :
    |(a * stdPrintedScale prm + stdPrintedOffset prm) - (a * prm.scale + prm.offset)| ≤
      |a| * scalePrecision prm + offsetPrecision prm := by
  have hsplit : (a * stdPrintedScale prm + stdPrintedOffset prm) - (a * prm.scale + prm.offset) =
      a * (stdPrintedScale prm - prm.scale) + (stdPrintedOffset prm - prm.offset) := by ring
  rw [hsplit]
  refine (abs_add_le _ _).trans (add_le_add ?_ h.offset)
  rw [abs_mul]
  exact mul_le_mul_of_nonneg_left h.scale (abs_nonneg a)

/-- Three roundings, of the raw value, the product and the sum. -/
theorem frzValue_close (fused : Bool) (raw : ℕ) (prm : StdParameter) :
    |frzValue fused raw prm - (raw * prm.scale + prm.offset)| ≤
      (|raw * prm.scale| + |prm.offset|) / 2 ^ 22 := by
  obtain ⟨a, ha⟩ : ∃ a, a = floatOf raw * prm.scale := ⟨_, rfl⟩
  obtain ⟨b, hb⟩ : ∃ b, b = if fused then a else floatOf a := ⟨_, rfl⟩
  have hraw : |a - raw * prm.scale| ≤ |raw * prm.scale| / 2 ^ 24 := by
    rw [ha, ← sub_mul, abs_mul, abs_mul, mul_div_right_comm]
    exact mul_le_mul_of_nonneg_right (abs_floatOf_sub_le _) (abs_nonneg _)
  have hproduct : |b - a| ≤ |a| / 2 ^ 24 := by
    rw [hb]
    split_ifs
    · rw [sub_self, abs_zero]
      positivity
    · exact abs_floatOf_sub_le a
  have hsum := abs_floatOf_sub_le (b + prm.offset)
  have hvalue : frzValue fused raw prm = floatOf (b + prm.offset) := by rw [hb, ha, frzValue]
  -- how large the rounded numbers are
  have hsizeA := abs_sub_abs_le_abs_sub a (raw * prm.scale)
  have hsizeB := abs_sub_abs_le_abs_sub b a
  have hsizeSum := abs_add_le b prm.offset
  have hsteps : |frzValue fused raw prm - (raw * prm.scale + prm.offset)| ≤
      |floatOf (b + prm.offset) - (b + prm.offset)| + (|b - a| + |a - raw * prm.scale|) := by
    rw [hvalue, show floatOf (b + prm.offset) - (raw * prm.scale + prm.offset) =
      (floatOf (b + prm.offset) - (b + prm.offset)) + ((b - a) + (a - raw * prm.scale)) by ring]
    exact (abs_add_le _ _).trans (add_le_add_right (abs_add_le _ _) _)
  have hscaled := abs_nonneg (raw * prm.scale)
  have hoffset := abs_nonneg prm.offset
  linarith

/-- **A value** is frozen as it is live unless it is below zero. -/
theorem frozenAsLive (h : StdDecodes prm) (hsome : (stdExpression prm).toOption.isSome = true)
    {frame : List UInt8} {slack : StdParameter → ℚ} {val : ApFrzVal}
    (hval : |val.value - (stdRaw frame prm * prm.scale + prm.offset)| ≤ slack prm)
    (hsize : frame.length < sizeMod) (hlen : stdFirst prm + stdCount prm ≤ frame.length)
    (hpos : ¬ ReadsNegative frame prm) : FrozenAsLive frame slack prm val := by
  obtain ⟨text, htext⟩ := Option.isSome_iff_exists.1 hsome
  have hok : stdExpression prm = .ok text := by
    cases hexpr : stdExpression prm with
    | error e => rw [hexpr] at htext; cases htext
    | ok t => rw [hexpr] at htext; cases htext; rfl
  refine ⟨text, hok, fun v => ⟨_, stdExpression_eval h hok v hsize hlen, ?_⟩⟩
  have hsame : stdSignedRaw frame prm = stdRaw frame prm := by
    rw [stdSignedRaw]
    split_ifs with hsigned
    · have hsmall := Nat.not_le.1 fun hbig => hpos ⟨hsigned, hbig⟩
      rw [signedOf, mod_eq_of_lt (stdRaw_lt h frame), if_pos hsmall]
    · rfl
  have hnonneg : (0 : ℚ) ≤ stdRaw frame prm := cast_nonneg _
  have hprinted := stdPrinted_close h (stdRaw frame prm)
  rw [abs_of_nonneg hnonneg] at hprinted
  rw [hsame, Int.cast_natCast]
  rw [abs_sub_comm] at hval
  exact (abs_sub_le _ _ _).trans (add_le_add hprinted hval)

/-! ## A live value -/

theorem stdRaw_append {frame pad : List UInt8} (hlen : stdFirst prm + stdCount prm ≤ frame.length) :
    stdRaw (frame ++ pad) prm = stdRaw frame prm := by
  rw [stdRaw, stdRaw, drop_append_of_le_length (by omega),
    take_append_of_le_length (by rw [length_drop]; omega)]

/-- **A live reply** gives every row of its pid whose bytes it has: the frame that is
rebuilt from the chip's text, under the row's expression, is the signed raw value by scale
and offset, up to the precision these are printed in. -/
theorem liveReply_eval {pid : UInt8} {params : List StdParameter} (hpid : getPid pid = some params)
    (hprm : prm ∈ params) {text : List Char} (htext : stdExpression prm = .ok text)
    {data : List UInt8} (hroom : data.length ≤ 5)
    (hcover : stdFirst prm + stdCount prm ≤ data.length + 3) (r : Responder)
    {fs : List (List UInt8)} (hseg : IsoTp.Segmented (0x41 :: pid :: data) fs) {resp : List Char}
    (hreply : ReplyText (fs.map (printFrame r)) resp) (hint : Id29Hint) (v : ℚ) {raw : ℤ}
    (hraw : stdSignedRaw (liveFrame (UInt8.ofNat (data.length + 2)) pid data) prm = raw) :
    ∃ frame x, apRespFrames hint resp apFramesMax = .ok frame ∧
      expressionParserEval ratArith text frame v = .ok x ∧
      |x - (raw * prm.scale + prm.offset)| ≤
        |(raw : ℚ)| * scalePrecision prm + offsetPrecision prm := by
  obtain ⟨pad, rfl⟩ := hseg.of_le_seven (by rw [length_cons, length_cons]; omega)
  have hdecodes : StdDecodes prm := by
    rcases stdTable_rows prm (mem_stdTable hpid hprm) with hzero | ⟨hdecodes, -⟩
    · simp [stdExpression, apStdExpressionBounded, hzero, apExprLen] at htext
    · exact hdecodes
  have hlen : stdFirst prm + stdCount prm ≤
      (liveFrame (UInt8.ofNat (data.length + 2)) pid data).length := hcover
  have hp : ¬ ResponsePending (0x41 :: pid :: data) := by
    rintro ⟨service, heq⟩
    simp at heq
  obtain ⟨frame, hframe⟩ : ∃ frame, frame = liveFrame (UInt8.ofNat (data.length + 2)) pid data ++ pad :=
    ⟨_, rfl⟩
  have hfs : UInt8.ofNat (0x41 :: pid :: data).length :: (0x41 :: pid :: data ++ pad) = frame :=
    hframe.symm
  rw [hfs] at hseg hreply
  have hshort : frame.length ≤ 8 := (hseg.read.2 frame mem_cons_self).le_eight
  have htake : [frame].flatten.take apFramesMax = frame := by
    simp only [flatten_cons, flatten_nil, append_nil]
    exact take_of_length_le (hshort.trans (by decide))
  have hframes : apRespFrames hint resp apFramesMax = .ok frame := by
    rw [apRespFrames_headersOn hint r hseg hp (by simp [apMaxLines]) hreply, htake, nonEmptyBytes,
      if_neg (by rw [hframe]; exact cons_ne_nil _ _)]
  have hraw' : stdSignedRaw frame prm = raw := by
    rw [hframe, stdSignedRaw, stdRaw_append hlen, ← hraw, stdSignedRaw]
  refine ⟨frame, _, hframes,
    stdExpression_eval hdecodes htext v (hshort.trans_lt (by decide)) ?_, ?_⟩
  · rw [hframe, length_append]
    exact hlen.trans (Nat.le_add_right _ _)
  · rw [hraw']
    exact stdPrinted_close hdecodes raw

/-- 1726 rpm. -/
theorem liveReply_eval_speed : ∃ prm frame x, prm.name = "EngineRPM" ∧
    apRespFrames ⟨0, false⟩ "SEARCHING...\r\n7E8 04 41 0C 1A F8 AA AA AA\r\n>".toList apFramesMax =
      .ok frame ∧
    expressionParserEval ratArith "[B3:B4]*0.25".toList frame 0 = .ok x ∧
    |x - ((6904 : ℤ) * prm.scale + prm.offset)| ≤
      |((6904 : ℤ) : ℚ)| * scalePrecision prm + offsetPrecision prm := by
  obtain ⟨prm, hprm⟩ : ∃ prm, prm = stdRow "EngineRPM" "rpm" 0.25 0 0 16384 31 16 := ⟨_, rfl⟩
  have hpid : getPid 0x0C = some [prm] := by
    rw [hprm]
    rfl
  have htext : stdExpression prm = .ok "[B3:B4]*0.25".toList := by
    rw [hprm]
    decide +kernel
  have hraw : stdSignedRaw (liveFrame 4 0x0C [0x1A, 0xF8]) prm = 6904 := by
    rw [hprm]
    decide +kernel
  have hseg : IsoTp.Segmented [0x41, 0x0C, 0x1A, 0xF8]
      [[0x04, 0x41, 0x0C, 0x1A, 0xF8, 0xAA, 0xAA, 0xAA]] :=
    .single _ [0xAA, 0xAA, 0xAA] (by decide) (by decide)
  have hcover : stdFirst prm + stdCount prm ≤ [(0x1A : UInt8), 0xF8].length + 3 := by
    rw [hprm]
    decide
  obtain ⟨frame, x, h⟩ := liveReply_eval hpid mem_cons_self htext (by decide) hcover
    (.std 0x7E8 (by decide)) hseg (replyText_lines (by decide)) ⟨0, false⟩ 0 hraw
  exact ⟨prm, frame, x, by rw [hprm]; rfl, h⟩

/-! ## A freeze frame -/

/-- **The loop** appends the rows it decodes, while there is room. -/
theorem frzLoop_eq (fused : Bool) (payload : List UInt8) (max : ℕ) (params : List StdParameter)
    (out : List ApFrzVal) : frzLoop fused payload max params out =
      out ++ ((params.filter (frzReads payload)).take (max - out.length)).map
        (frzVal fused payload) := by
  induction params generalizing out with
  | nil => simp [frzLoop]
  | cons prm params ih =>
    rw [frzLoop]
    split_ifs with hfull hreads
    · rw [Nat.sub_eq_zero_of_le hfull, take_zero, map_nil, append_nil]
    · rw [ih, filter_cons_of_pos hreads, length_append, length_singleton,
        show max - out.length = max - (out.length + 1) + 1 by omega, take_succ_cons,
        map_cons, append_assoc, singleton_append]
    · rw [ih, filter_cons_of_neg hreads]

/-- The rows that are decoded from a freeze frame, for so much room. -/
def frzRows (pid frame : UInt8) (data : List UInt8) (room : ℕ) : List StdParameter :=
  (((getPid pid).getD []).filter (frzReads (freezePayload pid frame data))).take room

theorem frzRows_spec {pid frame : UInt8} {data : List UInt8} {room : ℕ}
    (h : prm ∈ frzRows pid frame data room) :
    StdDecodes prm ∧ (stdExpression prm).toOption.isSome = true ∧
      stdFirst prm + stdCount prm ≤ data.length + 3 := by
  obtain ⟨hmem, hreads⟩ := mem_filter.1 (mem_of_mem_take h)
  have htable : prm ∈ stdTable := by
    cases hpid : getPid pid with
    | none => rw [hpid] at hmem; cases hmem
    | some params => rw [hpid] at hmem; exact mem_stdTable hpid hmem
  rw [frzReads, decide_eq_true_eq] at hreads
  obtain ⟨hbits, hstart, hlen⟩ := hreads
  have hlength : (freezePayload pid frame data).length = data.length + 3 := rfl
  rcases stdTable_rows prm htable with hzero | ⟨hdecodes, hsome⟩
  · exact absurd hzero hbits
  · refine ⟨hdecodes, hsome, ?_⟩
    rw [stdFirst, stdCount]
    omega

/-- **A freeze frame** is decoded row by row. -/
theorem apFrzDecode_eq (fused : Bool) (pid frame : UInt8) (data : List UInt8)
    (out : List ApFrzVal) (max : ℕ) :
    apFrzDecode fused (freezePayload pid frame data) out max =
      out ++ (frzRows pid frame data (max - out.length)).map
        (frzVal fused (freezePayload pid frame data)) := by
  cases data with
  | nil =>
    have hnone : frzRows pid frame [] (max - out.length) = [] := by
      refine eq_nil_iff_forall_not_mem.2 fun prm hprm => ?_
      obtain ⟨hdecodes, -, hlen⟩ := frzRows_spec hprm
      have hstart := hdecodes.start.1
      have hcount := hdecodes.count.2
      rw [stdFirst, length_nil] at hlen
      omega
    rw [hnone]
    simp [apFrzDecode, freezePayload]
  | cons b data =>
    rw [frzRows]
    simp only [apFrzDecode, freezePayload]
    cases hpid : getPid pid with
    | none => simp
    | some params => exact frzLoop_eq _ _ _ _ _

theorem foldl_uint32 (bs : List UInt8) :
    bs.foldl (fun raw b => (raw * 2 ^ 8 + b.toNat) % 2 ^ 32) 0 =
      ofDigitsBE 256 (bs.map UInt8.toNat) % 2 ^ 32 := by
  induction bs using List.reverseRecOn with
  | nil => rfl
  | append_singleton bs b ih =>
    rw [foldl_append, ih]
    simp [add_mod, mul_mod]

theorem frzRaw_eq (h : StdDecodes prm) (pci pid frame : UInt8) (data : List UInt8) :
    frzRaw (freezePayload pid frame data) prm = stdRaw (liveFrame pci pid data) prm := by
  have hthree : 3 ≤ prm.bitStart / 8 := by
    have := h.start.1
    omega
  obtain ⟨k, hk⟩ := Nat.exists_eq_add_of_le' hthree
  have hdrop : (freezePayload pid frame data).drop (prm.bitStart / 8) =
      (liveFrame pci pid data).drop (stdFirst prm) := by
    rw [stdFirst, hk]
    rfl
  have hlt : stdRaw (liveFrame pci pid data) prm < 2 ^ 32 := by
    have hbits := h.bits
    exact (stdRaw_lt h _).trans_le (Nat.pow_le_pow_right (by decide) (by omega))
  rw [frzRaw, hdrop, foldl_uint32]
  exact mod_eq_of_lt hlt

/-- **Freeze frames decode like live values**: every row that is decoded, and does not read
below zero, has the value of its expression. -/
theorem apFrzDecode_agrees (fused : Bool) (pci pid frame : UInt8) {data : List UInt8}
    (hsize : data.length + 3 < sizeMod) (out : List ApFrzVal) (max : ℕ) :
    ∃ added, apFrzDecode fused (freezePayload pid frame data) out max = out ++ added ∧
      List.Forall₂
        (fun prm val => ¬ ReadsNegative (liveFrame pci pid data) prm →
          FrozenAsLive (liveFrame pci pid data) (floatSlack (liveFrame pci pid data)) prm val)
        (frzRows pid frame data (max - out.length)) added := by
  refine ⟨_, apFrzDecode_eq fused pid frame data out max, ?_⟩
  rw [forall₂_map_right_iff, forall₂_same]
  intro prm hprm hpos
  obtain ⟨hdecodes, hsome, hlen⟩ := frzRows_spec hprm
  refine frozenAsLive hdecodes hsome ?_ hsize hlen hpos
  rw [frzVal, frzRaw_eq hdecodes pci]
  exact frzValue_close fused _ prm

/-- The first oxygen sensor in a freeze frame: 0.45 volts, and no trim. -/
theorem apFrzDecode_agrees_oxygen : ∃ volts trim,
    apFrzDecode true (freezePayload 0x14 0 [0x5A, 0x80]) [] 24 = [volts, trim] ∧
      FrozenAsLive (liveFrame 4 0x14 [0x5A, 0x80]) (floatSlack (liveFrame 4 0x14 [0x5A, 0x80]))
        (stdRow "OxySensor1_Volt" "volts" 0.005 0 0 1.275 31 8) volts ∧
      FrozenAsLive (liveFrame 4 0x14 [0x5A, 0x80]) (floatSlack (liveFrame 4 0x14 [0x5A, 0x80]))
        (stdRow "OxySensor1_STFT" "%" 0.78125 (-100) (-100) 99.21875 39 8) trim := by
  have hsize : [(0x5A : UInt8), 0x80].length + 3 < sizeMod := by decide
  obtain ⟨added, hadded, hall⟩ := apFrzDecode_agrees true 4 0x14 0 hsize [] 24
  have hrows : frzRows 0x14 0 [0x5A, 0x80] 24 =
      [stdRow "OxySensor1_Volt" "volts" 0.005 0 0 1.275 31 8,
        stdRow "OxySensor1_STFT" "%" 0.78125 (-100) (-100) 99.21875 39 8] := by
    decide +kernel
  rw [length_nil, hrows] at hall
  obtain ⟨volts, _, hvolts, hrest, rfl⟩ := forall₂_cons_left_iff.1 hall
  obtain ⟨trim, _, htrim, hnone, rfl⟩ := forall₂_cons_left_iff.1 hrest
  obtain rfl := forall₂_nil_left_iff.1 hnone
  exact ⟨volts, trim, hadded, hvolts fun h => absurd h.1 (by decide +kernel),
    htrim fun h => absurd h.1 (by decide +kernel)⟩

/-- Without slack they do not: the monitor status has 32 bits, of which a `float` keeps 24.
And the vapour pressure of the evaporative system at minus one is 16383 in the frame. -/
theorem not_apFrzDecode_agrees :
    ¬ (∃ added, apFrzDecode true (freezePayload 0x01 0 [0x81, 0x07, 0x65, 0x04]) [] 24 = added ∧
      List.Forall₂ (FrozenAsLive (liveFrame 6 0x01 [0x81, 0x07, 0x65, 0x04]) fun _ => 0)
        (frzRows 0x01 0 [0x81, 0x07, 0x65, 0x04] 24) added) ∧
    ¬ ∃ added, apFrzDecode true (freezePayload 0x32 0 [0xFF, 0xFC]) [] 24 = added ∧
      List.Forall₂ (FrozenAsLive (liveFrame 4 0x32 [0xFF, 0xFC]) fun _ => 0)
        (frzRows 0x32 0 [0xFF, 0xFC] 24) added := by
  constructor
  · rintro ⟨added, hadded, hall⟩
    obtain ⟨prm, hrow⟩ : ∃ prm, prm = stdRow "MonitorStatus" "Encoded" 1 0 0 0 31 32 := ⟨_, rfl⟩
    have hrows : frzRows 0x01 0 [0x81, 0x07, 0x65, 0x04] 24 = [prm] := by
      rw [hrow]
      decide +kernel
    have htext : stdExpression prm = .ok "[B3:B6]".toList := by
      rw [hrow]
      decide +kernel
    have hlive : expressionParserEval ratArith "[B3:B6]".toList
        (liveFrame 6 0x01 [0x81, 0x07, 0x65, 0x04]) 0 = .ok 2164745476 := by decide +kernel
    rw [hrows, ← hadded] at hall
    obtain ⟨hfrozen, -⟩ := forall₂_cons.1 hall
    refine absurd (hfrozen.close htext hlive) ?_
    rw [hrow]
    decide +kernel
  · rintro ⟨added, hadded, hall⟩
    obtain ⟨prm, hrow⟩ : ∃ prm, prm = stdRow "EvapSysVaporPres" "Pa" 0.25 0 (-8192) 8192 31 16 :=
      ⟨_, rfl⟩
    have hrows : frzRows 0x32 0 [0xFF, 0xFC] 24 = [prm] := by
      rw [hrow]
      decide +kernel
    have htext : stdExpression prm = .ok "[S3:S4]*0.25".toList := by
      rw [hrow]
      decide +kernel
    have hlive : expressionParserEval ratArith "[S3:S4]*0.25".toList
        (liveFrame 4 0x32 [0xFF, 0xFC]) 0 = .ok (-1) := by decide +kernel
    rw [hrows, ← hadded] at hall
    obtain ⟨hfrozen, -⟩ := forall₂_cons.1 hall
    refine absurd (hfrozen.close htext hlive) ?_
    rw [hrow]
    decide +kernel

end Meatpi
