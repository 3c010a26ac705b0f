import Meatpi.Translator.SlcanLines

/-!
# Frames through slcan and back

A frame's line is at most 27 characters long, so a batch is always flushed before a
line would not fit (`slcanDecodeLoop_log`), and every line is a record that is read
as the frame it was made of.
-/

namespace Meatpi

open List Nat

variable {cells : List (List UInt8)} {bytes : List UInt8}

/-! ## Batches -/

theorem length_slcanFormatLine (f : CanFrame) : (slcanFormatLine f).length ≤ 32 := by
  have hid : slcanIdLen f.ext ≤ 8 := by
    cases f.ext <;> decide
  have hdata : ((if f.rtr then [] else (f.data.take f.dlc.toNat).flatMap fun b =>
      [slcanUpHex (b.toNat / 16), slcanUpHex (b.toNat % 16)])).length ≤ 16 := by
    split_ifs
    · exact Nat.zero_le 16
    · have hcount : ∀ bytes : List UInt8, (bytes.flatMap fun b =>
          [slcanUpHex (b.toNat / 16), slcanUpHex (b.toNat % 16)]).length = bytes.length * 2 := by
        intro bytes
        induction bytes with
        | nil => rfl
        | cons b bytes ih =>
          rw [flatMap_cons, length_append]
          simp only [length_cons, length_nil]
          omega
      rw [hcount, length_take, f.data_length]
      omega
  rw [slcanFormatLine, length_cons, length_append, length_map, length_digitsBE,
    length_cons, length_append, length_singleton]
  omega

section Decoding

variable {ρ : Type} {sink : BridgeSink ρ}

theorem slcanDecodeLoop_isSome :
    ∀ {k : ℕ} {rest batch : List UInt8} {r : ρ}, rest.length < k → batch.length ≤ slcanBatch →
      (slcanDecodeLoop sink k rest batch r).isSome = true := by
  intro k
  induction k with
  | zero =>
    intro rest batch r hk
    omega
  | succ k ih =>
    intro rest batch r hk hbatch
    rw [slcanDecodeLoop]
    cases hnext : canWireDecodeNext rest with
    | none => rfl
    | some p =>
      have hpos := canWireFramer.pos hnext
      have hle := canWireFramer.le_length hnext
      have hline := length_slcanFormatLine p.1
      have hsize : slcanBatch = 512 := rfl
      have hrest : (rest.drop p.2).length < k := by
        rw [length_drop]
        omega
      by_cases hfull : slcanBatch < batch.length + 32
      · simp only [decide_eq_true hfull, if_true]
        split_ifs with hfail hover
        · rfl
        · rw [length_nil] at hover
          omega
        · exact ih hrest (by rw [nil_append]; omega)
      · simp only [decide_eq_false hfull, Bool.false_eq_true, if_false]
        split_ifs with hfail hover
        · rfl
        · omega
        · exact ih hrest (by rw [length_append]; omega)

variable {lines : ρ → List (List UInt8)}

theorem slcanDecodeLoop_log (hsink : SinkRecords sink lines) :
    ∀ {k : ℕ} {rest : List UInt8} (batch : List UInt8) (r : ρ), rest.length < k →
      batch.length ≤ slcanBatch →
      ∃ r' pieces, slcanDecodeLoop sink k rest batch r = some (r', none) ∧
        lines r' = lines r ++ pieces ∧ (∀ piece ∈ pieces, piece.length ≤ slcanBatch) ∧
        pieces.flatten = batch ++ (canWireFramer.tokens rest).flatMap slcanFormatLine := by
  intro k
  induction k with
  | zero =>
    intro rest batch r hk
    omega
  | succ k ih =>
    intro rest batch r hk hbatch
    rw [slcanDecodeLoop]
    cases hnext : canWireDecodeNext rest with
    | none =>
      rw [Framer.tokens_of_none hnext]
      dsimp only
      split_ifs with hsome
      · refine ⟨(sink r batch).1, [batch], congrArg some (Prod.ext rfl (hsink.accepts r batch)),
          hsink.logs r batch, ?_, ?_⟩
        · intro piece hpiece
          rw [mem_singleton.1 hpiece]
          exact hbatch
        · rfl
      · have hempty : batch = [] := eq_nil_of_length_eq_zero (by omega)
        refine ⟨r, [], rfl, (append_nil _).symm, ?_, ?_⟩
        · intro piece hpiece
          cases hpiece
        · rw [hempty]
          rfl
    | some p =>
      have hpos := canWireFramer.pos hnext
      have hle := canWireFramer.le_length hnext
      have hline := length_slcanFormatLine p.1
      have hsize : slcanBatch = 512 := rfl
      have hrest : (rest.drop p.2).length < k := by
        rw [length_drop]
        omega
      rw [Framer.tokens_of_peel hnext, flatMap_cons]
      by_cases hfull : slcanBatch < batch.length + 32
      · simp only [decide_eq_true hfull, if_true]
        rw [if_neg (not_not.2 (hsink.accepts r batch)), if_neg (by
          rw [length_nil]
          omega)]
        obtain ⟨r', pieces, hloop, hlog, hfit, hflat⟩ := ih (slcanFormatLine p.1)
          (sink r batch).1 hrest (by omega)
        refine ⟨r', batch :: pieces, hloop, ?_, ?_, ?_⟩
        · rw [hlog, hsink.logs, append_assoc]
          rfl
        · intro piece hpiece
          rcases mem_cons.1 hpiece with rfl | hpiece
          · exact hbatch
          · exact hfit piece hpiece
        · rw [flatten_cons, hflat]
      · simp only [decide_eq_false hfull, Bool.false_eq_true, if_false]
        rw [if_neg (not_not.2 rfl), if_neg (by omega)]
        obtain ⟨r', pieces, hloop, hlog, hfit, hflat⟩ := ih
          (batch ++ slcanFormatLine p.1) r hrest (by
            rw [length_append]
            omega)
        refine ⟨r', pieces, hloop, hlog, hfit, ?_⟩
        rw [hflat, append_assoc]

theorem slcanDecodes_log (hsink : SinkRecords sink lines) (chunks : List (List UInt8)) (r : ρ) :
    ∃ r' pieces, slcanDecodes sink r chunks = some r' ∧ lines r' = lines r ++ pieces ∧
      (∀ piece ∈ pieces, piece.length ≤ slcanBatch) ∧
      pieces.flatten = (chunks.flatMap canWireFramer.tokens).flatMap slcanFormatLine := by
  induction chunks generalizing r with
  | nil =>
    refine ⟨r, [], rfl, (append_nil _).symm, ?_, rfl⟩
    intro piece hpiece
    cases hpiece
  | cons chunk chunks ih =>
    obtain ⟨r₁, pieces₁, hloop, hlog₁, hfit₁, hflat₁⟩ := slcanDecodeLoop_log hsink [] r
      (lt_succ_self chunk.length) (Nat.zero_le _)
    obtain ⟨r', pieces, hrest, hlog, hfit, hflat⟩ := ih r₁
    refine ⟨r', pieces₁ ++ pieces, ?_, ?_, ?_, ?_⟩
    · rw [slcanDecodes, slcanDecode, hloop]
      exact hrest
    · rw [hlog, hlog₁, append_assoc]
    · intro piece hpiece
      rcases mem_append.1 hpiece with h | h
      · exact hfit₁ piece h
      · exact hfit piece h
    · rw [flatten_append, hflat₁, hflat, flatMap_cons, flatMap_append, nil_append]

end Decoding

/-! ## A frame's line -/

/-- A frame that can be on a bus. -/
structure CanFrame.Valid (f : CanFrame) : Prop where
  id : f.id.toNat < if f.ext then 2 ^ 29 else 2 ^ 11
  dlc : f.dlc ≤ 8

theorem slcanHexNibble_upHex (n : ℕ) : slcanHexNibble (slcanUpHex n) = some (n % 16) := by
  have hdigits : ∀ d < 16, slcanHexNibble (slcanUpHex d) = some d := by decide
  have hmod : slcanUpHex n = slcanUpHex (n % 16) := by
    rw [slcanUpHex, slcanUpHex, mod_mod]
  rw [hmod]
  exact hdigits (n % 16) (mod_lt n (by decide))

theorem hexSpells_digits (w n : ℕ) : HexSpells ((digitsBE 16 w n).map slcanUpHex) (n % 16 ^ w) := by
  refine ⟨digitsBE 16 w n, ?_, (ofDigitsBE_digitsBE 16 w n).symm⟩
  rw [forall₂_map_left_iff, forall₂_same]
  intro d hd
  rw [slcanHexNibble_upHex, mod_eq_of_lt (lt_of_mem_digitsBE (by decide) hd)]

theorem hexSpells_byte (b : UInt8) :
    HexSpells [slcanUpHex (b.toNat / 16), slcanUpHex (b.toNat % 16)] b.toNat := by
  refine hexSpells_pair.2 ⟨_, _, slcanHexNibble_upHex _, slcanHexNibble_upHex _, ?_⟩
  have hb : b.toNat < 256 := b.toNat_lt
  omega

theorem slcanHexNibble_dlc {dlc : UInt8} (h : dlc ≤ 8) :
    slcanHexNibble (48 + dlc) = some dlc.toNat := by
  have hall : ∀ n < 9, slcanHexNibble (48 + UInt8.ofNat n) = some n := by decide
  have hlt := UInt8.le_iff_toNat_le.1 h
  have hn := hall dlc.toNat (lt_succ_of_le hlt)
  rwa [UInt8.ofNat_toNat] at hn

theorem ne_eol_of_hexNibble {c : UInt8} {d : ℕ} (h : slcanHexNibble c = some d) :
    c ≠ 13 ∧ c ≠ 10 := by
  constructor
  · rintro rfl
    cases h
  · rintro rfl
    cases h

theorem ne_eol_of_hexSpells {cs : List UInt8} {n : ℕ} (h : HexSpells cs n) :
    ∀ c ∈ cs, c ≠ 13 ∧ c ≠ 10 := by
  obtain ⟨ds, hds, -⟩ := h
  induction hds with
  | nil =>
    intro c hc
    cases hc
  | cons hd _ ih =>
    intro c hc
    rcases mem_cons.1 hc with rfl | hc
    · exact ne_eol_of_hexNibble hd
    · exact ih c hc

theorem ne_eol_of_cells
    (h : List.Forall₂ (fun cell b => cell.length = 2 ∧ HexSpells cell b.toNat) cells bytes) :
    ∀ c ∈ cells.flatten, c ≠ 13 ∧ c ≠ 10 := by
  induction h with
  | nil =>
    intro c hc
    cases hc
  | cons hcell _ ih =>
    intro c hc
    rcases mem_append.1 hc with hc | hc
    · exact ne_eol_of_hexSpells hcell.2 c hc
    · exact ih c hc

theorem ne_eol_of_form (ext rtr : Bool) {ids : List UInt8} {id : ℕ} {digit : UInt8} {dlc : ℕ}
    (hids : HexSpells ids id) (hdigit : HexSpells [digit] dlc)
    (hcells : List.Forall₂ (fun cell b => cell.length = 2 ∧ HexSpells cell b.toNat) cells bytes) :
    ∀ c ∈ slcanType ext rtr :: (ids ++ digit :: (cells.flatten ++ [])), c ≠ 13 ∧ c ≠ 10 := by
  intro c hc
  rcases mem_cons.1 hc with rfl | hc
  · cases ext <;> cases rtr <;> decide
  · rcases mem_append.1 hc with hc | hc
    · exact ne_eol_of_hexSpells hids c hc
    · rcases mem_cons.1 hc with rfl | hc
      · exact ne_eol_of_hexSpells hdigit c mem_cons_self
      · rw [append_nil] at hc
        exact ne_eol_of_cells hcells c hc

variable {f : CanFrame}

/-- **A frame's line is a record**, and it is read as a frame that looks the same on the
wire but for the timestamp. -/
theorem slcanFormatLine_record (hf : f.Valid) :
    ∃ body g, slcanFormatLine f = body ++ [13] ∧ (∀ c ∈ body, c ≠ 13 ∧ c ≠ 10) ∧
      body.length ≤ 47 ∧ SlcanRecord body g ∧
      canWireEncode g = canWireEncode { f with tsUs := 0 } := by
  have hle : f.dlc.toNat ≤ 8 := UInt8.le_iff_toNat_le.1 hf.dlc
  generalize hbytes : (if f.rtr then [] else f.data.take f.dlc.toNat) = bytes
  have hlen : bytes.length = if f.rtr then 0 else f.dlc.toNat := by
    rw [← hbytes]
    split_ifs
    · rfl
    · rw [length_take, f.data_length, Nat.min_eq_left hle]
  have hid : HexSpells ((digitsBE 16 (slcanIdLen f.ext) f.id.toNat).map slcanUpHex) f.id.toNat := by
    have hspells := hexSpells_digits (slcanIdLen f.ext) f.id.toNat
    have hrange := hf.id
    rwa [mod_eq_of_lt] at hspells
    cases hext : f.ext with
    | true =>
      rw [hext] at hrange
      exact Nat.lt_of_lt_of_le hrange (by decide)
    | false =>
      rw [hext] at hrange
      exact Nat.lt_of_lt_of_le hrange (by decide)
  have hdigit : HexSpells [48 + f.dlc] f.dlc.toNat :=
    hexSpells_singleton.2 (slcanHexNibble_dlc hf.dlc)
  have hcells : List.Forall₂ (fun cell b => cell.length = 2 ∧ HexSpells cell b.toNat)
      (bytes.map fun b => [slcanUpHex (b.toNat / 16), slcanUpHex (b.toNat % 16)]) bytes := by
    rw [forall₂_map_left_iff, forall₂_same]
    exact fun b _ => ⟨rfl, hexSpells_byte b⟩
  have hrecord := SlcanRecord.mk f.ext f.rtr [] hid
    (by rw [length_map, length_digitsBE]) hdigit hle hcells hlen
  refine ⟨_, _, ?_, ne_eol_of_form f.ext f.rtr hid hdigit hcells, ?_, hrecord, ?_⟩
  · have hdata : (if f.rtr then [] else (f.data.take f.dlc.toNat).flatMap fun b =>
        [slcanUpHex (b.toNat / 16), slcanUpHex (b.toNat % 16)]) =
          (bytes.map fun b => [slcanUpHex (b.toNat / 16), slcanUpHex (b.toNat % 16)]).flatten := by
      rw [← hbytes]
      split_ifs
      · rfl
      · rfl
    rw [slcanFormatLine, if_neg (UInt8.not_lt.2 hf.dlc), hdata, append_nil,
      cons_append, append_assoc, cons_append]
  · have hcount := length_cells hcells
    have hshort : slcanIdLen f.ext ≤ 8 := by
      cases f.ext <;> decide
    have hdata : bytes.length ≤ 8 := by
      rw [hlen]
      split_ifs
      · exact Nat.zero_le 8
      · exact hle
    rw [length_cons, length_append, length_map, length_digitsBE,
      length_cons, length_append, length_nil]
    omega
  · rw [UInt32.ofNat_toNat, UInt8.ofNat_toNat, canWireEncode, canWireEncode, CanFrame.of]
    rw [if_neg (UInt8.not_lt.2 hf.dlc)]
    rw [append_cancel_left_eq]
    split_ifs with hrtr
    · rfl
    · rw [if_neg hrtr] at hlen hbytes
      rw [take_canData hlen hle, hbytes]

theorem slcanFormatLine_sent (hdlc : f.dlc ≤ 8) : slcanFormatLine f.sent = slcanFormatLine f := by
  have hle : f.dlc.toNat ≤ 8 := UInt8.le_iff_toNat_le.1 hdlc
  rw [slcanFormatLine, slcanFormatLine, CanFrame.sent, CanFrame.of]
  cases hrtr : f.rtr with
  | true => rfl
  | false =>
    rw [if_neg Bool.false_ne_true, if_neg Bool.false_ne_true, if_neg Bool.false_ne_true,
      take_canData (by rw [length_take, f.data_length, Nat.min_eq_left hle]) hle]

theorem slcanLines_formatLine {frames : List CanFrame} (hvalid : ∀ f ∈ frames, f.Valid) :
    ((slcanLines (frames.flatMap slcanFormatLine)).filterMap fun line =>
      slcanFrame (slcanTail line)).map canWireEncode =
        frames.map fun f => canWireEncode { f with tsUs := 0 } := by
  have hbodies : ∃ bodies : List (List UInt8),
      frames.flatMap slcanFormatLine = (bodies.flatMap fun body => body ++ [13]) ∧
        (∀ body ∈ bodies, ∀ c ∈ body, c ≠ 13 ∧ c ≠ 10) ∧
        (bodies.filterMap fun line => slcanFrame (slcanTail line)).map canWireEncode =
          frames.map fun f => canWireEncode { f with tsUs := 0 } := by
    induction frames with
    | nil =>
      refine ⟨[], rfl, ?_, rfl⟩
      intro body hbody
      cases hbody
    | cons f frames ih =>
      obtain ⟨bodies, hflat, heol, hframes⟩ := ih fun g hg => hvalid g (mem_cons_of_mem f hg)
      obtain ⟨body, g, hline, hbody, hshort, hrecord, hwire⟩ :=
        slcanFormatLine_record (hvalid f mem_cons_self)
      refine ⟨body :: bodies, ?_, ?_, ?_⟩
      · rw [flatMap_cons, flatMap_cons, hline, hflat]
      · intro b hb
        rcases mem_cons.1 hb with rfl | hb
        · exact hbody
        · exact heol b hb
      · rw [filterMap_cons, slcanTail_of_short hshort, slcanFrame_eq_some.2 hrecord]
        rw [map_cons, hframes, hwire, map_cons]
  obtain ⟨bodies, hflat, heol, hframes⟩ := hbodies
  have hkept : bodies.map (fun body => body.filter (· ≠ 10)) = bodies := by
    refine (map_congr_left fun body hbody => ?_).trans (map_id bodies)
    exact filter_eq_self.2 fun c hc => decide_eq_true (heol body hbody c hc).2
  rw [← hframes, slcanLines, hflat,
    splitOn_flatMap_terminated fun body hbody hcr => (heol body hbody 13 hcr).1 rfl,
    dropLast_concat, hkept]

/-! ## There and back -/

/-- **Frames come back from slcan as they were**, but for the timestamp, in whatever
chunks they go there and in whatever pieces their lines come back; the batch never
overflows. -/
theorem slcan_roundTrip {ρ σ : Type} {sink : BridgeSink ρ} {lines : ρ → List (List UInt8)}
    {env : SlcanEnv σ} {log : σ → List (List UInt8)} (hlines : SinkRecords sink lines)
    (hsink : SinkRecords env.sink log)
    (hhook : ∀ hook, env.bitrateHook = some hook → ∀ s kbps, log (hook s kbps) = log s) (r : ρ)
    (s : σ) (chunks : List (List CanFrame)) (hvalid : ∀ frames ∈ chunks, ∀ f ∈ frames, f.Valid) :
    (∃ r' pieces,
      slcanDecodes sink r (chunks.map fun frames => frames.flatMap canWireEncode) = some r' ∧
      lines r' = lines r ++ pieces ∧ (∀ piece ∈ pieces, piece.length ≤ slcanBatch) ∧
      pieces.flatten = chunks.flatten.flatMap slcanFormatLine ∧
      ∀ calls : List (List UInt8), calls.flatten = pieces.flatten →
        log (slcanEncodes env s calls).2 =
          log s ++ chunks.flatten.map fun f => canWireEncode { f with tsUs := 0 }) ∧
      ∀ (sink : BridgeSink ρ) (r : ρ) (chunk : List UInt8),
        (slcanDecode sink r chunk).isSome = true := by
  refine ⟨?_, fun sink r chunk =>
    slcanDecodeLoop_isSome (lt_succ_self _) (Nat.zero_le _)⟩
  obtain ⟨r', pieces, hdecodes, hlog, hfit, hflat⟩ := slcanDecodes_log hlines
    (chunks.map fun frames => frames.flatMap canWireEncode) r
  have hall : ∀ f ∈ chunks.flatten, f.Valid := by
    intro f hf
    obtain ⟨frames, hframes, hmem⟩ := mem_flatten.1 hf
    exact hvalid frames hframes f hmem
  have htokens : (chunks.map fun frames => frames.flatMap canWireEncode).flatMap
      canWireFramer.tokens = chunks.flatten.map CanFrame.sent := by
    clear hdecodes hflat hall
    induction chunks with
    | nil => rfl
    | cons frames chunks ih =>
      rw [map_cons, flatMap_cons, flatten_cons, map_append,
        canWireFramer_tokens fun f hf => (hvalid frames mem_cons_self f hf).dlc,
        ih fun others hmem => hvalid others (mem_cons_of_mem frames hmem)]
  have hsame : pieces.flatten = chunks.flatten.flatMap slcanFormatLine := by
    rw [hflat, htokens, flatMap_map]
    exact flatMap_congr fun f hf => slcanFormatLine_sent (hall f hf).dlc
  refine ⟨r', pieces, hdecodes, hlog, hfit, hsame, fun calls hcalls => ?_⟩
  rw [slcanEncodes_log hsink hhook, hcalls, hsame, slcanLines_formatLine hall]

/-- A data frame and a request of another length of identifier, in two chunks. -/
theorem slcan_roundTrip_two :
    (∃ r' pieces, slcanDecodes logSink [] ([[CanFrame.of 0x123 false false 2 77 [0xAA, 0x0B]],
          [CanFrame.of 0x18DAF110 true true 8 0 []]].map fun frames =>
            frames.flatMap canWireEncode) = some r' ∧
      id r' = id [] ++ pieces ∧ (∀ piece ∈ pieces, piece.length ≤ slcanBatch) ∧
      pieces.flatten = [[CanFrame.of 0x123 false false 2 77 [0xAA, 0x0B]],
        [CanFrame.of 0x18DAF110 true true 8 0 []]].flatten.flatMap slcanFormatLine ∧
      ∀ calls : List (List UInt8), calls.flatten = pieces.flatten →
        id (slcanEncodes ⟨logSink, none⟩ [] calls).2 = id [] ++
          [[CanFrame.of 0x123 false false 2 77 [0xAA, 0x0B]],
            [CanFrame.of 0x18DAF110 true true 8 0 []]].flatten.map fun f =>
              canWireEncode { f with tsUs := 0 }) ∧
      ∀ (sink : BridgeSink (List (List UInt8))) (r : List (List UInt8)) (chunk : List UInt8),
        (slcanDecode sink r chunk).isSome = true := by
  have hsink : SinkRecords (SlcanEnv.mk logSink none).sink id := sinkRecords_logSink
  refine slcan_roundTrip sinkRecords_logSink hsink
    (by rintro hook ⟨⟩) [] [] [[CanFrame.of 0x123 false false 2 77 [0xAA, 0x0B]],
      [CanFrame.of 0x18DAF110 true true 8 0 []]] ?_
  intro frames hframes f hf
  rcases mem_cons.1 hframes with rfl | hframes
  · rw [mem_singleton.1 hf]
    exact ⟨by decide, by decide⟩
  · rw [mem_singleton.1 hframes, mem_singleton] at hf
    rw [hf]
    exact ⟨by decide, by decide⟩

end Meatpi
