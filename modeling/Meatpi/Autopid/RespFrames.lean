import Meatpi.Autopid.RespPayload

/-!
# The frames users index

`ap_resp_frames` on a reply printed with headers on is the frames as they came;
on the same reply printed with headers off it reassembles the rows and segments
them again. The two agree exactly when the reassembly scratch holds the payload
and a plain line is not taken for an id and a frame.
-/

namespace Meatpi

open HeadersOnText List

variable {fs : List (List UInt8)} {n : ℕ}

/-! ## Headers on -/

theorem apRespFrames_headersOn (hint : Id29Hint) (r : Responder) {outMax : ℕ} {payload : List UInt8}
    {resp : List Char} (hseg : IsoTp.Segmented payload fs) (hp : ¬ ResponsePending payload)
    (hlines : fs.length ≤ apMaxLines) (htext : ReplyText (fs.map (printFrame r)) resp) :
    apRespFrames hint resp outMax = nonEmptyBytes (fs.flatten.take outMax) := by
  have hcollect := collect ⟨htext, hseg.read.2⟩ hint apMaxLines
  rw [frameLine_map_filter r hseg hp, take_of_length_le (by simpa using hlines)] at hcollect
  have hne : fs.map (frameLine r) ≠ [] := by simpa using hseg.frames_ne_nil
  have hon : headersOn (fs.map (frameLine r)) = true := by
    obtain ⟨f, fs', rfl⟩ := List.exists_cons_of_ne_nil hseg.frames_ne_nil
    rfl
  have hcopy : ∀ (fs : List (List UInt8)) (out : List UInt8), (fs.map (frameLine r)).foldl
        (fun out line =>
          if line.hasHeader = true ∧ line.header = r.header then putBytes outMax out line.bytes
          else out) out = putBytes outMax out fs.flatten := by
    intro fs
    induction fs with
    | nil => intro out; simp [putBytes]
    | cons f fs ih =>
      intro out
      have hmine : (frameLine r f).hasHeader = true ∧ (frameLine r f).header = r.header := ⟨rfl, rfl⟩
      rw [List.map_cons, foldl_cons, if_pos hmine, ih, putBytes_putBytes]
      rfl
  simp only [apRespFrames, respLines, hcollect, Bool.false_eq_true, hne, if_false, bind,
    Except.bind, hon, if_true, lowestHeader_frames r hseg.frames_ne_nil, hcopy, putBytes_nil]

theorem apRespFrames_headersOn_pending (hint : Id29Hint) (r : Responder) (outMax : ℕ)
    {payload : List UInt8} {resp : List Char} (hseg : IsoTp.Segmented payload fs)
    (hp : ResponsePending payload) (htext : ReplyText (fs.map (printFrame r)) resp) :
    apRespFrames hint resp outMax = .error .notFound := by
  have hcollect := collect ⟨htext, hseg.read.2⟩ hint apMaxLines
  obtain ⟨service, rfl⟩ := hp
  have hnone : (fs.map (frameLine r)).filter (!lineIsPending ·) = [] := by
    obtain ⟨pad, rfl⟩ := hseg.of_le_seven (by simp)
    simp [lineIsPending, frameLine, ApLine.init]
  rw [hnone] at hcollect
  simp [apRespFrames, respLines, hcollect, bind, Except.bind]

/-! ## Headers off: the rows -/

/-- The rows of a reply from row `index` on, the index wrapping `0..F`. -/
def printRows : ℕ → List (List UInt8) → List (List Char)
  | _, [] => []
  | index, bs :: rows => printRow (index % 16) bs :: printRows (index + 1) rows

/-- The lines rows become. -/
def rowLines : ℕ → List (List UInt8) → List ApLine
  | _, [] => []
  | index, bs :: rows =>
    { ApLine.init with isoIndex := (index % 16 : ℕ), bytes := bs } :: rowLines (index + 1) rows

/-- The headers-off print of a payload and its frames: a plain line, or a length
line and the frames' data in indexed rows. -/
def printOff (payload : List UInt8) (fs : List (List UInt8)) : List (List Char) :=
  if payload.length ≤ 7 then [printPlain payload]
  else printTokens [hexWord 3 payload.length] :: printRows 0 (fs.map IsoTp.frameData)

theorem printed_printRow {index : ℕ} {bs : List UInt8} (hne : bs ≠ []) (hlen : bs.length ≤ 8) :
    Printed (printRow index bs) := by
  have htoks : ∀ tok ∈ bs.map hexByte, tok ≠ [] ∧ ∀ c ∈ tok, c.isHexDigit = true := by
    intro tok htok
    obtain ⟨b, -, rfl⟩ := List.mem_map.mp htok
    exact ⟨(hexWord_token (by decide)).1, fun c hc => isHexDigit_of_mem_hexWord hc⟩
  have hwidth : ∀ tok ∈ bs.map hexByte, tok.length ≤ 2 := by
    intro tok htok
    obtain ⟨b, -, rfl⟩ := List.mem_map.mp htok
    rw [hexByte, length_hexWord]
  have hshort : (printTokens (bs.map hexByte)).length ≤ 24 := by
    have := length_printTokens_le hwidth
    rw [List.length_map] at this
    omega
  have hp := printed_of_tokens (by simpa using hne) htoks (by simp only [apLineMax]; omega)
  obtain ⟨b, bs', rfl⟩ := List.exists_cons_of_ne_nil hne
  have hrow : printRow index (b :: bs') =
      hexWord 1 index ++ ':' :: ' ' :: printTokens ((b :: bs').map hexByte) := by
    rfl
  obtain ⟨d, hd⟩ := length_eq_one_iff.mp (length_hexWord 1 index)
  have hdhex : d.isHexDigit = true :=
    isHexDigit_of_mem_hexWord (w := 1) (n := index) (by rw [hd]; exact mem_singleton_self d)
  rw [hrow, hd]
  refine ⟨⟨d, _, rfl, hdhex⟩, ?_, ?_, ?_⟩
  · obtain ⟨cs, c, heq, hc⟩ := hp.last
    exact ⟨d :: ':' :: ' ' :: cs, c, by rw [heq]; rfl, hc⟩
  · intro c hc
    simp only [singleton_append, mem_cons] at hc
    rcases hc with rfl | rfl | rfl | hc
    · simp [lineChar, hdhex]
    · rfl
    · rfl
    · exact hp.chars c hc
  · simp only [length_append, length_cons, length_nil, apLineMax]
    omega

theorem assembleRows_rowLines (payloadMax : ℕ) (rows : List (List UInt8)) (index : ℕ)
    (payload : List UInt8) :
    assembleRows payloadMax index payload (rowLines index rows) =
      putBytes payloadMax payload rows.flatten := by
  induction rows generalizing index payload with
  | nil => simp [rowLines, assembleRows, putBytes]
  | cons bs rows ih =>
    have hpos : ¬ (index : ℤ) % 16 < 0 := by omega
    have hmod : ((index % 16 : ℕ) : ℤ) = (index : ℤ) % 16 := by omega
    have ih' := ih (index + 1) (putBytes payloadMax payload bs)
    rw [rowLines, assembleRows]
    simp only [hmod, hpos, if_false, ne_eq, not_true_eq_false]
    rw [← Nat.cast_succ, ih', putBytes_putBytes, List.flatten_cons]

theorem readsAs_printRows (hint : Id29Hint) (rows : List (List UInt8)) (index : ℕ)
    (h : (∀ bs ∈ rows, bs ≠ [] ∧ bs.length ≤ 8)) :
    List.Forall₂ (ReadsAs hint) (printRows index rows) (rowLines index rows) := by
  induction rows generalizing index with
  | nil => exact .nil
  | cons bs rows ih =>
    obtain ⟨hne, hlen⟩ := h bs mem_cons_self
    have h16 : index % 16 < 16 := Nat.mod_lt _ (by decide)
    have hread : ReadsAs hint _ _ := (printed_printRow hne hlen).readsAs
      (parseLine_printRow h16 (by simp only [apLineMax]; omega))
    exact .cons hread (ih (index + 1) fun b hb => h b (mem_cons_of_mem _ hb))

theorem rowLines_data : ∀ (rows : List (List UInt8)) (index : ℕ),
    ∀ line ∈ rowLines index rows, line.isBare = false ∧ lineIsPending line = false := by
  intro rows
  induction rows with
  | nil => intro _ line hl; cases hl
  | cons bs rows ih =>
    intro index line hl
    rcases mem_cons.mp hl with rfl | hl
    · exact ⟨rfl, if_pos (Int.natCast_nonneg _)⟩
    · exact ih (index + 1) line hl

theorem length_rowLines (rows : List (List UInt8)) (index : ℕ) :
    (rowLines index rows).length = rows.length := by
  induction rows generalizing index with
  | nil => rfl
  | cons bs rows ih => rw [rowLines, length_cons, ih, length_cons]

theorem readsAs_lengthLine (hint : Id29Hint) (hn : n < 4096) :
    ∃ line, ReadsAs hint (printTokens [hexWord 3 n]) line ∧ line.isBare = true ∧
      line.bareValue = n := by
  obtain ⟨header, hparse⟩ := parseLine_lengthLine hn
  have hp : Printed (printTokens [hexWord 3 n]) := by
    apply printed_of_tokens (by simp)
    · intro tok htok
      rw [mem_singleton.mp htok]
      exact ⟨(hexWord_token (by decide)).1, fun c hc => isHexDigit_of_mem_hexWord hc⟩
    · simp [printTokens, length_hexWord, apLineMax]
  refine ⟨_, hp.readsAs hparse, ?_, ?_⟩
  · rw [takeId29_of_hasHeader hint rfl]
    simp [takeEa, ApLine.init]
  · rw [takeId29_of_hasHeader hint rfl]
    simp [takeEa, ApLine.init]

theorem collect_rows (hint : Id29Hint) (hn : n < 4096) {rows : List (List UInt8)}
    (hrows : ∀ bs ∈ rows, bs ≠ [] ∧ bs.length ≤ 8) (hlen : rows.length ≤ apMaxLines)
    {resp : List Char} (htext : ReplyText (printTokens [hexWord 3 n] :: printRows 0 rows) resp) :
    apRespCollectLines hint resp apMaxLines = ⟨rowLines 0 rows, false, n⟩ := by
  obtain ⟨line, hread, hbare, hval⟩ := readsAs_lengthLine hint hn
  have hreads := readsAs_printRows hint rows 0 hrows
  have hdata := rowLines_data rows 0
  have heol : ∀ l ∈ printTokens [hexWord 3 n] :: printRows 0 rows, ∀ c ∈ l, isEol c = false := by
    have hboth : List.Forall₂ (fun l line => (∀ c ∈ l, isEol c = false) ∧ ReadsAs hint l line)
        (printRows 0 rows) (rowLines 0 rows) := hreads.imp fun _ _ h => ⟨h.not_eol, h⟩
    exact forall_mem_cons.mpr ⟨hread.not_eol, ((forall₂_and_left _ _).mp hboth).1⟩
  have hkeep : (rowLines 0 rows).filter (!lineIsPending ·) = rowLines 0 rows := by
    rw [filter_eq_self]
    intro line hl
    rw [(hdata line hl).2]
    rfl
  rw [htext.collect_eq_foldl heol, foldl_cons, hread.collectLine_eq (by decide), if_pos hbare,
    hval, foldl_collectLine_reads apMaxLines hreads (fun line hl => (hdata line hl).1) _
      (Nat.zero_le _), hkeep]
  have hcut : (rowLines 0 rows).length ≤ apMaxLines := by rwa [length_rowLines]
  simp [Collected.init, take_of_length_le hcut]

/-! ## Headers off: the frames rebuilt -/

theorem consecutiveFrames_eq (outMax : ℕ) (n sn : ℕ) (rest out : List UInt8) :
    consecutiveFrames outMax n sn rest out =
      putBytes outMax out (IsoTp.consecutives n sn rest).flatten := by
  induction n generalizing sn rest out with
  | zero => simp [consecutiveFrames, IsoTp.consecutives, putBytes]
  | succ n ih =>
    rw [consecutiveFrames, IsoTp.consecutives]
    split_ifs with hnil
    · simp [putBytes]
    · rw [ih, putBytes_putBytes, putBytes_putBytes, putBytes_putBytes]
      simp

/-- **The frames rebuilt** are the payload's segmentation. -/
theorem framesFromPayload_eq {payload : List UInt8} (hne : payload ≠ [])
    (hlen : payload.length < 4096) (outMax : ℕ) :
    framesFromPayload payload outMax = (IsoTp.segment payload).flatten.take outMax := by
  have hpos := length_pos_of_ne_nil hne
  have hhigh : payload.length / 256 % 16 = payload.length / 256 := by omega
  by_cases h7 : payload.length ≤ 7
  · simp only [framesFromPayload, hpos.ne', if_false, h7, if_true, putBytes_putBytes, IsoTp.segment]
    rw [putBytes_nil]
    simp
  · simp only [framesFromPayload, hpos.ne', if_false, h7, consecutiveFrames_eq, putBytes_putBytes,
      hhigh, IsoTp.segment, List.flatten_cons, IsoTp.firstFrame]
    rw [putBytes_nil]
    simp

theorem assembleHeaderless_rows {payload : List UInt8} (hseg : IsoTp.Segmented payload fs)
    (payloadMax : ℕ) :
    assembleHeaderless (rowLines 0 (fs.map IsoTp.frameData)) payload.length payloadMax =
      payload.take payloadMax := by
  obtain ⟨⟨pad, hdata, -⟩, -⟩ := hseg.read
  have hrows : assembleRows payloadMax 0 [] (rowLines 0 (fs.map IsoTp.frameData)) =
      (payload ++ pad).take payloadMax := by
    have h := assembleRows_rowLines payloadMax (fs.map IsoTp.frameData) 0 []
    rwa [← flatMap_def, hdata] at h
  have htotal : (0 : ℤ) ≤ payload.length := Int.natCast_nonneg _
  rw [assembleHeaderless, if_pos (.inr htotal), hrows, if_pos htotal, Int.toNat_natCast,
    take_take, Nat.min_comm, ← take_take, take_left]

theorem apRespFrames_rows (hint : Id29Hint) {payload : List UInt8} {resp : List Char}
    (hseg : IsoTp.Segmented payload fs) (h7 : ¬ payload.length ≤ 7) (hlen : payload.length < 4096)
    (hlines : fs.length ≤ apMaxLines) (htext : ReplyText (printOff payload fs) resp) (outMax : ℕ) :
    apRespFrames hint resp outMax =
      nonEmptyBytes ((IsoTp.segment (payload.take apPayloadMax)).flatten.take outMax) := by
  rw [printOff, if_neg h7] at htext
  have hrows : ∀ bs ∈ fs.map IsoTp.frameData, bs ≠ [] ∧ bs.length ≤ 8 := by
    intro bs hbs
    obtain ⟨f, hf, rfl⟩ := List.mem_map.mp hbs
    exact (hseg.read.2 f hf).data
  have hcollect := collect_rows hint hlen hrows (by rwa [List.length_map]) htext
  obtain ⟨f, fs', rfl⟩ := List.exists_cons_of_ne_nil hseg.frames_ne_nil
  have hne : rowLines 0 ((f :: fs').map IsoTp.frameData) ≠ [] := by
    exact List.cons_ne_nil _ _
  have hoff : headersOn (rowLines 0 ((f :: fs').map IsoTp.frameData)) = false := rfl
  have htake : payload.take apPayloadMax ≠ [] := by
    rw [ne_eq, List.take_eq_nil_iff, not_or]
    exact ⟨by decide, hseg.ne_nil⟩
  have hshort : (payload.take apPayloadMax).length < 4096 := by
    rw [List.length_take]
    omega
  simp only [apRespFrames, respLines, hcollect, Bool.false_eq_true, hne, if_false, bind,
    Except.bind, hoff, assembleHeaderless_rows hseg, framesFromPayload_eq htake hshort]

section Plain

variable (hint : Id29Hint) {payload : List UInt8} {resp : List Char}

theorem collect_plain (hne : payload ≠ []) (h7 : payload.length ≤ 7)
    (htext : ReplyText [printPlain payload] resp) :
    apRespCollectLines hint resp apMaxLines =
      ⟨[takeEa (takeId29 hint { ApLine.init with bytes := payload })].filter (!lineIsPending ·),
        false, -1⟩ := by
  have hwidth : ∀ tok ∈ payload.map hexByte, tok.length ≤ 2 := by
    intro tok htok
    obtain ⟨b, -, rfl⟩ := List.mem_map.mp htok
    rw [hexByte, length_hexWord]
  have hp : Printed (printPlain payload) := by
    apply printed_of_tokens (by simpa using hne)
    · intro tok htok
      obtain ⟨b, -, rfl⟩ := List.mem_map.mp htok
      exact ⟨(hexWord_token (by decide)).1, fun c hc => isHexDigit_of_mem_hexWord hc⟩
    · have := length_printTokens_le hwidth
      rw [List.length_map] at this
      simp only [apLineMax]
      omega
  have hread : ReadsAs hint _ _ :=
    hp.readsAs (parseLine_printPlain hne (by simp only [apLineMax]; omega))
  have hbare : (takeEa (takeId29 hint { ApLine.init with bytes := payload })).isBare = false := by
    rw [takeEa, takeId29]
    split_ifs <;> rfl
  rw [htext.collect (.cons hread .nil) (by simpa using hbare), take_of_length_le]
  exact (length_filter_le _ _).trans (by simp [apMaxLines])

theorem takeEa_takeId29_plain (hread : readsAsId29 hint payload = false) :
    takeEa (takeId29 hint { ApLine.init with bytes := payload }) =
      { ApLine.init with bytes := payload } := by
  have hid : takeId29 hint { ApLine.init with bytes := payload } =
      { ApLine.init with bytes := payload } := by
    simp only [takeId29, hread, Bool.false_eq_true, if_false, ite_self]
  rw [hid, takeEa]
  simp [ApLine.init]

theorem not_lineIsPending_plain (hp : ¬ ResponsePending payload) :
    lineIsPending { ApLine.init with bytes := payload } = false := by
  rw [Bool.eq_false_iff]
  intro hpend
  simp only [lineIsPending, ApLine.init, Bool.not_false, if_true] at hpend
  rw [if_neg (by decide)] at hpend
  simp only [Bool.and_eq_true, decide_eq_true_eq, beq_iff_eq] at hpend
  obtain ⟨⟨h3, h0⟩, h2⟩ := hpend
  obtain ⟨a, b, c, rfl⟩ := length_eq_three.mp h3
  simp only [getD_cons_zero, getD_cons_succ] at h0 h2
  exact hp ⟨b, by rw [h0, h2]⟩

theorem taken_plain (h7 : payload.length ≤ 7) (hread : readsAsId29 hint payload = true) :
    ∃ line, takeEa (takeId29 hint { ApLine.init with bytes := payload }) = line ∧
      line.hasHeader = true ∧ line.bytes = payload.drop 4 ∧ lineIsPending line = false := by
  obtain ⟨line, hline, hh, hi, hbytes⟩ : ∃ line,
      takeEa (takeId29 hint { ApLine.init with bytes := payload }) = line ∧
        line.hasHeader = true ∧ line.isoIndex = -1 ∧ line.bytes = payload.drop 4 := by
    have hid : takeId29 hint { ApLine.init with bytes := payload } = { ApLine.init with
          header := idOfBytes payload, hasHeader := true, bytes := payload.drop 4 } := by
      simp [takeId29, ApLine.init, hread]
    rw [hid, takeEa]
    split_ifs <;> exact ⟨_, rfl, rfl, rfl, rfl⟩
  have h4 : ¬ 4 ≤ (line.bytes.drop line.ea).length := by
    rw [hbytes, length_drop, length_drop]
    omega
  refine ⟨line, hline, hh, hbytes, ?_⟩
  simp only [lineIsPending, hi, hh, h4, decide_false, Bool.false_and, Bool.not_true,
    Bool.false_eq_true, if_false, ite_self]

theorem apRespFrames_plain (hne : payload ≠ []) (h7 : payload.length ≤ 7)
    (hread : readsAsId29 hint payload = false) (hp : ¬ ResponsePending payload)
    (htext : ReplyText [printPlain payload] resp) (outMax : ℕ) :
    apRespFrames hint resp outMax =
      nonEmptyBytes ((IsoTp.segment payload).flatten.take outMax) := by
  have hcollect := collect_plain hint hne h7 htext
  have hpend := not_lineIsPending_plain hp
  rw [takeEa_takeId29_plain hint hread, filter_cons_of_pos (by simp [hpend])] at hcollect
  have hfit : payload.length ≤ apPayloadMax := by simp only [apPayloadMax]; omega
  have hbytes : assembleHeaderless [{ ApLine.init with bytes := payload }] (-1) apPayloadMax =
      payload := by
    simp [assembleHeaderless, ApLine.init, putBytes_nil, take_of_length_le hfit]
  have hoff : headersOn [{ ApLine.init with bytes := payload }] = false := rfl
  simp only [apRespFrames, respLines, hcollect, filter_nil, Bool.false_eq_true, if_false, bind,
    Except.bind, hoff, hbytes, List.cons_ne_nil, framesFromPayload_eq hne (by omega)]

theorem apRespFrames_plain_pending (hp : ResponsePending payload)
    (htext : ReplyText [printPlain payload] resp) (outMax : ℕ) :
    apRespFrames hint resp outMax = .error .notFound := by
  obtain ⟨service, rfl⟩ := hp
  have hcollect := collect_plain hint (by simp) (by simp) htext
  rw [takeEa_takeId29_plain hint rfl] at hcollect
  simp [apRespFrames, respLines, hcollect, bind, Except.bind, lineIsPending, ApLine.init]

theorem apRespFrames_plain_id29 (hne : payload ≠ []) (h7 : payload.length ≤ 7)
    (hread : readsAsId29 hint payload = true) (htext : ReplyText [printPlain payload] resp)
    (outMax : ℕ) : ∃ out, out.length ≤ 3 ∧ apRespFrames hint resp outMax = nonEmptyBytes out := by
  have hcollect := collect_plain hint hne h7 htext
  obtain ⟨line, hline, hh, hbytes, hpend⟩ := taken_plain hint h7 hread
  have hdrop : line.bytes.length ≤ 3 := by
    rw [hbytes, length_drop]
    omega
  rw [hline, filter_cons_of_pos (by simp [hpend]), filter_nil] at hcollect
  have hon : headersOn [line] = true := hh
  refine ⟨if line.hasHeader = true ∧ line.header = lowestHeader [line] then
    putBytes outMax [] line.bytes else [], ?_, ?_⟩
  · split_ifs
    · rw [putBytes_nil, List.length_take]
      omega
    · simp
  · simp only [apRespFrames, respLines, hcollect, Bool.false_eq_true, if_false, bind, Except.bind,
      hon, if_true, foldl_cons, foldl_nil, List.cons_ne_nil]

end Plain

/-! ## The two views -/

theorem nonEmptyBytes_inj {out out' : List UInt8} :
    nonEmptyBytes out = nonEmptyBytes out' ↔ out = out' := by
  rw [nonEmptyBytes, nonEmptyBytes]
  split_ifs with h h' h'
  · simp [h, h']
  · simp [h, Ne.symm h']
  · simp [h, h']
  · simp

theorem segment_flatten_ne (hn : 2 ≤ n) {payload short : List UInt8} (hlen : payload.length < 4096)
    (h7 : ¬ payload.length ≤ 7) (h7' : ¬ short.length ≤ 7) (hne : short.length < payload.length) :
    (IsoTp.segment short).flatten.take n ≠ (IsoTp.segment payload).flatten.take n := by
  obtain ⟨n, rfl⟩ : ∃ k, n = k + 2 := ⟨n - 2, by omega⟩
  rw [IsoTp.segment, if_neg h7', IsoTp.segment, if_neg h7]
  simp only [List.flatten_cons, IsoTp.firstFrame, List.cons_append, List.take_succ_cons,
    ne_eq, List.cons.injEq, not_and]
  intro h0 h1
  have h0' := congrArg UInt8.toNat h0
  have h1' := congrArg UInt8.toNat h1
  simp only [UInt8.toNat_ofNat'] at h0' h1'
  omega

/-- **The frame view on every protocol.** The frames of a reply printed with
headers off are those of its headers-on print exactly when the payload fits the
reassembly scratch of `AP_PAYLOAD_MAX` bytes and its plain line is not taken for
a 29-bit id and a frame. -/
theorem apRespFrames_headersOff_iff (hint : Id29Hint) (r : Responder) {payload : List UInt8}
    {rows : List (List UInt8)} {on off : List Char} (hne : payload ≠ [])
    (hlen : payload.length < 4096) (hfit : (IsoTp.segment payload).flatten.length ≤ apFramesMax)
    (hlines : (IsoTp.segment payload).length ≤ apMaxLines)
    (hon : ReplyText ((IsoTp.segment payload).map (printFrame r)) on)
    (hrows : IsoTp.Segmented payload rows) (hoff : ReplyText (printOff payload rows) off) :
    apRespFrames hint off apFramesMax = apRespFrames hint on apFramesMax ↔
      payload.length ≤ apPayloadMax ∧ (payload.length ≤ 7 → readsAsId29 hint payload = false) := by
  have hseg := IsoTp.segmented_segment hne hlen
  have hrowslen : rows.length ≤ apMaxLines := by rwa [hrows.length_eq hseg]
  have hfull : (IsoTp.segment payload).flatten.take apFramesMax =
      (IsoTp.segment payload).flatten := take_of_length_le hfit
  by_cases h7 : payload.length ≤ 7
  · -- one plain line
    have hoff' := hoff
    rw [printOff, if_pos h7] at hoff'
    have hmax : payload.length ≤ apPayloadMax := by simp only [apPayloadMax]; omega
    by_cases hp : ResponsePending payload
    · obtain ⟨service, rfl⟩ := hp
      rw [apRespFrames_plain_pending hint ⟨service, rfl⟩ hoff',
        apRespFrames_headersOn_pending hint r _ hseg ⟨service, rfl⟩ hon]
      exact ⟨fun _ => ⟨hmax, fun _ => rfl⟩, fun _ => rfl⟩
    · rw [apRespFrames_headersOn hint r hseg hp hlines hon]
      rcases hread : readsAsId29 hint payload with _ | _
      · rw [apRespFrames_plain hint hne h7 hread hp hoff']
        exact ⟨fun _ => ⟨hmax, fun _ => rfl⟩, fun _ => rfl⟩
      · obtain ⟨out, hout, heq⟩ := apRespFrames_plain_id29 hint hne h7 hread hoff' apFramesMax
        have h6 : 6 ≤ payload.length := by
          simp only [readsAsId29, Bool.and_eq_true, decide_eq_true_eq] at hread
          exact hread.1
        have hframe : (IsoTp.segment payload).flatten = UInt8.ofNat payload.length :: payload := by
          rw [IsoTp.segment, if_pos h7]
          simp
        rw [heq, nonEmptyBytes_inj, hfull, hframe]
        constructor
        · rintro rfl
          rw [length_cons] at hout
          omega
        · rintro ⟨-, h⟩
          exact absurd (h h7) (by decide)
  · -- a length line and rows
    have hp : ¬ ResponsePending payload := by
      rintro ⟨service, rfl⟩
      exact h7 (by simp)
    rw [apRespFrames_rows hint hrows h7 hlen hrowslen hoff,
      apRespFrames_headersOn hint r hseg hp hlines hon, nonEmptyBytes_inj]
    rcases Nat.lt_or_ge apPayloadMax payload.length with hlong | hshort
    · have htake : (payload.take apPayloadMax).length = apPayloadMax := by
        rw [List.length_take]
        omega
      have hcut : (IsoTp.segment (payload.take apPayloadMax)).flatten.take apFramesMax ≠
          (IsoTp.segment payload).flatten.take apFramesMax :=
        segment_flatten_ne (by decide) hlen h7 (by rw [htake]; decide) (by rw [htake]; exact hlong)
      exact ⟨fun h => absurd h hcut, fun h => absurd h.1 (Nat.not_le.mpr hlong)⟩
    · rw [take_of_length_le hshort]
      exact ⟨fun _ => ⟨hshort, fun h => absurd h h7⟩, fun _ => rfl⟩

/-- Eight bytes, on both protocols. -/
theorem apRespFrames_headersOff_eight :
    ∃ on off, apRespFrames ⟨0x17FE007B, true⟩ off apFramesMax =
      apRespFrames ⟨0x17FE007B, true⟩ on apFramesMax := by
  have hseg := IsoTp.segmented_segment
    (show ([0x41, 0x00, 0xBE, 0x3F, 0xA8, 0x13, 0x00, 0x01] : List UInt8) ≠ [] by decide) (by decide)
  exact ⟨_, _, (apRespFrames_headersOff_iff ⟨0x17FE007B, true⟩ (.ext 0x10) (by decide) (by decide)
    (by decide) (by decide) (replyText_lines (by decide)) hseg (replyText_lines (by decide))).mpr
    ⟨by decide, fun _ => by decide⟩⟩

/-- A payload of one byte more than the scratch. -/
def overlongPayload : List UInt8 := List.replicate 129 0x41

/-- Its headers-off print loses the last byte, and the first frame says so. -/
theorem apRespFrames_overlong :
    overlongPayload ≠ [] ∧ (IsoTp.segment overlongPayload).flatten.length ≤ apFramesMax ∧
      (IsoTp.segment overlongPayload).length ≤ apMaxLines ∧
    ∃ on off,
      ReplyText ((IsoTp.segment overlongPayload).map (printFrame (.std 0x7E8 (by decide)))) on ∧
      ReplyText (printOff overlongPayload (IsoTp.segment overlongPayload)) off ∧
      apRespFrames ⟨0, false⟩ off apFramesMax ≠ apRespFrames ⟨0, false⟩ on apFramesMax :=
  ⟨by decide +kernel, by decide +kernel, by decide +kernel, _, _,
    replyText_lines (by decide +kernel), replyText_lines (by decide +kernel), by decide +kernel⟩

end Meatpi
