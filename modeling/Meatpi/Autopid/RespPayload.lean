import Meatpi.Autopid.RespText

/-!
# The headers-on payload

`assemble_header_frames` over the frames of an ISO-TP transfer gives the
payload back: the data of the frames, cut at the caller's buffer and then at the
length the first frame announced. With the printed lines read back
(`RespPrint`), a reply text gives the payload that was segmented.
-/

namespace Meatpi

open List

variable {f : List UInt8} {fs : List (List UInt8)} {payload : List UInt8}

/-! ## The bounded copy -/

theorem putBytes_nil (max : ℕ) (src : List UInt8) : putBytes max [] src = src.take max := by
  simp [putBytes]

theorem putBytes_putBytes (max : ℕ) (out src₁ src₂ : List UInt8) :
    putBytes max (putBytes max out src₁) src₂ = putBytes max out (src₁ ++ src₂) := by
  rw [putBytes, putBytes, putBytes, take_append, append_assoc, length_append, length_take]
  congr 3
  omega

/-! ## Assembling the frames of one responder -/

/-- The length a run of frames announced last, or what was announced before. -/
def lastAnnounced (expect : ℤ) (fs : List (List UInt8)) : ℤ :=
  (fs.filterMap IsoTp.announced).foldl (fun (_ : ℤ) (n : ℕ) => (n : ℤ)) expect

theorem assembleHeaderLine_frameLine (r : Responder) (payloadMax : ℕ) (out : List UInt8)
    (expect : ℤ) (hf : IsoTp.Frame f) :
    assembleHeaderLine r.header payloadMax (out, expect) (frameLine r f) =
      (putBytes payloadMax out (IsoTp.frameData f), lastAnnounced expect [f]) := by
  have hpos : ¬ f.length ≤ 0 := by
    have := hf.two_le
    omega
  have hpci := hf.pci
  obtain h0 | h0 | h0 : (f.getD 0 0).toNat / 16 = 0 ∨ (f.getD 0 0).toNat / 16 = 1 ∨
      (f.getD 0 0).toNat / 16 = 2 := by omega
  · simp [assembleHeaderLine, frameLine, ApLine.init, lastAnnounced, IsoTp.announced,
      IsoTp.frameData, h0, hpos, -getD_eq_getElem?_getD]
  · have h2 : ¬ f.length < 2 := by
      have := hf.two_le
      omega
    simp [assembleHeaderLine, frameLine, ApLine.init, lastAnnounced, IsoTp.announced,
      IsoTp.frameData, h0, hpos, h2, -getD_eq_getElem?_getD]
  · simp [assembleHeaderLine, frameLine, ApLine.init, lastAnnounced, IsoTp.announced,
      IsoTp.frameData, h0, hpos, -getD_eq_getElem?_getD]

theorem foldl_assembleHeaderLine_frames (r : Responder) (payloadMax : ℕ) :
    ∀ {fs : List (List UInt8)}, (∀ f ∈ fs, IsoTp.Frame f) → ∀ (out : List UInt8) (expect : ℤ),
      (fs.map (frameLine r)).foldl (assembleHeaderLine r.header payloadMax) (out, expect) =
        (putBytes payloadMax out (fs.flatMap IsoTp.frameData), lastAnnounced expect fs) := by
  intro fs
  induction fs with
  | nil => intro _ out expect; simp [putBytes, lastAnnounced]
  | cons f fs ih =>
    intro hfs out expect
    rw [map_cons, foldl_cons,
      assembleHeaderLine_frameLine r payloadMax out expect (hfs f mem_cons_self),
      ih (fun g hg => hfs g (mem_cons_of_mem _ hg)), putBytes_putBytes]
    congr 1
    rw [lastAnnounced, lastAnnounced, lastAnnounced, ← foldl_append,
      ← filterMap_append, singleton_append]

theorem assembleHeaderFrames_frames (r : Responder) (payloadMax : ℕ)
    (hfs : ∀ f ∈ fs, IsoTp.Frame f) :
    assembleHeaderFrames (fs.map (frameLine r)) r.header payloadMax =
      if 0 ≤ lastAnnounced (-1) fs then
        ((fs.flatMap IsoTp.frameData).take payloadMax).take (lastAnnounced (-1) fs).toNat
      else (fs.flatMap IsoTp.frameData).take payloadMax := by
  rw [assembleHeaderFrames, foldl_assembleHeaderLine_frames r payloadMax hfs, putBytes_nil]

/-- **Reassembly**: the frames of a payload that fits the buffer. -/
theorem assembleHeaderFrames_segmented (r : Responder) {payloadMax : ℕ}
    (hseg : IsoTp.Segmented payload fs) (hmax : payload.length ≤ payloadMax) :
    assembleHeaderFrames (fs.map (frameLine r)) r.header payloadMax = payload := by
  obtain ⟨⟨pad, hdata, hann⟩, hfs⟩ := hseg.read
  rw [assembleHeaderFrames_frames r payloadMax hfs, hdata]
  rcases hann with ⟨hann, rfl⟩ | hann
  · have hlast : ¬ (0 : ℤ) ≤ lastAnnounced (-1) fs := by simp [lastAnnounced, hann]
    rw [if_neg hlast, append_nil, take_of_length_le hmax]
  · have hlast : lastAnnounced (-1) fs = payload.length := by simp [lastAnnounced, hann]
    rw [hlast, if_pos (Int.natCast_nonneg _), Int.toNat_natCast, take_take,
      Nat.min_eq_left hmax, take_left]

theorem assembleHeaderFrames_take (r : Responder) (payloadMax : ℕ)
    (hseg : IsoTp.Segmented payload fs) {k : ℕ} (hk : 0 < k) :
    assembleHeaderFrames ((fs.take k).map (frameLine r)) r.header payloadMax =
      (payload.take (IsoTp.carried payload.length k)).take payloadMax := by
  obtain ⟨pad, hdata, hann⟩ := hseg.read_take hk
  have hfs : ∀ f ∈ fs.take k, IsoTp.Frame f := fun f hf => hseg.read.2 f (mem_of_mem_take hf)
  rw [assembleHeaderFrames_frames r payloadMax hfs, hdata]
  rcases hann with ⟨hann, rfl⟩ | ⟨hann, hpad⟩
  · have hlast : ¬ (0 : ℤ) ≤ lastAnnounced (-1) (fs.take k) := by simp [lastAnnounced, hann]
    rw [if_neg hlast, append_nil]
  · have hlast : lastAnnounced (-1) (fs.take k) = payload.length := by simp [lastAnnounced, hann]
    rw [hlast, if_pos (Int.natCast_nonneg _), Int.toNat_natCast, take_take, Nat.min_comm,
      ← take_take]
    rcases hpad with rfl | hall
    · -- nothing but payload: the length announced cuts nothing
      rw [append_nil, take_of_length_le (i := payload.length)]
      rw [length_take]
      exact Nat.min_le_right _ _
    · rw [take_of_length_le hall, take_left]

/-! ## The lowest responder -/

theorem lowestHeader_append (lines : List ApLine) (line : ApLine) :
    lowestHeader (lines ++ [line]) =
      if line.hasHeader ∧ line.header < lowestHeader lines then line.header
      else lowestHeader lines := by
  rw [lowestHeader, foldl_append]
  rfl

theorem lowestHeader_le {lines : List ApLine} {line : ApLine} (hl : line ∈ lines)
    (hh : line.hasHeader = true) : lowestHeader lines ≤ line.header := by
  induction lines using List.reverseRecOn with
  | nil => simp at hl
  | append_singleton lines last ih =>
    rw [lowestHeader_append]
    rcases List.mem_append.mp hl with hl | hl
    · have := ih hl
      split_ifs with h
      · omega
      · exact this
    · rw [List.mem_singleton] at hl
      subst hl
      split_ifs with h
      · exact le_refl _
      · rw [not_and, not_lt] at h
        exact h hh

theorem lowestHeader_mem (lines : List ApLine) :
    lowestHeader lines = uint32Max ∨
      ∃ line ∈ lines, line.hasHeader = true ∧ line.header = lowestHeader lines := by
  induction lines using List.reverseRecOn with
  | nil => exact .inl rfl
  | append_singleton lines last ih =>
    rw [lowestHeader_append]
    split_ifs with h
    · exact .inr ⟨last, by simp, h.1, rfl⟩
    · rcases ih with ih | ⟨line, hl, hh, heq⟩
      · exact .inl ih
      · exact .inr ⟨line, mem_append_left _ hl, hh, heq⟩

theorem lowestHeader_frames (r : Responder) (hne : fs ≠ []) :
    lowestHeader (fs.map (frameLine r)) = r.header := by
  obtain ⟨f, hf⟩ := exists_mem_of_ne_nil fs hne
  have hle := lowestHeader_le (mem_map_of_mem hf) (show (frameLine r f).hasHeader = true from rfl)
  rcases lowestHeader_mem (fs.map (frameLine r)) with hmax | ⟨line, hl, -, heq⟩
  · have := r.header_lt
    simp only [frameLine] at hle
    omega
  · obtain ⟨g, -, rfl⟩ := mem_map.mp hl
    exact heq.symm

/-! ## Collecting a responder's frames -/

/-- The reply text of printed frames, with fillers anywhere between them. -/
structure HeadersOnText (r : Responder) (fs : List (List UInt8)) (resp : List Char) : Prop where
  text : ReplyText (fs.map (printFrame r)) resp
  frames : ∀ f ∈ fs, IsoTp.Frame f

theorem readsAs_frames (hint : Id29Hint) (r : Responder) (hfs : ∀ f ∈ fs, IsoTp.Frame f) :
    List.Forall₂ (ReadsAs hint) (fs.map (printFrame r)) (fs.map (frameLine r)) := by
  rw [forall₂_map_left_iff, forall₂_map_right_iff, forall₂_same]
  exact fun f hf => readsAs_printFrame hint r (hfs f hf)

/-- **Collecting a headers-on reply**: the first `max` frames that are not
pending answers. -/
theorem HeadersOnText.collect {r : Responder} {resp : List Char} (h : HeadersOnText r fs resp)
    (hint : Id29Hint) (max : ℕ) :
    apRespCollectLines hint resp max =
      ⟨((fs.map (frameLine r)).filter (!lineIsPending ·)).take max, false, -1⟩ := by
  apply h.text.collect (readsAs_frames hint r h.frames)
  intro line hl
  obtain ⟨f, -, rfl⟩ := mem_map.mp hl
  rfl

/-! ## The round trip -/

/-- `7F <service> 78`: a response-pending answer. -/
def ResponsePending (payload : List UInt8) : Prop := ∃ service, payload = [0x7F, service, 0x78]

theorem not_lineIsPending_of_segmented (r : Responder) (hseg : IsoTp.Segmented payload fs)
    (hp : ¬ ResponsePending payload) (hf : f ∈ fs) : lineIsPending (frameLine r f) = false := by
  rw [Bool.eq_false_iff]
  intro hpend
  simp only [lineIsPending, frameLine, ApLine.init, drop_zero, Bool.not_true,
    Bool.false_eq_true, if_false] at hpend
  rw [if_neg (by decide)] at hpend
  simp only [Bool.and_eq_true, beq_iff_eq, decide_eq_true_eq] at hpend
  obtain ⟨⟨⟨-, h0⟩, h1⟩, h3⟩ := hpend
  obtain ⟨h7, pad, rfl⟩ := hseg.eq_single hf (by rw [h0]; decide)
  rw [getD_cons_zero] at h0
  have hlen : payload.length = 3 := by
    have := congrArg UInt8.toNat h0
    rw [IsoTp.toNat_single h7] at this
    exact this
  obtain ⟨a, b, c, rfl⟩ := length_eq_three.mp hlen
  simp only [cons_append, getD_cons_succ, getD_cons_zero] at h1 h3
  exact hp ⟨b, by rw [h1, h3]⟩

theorem frameLine_map_filter (r : Responder) (hseg : IsoTp.Segmented payload fs)
    (hp : ¬ ResponsePending payload) :
    (fs.map (frameLine r)).filter (!lineIsPending ·) = fs.map (frameLine r) := by
  rw [filter_eq_self]
  intro line hl
  obtain ⟨f, hf, rfl⟩ := mem_map.mp hl
  rw [not_lineIsPending_of_segmented r hseg hp hf]
  rfl

theorem IsoTp.Segmented.frames_ne_nil (hseg : IsoTp.Segmented payload fs) : fs ≠ [] := by
  cases hseg <;> simp

/-- **Headers-on ISO-TP round trip.** An answer of up to `payloadMax` bytes that
is not a pending one, segmented with any padding and printed one frame a line by
any responder, blank and `SEARCHING` lines anywhere between, is what
`ap_resp_to_payload` returns, whatever the 29-bit hint. -/
theorem apRespToPayload_headersOn (hint : Id29Hint) (r : Responder) {payloadMax : ℕ}
    {payload : List UInt8} {fs : List (List UInt8)} {resp : List Char}
    (hseg : IsoTp.Segmented payload fs) (hmax : payload.length ≤ payloadMax)
    (hp : ¬ ResponsePending payload) (hlines : fs.length ≤ apMaxLines)
    (htext : ReplyText (fs.map (printFrame r)) resp) :
    apRespToPayload hint resp payloadMax = .ok payload := by
  have hcollect := HeadersOnText.collect ⟨htext, hseg.read.2⟩ hint apMaxLines
  rw [frameLine_map_filter r hseg hp, take_of_length_le (by simpa using hlines)] at hcollect
  have hne : fs.map (frameLine r) ≠ [] := by simpa using hseg.frames_ne_nil
  have hon : headersOn (fs.map (frameLine r)) = true := by
    obtain ⟨f, fs', rfl⟩ := exists_cons_of_ne_nil hseg.frames_ne_nil
    rfl
  have hlow := lowestHeader_frames r hseg.frames_ne_nil
  have hasm := assembleHeaderFrames_segmented r hseg hmax
  simp only [apRespToPayload, respLines, hcollect, Bool.false_eq_true, hne, if_false,
    bind, Except.bind, hon, if_true, hlow, hasm, nonEmptyBytes, hseg.ne_nil]

theorem apRespToPayload_headersOn_firstConsecutive :
    apRespToPayload ⟨0, false⟩
      ("SEARCHING...\r\n7E8 10 08 41 00 BE 3F A8 13\r\n7E8 21 00 01 AA AA AA AA AA\r\n>".toList)
      128 = .ok [0x41, 0x00, 0xBE, 0x3F, 0xA8, 0x13, 0x00, 0x01] := by
  have hcons : IsoTp.Consecutive 1 [0x00, 0x01] [[0x21, 0x00, 0x01, 0xAA, 0xAA, 0xAA, 0xAA, 0xAA]] :=
    .last 1 [0x00, 0x01] [0xAA, 0xAA, 0xAA, 0xAA, 0xAA] (by decide) (by decide)
  have hseg : IsoTp.Segmented [0x41, 0x00, 0xBE, 0x3F, 0xA8, 0x13, 0x00, 0x01]
      [[0x10, 0x08, 0x41, 0x00, 0xBE, 0x3F, 0xA8, 0x13],
        [0x21, 0x00, 0x01, 0xAA, 0xAA, 0xAA, 0xAA, 0xAA]] :=
    .multi [0x41, 0x00, 0xBE, 0x3F, 0xA8, 0x13] [0x00, 0x01] _ (by decide) (by decide) (by decide)
      hcons
  exact apRespToPayload_headersOn ⟨0, false⟩ (.std 0x7E8 (by decide)) hseg (by decide)
    (by rintro ⟨service, h⟩; simp at h) (by decide)
    (replyText_lines (by decide))

end Meatpi
