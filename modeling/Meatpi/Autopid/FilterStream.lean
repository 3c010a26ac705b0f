import Meatpi.Autopid.RespLines

/-!
# The monitor stream (`autopid_resp_filter.c`)

In monitor mode the chip prints one line a frame, in chunks cut anywhere. The
collector gathers characters until a line ends and hands the line to
`ap_filter_frame`; what does not fit the buffer is thrown away with the rest of
its line. Its state after any part of a stream is what that part's unfinished
line leaves in the buffer (`ApFltStream.after`), so where the chunks are cut does
not show.
-/

namespace Meatpi

open List

variable {line : List Char} {c : Char} {s : List Char}

/-! ## One line -/

/-- `hex_byte` -/
def hexByteTok (tok : List Char) : Option UInt8 :=
  if tok.length = 2 ∧ isHexStr tok then some (UInt8.ofNat (hexNum tok)) else none

/-- The bytes of `b[0] << 8 | b[1]`, `b[0] << 24 | ..`, most significant first. -/
def idOfToks (toks : List (List Char)) : Option ℕ :=
  (toks.mapM hexByteTok).map fun b => ofDigitsBE 256 (b.map UInt8.toNat)

/-- The header of `ap_filter_frame`: how many tokens carry the wanted id; `none`
when they do not. -/
def filterHeader (tok : List (List Char)) (frameId : UInt32) : Option ℕ :=
  match tok with
  | [] => none
  | first :: _ =>
    if first.length = 3 ∨ first.length = 8 then
      if isHexStr first ∧ hexNum first = frameId.toNat then some 1 else none
    else if first.length = 2 then
      -- a 29-bit id as four byte tokens, an 11-bit id as two
      if 4 ≤ tok.length ∧ idOfToks (tok.take 4) = some frameId.toNat then some 4
      else if 2 ≤ tok.length ∧ frameId ≤ 0x7FF ∧ idOfToks (tok.take 2) = some frameId.toNat then
        some 2
      else none
    else none

/-- The data loop of `ap_filter_frame`, with room for `room` more bytes. -/
def filterData : ℕ → List (List Char) → List UInt8
  | _, [] => []
  | room, tok :: toks =>
    if room = 0 then []
    else if tok = ['>'] then []
    else
      match hexByteTok tok with
      | some b => b :: filterData (room - 1) toks
      -- markers are skipped
      | none => filterData room toks

/-- `ap_filter_frame`: the payload of a line that carries the wanted id. -/
def apFilterFrame (frameId : UInt32) (payloadMax : ℕ) (line : List Char) : Option (List UInt8) :=
  let tok := (lineTokens line).take 16
  match filterHeader tok frameId with
  | none => none
  | some dataFrom =>
    match filterData payloadMax (tok.drop dataFrom) with
    | [] => none
    | payload => some payload

/-! ## The collector -/

/-- `sizeof(st->line) - 1` -/
def apFltLineCap : ℕ := 159

/-- `ap_flt_stream_t`; the `n` characters of `line` are a list. -/
structure ApFltStream where
  line : List Char
  overflow : Bool

def ApFltStream.init : ApFltStream := ⟨[], false⟩

/-- The loop of `ap_flt_stream_feed_ex` from index `i` on: the state, the payload
of a match and `consumed`. -/
def apFltFeedFrom (frameId : UInt32) (payloadMax : ℕ) :
    ApFltStream → ℕ → List UInt8 → ApFltStream × Option (List UInt8) × ℕ
  | st, i, [] => (st, none, i)
  | st, i, byte :: bytes =>
    let ch := Char.ofNat byte.toNat
    if isEol ch then
      let frame :=
        if 0 < st.line.length ∧ ¬ st.overflow then apFilterFrame frameId payloadMax st.line
        else none
      match frame with
      | some payload => (.init, some payload, i + 1)
      | none => apFltFeedFrom frameId payloadMax .init (i + 1) bytes
    else if st.line.length < apFltLineCap then
      apFltFeedFrom frameId payloadMax { st with line := st.line ++ [ch] } (i + 1) bytes
    else apFltFeedFrom frameId payloadMax { st with overflow := true } (i + 1) bytes

def apFltStreamFeedEx (frameId : UInt32) (payloadMax : ℕ) (st : ApFltStream)
    (bytes : List UInt8) : ApFltStream × Option (List UInt8) × ℕ :=
  apFltFeedFrom frameId payloadMax st 0 bytes

/-- The caller's loop on a chunk, `while (off < c.len)`: it resumes behind every
match. A match takes at least one byte; `fuel` bounds the calls. -/
def apFltChunk (frameId : UInt32) (payloadMax : ℕ) :
    ℕ → ApFltStream → List UInt8 → ApFltStream × List (List UInt8)
  | 0, st, _ => (st, [])
  | fuel + 1, st, bytes =>
    if bytes = [] then (st, [])
    else
      match apFltStreamFeedEx frameId payloadMax st bytes with
      | (st, none, _) => (st, [])
      | (st, some payload, used) =>
        let rest := apFltChunk frameId payloadMax fuel st (bytes.drop used)
        (rest.1, payload :: rest.2)

/-- The stream, chunk by chunk. -/
def apFltChunks (frameId : UInt32) (payloadMax : ℕ) :
    ApFltStream → List (List UInt8) → ApFltStream × List (List UInt8)
  | st, [] => (st, [])
  | st, chunk :: chunks =>
    let one := apFltChunk frameId payloadMax chunk.length st chunk
    let rest := apFltChunks frameId payloadMax one.1 chunks
    (rest.1, one.2 ++ rest.2)

/-! ## The lines of a stream -/

/-- The characters of a stream. -/
def streamChars (bytes : List UInt8) : List Char := bytes.map fun b => Char.ofNat b.toNat

/-- The lines that are terminated. -/
def terminatedLines (s : List Char) : List (List Char) := (s.splitOnP isEol).dropLast

/-- What stands behind the last line end. -/
def unfinishedLine (s : List Char) : List Char := (s.splitOnP isEol).getLastD []

/-- The payloads of a stream, line by line: every terminated line that fits the
buffer goes to `ap_filter_frame`. -/
def monitorPayloads (frameId : UInt32) (payloadMax : ℕ) (s : List Char) : List (List UInt8) :=
  ((terminatedLines s).filter fun line => decide (line.length ≤ apFltLineCap)).filterMap
    (apFilterFrame frameId payloadMax)

/-- The collector behind an unfinished line. -/
def ApFltStream.after (line : List Char) : ApFltStream :=
  ⟨line.take apFltLineCap, decide (apFltLineCap < line.length)⟩

/-- No line end among the characters. -/
def Unbroken (s : List Char) : Prop := ∀ c ∈ s, isEol c = false

theorem Unbroken.snoc (h : Unbroken s) (hc : isEol c = false) : Unbroken (s ++ [c]) := by
  intro d hd
  rcases mem_append.mp hd with hd | hd
  · exact h d hd
  · rw [mem_singleton.mp hd]
    exact hc

theorem Unbroken.splitOnP (h : Unbroken s) : s.splitOnP isEol = [s] :=
  splitOnP_eq_singleton fun c hc => by simp [h c hc]

theorem Unbroken.splitOnP_cons (h : Unbroken s) (hc : isEol c = true) (rest : List Char) :
    (s ++ c :: rest).splitOnP isEol = s :: rest.splitOnP isEol :=
  splitOnP_append_cons_of_forall_mem (fun c hc => by simp [h c hc]) c hc rest

theorem Unbroken.terminatedLines (h : Unbroken s) : Meatpi.terminatedLines s = [] := by
  rw [Meatpi.terminatedLines, h.splitOnP]
  rfl

theorem Unbroken.unfinishedLine (h : Unbroken s) : Meatpi.unfinishedLine s = s := by
  rw [Meatpi.unfinishedLine, h.splitOnP]
  rfl

theorem Unbroken.terminatedLines_cons (h : Unbroken s) (hc : isEol c = true) (rest : List Char) :
    Meatpi.terminatedLines (s ++ c :: rest) = s :: Meatpi.terminatedLines rest := by
  rw [Meatpi.terminatedLines, h.splitOnP_cons hc,
    dropLast_cons_of_ne_nil (splitOnP_ne_nil isEol rest)]
  rfl

theorem Unbroken.unfinishedLine_cons (h : Unbroken s) (hc : isEol c = true) (rest : List Char) :
    Meatpi.unfinishedLine (s ++ c :: rest) = Meatpi.unfinishedLine rest := by
  obtain ⟨x, xs, hrest⟩ := exists_cons_of_ne_nil (splitOnP_ne_nil isEol rest)
  rw [Meatpi.unfinishedLine, h.splitOnP_cons hc, Meatpi.unfinishedLine, hrest]
  rfl

theorem unbroken_unfinishedLine (s : List Char) : Unbroken (unfinishedLine s) := by
  suffices h : ∀ (s line : List Char), Unbroken line → Unbroken (unfinishedLine (line ++ s)) from
    h s [] fun c hc => by cases hc
  intro s
  induction s with
  | nil =>
    intro line h
    rw [append_nil, h.unfinishedLine]
    exact h
  | cons c s ih =>
    intro line h
    cases hc : isEol c with
    | true =>
      rw [h.unfinishedLine_cons hc]
      exact ih [] fun d hd => by cases hd
    | false =>
      have hcut : line ++ c :: s = (line ++ [c]) ++ s := by simp
      rw [hcut]
      exact ih _ (h.snoc hc)

/-- **A cut** is closed up by what the unfinished line goes on with. -/
theorem lines_append (s t : List Char) :
    terminatedLines (s ++ t) = terminatedLines s ++ terminatedLines (unfinishedLine s ++ t) ∧
      unfinishedLine (s ++ t) = unfinishedLine (unfinishedLine s ++ t) := by
  suffices h : ∀ (s line : List Char), Unbroken line → terminatedLines (line ++ s ++ t) =
          terminatedLines (line ++ s) ++ terminatedLines (unfinishedLine (line ++ s) ++ t) ∧
        unfinishedLine (line ++ s ++ t) = unfinishedLine (unfinishedLine (line ++ s) ++ t) from
    h s [] fun c hc => by cases hc
  intro s
  induction s with
  | nil =>
    intro line h
    rw [append_nil, h.terminatedLines, h.unfinishedLine]
    exact ⟨rfl, rfl⟩
  | cons c s ih =>
    intro line h
    cases hc : isEol c with
    | true =>
      obtain ⟨hlines, hlast⟩ := ih [] fun d hd => by cases hd
      rw [nil_append] at hlines hlast
      rw [append_assoc, cons_append, h.terminatedLines_cons hc,
        h.terminatedLines_cons hc, h.unfinishedLine_cons hc, h.unfinishedLine_cons hc, hlines,
        hlast]
      exact ⟨rfl, rfl⟩
    | false =>
      have hcut : line ++ c :: s = (line ++ [c]) ++ s := by simp
      rw [hcut]
      exact ih _ (h.snoc hc)

/-! ## The collector over a stream -/

section Collector

variable (frameId : UInt32) (payloadMax : ℕ)

theorem after_nil : ApFltStream.after [] = .init := rfl

theorem after_snoc (line : List Char) (c : Char) :
    ApFltStream.after (line ++ [c]) = if (ApFltStream.after line).line.length < apFltLineCap then
        { ApFltStream.after line with line := (ApFltStream.after line).line ++ [c] }
      else { ApFltStream.after line with overflow := true } := by
  have hlen : (ApFltStream.after line).line.length = min apFltLineCap line.length := length_take
  by_cases h : line.length < apFltLineCap
  · have hshort : line.take apFltLineCap = line := take_of_length_le (by omega)
    have hshort' : (line ++ [c]).take apFltLineCap = line ++ [c] :=
      take_of_length_le (by simp; omega)
    rw [if_pos (by omega), ApFltStream.after, ApFltStream.after, hshort, hshort']
    simp; omega
  · have hcut : (line ++ [c]).take apFltLineCap = line.take apFltLineCap :=
      take_append_of_le_length (by omega)
    rw [if_neg (by omega), ApFltStream.after, ApFltStream.after, hcut]
    simp; omega

/-- **A line end**: the line goes to `ap_filter_frame` when it fits. -/
theorem frame_after (line : List Char) :
    (if 0 < (ApFltStream.after line).line.length ∧ ¬ (ApFltStream.after line).overflow then
        apFilterFrame frameId payloadMax (ApFltStream.after line).line
      else none) =
      if line.length ≤ apFltLineCap then apFilterFrame frameId payloadMax line else none := by
  rcases line with _ | ⟨c, line⟩
  · rfl
  · by_cases h : (c :: line).length ≤ apFltLineCap
    · have hshort : (c :: line).take apFltLineCap = c :: line := take_of_length_le h
      rw [if_pos h, ApFltStream.after, hshort, if_pos (by simpa using h)]
    · rw [if_neg h, if_neg]
      simp only [ApFltStream.after]
      rintro ⟨-, hno⟩
      exact hno (by simpa using h)

theorem monitorPayloads_cons (h : Unbroken line) (hc : isEol c = true) (rest : List Char) :
    monitorPayloads frameId payloadMax (line ++ c :: rest) =
      (if line.length ≤ apFltLineCap then apFilterFrame frameId payloadMax line
        else none).toList ++ monitorPayloads frameId payloadMax rest := by
  rw [monitorPayloads, h.terminatedLines_cons hc]
  by_cases hfits : line.length ≤ apFltLineCap
  · rw [filter_cons_of_pos (by simpa using hfits), if_pos hfits, filterMap_cons]
    cases apFilterFrame frameId payloadMax line <;> rfl
  · rw [filter_cons_of_neg (by simpa using hfits), if_neg hfits]
    rfl

theorem monitorPayloads_append (s t : List Char) :
    monitorPayloads frameId payloadMax (s ++ t) = monitorPayloads frameId payloadMax s ++
        monitorPayloads frameId payloadMax (unfinishedLine s ++ t) := by
  rw [monitorPayloads, (lines_append s t).1, filter_append, filterMap_append]
  rfl

theorem apFltFeedFrom_after (bytes : List UInt8) (line : List Char) (i : ℕ) (h : Unbroken line) :
    (monitorPayloads frameId payloadMax (line ++ streamChars bytes) = [] ∧
      apFltFeedFrom frameId payloadMax (.after line) i bytes =
        (.after (unfinishedLine (line ++ streamChars bytes)), none, i + bytes.length)) ∨
      ∃ taken rest payload, bytes = taken ++ rest ∧ taken ≠ [] ∧
        monitorPayloads frameId payloadMax (line ++ streamChars bytes) =
          payload :: monitorPayloads frameId payloadMax (streamChars rest) ∧
        unfinishedLine (line ++ streamChars bytes) = unfinishedLine (streamChars rest) ∧
        apFltFeedFrom frameId payloadMax (.after line) i bytes =
          (.init, some payload, i + taken.length) := by
  induction bytes generalizing line i with
  | nil =>
    refine .inl ⟨?_, ?_⟩
    · rw [streamChars, map_nil, append_nil, monitorPayloads, h.terminatedLines]
      rfl
    · rw [streamChars, map_nil, append_nil, h.unfinishedLine]
      rfl
  | cons byte bytes ih =>
    obtain ⟨c, hc⟩ : ∃ c, c = Char.ofNat byte.toNat := ⟨_, rfl⟩
    have hchars : streamChars (byte :: bytes) = c :: streamChars bytes := by rw [hc]; rfl
    rw [hchars, apFltFeedFrom, ← hc]
    by_cases heol : isEol c = true
    · simp only [if_pos heol, frame_after, monitorPayloads_cons frameId payloadMax h heol,
        h.unfinishedLine_cons heol]
      cases hframe : (if line.length ≤ apFltLineCap then apFilterFrame frameId payloadMax line
          else none) with
      | some payload => exact .inr ⟨[byte], bytes, payload, rfl, by simp, rfl, rfl, rfl⟩
      | none =>
        rcases ih [] (i + 1) (fun d hd => by cases hd) with
          ⟨hnone, hfeed⟩ | ⟨taken, rest, payload, rfl, hne, hpay, hrest, hfeed⟩
        · refine .inl ⟨hnone, ?_⟩
          rw [← after_nil, hfeed, Nat.add_right_comm]
          rfl
        · refine .inr ⟨byte :: taken, rest, payload, rfl, by simp, hpay, hrest, ?_⟩
          rw [← after_nil, hfeed, Nat.add_right_comm]
          rfl
    · have hno : isEol c = false := by simpa using heol
      have hcut : line ++ c :: streamChars bytes = (line ++ [c]) ++ streamChars bytes := by simp
      have hstep : (if (ApFltStream.after line).line.length < apFltLineCap then
            apFltFeedFrom frameId payloadMax
              { ApFltStream.after line with line := (ApFltStream.after line).line ++ [c] }
              (i + 1) bytes
          else apFltFeedFrom frameId payloadMax { ApFltStream.after line with overflow := true }
              (i + 1) bytes) =
          apFltFeedFrom frameId payloadMax (.after (line ++ [c])) (i + 1) bytes := by
        rw [after_snoc]
        split_ifs <;> rfl
      simp only [if_neg heol, hstep, hcut]
      rcases ih (line ++ [c]) (i + 1) (h.snoc hno) with
        ⟨hnone, hfeed⟩ | ⟨taken, rest, payload, rfl, hne, hpay, hrest, hfeed⟩
      · refine .inl ⟨hnone, ?_⟩
        rw [hfeed, Nat.add_right_comm]
        rfl
      · refine .inr ⟨byte :: taken, rest, payload, rfl, by simp, hpay, hrest, ?_⟩
        rw [hfeed, Nat.add_right_comm]
        rfl

/-- **A chunk**: its payloads in order, and the unfinished line. -/
theorem apFltChunk_after : ∀ (fuel : ℕ) {bytes : List UInt8} {line : List Char},
    bytes.length ≤ fuel → Unbroken line → apFltChunk frameId payloadMax fuel (.after line) bytes =
        (.after (unfinishedLine (line ++ streamChars bytes)),
          monitorPayloads frameId payloadMax (line ++ streamChars bytes)) := by
  intro fuel
  have hempty : ∀ {line : List Char}, Unbroken line →
      (ApFltStream.after line, ([] : List (List UInt8))) =
        (.after (unfinishedLine (line ++ streamChars [])),
          monitorPayloads frameId payloadMax (line ++ streamChars [])) := by
    intro line h
    rw [streamChars, map_nil, append_nil, monitorPayloads, h.terminatedLines, h.unfinishedLine]
    rfl
  induction fuel with
  | zero =>
    intro bytes line hlen h
    obtain rfl : bytes = [] := eq_nil_of_length_eq_zero (Nat.le_zero.mp hlen)
    exact hempty h
  | succ fuel ih =>
    intro bytes line hlen h
    rw [apFltChunk]
    by_cases hbytes : bytes = []
    · subst hbytes
      exact hempty h
    · rw [if_neg hbytes, apFltStreamFeedEx]
      rcases apFltFeedFrom_after frameId payloadMax bytes line 0 h with
        ⟨hnone, hfeed⟩ | ⟨taken, rest, payload, rfl, hne, hpay, hrest, hfeed⟩
      · rw [hfeed, hnone]
      · have hpos := length_pos_of_ne_nil hne
        rw [length_append] at hlen
        have hfuel : rest.length ≤ fuel := by omega
        have hempty : Unbroken [] := fun d hd => by cases hd
        have hnext := ih hfuel hempty
        rw [after_nil, nil_append] at hnext
        rw [hfeed, hpay, hrest]
        simp only [Nat.zero_add, drop_left, hnext]

/-- **A stream in chunks.** -/
theorem apFltChunks_after (chunks : List (List UInt8)) (h : Unbroken line) :
    apFltChunks frameId payloadMax (.after line) chunks =
      (.after (unfinishedLine (line ++ streamChars chunks.flatten)),
        monitorPayloads frameId payloadMax (line ++ streamChars chunks.flatten)) := by
  induction chunks generalizing line with
  | nil =>
    have hnil : line ++ streamChars [].flatten = line := by simp [streamChars]
    rw [hnil, h.unfinishedLine, monitorPayloads, h.terminatedLines]
    rfl
  | cons chunk chunks ih =>
    have hline := unbroken_unfinishedLine (line ++ streamChars chunk)
    have hflat : line ++ streamChars (chunk :: chunks).flatten =
        (line ++ streamChars chunk) ++ streamChars chunks.flatten := by
      simp [streamChars]
    rw [apFltChunks, apFltChunk_after frameId payloadMax chunk.length (Nat.le_refl _) h, ih hline,
      hflat, monitorPayloads_append frameId payloadMax (line ++ streamChars chunk),
      (lines_append (line ++ streamChars chunk) _).2]

/-- **However the stream is cut**, the collector matches the terminated lines of
the whole stream that fit its buffer, in order, and nothing else. -/
theorem apFltChunks_eq (chunks : List (List UInt8)) :
    (apFltChunks frameId payloadMax .init chunks).2 =
      ((terminatedLines (streamChars chunks.flatten)).filter fun line =>
        decide (line.length ≤ apFltLineCap)).filterMap (apFilterFrame frameId payloadMax) := by
  have hempty : Unbroken [] := fun c hc => by cases hc
  have h := apFltChunks_after frameId payloadMax chunks hempty
  rw [after_nil, nil_append] at h
  rw [h, monitorPayloads]

end Collector

end Meatpi
