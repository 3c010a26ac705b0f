import Meatpi.UdsManager.AtParse

/-!
# The messages on a text

What a reply text says, apart from the buffer it is read into: the messages on its
lines, in order. A run of rows is one message, a line of bytes is one. The parser
refuses a text with a line that is no data or with a message that does not fit, and
else hands over the last message that is more than a `7F xx 78`
(`udsAtParseResponseLen_eq`).
-/

namespace Meatpi

open List

variable {cap : ℕ}

/-! ## Messages -/

/-- One message on a reply text. -/
inductive UdsMsg where
  /-- a line of bytes -/
  | single (m : List UInt8)
  /-- rows, under a line that announces `total` bytes (0: no such line) -/
  | rows (total : ℕ) (m : List UInt8)

/-- The messages so far, and the rows being read. -/
structure UdsRead where
  done : List UdsMsg
  cur : Option (ℕ × List UInt8)

/-- The rows end. -/
def UdsRead.close (r : UdsRead) : UdsRead :=
  match r.cur with
  | none => r
  | some (total, m) => ⟨r.done ++ [.rows total m], none⟩

/-- One line. -/
def UdsRead.line (r : UdsRead) (line : List Char) (indexedNext : Bool) : UdsRead :=
  let l := udsTrim line
  if l = [] then r
  else if lineHasIndex l then
    let (total, m) := r.cur.getD (0, [])
    { r with cur := some (total, m ++ lineBytes l) }
  else if indexedNext then { r.close with cur := some (lengthLineValue l, []) }
  else { r.close with done := r.close.done ++ [.single (lineBytes l)] }

/-- All lines. -/
def UdsRead.lines : UdsRead → List (List Char) → UdsRead
  | r, [] => r
  | r, line :: rest => (r.line line (nextIndexed rest)).lines rest

/-- The messages on the lines. -/
def udsMessages (lines : List (List Char)) : List UdsMsg := (UdsRead.lines ⟨[], none⟩ lines).close.done

/-- The message only says that the answer is still to come. -/
def UdsMsg.waits : UdsMsg → Bool
  | .single m => isPending m
  | .rows _ _ => false

/-- The message fits the caller's buffer, and a line of bytes a frame. -/
def UdsMsg.fits (cap : ℕ) : UdsMsg → Bool
  | .single m => decide (m.length ≤ 8) && (isPending m || decide (m.length ≤ cap))
  | .rows _ m => decide (m.length ≤ cap)

/-- The bytes of the message, without the last frame's padding, and how many were
announced. -/
def UdsMsg.answer : UdsMsg → List UInt8 × ℕ
  | .single m => (m, 0)
  | .rows total m => (if 0 < total then m.take total else m, total)

/-- A message that takes the place of what was read before it. -/
def UdsMsg.counts : UdsMsg → Bool
  | .single m => !isPending m && !m.isEmpty
  | .rows _ _ => true

/-- The answer among the messages: the last that counts, if it has bytes. -/
def udsAnswer (ms : List UdsMsg) : Option (List UInt8 × ℕ) :=
  ((ms.filter UdsMsg.counts).getLast?.map UdsMsg.answer).filter fun a => !a.1.isEmpty

/-- A line that is no data. -/
def isErrorLine (line : List Char) : Bool := isErrorToken (udsTrim line)

/-! ## The parser reads the messages -/

theorem isErrorLine_of_nil {line : List Char} (h : udsTrim line = []) :
    isErrorLine line = false := by
  rw [isErrorLine, h]
  rfl

/-- What was read so far fits. -/
def UdsRead.Fits (cap : ℕ) (r : UdsRead) : Prop :=
  (∀ m ∈ r.done, m.fits cap = true) ∧ ∀ t m, r.cur = some (t, m) → m.length ≤ cap

/-- The parser's locals say what was read. -/
structure UdsParse.Reads (s : UdsParse) (r : UdsRead) : Prop where
  inMulti : s.inMulti = r.cur.isSome
  rows : ∀ t m, r.cur = some (t, m) → s.total = t ∧ s.msg = m
  answer : r.cur = none →
    udsAnswer r.done = if s.complete then some (s.msg, s.announced) else none
  pending : s.pending = min 255 (r.done.countP UdsMsg.waits)

theorem udsAnswer_concat (ms : List UdsMsg) (m : UdsMsg) :
    udsAnswer (ms ++ [m]) =
      if m.counts then (some m.answer).filter fun a => !a.1.isEmpty else udsAnswer ms := by
  by_cases h : m.counts = true
  · simp [udsAnswer, filter_append, h]
  · simp [udsAnswer, filter_append, h]

theorem UdsRead.cur_close (r : UdsRead) : r.close.cur = none := by
  cases h : r.cur <;> simp [close, h]

variable {s : UdsParse}

theorem UdsParse.Reads.finish {r : UdsRead} (h : s.Reads r) : (finishMulti s).Reads r.close := by
  cases hcur : r.cur with
  | none =>
    have hm : s.inMulti = false := by rw [h.inMulti, hcur]; rfl
    have hs : finishMulti s = s := by simp [finishMulti, hm]
    have hr : r.close = r := by simp [UdsRead.close, hcur]
    rw [hs, hr]
    exact h
  | some c =>
    obtain ⟨total, m⟩ := c
    have hm : s.inMulti = true := by rw [h.inMulti, hcur]; rfl
    obtain ⟨htotal, hmsg⟩ := h.rows total m hcur
    have hr : r.close = ⟨r.done ++ [.rows total m], none⟩ := by simp [UdsRead.close, hcur]
    have hs : finishMulti s = { s with
        inMulti := false, msg := (UdsMsg.rows total m).answer.1,
        complete := !(UdsMsg.rows total m).answer.1.isEmpty, announced := total } := by
      simp [finishMulti, hm, UdsMsg.answer, htotal, hmsg]
    rw [hr, hs]
    refine ⟨rfl, fun t m' hc => (by cases hc), fun _ => ?_, ?_⟩
    · rw [udsAnswer_concat, if_pos (show (UdsMsg.rows total m).counts = true from rfl)]
      cases he : (UdsMsg.rows total m).answer.1.isEmpty with
      | true => simp [Option.filter, he]
      | false =>
        have hne : ¬(if 0 < total then m.take total else m) = [] := by
          simpa [UdsMsg.answer] using he
        simp [Option.filter, UdsMsg.answer, hne]
    · simpa [UdsMsg.waits] using h.pending

theorem UdsRead.Fits.of_close {r : UdsRead} (h : r.close.Fits cap) : r.Fits cap := by
  cases hcur : r.cur with
  | none => simpa [close, hcur] using h
  | some c =>
    obtain ⟨total, m⟩ := c
    rw [show r.close = ⟨r.done ++ [.rows total m], none⟩ by simp [close, hcur]] at h
    refine ⟨fun m' hm' => h.1 m' (mem_append_left _ hm'), fun t m' hc => ?_⟩
    rw [hcur] at hc
    cases hc
    simpa [UdsMsg.fits] using h.1 (.rows total m) (by simp)

theorem UdsRead.Fits.close {cap : ℕ} {r : UdsRead} (h : r.Fits cap) : r.close.Fits cap := by
  cases hcur : r.cur with
  | none => simpa [UdsRead.close, hcur] using h
  | some c =>
    obtain ⟨total, m⟩ := c
    rw [show r.close = ⟨r.done ++ [.rows total m], none⟩ by simp [UdsRead.close, hcur]]
    refine ⟨fun m' hm' => ?_, fun t m' hc => by cases hc⟩
    rcases mem_append.mp hm' with hm' | hm'
    · exact h.1 m' hm'
    · rw [mem_singleton.mp hm']
      simpa [UdsMsg.fits] using h.2 total m hcur

theorem UdsRead.Fits.of_line {r : UdsRead} {line : List Char} {b : Bool}
    (h : (r.line line b).Fits cap) : r.Fits cap := by
  unfold UdsRead.line at h
  by_cases hnil : udsTrim line = []
  · rwa [if_pos hnil] at h
  rw [if_neg hnil] at h
  by_cases hidx : lineHasIndex (udsTrim line) = true
  · rw [if_pos hidx] at h
    refine ⟨h.1, fun t m hc => ?_⟩
    have := h.2 t (m ++ lineBytes (udsTrim line)) (by simp [hc])
    rw [length_append] at this
    omega
  · rw [if_neg hidx] at h
    apply UdsRead.Fits.of_close
    by_cases hb : b = true
    · rw [if_pos hb] at h
      exact ⟨h.1, fun t m hc => by rw [r.cur_close] at hc; cases hc⟩
    · rw [if_neg hb] at h
      exact ⟨fun m hm => h.1 m (mem_append_left _ hm), h.2⟩

theorem UdsRead.Fits.of_lines {lines : List (List Char)} :
    ∀ {r : UdsRead}, (r.lines lines).Fits cap → r.Fits cap := by
  induction lines with
  | nil => intro r h; exact h
  | cons line rest ih => intro r h; exact UdsRead.Fits.of_line (ih h)

/-- The parser refused what it should refuse, and read the rest. -/
def ReadOrRefused (cap : ℕ) (bad : Bool) (r : UdsRead) : Option UdsParse → Prop
  | some s => s.Reads r ∧ bad = false ∧ r.Fits cap
  | none => bad = true ∨ ¬r.Fits cap

theorem UdsParse.Reads.start {r : UdsRead} (h : s.Reads r) :
    (if s.inMulti then s
      else { s with inMulti := true, msg := [], complete := false, total := 0 }).Reads
      { r with cur := some (r.cur.getD (0, [])) } := by
  cases hcur : r.cur with
  | none =>
    have hm : s.inMulti = false := by rw [h.inMulti, hcur]; rfl
    rw [hm]
    refine ⟨rfl, fun t m hc => ?_, fun hc => (by cases hc), h.pending⟩
    cases hc
    exact ⟨rfl, rfl⟩
  | some c =>
    have hm : s.inMulti = true := by rw [h.inMulti, hcur]; rfl
    have hr : ({ r with cur := some ((some c).getD (0, [])) } : UdsRead) = r := by
      rw [Option.getD_some, ← hcur]
    rw [hm, hr]
    exact h

theorem UdsParse.Reads.row {r : UdsRead} (h : s.Reads r) (hfit : r.Fits cap) {line : List Char}
    (hnil : udsTrim line ≠ []) (herr : isErrorLine line = false)
    (hidx : lineHasIndex (udsTrim line) = true) (b : Bool) :
    ReadOrRefused cap false (r.line line b) (udsLine cap s line b) := by
  obtain ⟨total, m, hgot⟩ : ∃ total m, r.cur.getD (0, []) = (total, m) := ⟨_, _, rfl⟩
  have hlen : m.length ≤ cap := by
    cases hcur : r.cur with
    | none =>
      rw [hcur] at hgot
      cases hgot
      exact Nat.zero_le cap
    | some c =>
      rw [hcur] at hgot
      cases hgot
      exact hfit.2 total m hcur
  have hstart := h.start
  rw [hgot] at hstart
  generalize hs1 : (if s.inMulti then s
      else { s with inMulti := true, msg := [], complete := false, total := 0 }) = s1 at hstart
  obtain ⟨htotal, hmsg⟩ := hstart.rows total m rfl
  have hs : udsLine cap s line b =
      if lineBytes (udsTrim line) ≠ [] ∧ cap < m.length + (lineBytes (udsTrim line)).length then none
      else some { s1 with msg := m ++ lineBytes (udsTrim line) } := by
    rw [isErrorLine] at herr
    simp only [udsLine, hnil, herr, hidx, hs1, hmsg, if_true, if_false, Bool.false_eq_true]
  have hr : r.line line b = { r with cur := some (total, m ++ lineBytes (udsTrim line)) } := by
    simp only [UdsRead.line, hnil, hidx, hgot, if_true, if_false]
  rw [hs, hr]
  by_cases hover : lineBytes (udsTrim line) ≠ [] ∧
      cap < m.length + (lineBytes (udsTrim line)).length
  · rw [if_pos hover]
    refine .inr fun hf => ?_
    have := hf.2 total _ rfl
    rw [length_append] at this
    omega
  · rw [if_neg hover]
    refine ⟨⟨hstart.inMulti, fun t m' hc => ?_, fun hc => (by cases hc), hstart.pending⟩, rfl,
      hfit.1, fun t m' hc => ?_⟩
    · cases hc
      exact ⟨htotal, rfl⟩
    · cases hc
      by_cases hempty : lineBytes (udsTrim line) = []
      · rwa [hempty, append_nil]
      · have hle := not_and.mp hover hempty
        rw [length_append]
        omega

theorem UdsParse.Reads.noRow {r : UdsRead} (h : s.Reads r) (hfit : r.Fits cap) {line : List Char}
    (hnil : udsTrim line ≠ []) (herr : isErrorLine line = false)
    (hidx : lineHasIndex (udsTrim line) = false) (b : Bool) :
    ReadOrRefused cap false (r.line line b) (udsLine cap s line b) := by
  have hfin := h.finish
  have hfit' := hfit.close
  have hcur := r.cur_close
  rw [isErrorLine] at herr
  cases b with
  | true =>
    have hs : udsLine cap s line true = some { finishMulti s with
        inMulti := true, msg := [], complete := false, total := lengthLineValue (udsTrim line) } := by
      simp [udsLine, hnil, herr, hidx]
    have hr : r.line line true = { r.close with cur := some (lengthLineValue (udsTrim line), []) } := by
      simp [UdsRead.line, hnil, hidx]
    rw [hs, hr]
    refine ⟨⟨rfl, fun t m hc => ?_, fun hc => (by cases hc), hfin.pending⟩, rfl, hfit'.1,
      fun t m hc => ?_⟩
    · cases hc
      exact ⟨rfl, rfl⟩
    · cases hc
      exact Nat.zero_le cap
  | false =>
    generalize hmb : lineBytes (udsTrim line) = m
    have hr : r.line line false = { r.close with done := r.close.done ++ [.single m] } := by
      simp [UdsRead.line, hnil, hidx, hmb]
    have hs : udsLine cap s line false = if 8 < m.length then none
        else if isPending m then
          some { finishMulti s with pending := min 255 ((finishMulti s).pending + 1) }
        else if m = [] then some (finishMulti s)
        else if cap < m.length then none
        else some { finishMulti s with msg := m, complete := true, announced := 0 } := by
      simp [udsLine, hnil, herr, hidx, hmb]
    have hunfit : (UdsMsg.single m).fits cap = false → ¬(r.line line false).Fits cap := by
      intro hno hf
      rw [hr] at hf
      rw [hf.1 (.single m) (by simp)] at hno
      cases hno
    have hfits : (UdsMsg.single m).fits cap = true → (r.line line false).Fits cap := by
      intro hyes
      rw [hr]
      refine ⟨fun m' hm' => ?_, hfit'.2⟩
      rcases mem_append.mp hm' with hm' | hm'
      · exact hfit'.1 m' hm'
      · rwa [mem_singleton.mp hm']
    have hanswer := hfin.answer hcur
    rw [hs]
    by_cases h8 : 8 < m.length
    · rw [if_pos h8]
      exact .inr (hunfit (by simp [UdsMsg.fits, Nat.not_le.mpr h8]))
    rw [if_neg h8]
    have h8' : m.length ≤ 8 := Nat.not_lt.mp h8
    by_cases hp : isPending m = true
    · rw [if_pos hp]
      refine ⟨?_, rfl, hfits (by simp [UdsMsg.fits, h8', hp])⟩
      rw [hr]
      refine ⟨hfin.inMulti, fun t m' hc => ?_, fun _ => ?_, ?_⟩
      · rw [hcur] at hc
        cases hc
      · rw [udsAnswer_concat, if_neg (by simp [UdsMsg.counts, hp])]
        exact hanswer
      · simp only [countP_append, hfin.pending, countP_singleton, UdsMsg.waits, hp, if_true]
        omega
    rw [if_neg hp]
    have hwaits : (UdsMsg.single m).waits = false := Bool.eq_false_iff.mpr hp
    have hpend : ∀ k, k = min 255 (r.close.done.countP UdsMsg.waits) →
        k = min 255 ((r.close.done ++ [UdsMsg.single m]).countP UdsMsg.waits) := by
      intro k hk
      simpa [hwaits] using hk
    by_cases hempty : m = []
    · rw [if_pos hempty]
      refine ⟨?_, rfl, hfits (by simp [UdsMsg.fits, hempty])⟩
      rw [hr]
      refine ⟨hfin.inMulti, fun t m' hc => ?_, fun _ => ?_, hpend _ hfin.pending⟩
      · rw [hcur] at hc
        cases hc
      · rw [udsAnswer_concat, if_neg (by simp [UdsMsg.counts, hempty])]
        exact hanswer
    rw [if_neg hempty]
    by_cases hover : cap < m.length
    · rw [if_pos hover]
      exact .inr (hunfit (by simp [UdsMsg.fits, hp, Nat.not_le.mpr hover]))
    · rw [if_neg hover]
      refine ⟨?_, rfl, hfits (by simp [UdsMsg.fits, h8', Nat.not_lt.mp hover])⟩
      rw [hr]
      refine ⟨hfin.inMulti, fun t m' hc => ?_, fun _ => ?_, hpend _ hfin.pending⟩
      · rw [hcur] at hc
        cases hc
      · rw [udsAnswer_concat, if_pos (by simp [UdsMsg.counts, hp, hempty])]
        simp [UdsMsg.answer, Option.filter, hempty]

/-- **One line, read by both.** -/
theorem UdsParse.Reads.line {r : UdsRead} (h : s.Reads r) (hfit : r.Fits cap) (line : List Char)
    (b : Bool) : ReadOrRefused cap (isErrorLine line) (r.line line b) (udsLine cap s line b) := by
  by_cases hnil : udsTrim line = []
  · have hr : r.line line b = r := by simp [UdsRead.line, hnil]
    have hs : udsLine cap s line b = some s := by simp [udsLine, hnil]
    rw [hr, hs]
    exact ⟨h, isErrorLine_of_nil hnil, hfit⟩
  cases herr : isErrorLine line with
  | true =>
    have hs : udsLine cap s line b = none := by
      rw [isErrorLine] at herr
      simp [udsLine, hnil, herr]
    rw [hs]
    exact .inl rfl
  | false =>
    cases hidx : lineHasIndex (udsTrim line) with
    | true => exact h.row hfit hnil herr hidx b
    | false => exact h.noRow hfit hnil herr hidx b

/-- **The lines, read by both.** -/
theorem UdsParse.Reads.lines {lines : List (List Char)} :
    ∀ {s : UdsParse} {r : UdsRead}, s.Reads r → r.Fits cap →
      ReadOrRefused cap (lines.any isErrorLine) (r.lines lines) (udsLines cap s lines) := by
  induction lines with
  | nil => intro s r h hfit; exact ⟨h, rfl, hfit⟩
  | cons line rest ih =>
    intro s r h hfit
    have hline := h.line hfit line (nextIndexed rest)
    rw [udsLines, UdsRead.lines, any_cons]
    cases hs : udsLine cap s line (nextIndexed rest) with
    | none =>
      rw [hs] at hline
      rcases hline with hbad | hunfit
      · rw [hbad]
        exact .inl rfl
      · exact .inr fun hf => hunfit hf.of_lines
    | some s' =>
      rw [hs] at hline
      obtain ⟨hreads, hgood, hfit'⟩ := hline
      rw [hgood]
      exact ih hreads hfit'

/-! ## What the parser hands over -/

/-- A line is no data, or a message does not fit. -/
def udsRefused (cap : ℕ) (lines : List (List Char)) : Bool :=
  lines.any isErrorLine || (udsMessages lines).any fun m => !m.fits cap

/-- **The parser hands over the last message that counts**, with the number of lines
that only said that it was still to come. -/
theorem udsAtParseResponseLen_eq (resp : List Char) (cap : ℕ) :
    udsAtParseResponseLen resp cap = let lines := resp.splitOnP isEol
      if udsRefused cap lines then ⟨false, [], 0, 0⟩
      else match udsAnswer (udsMessages lines) with
        | some (m, announced) =>
          ⟨true, m, min 255 ((udsMessages lines).countP UdsMsg.waits), announced⟩
        | none => ⟨false, [], min 255 ((udsMessages lines).countP UdsMsg.waits), 0⟩ := by
  have hinit : UdsParse.init.Reads ⟨[], none⟩ :=
    ⟨rfl, fun t m hc => (by cases hc), fun _ => rfl, rfl⟩
  have hempty : (⟨[], none⟩ : UdsRead).Fits cap :=
    ⟨fun m hm => (by cases hm), fun t m hc => (by cases hc)⟩
  have hlines : ReadOrRefused cap ((resp.splitOnP isEol).any isErrorLine)
      (UdsRead.lines ⟨[], none⟩ (resp.splitOnP isEol))
      (udsLines cap .init (resp.splitOnP isEol)) := hinit.lines hempty
  have hunfit : ∀ {r : UdsRead}, ¬r.Fits cap → (r.close.done.any fun m => !m.fits cap) = true := by
    intro r hr
    by_contra hall
    rw [any_eq_true] at hall
    push Not at hall
    apply hr
    apply UdsRead.Fits.of_close
    refine ⟨fun m hm => ?_, fun t m hc => by rw [r.cur_close] at hc; cases hc⟩
    simpa using hall m hm
  simp only [udsAtParseResponseLen]
  cases hs : udsLines cap .init (resp.splitOnP isEol) with
  | none =>
    rw [hs] at hlines
    have href : udsRefused cap (resp.splitOnP isEol) = true := by
      rcases hlines with hbad | hno
      · rw [udsRefused, hbad, Bool.true_or]
      · rw [udsRefused, udsMessages, hunfit hno, Bool.or_true]
    rw [if_pos href]
  | some s =>
    rw [hs] at hlines
    obtain ⟨hreads, hgood, hfit⟩ := hlines
    have hfin := hreads.finish
    have hanswer := hfin.answer (UdsRead.cur_close _)
    have href : udsRefused cap (resp.splitOnP isEol) = false := by
      rw [udsRefused, hgood, Bool.false_or, any_eq_false]
      intro m hm
      simp [hfit.close.1 m hm]
    rw [href, udsMessages, hanswer, ← hfin.pending]
    cases hc : (finishMulti s).complete with
    | false => simp [hc]
    | true =>
      rw [hc] at hanswer
      have hne : (finishMulti s).msg ≠ [] := by
        have := (Option.filter_eq_some_iff.mp hanswer).2
        simpa using this
      simp [hc, hne]

end Meatpi
