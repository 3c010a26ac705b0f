import Meatpi.Autopid.RespFrames
import Meatpi.UdsManager.AtMessages

/-!
# What the chip prints for a UDS answer, read back

An answer of up to seven bytes is one line, a longer one a length line and the rows
of its frames, the last one padded; a response-pending line for each `7F xx 78` comes
first. The parser collects the padding too before it cuts it off, so a buffer that
holds the answer may still be too small for its rows.
-/

namespace Meatpi

open Bool List UdsRead

variable {shown tail : List (List Char)} {sp : List Char} {sids : List UInt8}

variable {ls : List (List Char)} {rows : List (List UInt8)} {l t : List Char}
  {bs payload : List UInt8} {n : ℕ}

/-! ## The print -/

/-- The data of the frames of a long answer: six bytes, then seven each, the last row
filled up with any bytes. -/
def UdsRows (payload : List UInt8) (rows : List (List UInt8)) : Prop :=
  ∃ first rest pad, rows = first :: rest ∧ first.length = 6 ∧ (∀ row ∈ rest, row.length = 7) ∧
    rows.flatten = payload ++ pad ∧ pad.length < 7

/-- The lines of the answers that are still to come. -/
def printPending (sids : List UInt8) : List (List Char) :=
  sids.map fun sid => printPlain [0x7F, sid, 0x78]

/-- The length line. -/
def printLength (n : ℕ) : List Char := printTokens [hexWord 3 n]

/-- The lines of an answer. -/
def printUds (payload : List UInt8) (rows : List (List UInt8)) : List (List Char) :=
  if payload.length ≤ 7 then [printPlain payload]
  else printLength payload.length :: printRows 0 rows

/-- A text that shows the lines: blanks and prompts may stand behind each, and alone
at the end. -/
def ChipText (ls : List (List Char)) (t : List Char) : Prop :=
  ∃ shown tail, IsText isEol (shown ++ tail) t ∧
    List.Forall₂ (fun l l' => ∃ sp, (∀ c ∈ sp, isPrompt c = true) ∧ l' = l ++ sp) ls shown ∧
    ∀ l ∈ tail, ∀ c ∈ l, isPrompt c = true

/-- The plainest such text: CR LF behind each line, and the prompt. -/
def printText : List (List Char) → List Char
  | [] => ['>']
  | l :: ls => l ++ '\r' :: (['\n'] ++ printText ls)

theorem chipText_printText (ls : List (List Char)) : ChipText ls (printText ls) := by
  refine ⟨ls, [['>']], ?_, ?_, by simp [isPrompt]⟩
  · induction ls with
    | nil => exact .last ['>']
    | cons l ls ih => exact .cons l '\r' ['\n'] rfl (by simp [isEol]) ih
  · exact forall₂_same.mpr fun l _ => ⟨[], by simp, by simp⟩

/-! ## The lines of a text -/

theorem udsTrim_of_prompt (h : ∀ c ∈ l, isPrompt c = true) : udsTrim l = [] := by
  have hr : l.rdropWhile isPrompt = [] := rdropWhile_eq_nil_iff.mpr h
  simp [udsTrim, hr]

theorem isPrompt_of_isGap (h : isGap l = true) : ∀ c ∈ l, isPrompt c = true := by
  intro c hc
  have := all_eq_true.mp h c hc
  rw [isPrompt, this, Bool.true_or]

theorem UdsRead.line_of_prompt (r : UdsRead) (h : ∀ c ∈ l, isPrompt c = true) (b : Bool) :
    r.line l b = r := by
  rw [UdsRead.line]
  simp only [udsTrim_of_prompt h, if_true]

theorem not_lineHasIndex_of_prompt (h : ∀ c ∈ l, isPrompt c = true) : lineHasIndex l = false := by
  rw [lineHasIndex, eq_false_iff]
  intro hc
  have := h ':' (by simpa using hc)
  cases this

theorem nextIndexed_filter (ls : List (List Char)) :
    nextIndexed (ls.filter fun l => !isGap l) = nextIndexed ls := by
  induction ls with
  | nil => rfl
  | cons l ls ih =>
    cases hg : isGap l with
    | true => rw [filter_cons_of_neg (by simp [hg]), ih, nextIndexed, if_pos hg]
    | false =>
      rw [filter_cons_of_pos (by simp [hg]), nextIndexed, nextIndexed, if_neg (by simp [hg]),
        if_neg (by simp [hg])]

theorem UdsRead.lines_filter (ls : List (List Char)) :
    ∀ r : UdsRead, r.lines (ls.filter fun l => !isGap l) = r.lines ls := by
  induction ls with
  | nil => intro r; rfl
  | cons l ls ih =>
    intro r
    cases hg : isGap l with
    | true =>
      rw [filter_cons_of_neg (by simp [hg]), ih, UdsRead.lines,
        r.line_of_prompt (isPrompt_of_isGap hg)]
    | false =>
      rw [filter_cons_of_pos (by simp [hg]), UdsRead.lines, UdsRead.lines, nextIndexed_filter, ih]

theorem any_isErrorLine_filter (ls : List (List Char)) :
    (ls.filter fun l => !isGap l).any isErrorLine = ls.any isErrorLine := by
  induction ls with
  | nil => rfl
  | cons l ls ih =>
    cases hg : isGap l with
    | true =>
      rw [filter_cons_of_neg (by simp [hg]), ih, any_cons,
        isErrorLine_of_nil (udsTrim_of_prompt (isPrompt_of_isGap hg)), Bool.false_or]
    | false => rw [filter_cons_of_pos (by simp [hg]), any_cons, any_cons, ih]

/-! ## Blanks behind a line -/

theorem Printed.udsTrim_append (h : Printed l) (hsp : ∀ c ∈ sp, isPrompt c = true) :
    udsTrim (l ++ sp) = l := by
  have hl : l.rdropWhile isPrompt = l := by
    rw [rdropWhile_eq_self_iff]
    intro hne
    obtain ⟨cs, c, rfl, hc⟩ := h.last
    have h1 := ne_of_isHexDigit (d := ' ') hc rfl
    have h2 := ne_of_isHexDigit (d := '>') hc rfl
    simp [isPrompt, h1, h2]
  have hr : (l ++ sp).rdropWhile isPrompt = l := by
    rw [List.rdropWhile, reverse_append,
      dropWhile_append_of_pos fun c hc => hsp c (mem_reverse.mp hc)]
    exact hl
  have hd : l.dropWhile (· == ' ') = l := by
    obtain ⟨c, cs, rfl, hc⟩ := h.first
    have h1 := ne_of_isHexDigit (d := ' ') hc rfl
    simp [h1]
  rw [udsTrim, hr, hd]

theorem Printed.udsTrim_eq (h : Printed l) : udsTrim l = l := by
  have hnil : ∀ c ∈ ([] : List Char), isPrompt c = true := by simp
  simpa using h.udsTrim_append hnil

theorem Printed.not_isGap (h : Printed l) (sp : List Char) : isGap (l ++ sp) = false := by
  obtain ⟨c, cs, rfl, hc⟩ := h.first
  have h1 := ne_of_isHexDigit (d := ' ') hc rfl
  simp [isGap, h1]

theorem not_error_of_lineChar :
    ∀ n < 128, lineChar (Char.ofNat n) = true → isErrorToken [Char.ofNat n] = false := by
  decide

theorem Printed.not_isErrorToken (h : Printed l) : isErrorToken l = false := by
  rw [isErrorToken, any_eq_false]
  intro c hc
  have hlc := h.chars c hc
  have hlt : c.toNat < 128 := by
    simp only [lineChar, or_eq_true, beq_iff_eq] at hlc
    rcases hlc with (hhex | rfl) | rfl
    · have := char_of_isHexDigit hhex
      omega
    · decide
    · decide
  have hno := not_error_of_lineChar c.toNat hlt (by rwa [Char.ofNat_toNat])
  simpa [isErrorToken] using hno

theorem lineHasIndex_append_prompt (hsp : ∀ c ∈ sp, isPrompt c = true) :
    lineHasIndex (l ++ sp) = lineHasIndex l := by
  have hnot := not_lineHasIndex_of_prompt hsp
  rw [lineHasIndex] at hnot ⊢
  rw [contains_eq_mem] at hnot
  have hno : ':' ∉ sp := of_decide_eq_false hnot
  simp [lineHasIndex, hno]

theorem lines_prompts (h : ∀ l ∈ tail, ∀ c ∈ l, isPrompt c = true) :
    nextIndexed tail = false ∧ (∀ r : UdsRead, r.lines tail = r) ∧
      tail.any isErrorLine = false := by
  induction tail with
  | nil => exact ⟨rfl, fun r => rfl, rfl⟩
  | cons l tail ih =>
    obtain ⟨hnext, hlines, herr⟩ := ih fun l' hl' => h l' (mem_cons_of_mem _ hl')
    have hl := h l mem_cons_self
    refine ⟨?_, fun r => ?_, ?_⟩
    · rw [nextIndexed, hnext, not_lineHasIndex_of_prompt hl, ite_self]
    · rw [UdsRead.lines, r.line_of_prompt hl, hlines]
    · rw [any_cons, isErrorLine_of_nil (udsTrim_of_prompt hl), herr, Bool.false_or]

theorem lines_shown
    (h : List.Forall₂ (fun l l' => ∃ sp, (∀ c ∈ sp, isPrompt c = true) ∧ l' = l ++ sp) ls shown)
    (hls : ∀ l ∈ ls, Printed l) (htail : ∀ l ∈ tail, ∀ c ∈ l, isPrompt c = true) :
    nextIndexed (shown ++ tail) = nextIndexed ls ∧
      (∀ r : UdsRead, r.lines (shown ++ tail) = r.lines ls) ∧
        (shown ++ tail).any isErrorLine = false := by
  induction h with
  | nil => exact lines_prompts htail
  | @cons l l' ls shown hl _ ih =>
    obtain ⟨hnext, hlines, herr⟩ := ih fun g hg => hls g (mem_cons_of_mem _ hg)
    obtain ⟨sp, hsp, rfl⟩ := hl
    have hp := hls l mem_cons_self
    have hgap : isGap l = false := by simpa using hp.not_isGap []
    have hline : ∀ (r : UdsRead) b, r.line (l ++ sp) b = r.line l b := by
      intro r b
      rw [UdsRead.line, UdsRead.line, hp.udsTrim_append hsp, hp.udsTrim_eq]
    refine ⟨?_, fun r => ?_, ?_⟩
    · rw [cons_append, nextIndexed, nextIndexed, hp.not_isGap sp, hgap,
        lineHasIndex_append_prompt hsp]
      rfl
    · rw [cons_append, UdsRead.lines, UdsRead.lines, hnext, hline, hlines]
    · rw [cons_append, any_cons, herr, isErrorLine, hp.udsTrim_append hsp,
        hp.not_isErrorToken, Bool.false_or]

theorem not_eol_of_prompt (h : ∀ c ∈ l, isPrompt c = true) : ∀ c ∈ l, isEol c = false := by
  intro c hc
  have hpc := h c hc
  simp only [isPrompt, or_eq_true, beq_iff_eq] at hpc
  rcases hpc with rfl | rfl <;> rfl

theorem shown_not_eol
    (h : List.Forall₂ (fun l l' => ∃ sp, (∀ c ∈ sp, isPrompt c = true) ∧ l' = l ++ sp) ls shown)
    (hls : ∀ l ∈ ls, Printed l) : ∀ l ∈ shown, ∀ c ∈ l, isEol c = false := by
  induction h with
  | nil => simp
  | @cons l l' ls shown hl _ ih =>
    obtain ⟨sp, hsp, rfl⟩ := hl
    intro g hg c hc
    rcases mem_cons.mp hg with rfl | hg
    · rcases mem_append.mp hc with hc | hc
      · exact (hls l mem_cons_self).not_eol c hc
      · exact not_eol_of_prompt hsp c hc
    · exact ih (fun k hk => hls k (mem_cons_of_mem _ hk)) g hg c hc

theorem filter_isGap_splitOnP (h : IsText isEol ls t) (hls : ∀ l ∈ ls, ∀ c ∈ l, isEol c = false) :
    (t.splitOnP isEol).filter (fun l => !isGap l) = ls.filter fun l => !isGap l := by
  have hfold : ∀ (xs : List (List Char)) (acc : List (List Char)),
      xs.foldl (fun acc l => if isGap l then acc else acc ++ [l]) acc =
        acc ++ xs.filter fun l => !isGap l := by
    intro xs
    induction xs with
    | nil => intro acc; simp
    | cons l xs ih =>
      intro acc
      rw [foldl_cons, ih]
      cases hg : isGap l <;> simp [hg]
  have := h.foldl_splitOnP
    (f := fun (acc : List (List Char)) l => if isGap l then acc else acc ++ [l])
    (fun _ => rfl) hls []
  rwa [hfold, hfold] at this

/-- **The messages on a text** are those on the lines it shows, and nothing on it is an
error. -/
theorem ChipText.messages (h : ChipText ls t) (hls : ∀ l ∈ ls, Printed l) :
    udsMessages (t.splitOnP isEol) = udsMessages ls ∧
      (t.splitOnP isEol).any isErrorLine = false := by
  obtain ⟨shown, tail, htext, hshown, htail⟩ := h
  have heol : ∀ l ∈ shown ++ tail, ∀ c ∈ l, isEol c = false := by
    intro l hl
    rcases mem_append.mp hl with hl | hl
    · exact shown_not_eol hshown hls l hl
    · exact not_eol_of_prompt (htail l hl)
  obtain ⟨-, hlines, herr⟩ := lines_shown hshown hls htail
  have hfilter := filter_isGap_splitOnP htext heol
  constructor
  · rw [udsMessages, ← lines_filter, hfilter, lines_filter, hlines]
    rfl
  · rw [← any_isErrorLine_filter, hfilter, any_isErrorLine_filter, herr]

/-! ## One printed line -/

theorem hexBytes_tokens (bs : List UInt8) :
    ∀ tok ∈ bs.map hexByte, tok ≠ [] ∧ ∀ c ∈ tok, c.isHexDigit = true := by
  intro tok htok
  obtain ⟨b, -, rfl⟩ := mem_map.mp htok
  exact ⟨(hexWord_token (by decide)).1, fun c hc => isHexDigit_of_mem_hexWord hc⟩

theorem printed_printPlain (hne : bs ≠ []) (hlen : bs.length ≤ 8) : Printed (printPlain bs) := by
  have hwidth : ∀ tok ∈ bs.map hexByte, tok.length ≤ 2 := by
    intro tok htok
    obtain ⟨b, -, rfl⟩ := mem_map.mp htok
    rw [hexByte, length_hexWord]
  apply printed_of_tokens (by simpa using hne) (hexBytes_tokens bs)
  have := length_printTokens_le hwidth
  rw [length_map] at this
  simp only [apLineMax]
  omega

theorem printed_printLength (n : ℕ) : Printed (printLength n) := by
  apply printed_of_tokens (by simp)
  · intro tok htok
    rw [mem_singleton.mp htok]
    exact ⟨(hexWord_token (by decide)).1, fun c hc => isHexDigit_of_mem_hexWord hc⟩
  · simp [printTokens, length_hexWord, apLineMax]

theorem not_lineHasIndex_printTokens {toks : List (List Char)}
    (h : ∀ tok ∈ toks, ∀ c ∈ tok, c.isHexDigit = true) :
    lineHasIndex (printTokens toks) = false := by
  rw [lineHasIndex, contains_eq_mem, decide_eq_false_iff_not]
  intro hc
  rcases mem_printTokens hc with hc | ⟨tok, htok, hc⟩
  · cases hc
  · exact absurd (h tok htok ':' hc) (by decide)

theorem not_lineHasIndex_printPlain (bs : List UInt8) : lineHasIndex (printPlain bs) = false :=
  not_lineHasIndex_printTokens fun tok htok => (hexBytes_tokens bs tok htok).2

theorem not_lineHasIndex_printLength (n : ℕ) : lineHasIndex (printLength n) = false := by
  apply not_lineHasIndex_printTokens
  intro tok htok c hc
  rw [mem_singleton.mp htok] at hc
  exact isHexDigit_of_mem_hexWord hc

theorem hexBytes_filter_map (bs : List UInt8) :
    (((bs.map hexByte).filter fun run => run.length == 2).map
      fun run => UInt8.ofNat (hexNum run)) = bs := by
  have hall : ∀ run ∈ bs.map hexByte, (run.length == 2) = true := by
    intro run hrun
    obtain ⟨b, -, rfl⟩ := mem_map.mp hrun
    rfl
  rw [filter_eq_self.mpr hall]
  simp [Function.comp_def, toNat_ofNat_hexByte]

theorem splitOnP_hexBytes (hne : bs ≠ []) :
    (printTokens (bs.map hexByte)).splitOnP (fun c => !c.isHexDigit) = bs.map hexByte := by
  apply splitOnP_printTokens rfl (by simpa using hne)
  intro tok htok c hc
  simp [(hexBytes_tokens bs tok htok).2 c hc]

theorem lineBytes_printPlain (hne : bs ≠ []) : lineBytes (printPlain bs) = bs := by
  rw [lineBytes, afterIndex, if_neg (by simp [not_lineHasIndex_printPlain]), printPlain,
    splitOnP_hexBytes hne, hexBytes_filter_map]

theorem splitOnP_hexWord (w n : ℕ) :
    (hexWord w n).splitOnP (fun c => !c.isHexDigit) = [hexWord w n] := by
  apply splitOnP_eq_singleton
  intro c hc
  simp [isHexDigit_of_mem_hexWord hc]

theorem printLength_eq (n : ℕ) : printLength n = hexWord 3 n := by simp [printLength, printTokens]

theorem lineBytes_printLength (n : ℕ) : lineBytes (printLength n) = [] := by
  rw [lineBytes, afterIndex, if_neg (by simp [not_lineHasIndex_printLength]), printLength_eq,
    splitOnP_hexWord]
  simp

theorem lengthLineValue_printLength (hn : n < 4096) : lengthLineValue (printLength n) = n := by
  rw [printLength_eq, lengthLineValue, if_neg, hexNum_hexWord,
    Nat.mod_eq_of_lt (show n < 16 ^ 3 from hn)]
  rintro (hnil | hlen | hhex)
  · have := length_hexWord 3 n
    rw [hnil] at this
    cases this
  · rw [length_hexWord] at hlen
    omega
  · exact hhex (all_eq_true.mpr fun c hc => isHexDigit_of_mem_hexWord hc)

theorem printRow_eq (index : ℕ) (hne : bs ≠ []) :
    printRow index bs = hexWord 1 index ++ ':' :: ' ' :: printTokens (bs.map hexByte) := by
  obtain ⟨b, bs, rfl⟩ := exists_cons_of_ne_nil hne
  rfl

theorem lineHasIndex_printRow (index : ℕ) (hne : bs ≠ []) :
    lineHasIndex (printRow index bs) = true := by
  rw [printRow_eq index hne]
  simp [lineHasIndex]

theorem lineBytes_printRow (index : ℕ) (hne : bs ≠ []) : lineBytes (printRow index bs) = bs := by
  have hdrop : (printRow index bs).dropWhile (· != ':') =
      ':' :: ' ' :: printTokens (bs.map hexByte) := by
    rw [printRow_eq index hne, dropWhile_append_of_pos]
    · rfl
    · intro c hc
      have := ne_of_isHexDigit (d := ':') (isHexDigit_of_mem_hexWord hc) rfl
      simpa using this
  have hsplit : (' ' :: printTokens (bs.map hexByte)).splitOnP (fun c => !c.isHexDigit) =
      [] :: bs.map hexByte := by
    have hnil : ∀ c ∈ ([] : List Char), (!c.isHexDigit) = false := by simp
    have := splitOnP_append_cons_of_forall_mem hnil ' ' rfl (printTokens (bs.map hexByte))
    rw [nil_append] at this
    rw [this, splitOnP_hexBytes hne]
  rw [lineBytes, afterIndex, if_pos (lineHasIndex_printRow index hne), hdrop, drop_one,
    tail_cons, hsplit, filter_cons_of_neg (by simp), hexBytes_filter_map]

/-! ## The messages printed -/

theorem UdsRead.line_row (done : List UdsMsg) (total : ℕ) (m : List UInt8) {index : ℕ}
    (hp : Printed (printRow index bs)) (hne : bs ≠ []) (b : Bool) :
    UdsRead.line ⟨done, some (total, m)⟩ (printRow index bs) b = ⟨done, some (total, m ++ bs)⟩ := by
  simp only [UdsRead.line, hp.udsTrim_eq, hp.ne_nil, lineHasIndex_printRow index hne,
    lineBytes_printRow index hne, Option.getD_some, if_true, if_false]

theorem UdsRead.lines_rows (done : List UdsMsg) (total : ℕ) (rows : List (List UInt8)) (index : ℕ)
    (m : List UInt8) (hrows : (∀ row ∈ rows, row ≠ [] ∧ row.length ≤ 8)) :
    UdsRead.lines ⟨done, some (total, m)⟩ (printRows index rows) =
      ⟨done, some (total, m ++ rows.flatten)⟩ := by
  induction rows generalizing index m with
  | nil => simp [printRows, UdsRead.lines]
  | cons row rows ih =>
    obtain ⟨hne, hlen⟩ := hrows row mem_cons_self
    rw [printRows, UdsRead.lines, line_row done total m (printed_printRow hne hlen) hne,
      ih _ _ fun row' hrow' => hrows row' (mem_cons_of_mem _ hrow'), flatten_cons,
      append_assoc]

theorem UdsRead.line_single (done : List UdsMsg) (hp : Printed l) (hidx : lineHasIndex l = false) :
    UdsRead.line ⟨done, none⟩ l false = ⟨done ++ [.single (lineBytes l)], none⟩ := by
  simp only [UdsRead.line, hp.udsTrim_eq, hp.ne_nil, hidx, if_false, false_eq_true]
  rfl

theorem UdsRead.line_length (done : List UdsMsg) (hn : n < 4096) :
    UdsRead.line ⟨done, none⟩ (printLength n) true = ⟨done, some (n, [])⟩ := by
  have hp := printed_printLength n
  simp only [UdsRead.line, hp.udsTrim_eq, hp.ne_nil, not_lineHasIndex_printLength,
    lengthLineValue_printLength hn, if_true, if_false, false_eq_true]
  rfl

theorem nextIndexed_printed (hp : Printed l) (ls : List (List Char)) :
    nextIndexed (l :: ls) = lineHasIndex l := by
  have hgap : isGap l = false := by simpa using hp.not_isGap []
  rw [nextIndexed, hgap]
  rfl

theorem printed_pendingLine (sid : UInt8) : Printed (printPlain [0x7F, sid, 0x78]) :=
  printed_printPlain (by simp) (by simp)

theorem UdsRead.lines_pending (sids : List UInt8) (hls : nextIndexed ls = false) :
    ∀ done : List UdsMsg, UdsRead.lines ⟨done, none⟩ (printPending sids ++ ls) =
      UdsRead.lines ⟨done ++ sids.map fun sid => .single [0x7F, sid, 0x78], none⟩ ls := by
  induction sids with
  | nil => intro done; simp [printPending]
  | cons sid sids ih =>
    intro done
    have hnext : nextIndexed (printPending sids ++ ls) = false := by
      cases sids with
      | nil => exact hls
      | cons sid' sids =>
        rw [printPending, map_cons, cons_append,
          nextIndexed_printed (printed_pendingLine sid'), not_lineHasIndex_printPlain]
    rw [printPending, map_cons, cons_append, UdsRead.lines, ← printPending, hnext,
      line_single done (printed_pendingLine sid) (not_lineHasIndex_printPlain _),
      lineBytes_printPlain (by simp), ih, append_assoc]
    rfl

/-- What the pending lines say. -/
def pendingMsgs (sids : List UInt8) : List UdsMsg :=
  sids.map fun sid => .single [0x7F, sid, 0x78]

theorem udsMessages_short (sids : List UInt8) (hne : payload ≠ []) (hlen : payload.length ≤ 7) :
    udsMessages (printPending sids ++ [printPlain payload]) =
      pendingMsgs sids ++ [.single payload] := by
  have hp := printed_printPlain hne (by omega)
  have hnext : nextIndexed [printPlain payload] = false := by
    rw [nextIndexed_printed hp, not_lineHasIndex_printPlain]
  rw [udsMessages, lines_pending sids hnext, UdsRead.lines, nextIndexed,
    line_single _ hp (not_lineHasIndex_printPlain _), lineBytes_printPlain hne]
  simp [UdsRead.lines, UdsRead.close, pendingMsgs]

theorem udsMessages_long (sids : List UInt8) (hn : n < 4096)
    (hrows : ∀ row ∈ rows, row ≠ [] ∧ row.length ≤ 8) :
    udsMessages (printPending sids ++ printLength n :: printRows 0 rows) =
      pendingMsgs sids ++ [if rows = [] then .single [] else .rows n rows.flatten] := by
  have hp := printed_printLength n
  have hnext : nextIndexed (printLength n :: printRows 0 rows) = false := by
    rw [nextIndexed_printed hp, not_lineHasIndex_printLength]
  rw [udsMessages, lines_pending sids hnext, UdsRead.lines]
  cases rows with
  | nil =>
    rw [printRows, nextIndexed,
      line_single _ hp (not_lineHasIndex_printLength _), lineBytes_printLength]
    simp [UdsRead.lines, UdsRead.close, pendingMsgs]
  | cons row rows =>
    obtain ⟨hne, hlen⟩ := hrows row mem_cons_self
    have hidx : nextIndexed (printRows 0 (row :: rows)) = true := by
      rw [printRows, nextIndexed_printed (printed_printRow hne hlen), lineHasIndex_printRow _ hne]
    rw [hidx, line_length _ hn, lines_rows _ _ _ _ _ hrows]
    simp [UdsRead.close, pendingMsgs]

/-! ## The round trip -/

theorem pendingMsgs_fits (cap : ℕ) (sids : List UInt8) :
    (pendingMsgs sids).any (fun m => !m.fits cap) = false := by
  rw [any_eq_false]
  intro m hm
  obtain ⟨sid, -, rfl⟩ := mem_map.mp hm
  simp [UdsMsg.fits, isPending]

theorem countP_pendingMsgs (sids : List UInt8) :
    (pendingMsgs sids).countP UdsMsg.waits = sids.length := by
  rw [countP_eq_length.mpr, pendingMsgs, length_map]
  intro m hm
  obtain ⟨sid, -, rfl⟩ := mem_map.mp hm
  rfl

theorem udsAnswer_pendingMsgs (sids : List UInt8) : udsAnswer (pendingMsgs sids) = none := by
  have hnone : (pendingMsgs sids).filter UdsMsg.counts = [] := by
    rw [filter_eq_nil_iff]
    intro m hm
    obtain ⟨sid, -, rfl⟩ := mem_map.mp hm
    simp [UdsMsg.counts, isPending]
  rw [udsAnswer, hnone]
  rfl

theorem parse_pending_then (ht : ChipText ls t) (hls : ∀ l ∈ ls, Printed l) {m : UdsMsg}
    (hmsgs : udsMessages ls = pendingMsgs sids ++ [m]) (hwaits : m.waits = false) (cap : ℕ) :
    udsAtParseResponseLen t cap = if m.fits cap = false then ⟨false, [], 0, 0⟩
      else if m.counts && !m.answer.1.isEmpty then
        ⟨true, m.answer.1, min 255 sids.length, m.answer.2⟩
      else ⟨false, [], min 255 sids.length, 0⟩ := by
  obtain ⟨hread, herr⟩ := ht.messages hls
  have href : udsRefused cap (t.splitOnP isEol) = !m.fits cap := by
    rw [udsRefused, herr, hread, hmsgs, any_append, pendingMsgs_fits]
    simp
  have hcount : (pendingMsgs sids ++ [m]).countP UdsMsg.waits = sids.length := by
    rw [countP_append, countP_pendingMsgs]
    simp [hwaits]
  rw [udsAtParseResponseLen_eq]
  simp only [href, hread, hmsgs, udsAnswer_concat, udsAnswer_pendingMsgs, hcount]
  cases m.fits cap with
  | false => simp
  | true =>
    cases m.counts with
    | false => simp
    | true =>
      by_cases hempty : m.answer.1 = []
      · simp [Option.filter, hempty]
      · simp [Option.filter, hempty]

theorem UdsRows.bounded (h : UdsRows payload rows) : ∀ row ∈ rows, row ≠ [] ∧ row.length ≤ 8 := by
  obtain ⟨first, rest, pad, rfl, hfirst, hrest, -, -⟩ := h
  intro row hrow
  have hlen : row.length = 6 ∨ row.length = 7 := by
    rcases mem_cons.mp hrow with rfl | hrow
    · exact .inl hfirst
    · exact .inr (hrest row hrow)
  refine ⟨?_, by omega⟩
  rintro rfl
  rw [length_nil] at hlen
  omega

theorem UdsRows.length_flatten (h : UdsRows payload rows) :
    rows.flatten.length = 6 + 7 * (payload.length / 7) := by
  obtain ⟨first, rest, pad, rfl, hfirst, hrest, hpad, hlt⟩ := h
  have hsum : ∀ {xs : List (List UInt8)}, (∀ row ∈ xs, row.length = 7) →
      xs.flatten.length = 7 * xs.length := by
    intro xs hxs
    induction xs with
    | nil => rfl
    | cons x xs ih =>
      rw [flatten_cons, length_append, hxs x mem_cons_self,
        ih fun y hy => hxs y (mem_cons_of_mem _ hy), length_cons]
      omega
  have htotal := congrArg List.length hpad
  rw [flatten_cons, length_append, hsum hrest, length_append] at htotal
  rw [flatten_cons, length_append, hsum hrest]
  omega

theorem printed_printPending (sids : List UInt8) : ∀ l ∈ printPending sids, Printed l := by
  intro l hl
  obtain ⟨sid, -, rfl⟩ := mem_map.mp hl
  exact printed_pendingLine sid

theorem printed_printRows (hrows : ∀ row ∈ rows, row ≠ [] ∧ row.length ≤ 8) :
    ∀ index, ∀ l ∈ printRows index rows, Printed l := by
  induction rows with
  | nil => intro index l hl; cases hl
  | cons row rows ih =>
    intro index l hl
    obtain ⟨hne, hlen⟩ := hrows row mem_cons_self
    rcases mem_cons.mp hl with rfl | hl
    · exact printed_printRow hne hlen
    · exact ih (fun r hr => hrows r (mem_cons_of_mem _ hr)) _ l hl

theorem parse_long (hn : n < 4096) (hpos : 0 < n) (hrows : ∀ row ∈ rows, row ≠ [] ∧ row.length ≤ 8)
    (ht : ChipText (printPending sids ++ printLength n :: printRows 0 rows) t) (cap : ℕ) :
    udsAtParseResponseLen t cap = if cap < rows.flatten.length then ⟨false, [], 0, 0⟩
      else if rows = [] then ⟨false, [], min 255 sids.length, 0⟩
      else ⟨true, rows.flatten.take n, min 255 sids.length, n⟩ := by
  have hls : ∀ l ∈ printPending sids ++ printLength n :: printRows 0 rows, Printed l := by
    intro l hl
    rcases mem_append.mp hl with hl | hl
    · exact printed_printPending sids l hl
    · rcases mem_cons.mp hl with rfl | hl
      · exact printed_printLength n
      · exact printed_printRows hrows 0 l hl
  have hmsgs := udsMessages_long sids hn hrows
  by_cases hnil : rows = []
  · rw [if_pos hnil] at hmsgs
    rw [parse_pending_then ht hls hmsgs rfl, hnil]
    simp [UdsMsg.fits, UdsMsg.counts]
  · obtain ⟨row, rest, rfl⟩ := exists_cons_of_ne_nil hnil
    have hne : row ≠ [] := (hrows row mem_cons_self).1
    rw [parse_pending_then ht hls hmsgs rfl]
    simp [UdsMsg.fits, UdsMsg.counts, UdsMsg.answer, hpos, hne, Nat.ne_of_gt hpos]

/-- The capacity at which the rows of an answer fit with their padding. -/
def PaddedFits (n cap : ℕ) : Prop := n ≤ 7 ∨ 6 + 7 * (n / 7) ≤ cap

/-- **An answer the chip prints** comes back whole exactly when the buffer holds the
rows with their padding, and one that was cut never passes for the whole. -/
theorem uds_answer_round_trip (payload : List UInt8) (rows : List (List UInt8)) (sids : List UInt8)
    (cap : ℕ) (hpos : 1 ≤ payload.length) (hmax : payload.length ≤ 4095)
    (hp : ¬ResponsePending payload) (hrows : 7 < payload.length → UdsRows payload rows)
    (hcap : payload.length ≤ cap) :
    (∀ t, ChipText (printPending sids ++ printUds payload rows) t → (udsAtParseResponseLen t cap =
          ⟨true, payload, min 255 sids.length, if payload.length ≤ 7 then 0 else payload.length⟩ ↔
        PaddedFits payload.length cap)) ∧
      (7 < payload.length → ∀ r t, (rows.take r).flatten.length < payload.length →
        ChipText (printPending sids ++ printLength payload.length :: printRows 0 (rows.take r)) t →
        ((udsAtParseResponseLen t cap).ok = false ∨
            (udsAtParseResponseLen t cap).out.length < (udsAtParseResponseLen t cap).announced) ∧
          udsAtParseResponseEx t cap = none) := by
  constructor
  · intro t ht
    by_cases hshort : payload.length ≤ 7
    · have hne : payload ≠ [] := ne_nil_of_length_pos hpos
      have hnp : isPending payload = false := by
        rw [eq_false_iff]
        intro hpend
        unfold isPending at hpend
        split at hpend
        · simp only [and_eq_true, beq_iff_eq] at hpend
          exact hp ⟨_, by rw [hpend.1, hpend.2]⟩
        · cases hpend
      rw [printUds, if_pos hshort] at ht
      have hls : ∀ l ∈ printPending sids ++ [printPlain payload], Printed l := by
        intro l hl
        rcases mem_append.mp hl with hl | hl
        · exact printed_printPending sids l hl
        · rw [mem_singleton.mp hl]
          exact printed_printPlain hne (by omega)
      have hparse := parse_pending_then ht hls (udsMessages_short sids hne hshort) hnp cap
      have h8 : payload.length ≤ 8 := by omega
      rw [hparse]
      simp [UdsMsg.fits, UdsMsg.counts, UdsMsg.answer, hnp, hne, hcap, h8, PaddedFits, hshort]
    · have hlong : 7 < payload.length := Nat.not_le.mp hshort
      have hr := hrows hlong
      have hfull := hr.length_flatten
      rw [printUds, if_neg hshort] at ht
      rw [parse_long (by omega) hpos hr.bounded ht cap, hfull, if_neg hshort]
      by_cases hover : cap < 6 + 7 * (payload.length / 7)
      · rw [if_pos hover]
        constructor
        · intro h
          cases h
        · rintro (h | h) <;> omega
      · obtain ⟨first, rest, pad, rfl, -, -, hflat, -⟩ := hr
        rw [if_neg hover, hflat, take_left]
        exact ⟨fun _ => .inr (Nat.not_lt.mp hover), fun _ => rfl⟩
  · intro hlong r t hcut ht
    have hbound : ∀ row ∈ rows.take r, row ≠ [] ∧ row.length ≤ 8 :=
      fun row hrow => (hrows hlong).bounded row (mem_of_mem_take hrow)
    have hparse := parse_long (by omega) hpos hbound ht cap
    by_cases hover : cap < (rows.take r).flatten.length
    · rw [if_pos hover] at hparse
      simp [udsAtParseResponseEx, hparse]
    rw [if_neg hover] at hparse
    by_cases hnil : rows.take r = []
    · rw [if_pos hnil] at hparse
      simp [udsAtParseResponseEx, hparse]
    · rw [if_neg hnil, take_of_length_le (le_of_lt hcut)] at hparse
      have hless : ¬payload.length ≤ (rows.take r).flatten.length := Nat.not_le.mpr hcut
      rw [udsAtParseResponseEx, hparse]
      exact ⟨.inr hcut, if_neg fun h => hless h.2⟩

/-- An answer of eight bytes, in two rows. -/
def eightBytes : List UInt8 := [0x62, 0xF1, 0x90, 1, 2, 3, 4, 5]

/-- Its rows, with five bytes of padding. -/
def eightRows : List (List UInt8) := [[0x62, 0xF1, 0x90, 1, 2, 3], [4, 5, 0xAA, 0xAA, 0xAA, 0xAA, 0xAA]]

theorem eightRows_rows : UdsRows eightBytes eightRows :=
  ⟨_, _, [0xAA, 0xAA, 0xAA, 0xAA, 0xAA], rfl, rfl, by simp, rfl, by simp⟩

theorem uds_answer_round_trip_eight :
    ChipText (printPending [0x22] ++ printUds eightBytes eightRows)
        (printText (printPending [0x22] ++ printUds eightBytes eightRows)) ∧
      udsAtParseResponseLen (printText (printPending [0x22] ++ printUds eightBytes eightRows)) 13 =
        ⟨true, eightBytes, 1, 8⟩ := by
  have hnot : ¬ResponsePending eightBytes := by
    rintro ⟨sid, h⟩
    cases h
  have hround := uds_answer_round_trip eightBytes eightRows [0x22] 13 (by decide) (by decide) hnot
    (fun _ => eightRows_rows) (by decide)
  have htext := chipText_printText (printPending [0x22] ++ printUds eightBytes eightRows)
  exact ⟨htext, (hround.1 _ htext).mpr (.inr (by decide))⟩

/-- A buffer of eight bytes is too small for an answer of eight. -/
theorem eight_bytes_refused :
    7 < eightBytes.length ∧ UdsRows eightBytes eightRows ∧
      ChipText (printUds eightBytes eightRows) (printText (printUds eightBytes eightRows)) ∧
      udsAtParseResponseLen (printText (printUds eightBytes eightRows)) eightBytes.length ≠
        ⟨true, eightBytes, 0, eightBytes.length⟩ :=
  ⟨by decide, eightRows_rows, chipText_printText _, by decide +kernel⟩

end Meatpi
