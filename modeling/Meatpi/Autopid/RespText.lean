import Mathlib.Data.List.Forall2
import Meatpi.Autopid.RespPrint

/-!
# A reply text, collected

A reply text is the chip's lines with fillers anywhere between them
(`ReplyText`). When every line reads as a line of data (`ReadsAs`), what
`ap_resp_collect_lines` gathers is those lines in order, the pending ones
dropped, until the table is full.
-/

namespace Meatpi

open List

variable {lines : List ApLine} {resp : List Char}

variable {line : ApLine} {hint : Id29Hint} {ls : List (List Char)} {l : List Char}

/-- What a line of text reads as, when it is data. -/
def readLine (hint : Id29Hint) (l : List Char) : Option ApLine :=
  let buf := trimLine l
  if buf = [] ∨ lineIsError buf ∨ lineIsNoise buf then none
  else (parseLine buf).map fun parsed => takeEa (takeId29 hint parsed)

/-- The text line `l` reads as `line`. -/
structure ReadsAs (hint : Id29Hint) (l : List Char) (line : ApLine) : Prop where
  not_eol : ∀ c ∈ l, isEol c = false
  read : readLine hint l = some line

theorem Printed.readsAs (h : Printed l) {parsed : ApLine}
    (hp : parseLine l = some parsed) : ReadsAs hint l (takeEa (takeId29 hint parsed)) where
  not_eol := h.not_eol
  read := by simp [readLine, h.trimLine_eq, h.ne_nil, h.not_error, h.not_noise, hp]

theorem readsAs_printFrame (hint : Id29Hint) (r : Responder) {f : List UInt8} (hf : IsoTp.Frame f) :
    ReadsAs hint (printFrame r f) (frameLine r f) := by
  obtain ⟨parsed, hp, hline⟩ := parse_printFrame hint r hf
  rw [← hline]
  exact (printed_printFrame r hf.le_eight).readsAs hp

theorem ReadsAs.parse (h : ReadsAs hint l line) :
    trimLine l ≠ [] ∧ lineIsError (trimLine l) = false ∧ lineIsNoise (trimLine l) = false ∧
      ∃ parsed, parseLine (trimLine l) = some parsed ∧ takeEa (takeId29 hint parsed) = line := by
  have hread := h.read
  simp only [readLine] at hread
  split_ifs at hread with hskip
  rw [not_or, not_or, Bool.not_eq_true, Bool.not_eq_true] at hskip
  exact ⟨hskip.1, hskip.2.1, hskip.2.2, Option.map_eq_some_iff.mp hread⟩

theorem ReadsAs.collectLine_eq (h : ReadsAs hint l line) {max : ℕ} {acc : Collected}
    (hmax : acc.lines.length < max) :
    collectLine hint max acc l = if line.isBare then { acc with isoTotal := line.bareValue }
      else if lineIsPending line then acc
      else { acc with lines := acc.lines ++ [line] } := by
  obtain ⟨hne, herr, hnoise, parsed, hp, rfl⟩ := h.parse
  simp only [collectLine, hne, herr, hnoise, hp, Nat.not_le.mpr hmax, if_false,
    Bool.false_eq_true, keepParsed]

theorem ReadsAs.not_isFiller (h : ReadsAs hint l line) : isFiller l = false := by
  rw [Bool.eq_false_iff]
  intro hf
  simp only [isFiller, Bool.or_eq_true, all_eq_true] at hf
  obtain ⟨hne, -, hnoise, -⟩ := h.parse
  rcases hf with hf | hf
  · exact hne (trimLine_blank hf)
  · obtain ⟨cs, rfl⟩ := isPrefixOf_iff_prefix.mp hf
    obtain ⟨ds, hds⟩ := trimLine_searching cs
    rw [hds] at hnoise
    cases hnoise

/-- The reply text of the lines `ls`, with fillers anywhere between them. -/
def ReplyText (ls : List (List Char)) (resp : List Char) : Prop :=
  ∃ all, IsText isEol all resp ∧ all.filter (!isFiller ·) = ls ∧
    ∀ l ∈ all, isFiller l = true → ∀ c ∈ l, isEol c = false

theorem ReplyText.collect_eq_foldl (h : ReplyText ls resp)
    (hls : ∀ l ∈ ls, ∀ c ∈ l, isEol c = false) (hint : Id29Hint) (max : ℕ) :
    apRespCollectLines hint resp max = ls.foldl (collectLine hint max) Collected.init := by
  obtain ⟨all, htext, rfl, hfill⟩ := h
  have heol : ∀ l ∈ all, ∀ c ∈ l, isEol c = false := by
    intro l hl
    by_cases hf : isFiller l = true
    · exact hfill l hl hf
    · exact hls l (mem_filter.mpr ⟨hl, by simpa using hf⟩)
  have hskip : ∀ acc : Collected, collectLine hint max acc [] = acc :=
    fun acc => collectLine_filler hint max acc rfl
  rw [apRespCollectLines, htext.foldl_splitOnP hskip heol, foldl_filter]
  apply foldl_ext
  intro acc l _
  by_cases hf : isFiller l = true
  · simp [hf, collectLine_filler hint max acc hf]
  · simp [hf]

theorem foldl_collectLine_reads (max : ℕ) (h : List.Forall₂ (ReadsAs hint) ls lines)
    (hbare : ∀ line ∈ lines, line.isBare = false) :
    ∀ acc : Collected, acc.lines.length ≤ max → ls.foldl (collectLine hint max) acc = { acc with
          lines := acc.lines ++
            (lines.filter (!lineIsPending ·)).take (max - acc.lines.length) } := by
  induction h with
  | nil => intro acc _; simp
  | @cons l line ls lines hl _ ih =>
    intro acc hacc
    have ih' := ih fun g hg => hbare g (mem_cons_of_mem _ hg)
    rw [foldl_cons]
    rcases Nat.lt_or_ge acc.lines.length max with hlt | hge
    · rw [hl.collectLine_eq hlt, hbare line mem_cons_self]
      rcases hp : lineIsPending line with _ | _
      · have hroom : max - acc.lines.length = (max - (acc.lines.length + 1)) + 1 := by omega
        rw [filter_cons_of_pos (by simp [hp]), if_neg (by simp), if_neg (by simp),
          ih' _ (by rw [length_append, length_singleton]; omega)]
        simp only [length_append, length_singleton]
        rw [hroom, take_succ_cons, append_assoc, singleton_append]
      · rw [filter_cons_of_neg (by simp [hp]), if_neg (by simp), if_pos rfl, ih' acc hacc]
    · have hfull : collectLine hint max acc l = acc := by simp [collectLine, hge]
      rw [hfull, ih' acc hacc, Nat.sub_eq_zero_of_le hge, take_zero, take_zero]

/-- **Collecting a reply**: the first `max` lines that are not pending answers. -/
theorem ReplyText.collect (h : ReplyText ls resp) (hreads : List.Forall₂ (ReadsAs hint) ls lines)
    (hbare : ∀ line ∈ lines, line.isBare = false) (max : ℕ) :
    apRespCollectLines hint resp max = ⟨(lines.filter (!lineIsPending ·)).take max, false, -1⟩ := by
  have heol : ∀ l ∈ ls, ∀ c ∈ l, isEol c = false := by
    have hboth : List.Forall₂ (fun l line => (∀ c ∈ l, isEol c = false) ∧ ReadsAs hint l line)
        ls lines := hreads.imp fun _ _ h => ⟨h.not_eol, h⟩
    exact ((forall₂_and_left _ _).mp hboth).1
  rw [h.collect_eq_foldl heol, foldl_collectLine_reads max hreads hbare _ (Nat.zero_le _)]
  simp [Collected.init]

theorem replyText_lines (hls : ∀ l ∈ ls, isFiller l = false) :
    ReplyText ls ("SEARCHING...\r\n".toList ++ ls.flatMap (· ++ ['\r', '\n']) ++ ['>']) := by
  have hnl : ∀ d ∈ ['\n'], isEol d = true := all_eq_true.mp rfl
  have hrest : IsText isEol (ls ++ [['>']]) (ls.flatMap (· ++ ['\r', '\n']) ++ ['>']) := by
    clear hls
    induction ls with
    | nil => exact .last ['>']
    | cons l ls ih => simpa using IsText.cons l '\r' ['\n'] rfl hnl ih
  refine ⟨_, IsText.cons "SEARCHING...".toList '\r' ['\n'] rfl hnl hrest, ?_, ?_⟩
  · have hkeep := filter_eq_self.mpr fun l hl => congrArg Bool.not (hls l hl)
    rw [filter_cons_of_neg (by decide), filter_append, hkeep]
    simp [isFiller, isTail]
  · have hnone : ∀ {l : List Char}, l.any isEol = false → ∀ d ∈ l, isEol d = false := by
      intro l h d hd
      exact Bool.eq_false_iff.mpr (any_eq_false.mp h d hd)
    intro l hl hfill
    rcases mem_cons.mp hl with rfl | hl
    · exact hnone rfl
    rcases mem_append.mp hl with hl | hl
    · rw [hls l hl] at hfill
      cases hfill
    · rw [mem_singleton.mp hl]
      exact hnone rfl

end Meatpi
