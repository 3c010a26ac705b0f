import Meatpi.Autopid.DbcText

/-!
# Compiled signals and the check

A signal that compiles is accepted by the check when its factor is positive and its
offset a number (`apDbcExpr_accepted`): the check then reports the last byte of the
signal. A negative factor prints as a minus behind `*`, where the grammar has none,
and an offset that is no number prints in letters; both compile and are refused.
-/

namespace Meatpi

open Bool List

variable {g : DbcSeg} {ts : List EpTok} {a b : ℕ} {q : ℚ} {top : ℕ} {r : ℚ}

/-! ## The raw value is an expression -/

theorem compiled_numTok (n : ℕ) : Compiled top 1 0 [numTok n] := .num (isRun_decText n)

theorem compiled_segToks (h : g.byte ≤ top) : Compiled top 3 2 (segToks g) := by
  have hbyte : Compiled top 1 0 [byteTok g.byte] := .byte h
  unfold segToks
  split_ifs
  · exact hbyte.mono (by decide) (by decide)
  · exact (hbyte.bin .shr (compiled_numTok _)).mono (by decide) (by decide)
  · exact (hbyte.bin .band (compiled_numTok _)).mono (by decide) (by decide)
  · exact (hbyte.bin .shr (compiled_numTok _)).bin .band (compiled_numTok _)

theorem compiled_pieceToks (n : ℕ) (h : g.byte ≤ top) : Compiled top 4 4 (pieceToks n g) := by
  have hseg := compiled_segToks h
  unfold pieceToks
  dsimp only
  split_ifs
  · exact hseg.paren.bin .mul (compiled_numTok _)
  · exact (hseg.bin .mul (compiled_numTok _)).mono (by decide) (by decide)
  · exact hseg.paren.mono (by decide) (by decide)
  · exact hseg.mono (by decide) (by decide)

/-- **A sum** takes so much more for each segment. -/
theorem compiled_sum (n : ℕ) {segs : List DbcSeg} (h : Compiled top a b ts)
    (hbytes : (∀ g ∈ segs, g.byte ≤ top)) :
    Compiled top (a + 4 * segs.length) (b + 5 * segs.length)
      (ts ++ segs.flatMap fun g => .op .add :: pieceToks n g) := by
  induction segs generalizing ts a b with
  | nil =>
    rw [flatMap_nil, append_nil]
    exact h
  | cons g segs ih =>
    have hpiece := h.bin .add (compiled_pieceToks n (hbytes g mem_cons_self))
    have hrest := ih hpiece fun g' hg' => hbytes g' (mem_cons_of_mem _ hg')
    rw [flatMap_cons, ← append_assoc]
    refine hrest.mono ?_ ?_
    · show a + 0 + 4 + 4 * segs.length ≤ _
      rw [length_cons]
      omega
    · rw [length_cons]
      omega

theorem compiled_signToks (s : ApDbcSig) (h : topByte s ≤ top) : Compiled top 4 4 (signToks s) := by
  have hbyte : Compiled top 1 0 [byteTok (msbOf s).1] := .byte ((msbOf_le s).1.trans h)
  rw [signToks]
  split_ifs
  · have hbit := (hbyte.bin .shr (compiled_numTok 7)).paren.bin .mul (compiled_numTok (2 ^ s.len))
    exact hbit.mono (by decide) (by decide)
  · have hbit := (hbyte.bin .shr (compiled_numTok (msbOf s).2)).bin .band (compiled_numTok 1)
    exact hbit.paren.bin .mul (compiled_numTok (2 ^ s.len))

theorem span_top {s : ApDbcSig} (h : spanOk s = true) :
    topByte s = s.start / 8 + s.len / 8 - 1 ∧ 1 ≤ s.len / 8 := by
  have hpos := s.len_pos
  rw [spanOk, and_eq_true, and_eq_true, and_eq_true, decide_eq_true_iff, decide_eq_true_iff] at h
  obtain ⟨⟨⟨hintel, hstart⟩, hlen⟩, -⟩ := h
  have hintel : s.intel = false := by simpa using hintel
  rw [topByte, runLast, runFirst, hintel, if_neg Bool.false_ne_true]
  omega

theorem compiled_spanTok {s : ApDbcSig} (h : spanOk s = true) :
    Compiled (topByte s) 1 0 [spanTok s] := by
  obtain ⟨htop, hlen⟩ := span_top h
  have hlt := topByte_lt s
  have hmax := s.len_le
  rw [spanTok]
  split_ifs
  · exact .atom trivial (by simp [refIndexes]; omega) rfl
  · exact .atom trivial (by simp [refIndexes]; omega) rfl
  · have hmod : ∀ k ≤ topByte s, k % sizeMod = k := fun k hk =>
      Nat.mod_eq_of_lt (lt_of_le_of_lt hk (hlt.trans (by decide)))
    refine .atom trivial (by simp [refIndexes]; omega) ?_
    rw [rangeFits, hmod _ (by omega), hmod _ (by omega)]
    have hend : topByte s ≠ sizeMod - 1 := by
      rw [sizeMod]
      omega
    rw [← htop]
    simp only [and_eq_true, decide_eq_true_iff]
    exact ⟨⟨by omega, by omega⟩, hend⟩

theorem mem_segToks (g : DbcSeg) : byteTok g.byte ∈ segToks g := by
  unfold segToks
  split_ifs <;> exact mem_cons_self

theorem mem_pieceToks (n : ℕ) (g : DbcSeg) : byteTok g.byte ∈ pieceToks n g := by
  have hmem := mem_segToks g
  unfold pieceToks
  dsimp only
  split_ifs <;> simp [hmem]

/-- **The raw value** is an expression, and its last byte is the signal's. -/
theorem compiled_rawToks (s : ApDbcSig) :
    Compiled (topByte s) 41 49 (rawToks s) ∧ ∃ tok ∈ rawToks s, topByte s ∈ refIndexes tok := by
  rw [rawToks]
  cases hspan : spanOk s with
  | true =>
    refine ⟨(compiled_spanTok hspan).mono (by decide) (by decide), _, mem_singleton_self _, ?_⟩
    obtain ⟨htop, hlen⟩ := span_top hspan
    rw [spanTok]
    split_ifs <;> simp [refIndexes] <;> omega
  | false =>
    rw [if_neg Bool.false_ne_true]
    have hbytes : ∀ g ∈ segments s 9, g.byte ≤ topByte s := by
      rw [segments_eq]
      intro g hg
      obtain ⟨i, hi, rfl⟩ := mem_map.1 hg
      exact (segAt_spec s (mem_range.1 hi)).byte_le
    have hlast : ∃ g ∈ segments s 9, g.byte = topByte s := by
      have hpos := runBytes_pos s
      refine ⟨segAt s (runBytes s - 1), ?_, ?_⟩
      · rw [segments_eq]
        exact mem_map_of_mem (mem_range.2 (by omega))
      · show runFirst s / 8 + (runBytes s - 1) = topByte s
        rw [runBytes] at hpos ⊢
        omega
    have hlen : (segments s 9).length ≤ 9 := by
      rw [segments_eq, length_map, length_range]
      exact runBytes_le s
    have hsum : Compiled (topByte s) 36 44 (sumToks (runBytes s) (segments s 9)) := by
      obtain ⟨segs, hsegs⟩ : ∃ segs, segments s 9 = segs := ⟨_, rfl⟩
      rw [hsegs] at hbytes hlast hlen ⊢
      cases segs with
      | nil => obtain ⟨g, hg, -⟩ := hlast; cases hg
      | cons g segs =>
        have h := compiled_sum (runBytes s) (compiled_pieceToks (runBytes s)
          (hbytes g mem_cons_self)) fun g' hg' => hbytes g' (mem_cons_of_mem _ hg')
        rw [length_cons] at hlen
        exact h.mono (by omega) (by omega)
    have hmem : ∃ tok ∈ sumToks (runBytes s) (segments s 9), topByte s ∈ refIndexes tok := by
      obtain ⟨g, hg, htop⟩ := hlast
      refine ⟨byteTok g.byte, ?_, by rw [htop]; exact mem_singleton_self _⟩
      cases hsegs : segments s 9 with
      | nil => rw [hsegs] at hg; cases hg
      | cons g' segs =>
        rw [hsegs] at hg
        rw [sumToks, mem_append, mem_flatMap]
        rcases mem_cons.1 hg with rfl | hg
        · exact .inl (mem_pieceToks _ _)
        · exact .inr ⟨g, hg, mem_cons_of_mem _ (mem_pieceToks _ _)⟩
    split_ifs
    · refine ⟨(hsum.bin .sub (compiled_signToks s (Nat.le_refl _))).mono (by decide) (by decide), ?_⟩
      obtain ⟨tok, htok, htop⟩ := hmem
      exact ⟨tok, mem_append_left _ htok, htop⟩
    · exact ⟨hsum.mono (by decide) (by decide), hmem⟩

/-! ## What is emitted -/

theorem dbcAppend_true {cap : ℕ} {b : DbcBuf} {piece : List Char}
    (h : (dbcAppend cap b piece).2 = true) :
    (dbcAppend cap b piece).1 = ⟨b.text.take b.w ++ piece, b.w + piece.length⟩ := by
  rw [dbcAppend] at h ⊢
  split_ifs at h ⊢
  rfl

theorem apDbcExpr_text {s : ApDbcSig} {outCap : ℕ} {text : List Char}
    (h : apDbcExpr s outCap = .ok text) :
    text = scalePiece s ++ if s.offset ≠ .fin 0 then offsetPiece s else [] := by
  unfold apDbcExpr at h
  dsimp only at h
  split_ifs at h with h1 h2 h3 hscale hoffset hexpr hlong hexpr hlong
  · have hscaled := dbcAppend_true (by simpa using hscale)
    have hwhole := dbcAppend_true (by simpa using hexpr)
    rw [hscaled] at hwhole h
    rw [if_pos hoffset]
    rw [hwhole] at h
    cases h
    simp
  · have hscaled := dbcAppend_true (by simpa using hscale)
    rw [hscaled] at h
    rw [if_neg hoffset]
    cases h
    simp

/-- The raw value in front of a factor. -/
def scaledToks (s : ApDbcSig) : List EpTok :=
  if (dbcRaw s).2 then .lpar :: rawToks s ++ [.rpar] else rawToks s

theorem compiled_scaledToks (s : ApDbcSig) :
    Compiled (topByte s) 41 50 (scaledToks s) ∧
      ∃ tok ∈ scaledToks s, topByte s ∈ refIndexes tok := by
  obtain ⟨hraw, tok, htok, htop⟩ := compiled_rawToks s
  rw [scaledToks]
  split_ifs
  · exact ⟨hraw.paren, tok, mem_append_left _ (mem_cons_of_mem _ htok), htop⟩
  · exact ⟨hraw.mono (Nat.le_refl _) (by decide), tok, htok, htop⟩

theorem scalePiece_eq {s : ApDbcSig} (h : s.factor ≠ .fin 1) :
    scalePiece s = (scaledToks s).flatMap tokText ++ '*' :: fmtNum 32 s.factor := by
  rw [scalePiece, if_pos h, scaledToks, dbcRaw_text]
  split_ifs <;> simp [tokText]

/-- What stands behind the value for an offset, in tokens. -/
def IsOffset (off : List EpTok) : Prop :=
  off = [] ∨ ∃ o run, (o = EpOp.add ∨ o = EpOp.sub) ∧ IsRun run ∧ off = [.op o, .atom (.num run)]

/-- **An offset that is a number** is a plus or a minus and a run. -/
theorem offset_toks {s : ApDbcSig} (h : s.offset = .fin r) :
    ∃ off, (if s.offset ≠ .fin 0 then offsetPiece s else []) = off.flatMap tokText ∧
      IsOffset off := by
  by_cases h0 : s.offset = .fin 0
  · exact ⟨[], by rw [if_neg (not_not_intro h0)]; rfl, .inl rfl⟩
  rw [if_pos h0, offsetPiece, h, CDouble.nonneg, CDouble.neg]
  by_cases hr : 0 ≤ r
  · refine ⟨[.op .add, .atom (.num (fmtNum 32 (.fin r)))], ?_, .inr ⟨.add, _, .inl rfl, ?_, rfl⟩⟩
    · simp [hr, tokText, EpOp.text, EpOp.char]
    · exact fmtNum_nonneg hr
  · refine ⟨[.op .sub, .atom (.num (fmtNum 32 (.fin (-r))))], ?_, .inr ⟨.sub, _, .inr rfl, ?_, rfl⟩⟩
    · simp [hr, tokText, EpOp.text, EpOp.char]
    · exact fmtNum_nonneg (by linarith)

theorem Compiled.offset {off : List EpTok} (h : Compiled top a b ts) (hoff : IsOffset off) :
    Compiled top (a + 2) (b + 1) (ts ++ off) := by
  rcases hoff with rfl | ⟨o, run, ho, hrun, rfl⟩
  · rw [append_nil]
    exact h.mono (by omega) (by omega)
  · refine (h.bin o (.num hrun)).mono ?_ (Nat.le_refl _)
    rcases ho with rfl | rfl
    · exact Nat.add_le_add_left (by decide) _
    · exact Nat.le_refl _

theorem foreign_offset {s : ApDbcSig} (h : ∀ r, s.offset ≠ .fin r) :
    'n' ∈ if s.offset ≠ .fin 0 then offsetPiece s else [] := by
  rw [offsetPiece]
  cases hoff : s.offset with
  | fin r => exact absurd hoff (h r)
  | inf neg => cases neg <;> decide
  | nan => decide

/-! ## Accepted or refused -/

/-- The check accepts the text, and reports the highest byte of the signal. -/
def DbcAccepted {α : Type} (ar : Arith α) (s : ApDbcSig) (text : List Char) : Prop :=
  ∃ top, expressionParserCheck ar text = .ok (some top) ∧
    IsGreatest {k | ∃ i < s.len, sigByte s i = k} top

section Accepted

variable {α : Type} (ar : Arith α) {s : ApDbcSig} {outCap : ℕ} {text : List Char}

/-- **A positive factor** and an offset that is a number: accepted. -/
theorem accepted_of_positive (hfactor : s.factor = .fin q) (hq : 0 < q)
    (hoffset : s.offset = .fin r) (h : apDbcExpr s outCap = .ok text) : DbcAccepted ar s text := by
  obtain ⟨off, hoff, hisOff⟩ := offset_toks hoffset
  have htop : topByte s < sizeMod := (topByte_lt s).trans (by decide)
  refine ⟨topByte s, ?_, isGreatest_topByte s⟩
  rw [apDbcExpr_text h, hoff]
  by_cases hone : s.factor = .fin 1
  · obtain ⟨hraw, tok, htok, hmem⟩ := compiled_rawToks s
    have hall := hraw.offset hisOff
    rw [scalePiece, if_neg (not_not_intro hone), dbcRaw_text, ← flatMap_append]
    exact hall.check ar (by decide) (by decide) htop ⟨tok, mem_append_left _ htok, hmem⟩
  · obtain ⟨hscaled, tok, htok, hmem⟩ := compiled_scaledToks s
    have hrun := fmtNum_nonneg hq.le
    have hall := (hscaled.bin .mul (.num hrun)).offset hisOff
    have htext : scalePiece s ++ off.flatMap tokText =
        (scaledToks s ++ .op .mul :: [.atom (.num (fmtNum 32 (.fin q)))] ++ off : List EpTok).flatMap
          tokText := by
      rw [scalePiece_eq hone, hfactor]
      simp [tokText, EpOp.text, EpOp.char]
    rw [htext]
    refine hall.check ar (by decide) (by decide) htop ⟨tok, ?_, hmem⟩
    exact mem_append_left _ (mem_append_left _ htok)

/-- **A negative factor** puts a minus behind the `*`: refused. -/
theorem refused_of_negative (hfactor : s.factor = .fin q) (hq : q < 0) (hoffset : s.offset = .fin r)
    (h : apDbcExpr s outCap = .ok text) (m : Option ℕ) : expressionParserCheck ar text ≠ .ok m := by
  intro hok
  obtain ⟨off, hoff, hisOff⟩ := offset_toks hoffset
  obtain ⟨run, hrun, hisRun⟩ := fmtNum_neg hq
  obtain ⟨hscaled, -⟩ := compiled_scaledToks s
  have hone : s.factor ≠ .fin 1 := by
    intro hone
    rw [hfactor, CDouble.fin.injEq] at hone
    linarith
  obtain ⟨ts, hts⟩ : ∃ ts : List EpTok, scaledToks s ++ .op .mul :: .op .sub ::
    .atom (.num run) :: off = ts := ⟨_, rfl⟩
  have htext : text = ts.flatMap tokText := by
    rw [apDbcExpr_text h, hoff, scalePiece_eq hone, hfactor, hrun, ← hts]
    simp [tokText, EpOp.text, EpOp.char]
  have hwritable : ∀ tok ∈ ts, Writable tok := by
    have htail : ∀ tok ∈ off, Writable tok := by
      rcases hisOff with rfl | ⟨o, run', -, hrun', rfl⟩
      · simp
      · intro tok htok
        rcases mem_cons.1 htok with rfl | htok
        · trivial
        · rw [mem_singleton.1 htok]
          exact hrun'
    intro tok htok
    rw [← hts, mem_append, mem_cons, mem_cons, mem_cons] at htok
    rcases htok with htok | rfl | rfl | rfl | htok
    · exact hscaled.writable tok htok
    · trivial
    · trivial
    · exact hisRun
    · exact htail tok htok
  have hinfix := hscaled.reads true
  have hsep : Infix.separated ts = true := by
    have hplaced := (Infix.isInfix_iff_placed EpOp.sub _).mp hinfix
    rw [← hts]
    refine Infix.separated_append_op ?_ (Infix.placed_separated EpOp.sub hplaced)
    rcases hisOff with rfl | ⟨o, run', -, -, rfl⟩ <;> rfl
  have hno : countsOut ts = false := by
    obtain ⟨own, hcount⟩ := countTok_infix hinfix (c := Counts.init) rfl (fun _ => rfl)
    rw [countsOut, ← hts, foldlM_append, hcount]
    rfl
  have hdeep : CheckWithinStacks ar text := by
    rw [CheckWithinStacks, hok]
    exact fun hdeep => by cases hdeep
  obtain ⟨ts', hts', -, hyes⟩ := (expressionParserCheck_isOk_iff ar hdeep).mp ⟨m, hok⟩
  rw [htext, tokenize_tokTexts hwritable hsep, Option.some.injEq] at hts'
  rw [← hts', hno] at hyes
  cases hyes

/-- **Which compiled signals the check accepts**: those with a positive factor and
an offset that is a number. -/
theorem apDbcExpr_accepted_iff {q : ℚ} (hfactor : s.factor = .fin q) (hq : q ≠ 0)
    (h : apDbcExpr s outCap = .ok text) :
    DbcAccepted ar s text ↔ 0 < q ∧ ∃ r, s.offset = .fin r := by
  constructor
  · rintro ⟨top, hok, -⟩
    by_cases hoffset : ∃ r, s.offset = .fin r
    · refine ⟨?_, hoffset⟩
      obtain ⟨r, hr⟩ := hoffset
      by_contra hneg
      have hlt : q < 0 := lt_of_le_of_ne (not_lt.1 hneg) hq
      exact refused_of_negative ar hfactor hlt hr h (some top) hok
    · refine absurd hok (expressionParserCheck_foreign ar (c := 'n') ?_ (by decide) (some top))
      rw [apDbcExpr_text h, mem_append]
      exact .inr (foreign_offset fun r hr => hoffset ⟨r, hr⟩)
  · rintro ⟨hpos, r, hr⟩
    exact accepted_of_positive ar hfactor hpos hr h

end Accepted

/-- A temperature: ten bits across two bytes. -/
def dbcTemperature : ApDbcSig :=
  ⟨3, 10, true, false, 0, 0, .fin 1, .fin 0, by decide, by decide, by decide⟩

theorem apDbcExpr_accepted_iff_temperature :
    DbcAccepted intArith dbcTemperature
        ['(', 'B', '0', '>', '>', '3', ')', '+', '(', 'B', '1', '&', '3', '1', ')', '*', '3', '2'] ↔
      (0 : ℚ) < 1 ∧ ∃ r, dbcTemperature.offset = .fin r :=
  @apDbcExpr_accepted_iff ℤ intArith dbcTemperature 96 _ 1 rfl one_ne_zero (by decide +kernel)

/-- A current that runs the other way: the factor is negative. -/
def dbcCurrent : ApDbcSig :=
  ⟨0, 8, true, false, 0, 0, .fin (-1 / 2), .fin 0, by decide, by decide, by decide⟩

/-- `B0*-0.5` compiles, and the check refuses it. -/
theorem not_dbcAccepted_current :
    ¬ ∀ (s : ApDbcSig) (outCap : ℕ) (q : ℚ) (text : List Char), s.factor = .fin q → q ≠ 0 →
      apDbcExpr s outCap = .ok text → DbcAccepted intArith s text := by
  intro hclaim
  have hok : apDbcExpr dbcCurrent 96 = .ok ['B', '0', '*', '-', '0', '.', '5'] := by
    decide +kernel
  obtain ⟨top, htop, -⟩ := hclaim dbcCurrent 96 (-1 / 2) _ rfl (by norm_num) hok
  have hrefused : expressionParserCheck intArith ['B', '0', '*', '-', '0', '.', '5'] ≠
      .ok (some top) :=
    refused_of_negative intArith (q := -1 / 2) (r := 0) rfl (by norm_num) rfl hok (some top)
  exact hrefused htop

end Meatpi
