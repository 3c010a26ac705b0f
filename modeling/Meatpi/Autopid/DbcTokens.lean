import Meatpi.Autopid.DbcCodec

/-!
# The tokens of a compiled signal

The text `ap_dbc_expr` writes, as tokens: what the segments and the sign come to
(`rawToks`), that nothing of it is cut off by the buffers (`dbcRaw_text`), and that
it is a list of tokens the grammar takes whenever the factor prints without a sign.
-/

namespace Meatpi

open List

variable {c : Char} {k : ℕ} {q : ℚ}

/-! ## Literals -/

theorem isNumChar_of_decimal (h : IsDecimalChar c) : isNumChar c = true := by
  rcases h with h | rfl
  · exact isNumChar_of_isDigit h
  · decide

theorem dropZeros_decimalText (d n : ℕ) :
    dropZeros (decimalText d n) ≠ [] ∧ ∀ c ∈ dropZeros (decimalText d n), IsDecimalChar c := by
  have hall : ∀ c ∈ decimalText d n, IsDecimalChar c := fun c hc => isDecimalChar_decimalText hc
  obtain ⟨c, rest, htext, hc⟩ := decimalText_head d n
  by_cases hdot : '.' ∈ decimalText d n
  · obtain ⟨short, hshort⟩ : ∃ short, (decimalText d n).rdropWhile (· = '0') = short := ⟨_, rfl⟩
    have hprefix : short <+: decimalText d n := hshort ▸ rdropWhile_prefix _ _
    have hsub : (decimalText d n).rdropWhile (· = '0') ⊆ decimalText d n := hshort ▸ hprefix.subset
    rw [dropZeros, if_pos hdot]
    dsimp only
    rw [hshort] at hsub ⊢
    split_ifs with hlast
    · refine ⟨?_, fun c' hc' => hall c' (hsub (dropLast_subset _ hc'))⟩
      -- the point is not the first character, so something stands before it
      intro hnil
      rcases short with _ | ⟨c', _ | ⟨c'', short⟩⟩
      · cases hlast
      · obtain rfl : c' = '.' := by simpa using hlast
        obtain ⟨suffix, hprefix⟩ := hprefix
        rw [htext] at hprefix
        obtain rfl : '.' = c := by simpa using congrArg List.head? hprefix
        exact absurd hc (by decide)
      · simp at hnil
    · refine ⟨?_, fun c' hc' => hall c' (hsub hc')⟩
      rintro rfl
      rw [rdropWhile_eq_nil_iff] at hshort
      exact absurd (hshort '.' hdot) (by decide)
  · rw [dropZeros, if_neg hdot]
    exact ⟨by rw [htext]; simp, hall⟩

theorem generalText_split (p : ℕ) (q : ℚ) :
    ∃ run tail, generalText p q = run ++ tail ∧ run ≠ [] ∧ (∀ c ∈ run, IsDecimalChar c) ∧
      (tail ≠ [] → tail.head? = some 'e') := by
  unfold generalText
  dsimp only
  have hplain : ∀ run : List Char, run ≠ [] ∧ (∀ c ∈ run, IsDecimalChar c) →
      ∃ run' tail, run = run' ++ tail ∧ run' ≠ [] ∧ (∀ c ∈ run', IsDecimalChar c) ∧
        (tail ≠ [] → tail.head? = some 'e') := fun run h =>
    ⟨run, [], (append_nil run).symm, h.1, h.2, fun h => absurd rfl h⟩
  have hdecimal : ∀ d n, decimalText d n ≠ [] ∧ ∀ c ∈ decimalText d n, IsDecimalChar c := by
    intro d n
    obtain ⟨c, rest, htext, -⟩ := decimalText_head d n
    exact ⟨by rw [htext]; simp, fun c hc => isDecimalChar_decimalText hc⟩
  by_cases h0 : q = 0
  · rw [if_pos h0]
    exact hplain _ ⟨by simp, fun c hc => .inl (by rw [mem_singleton.1 hc]; decide)⟩
  rw [if_neg h0]
  by_cases hrange : -4 ≤ (scientific p q).1 ∧ (scientific p q).1 < p
  · rw [if_pos hrange]
    split_ifs
    · exact hplain _ (hdecimal _ _)
    · exact hplain _ (dropZeros_decimalText _ _)
  · rw [if_neg hrange]
    obtain ⟨hne, hall⟩ := dropZeros_decimalText (p - 1) (scientific p q).2
    exact ⟨_, _, rfl, hne, hall, fun _ => rfl⟩

theorem trimDecimals_subset (text : List Char) : ∀ c ∈ trimDecimals text, c ∈ text := by
  intro c hc
  rw [← takeWhile_append_dropWhile (p := fun c => decide (c ≠ '.')) (l := text), mem_append]
  rw [trimDecimals, append_assoc, mem_append, mem_append] at hc
  rcases hc with hc | hc | hc
  · exact .inl hc
  · exact .inr (mem_of_mem_take hc)
  · have hrest : c ∈ (text.dropWhile (· ≠ '.')).drop 2 :=
      IsPrefix.mem hc <| rdropWhile_prefix _ _
    exact .inr (mem_of_mem_drop hrest)

theorem trimDecimals_cons (hc : c ≠ '.') (text : List Char) :
    trimDecimals (c :: text) = c :: trimDecimals text := by
  simp [trimDecimals, hc]

/-- A run of digits and points. -/
def IsRun (run : List Char) : Prop := run ≠ [] ∧ ∀ c ∈ run, isNumChar c = true

theorem isRun_trimDecimals (k : ℕ) (q : ℚ) :
    IsRun (trimDecimals ((fixedText 15 q).take (k + 1))) := by
  obtain ⟨c, rest, htext, hc⟩ := decimalText_head 15 (roundHalfEven (q * 10 ^ 15))
  have hdot : c ≠ '.' := by
    rintro rfl
    exact absurd hc (by decide)
  refine ⟨?_, fun c' hc' => ?_⟩
  · rw [fixedText, htext, take_succ_cons, trimDecimals_cons hdot]
    simp
  · have hmem := mem_of_mem_take (trimDecimals_subset _ c' hc')
    exact isNumChar_of_decimal (isDecimalChar_decimalText hmem)

theorem isRun_generalText (he : 'e' ∉ (generalText 10 q).take (k + 1)) :
    IsRun ((generalText 10 q).take (k + 1)) := by
  obtain ⟨run, tail, htext, hne, hall, htail⟩ := generalText_split 10 q
  rw [htext] at he ⊢
  refine ⟨by simp [take_eq_nil_iff, hne], fun c' hc' => ?_⟩
  rw [take_append, mem_append] at hc' he
  rcases hc' with hc' | hc'
  · exact isNumChar_of_decimal (hall c' (mem_of_mem_take hc'))
  · -- the tail begins with the letter that is not there
    rcases tail with _ | ⟨e, tail⟩
    · rw [take_nil] at hc'
      cases hc'
    · obtain rfl : e = 'e' := by simpa using htail (cons_ne_nil _ _)
      cases hk : k + 1 - run.length with
      | zero => rw [hk] at hc'; cases hc'
      | succ m =>
        rw [hk] at he
        exact absurd (.inr mem_cons_self) he

theorem isRun_digits (k : ℕ) (q : ℚ) :
    IsRun (if 'e' ∈ (generalText 10 q).take (k + 1) ∨ 'E' ∈ (generalText 10 q).take (k + 1) then
      trimDecimals ((fixedText 15 q).take (k + 1)) else (generalText 10 q).take (k + 1)) := by
  split_ifs with he
  · exact isRun_trimDecimals k q
  · exact isRun_generalText fun h => he (.inl h)

/-- **A number that is not negative** prints as a run. -/
theorem fmtNum_nonneg (hq : 0 ≤ q) : IsRun (fmtNum 32 (.fin q)) := by
  have hrun := isRun_digits 30 q
  rw [fmtNum, signedText, if_neg (not_lt.mpr hq), signedText, if_neg (not_lt.mpr hq)]
  exact hrun

/-- **A negative number** prints as a minus and a run. -/
theorem fmtNum_neg (hq : q < 0) : ∃ run, fmtNum 32 (.fin q) = '-' :: run ∧ IsRun run := by
  refine ⟨_, ?_, isRun_digits 29 (-q)⟩
  have hminus : ∀ c, c ≠ '-' → ∀ text : List Char, (c ∈ '-' :: text ↔ c ∈ text) := by
    intro c hc text
    rw [mem_cons, or_iff_right hc]
  rw [fmtNum, signedText, if_pos hq, signedText, snprintf, take_succ_cons]
  simp only [hminus 'e' (by decide), hminus 'E' (by decide)]
  split_ifs <;> rfl

/-! ## What is composed -/

/-- Tokens as the compiler writes them: an infix text, each token one that can be
written, no index beyond `top`, and no more on the stacks than said. -/
structure Compiled (top operands operators : ℕ) (ts : List EpTok) : Prop where
  reads : ∀ lead, Infix.IsInfix EpOp.sub lead ts
  writable : ∀ tok ∈ ts, Writable tok
  below : ∀ tok ∈ ts, ∀ n ∈ refIndexes tok, n ≤ top
  fits : ts.all rangeFits = true
  operands_le : (ts.map operandsOf).sum ≤ operands
  operators_le : (ts.map operatorsOf).sum ≤ operators

section Compiled

variable {top a b a' b' : ℕ} {ts ts' : List EpTok}

theorem Compiled.mono (h : Compiled top a b ts) (ha : a ≤ a') (hb : b ≤ b') :
    Compiled top a' b' ts :=
  { h with operands_le := h.operands_le.trans ha, operators_le := h.operators_le.trans hb }

theorem Compiled.atom {x : EpAtom} (hw : Writable (.atom x))
    (hbelow : ∀ n ∈ refIndexes (.atom x), n ≤ top) (hfits : rangeFits (.atom x) = true) :
    Compiled top 1 0 [.atom x] where
  reads lead := .atom lead x
  writable := by simpa using hw
  below := by simpa using hbelow
  fits := by simpa using hfits
  operands_le := by simp [operandsOf]
  operators_le := by simp [operatorsOf]

theorem Compiled.num {run : List Char} (h : IsRun run) : Compiled top 1 0 [.atom (.num run)] :=
  .atom h (by simp [refIndexes]) rfl

theorem Compiled.byte (h : k ≤ top) : Compiled top 1 0 [.atom (.byte k)] :=
  .atom trivial (by simpa [refIndexes] using h) rfl

theorem Compiled.paren (h : Compiled top a b ts) :
    Compiled top a (b + 1) (.lpar :: ts ++ [.rpar]) := by
  have hmem : ∀ tok ∈ (.lpar :: ts ++ [.rpar] : List EpTok),
      tok = .lpar ∨ tok ∈ ts ∨ tok = .rpar := by simp
  constructor
  case reads => exact fun lead => .paren lead (h.reads true)
  case writable =>
    intro tok htok
    rcases hmem tok htok with rfl | htok | rfl
    · trivial
    · exact h.writable tok htok
    · trivial
  case below =>
    intro tok htok
    rcases hmem tok htok with rfl | htok | rfl
    · simp [refIndexes]
    · exact h.below tok htok
    · simp [refIndexes]
  case fits => simpa [rangeFits] using h.fits
  case operands_le =>
    have := h.operands_le
    simp [operandsOf]
    omega
  case operators_le =>
    have := h.operators_le
    simp [operatorsOf]
    omega

theorem Compiled.bin (h : Compiled top a b ts) (o : EpOp) (h' : Compiled top a' b' ts') :
    Compiled top (a + operandsOf (.op o) + a') (b + 1 + b') (ts ++ .op o :: ts') := by
  have hmem : ∀ tok ∈ (ts ++ .op o :: ts' : List EpTok), tok ∈ ts ∨ tok = .op o ∨ tok ∈ ts' := by
    simp
  constructor
  case reads => exact fun lead => .bin o (h.reads lead) (h'.reads false)
  case writable =>
    intro tok htok
    rcases hmem tok htok with htok | rfl | htok
    · exact h.writable tok htok
    · trivial
    · exact h'.writable tok htok
  case below =>
    intro tok htok
    rcases hmem tok htok with htok | rfl | htok
    · exact h.below tok htok
    · simp [refIndexes]
    · exact h'.below tok htok
  case fits =>
    rw [all_append, all_cons, h.fits, h'.fits]
    rfl
  case operands_le =>
    have := h.operands_le
    have := h'.operands_le
    rw [map_append, map_cons, sum_append, sum_cons]
    omega
  case operators_le =>
    have := h.operators_le
    have := h'.operators_le
    rw [map_append, map_cons, sum_append, sum_cons, operatorsOf]
    omega

/-- **A composed text is accepted**, and the check reports its highest index. -/
theorem Compiled.check {α : Type} (ar : Arith α) (h : Compiled top a b ts) (ha : a ≤ epStackMax)
    (hb : b ≤ epStackMax) (htop : top < sizeMod) (hsome : ∃ tok ∈ ts, top ∈ refIndexes tok) :
    expressionParserCheck ar (ts.flatMap tokText) = .ok (some top) := by
  have hplaced := (Infix.isInfix_iff_placed EpOp.sub ts).mp (h.reads true)
  have hts := tokenize_tokTexts h.writable (Infix.placed_separated EpOp.sub hplaced)
  have hdeep := checkWithinStacks_of_few ar hts (h.operands_le.trans ha) (h.operators_le.trans hb)
  have hcount := countsOut_of_isInfix (h.reads true)
  obtain ⟨m, hm⟩ := (expressionParserCheck_isOk_iff ar hdeep).mpr ⟨ts, hts, h.fits, hcount⟩
  rw [hm, expressionParserCheck_highest hm hts htop h.below hsome]

end Compiled

end Meatpi
