import Meatpi.Autopid.StdExpr

/-!
# What the expression of a standard parameter means

Every row of the table is a placeholder or whole bytes of data with numbers that are
printed in their precision (`stdTable_rows`). The text of such a row is its tokens, and
evaluates to the raw value, with the sign the row has, times the printed scale plus the
printed offset (`stdExpression_eval`).
-/

namespace Meatpi

open List Option

variable {text : List Char} {p : ℕ} {frame : List UInt8} {prm : StdParameter}

/-! ## Literals -/

/-- **A literal** of a number that is not negative is a run. -/
theorem isRun_fmtLiteral {v : ℚ} (hv : 0 ≤ v) : IsRun (fmtLiteral v 32) := by
  rw [fmtLiteral, signedText, if_neg (not_lt.mpr hv), signedText, if_neg (not_lt.mpr hv)]
  split_ifs with he
  · exact isRun_trimDecimals 30 v
  · exact isRun_generalText he

/-- Half a unit of the last digit a literal has: the tenth, or the fifteenth decimal where
it would have an exponent. -/
def literalPrecision (v : ℚ) : ℚ :=
  if v = 0 then 0
  else if -4 ≤ Int.log 10 v ∧ Int.log 10 v < 10 then 10 ^ (Int.log 10 v - 9) / 2
  else 1 / 10 ^ 15 / 2

/-! ## A row -/

/-- A range below zero with no offset: the raw value has a sign. -/
def stdSigned (prm : StdParameter) : Prop := prm.min < 0 ∧ prm.offset = 0

instance (prm : StdParameter) : Decidable (stdSigned prm) := inferInstanceAs (Decidable (_ ∧ _))

/-- The ratio the scale is printed as. -/
def stdRatio (prm : StdParameter) : Option ℕ :=
  scaleRatio prm.scale prm.offset prm.bitLength
    (if stdSigned prm ∨ prm.min = 0 ∧ prm.max = 0 then none else some prm.max)

/-- The scale and the offset that are read back. -/
def stdPrintedScale (prm : StdParameter) : ℚ :=
  if prm.scale = 1 then 1
  else (stdRatio prm).elim (decimalValue (fmtLiteral prm.scale 32))
    fun n => n / rawMax prm.bitLength

def stdPrintedOffset (prm : StdParameter) : ℚ :=
  if prm.offset = 0 then 0
  else if prm.offset < 0 then -decimalValue (fmtLiteral |prm.offset| 32)
  else decimalValue (fmtLiteral |prm.offset| 32)

/-- The precision they are printed in; a ratio is within the tolerance of the bounds at
full scale. -/
def scalePrecision (prm : StdParameter) : ℚ :=
  (stdRatio prm).elim (literalPrecision prm.scale)
    fun _ => (boundsTol prm.max + 1e-9) / rawMax prm.bitLength

def offsetPrecision (prm : StdParameter) : ℚ := literalPrecision |prm.offset|

/-- A row that is decoded: whole bytes of data, and numbers that are printed in their
precision. -/
structure StdDecodes (prm : StdParameter) : Prop where
  bits : prm.bitLength = 8 ∨ prm.bitLength = 16 ∨ prm.bitLength = 32
  start : 24 ≤ prm.bitStart ∧ prm.bitStart < 2 ^ 8
  scale : |stdPrintedScale prm - prm.scale| ≤ scalePrecision prm
  offset : |stdPrintedOffset prm - prm.offset| ≤ offsetPrecision prm
  coarse : 3 * scalePrecision prm < prm.scale

instance (prm : StdParameter) : Decidable (StdDecodes prm) :=
  decidable_of_iff ((prm.bitLength = 8 ∨ prm.bitLength = 16 ∨ prm.bitLength = 32) ∧
      (24 ≤ prm.bitStart ∧ prm.bitStart < 2 ^ 8) ∧
      |stdPrintedScale prm - prm.scale| ≤ scalePrecision prm ∧
      |stdPrintedOffset prm - prm.offset| ≤ offsetPrecision prm ∧
      3 * scalePrecision prm < prm.scale)
    ⟨fun ⟨hbits, hstart, hscale, hoffset, hcoarse⟩ => ⟨hbits, hstart, hscale, hoffset, hcoarse⟩,
      fun h => ⟨h.bits, h.start, h.scale, h.offset, h.coarse⟩⟩

/-- **The table**: a row is a placeholder, or it is decoded and has an expression. -/
theorem stdTable_rows : ∀ prm ∈ stdTable,
    prm.bitLength = 0 ∨ StdDecodes prm ∧ (stdExpression prm).toOption.isSome = true := by
  decide +kernel

/-! ## The expression in tokens -/

/-- The bytes of a row. -/
def stdFirst (prm : StdParameter) : ℕ := prm.bitStart / 8
def stdCount (prm : StdParameter) : ℕ := (prm.bitLength + 7) / 8

/-- The span of a row. -/
def stdSpan (prm : StdParameter) : EpAtom :=
  if stdCount prm = 1 then
    if stdSigned prm then .sbyte (stdFirst prm) else .byte (stdFirst prm)
  else .range (decide (stdSigned prm)) (stdFirst prm) (stdFirst prm + stdCount prm - 1)

def stdScaleTree (prm : StdParameter) : EpTree :=
  (stdRatio prm).elim (.bin .mul (.atom (stdSpan prm)) (.atom (.num (fmtLiteral prm.scale 32))))
    fun n => .bin .div (.bin .mul (.atom (stdSpan prm)) (.atom (.num (decText n))))
      (.atom (.num (decText (rawMax prm.bitLength))))

def stdScaleToks (prm : StdParameter) : List EpTok :=
  (stdRatio prm).elim
    ([.atom (stdSpan prm)] ++ .op .mul :: [.atom (.num (fmtLiteral prm.scale 32))])
    fun n => ([.atom (stdSpan prm)] ++ .op .mul :: [numTok n]) ++
      .op .div :: [numTok (rawMax prm.bitLength)]

def stdSignOp (prm : StdParameter) : EpOp := if prm.offset < 0 then .sub else .add
def stdOffsetTok (prm : StdParameter) : EpAtom := .num (fmtLiteral |prm.offset| 32)

/-- The value that is offset, and its tokens. -/
def stdTree (prm : StdParameter) : EpTree :=
  let scaled := if prm.scale = 1 then .atom (stdSpan prm) else stdScaleTree prm
  if prm.offset = 0 then scaled else .bin (stdSignOp prm) scaled (.atom (stdOffsetTok prm))

def stdToks (prm : StdParameter) : List EpTok :=
  let scaled := if prm.scale = 1 then [.atom (stdSpan prm)] else stdScaleToks prm
  if prm.offset = 0 then scaled else scaled ++ .op (stdSignOp prm) :: [.atom (stdOffsetTok prm)]

theorem scaleRatio_lt {scale offset : ℚ} {bits : ℕ} {max : Option ℚ} {n : ℕ}
    (h : scaleRatio scale offset bits max = some n) : n < 10 ^ 16 := by
  obtain ⟨max, -, h⟩ := bind_eq_some_iff.1 h
  rw [ite_none_right_eq_some, some.injEq] at h
  obtain ⟨⟨-, -, hpos, hlt, -⟩, rfl⟩ := h
  rw [Nat.floor_lt (by linarith)]
  linarith

theorem scaleLiteral_eq (h : StdDecodes prm) :
    tokText (.atom (stdSpan prm)) ++ '*' :: scaleLiteral prm.scale prm.offset prm.bitLength
        (if stdSigned prm ∨ prm.min = 0 ∧ prm.max = 0 then none else some prm.max) 32 =
      (stdScaleToks prm).flatMap tokText := by
  rw [stdScaleToks, scaleLiteral, stdRatio]
  cases hratio : scaleRatio prm.scale prm.offset prm.bitLength
      (if stdSigned prm ∨ prm.min = 0 ∧ prm.max = 0 then none else some prm.max) with
  | none => simp [tokText, EpOp.text, EpOp.char]
  | some n =>
    have hn := scaleRatio_lt hratio
    have hraw : rawMax prm.bitLength < 10 ^ 10 := by
      rcases h.bits with hb | hb | hb <;> rw [hb] <;> decide
    have h1 := length_decText_le (by decide) hn
    have h2 := length_decText_le (by decide) hraw
    dsimp only
    rw [snprintf_eq (by rw [length_append, length_cons]; omega)]
    simp [numTok, tokText, EpOp.text, EpOp.char]

theorem stdSpan_text (h : StdDecodes prm) {kind : Char}
    (hkind : kind = if stdSigned prm then 'S' else 'B') :
    snprintf 32 (if stdCount prm = 1 then kind :: decText (stdFirst prm)
      else '[' :: kind :: decText (stdFirst prm) ++
        ':' :: kind :: decText (stdFirst prm + stdCount prm - 1) ++ [']']) =
      tokText (.atom (stdSpan prm)) := by
  have hcount : stdCount prm ≤ 4 := by
    rw [stdCount]
    have := h.bits
    omega
  have hfirst : stdFirst prm < 32 := by
    rw [stdFirst]
    have := h.start.2
    omega
  have h1 := length_decText_le (n := stdFirst prm) (k := 2) (by decide) (by omega)
  have h2 := length_decText_le (n := stdFirst prm + stdCount prm - 1) (k := 2) (by decide)
    (by omega)
  rw [snprintf_eq]
  · rw [stdSpan, hkind]
    by_cases hone : stdCount prm = 1 <;> by_cases hsigned : stdSigned prm <;>
      simp [hone, hsigned, tokText]
  · split_ifs <;> simp only [length_cons, length_append, length_nil] <;> omega

/-- **The text of a row is its tokens.** -/
theorem stdExpression_text (h : StdDecodes prm) (htext : stdExpression prm = .ok text) :
    text = (stdToks prm).flatMap tokText := by
  have hsigned : ((if ¬ (prm.min = 0 ∧ prm.max = 0) then some prm.min else none).any
      (· < 0) = true ∧ prm.offset = 0) ↔ stdSigned prm := by
    rw [stdSigned]
    split_ifs with hranged
    · simp [hranged.1]
    · simp
  have hmax : (if stdSigned prm then none else
      if ¬ (prm.min = 0 ∧ prm.max = 0) then some prm.max else none) =
        if stdSigned prm ∨ prm.min = 0 ∧ prm.max = 0 then none else some prm.max := by
    split_ifs <;> first | rfl | tauto
  have hplaceholder : ¬ (prm.bitLength = 0 ∨ prm.bitStart < 8) := by
    have := h.bits
    have := h.start
    omega
  have hsign : tokText (.op (stdSignOp prm)) = [if prm.offset < 0 then '-' else '+'] := by
    rw [stdSignOp]
    split_ifs <;> rfl
  have hoffset : tokText (.atom (stdOffsetTok prm)) = fmtLiteral |prm.offset| 32 := rfl
  have hspan := stdSpan_text h rfl
  have hscale := scaleLiteral_eq h
  have hok : ∀ {p : Prop} [Decidable p] {out : List Char} {e : StdErr},
      (if p then .ok out else .error e : Except StdErr (List Char)) = .ok text → text = out := by
    intro p _ out e hout
    split_ifs at hout
    cases hout
    rfl
  rw [stdExpression, apStdExpressionBounded, if_neg hplaceholder] at htext
  simp only [hsigned, hmax, Int.toNat_zero, Nat.add_zero] at htext
  rw [← stdFirst, ← stdCount, hspan] at htext
  rw [hok htext, stdToks]
  by_cases hunit : prm.scale = 1
  · by_cases hzero : prm.offset = 0
    · rw [if_pos ⟨hunit, hzero⟩, if_pos hzero, if_pos hunit]
      simp
    · rw [if_neg fun h => hzero h.2, if_neg hzero, if_neg hzero, if_pos hunit, if_pos hunit]
      simp [hsign, hoffset]
  · by_cases hzero : prm.offset = 0
    · rw [if_neg fun h => hunit h.1, if_pos hzero, if_pos hzero, if_neg hunit]
      exact hscale
    · rw [if_neg fun h => hunit h.1, if_neg hzero, if_neg hzero, if_neg hunit, if_neg hunit, hscale]
      simp [hsign, hoffset]

/-! ## The value of a row -/

theorem StdDecodes.scale_pos (h : StdDecodes prm) : 0 < prm.scale := by
  have hprec := (abs_nonneg _).trans h.scale
  have hcoarse := h.coarse
  linarith

theorem rawMax_pos (h : StdDecodes prm) : 0 < rawMax prm.bitLength := by
  rcases h.bits with hb | hb | hb <;> rw [hb] <;> decide

theorem StdDecodes.count (h : StdDecodes prm) :
    8 * stdCount prm = prm.bitLength ∧
      (stdCount prm = 1 ∨ stdCount prm = 2 ∨ stdCount prm = 4) := by
  rw [stdCount]
  rcases h.bits with hb | hb | hb <;> rw [hb] <;> decide

theorem means_stdSpan (h : StdDecodes prm) :
    Means 64 1 0 p (.atom (stdSpan prm)) [.atom (stdSpan prm)] := by
  have hfirst : stdFirst prm < 32 := by
    rw [stdFirst]
    have := h.start.2
    omega
  have hcount := h.count.2
  rw [stdSpan]
  split_ifs
  · exact .atom trivial (by simp [refIndexes]; omega) rfl
  · exact .byte (by omega)
  · refine .atom trivial (by simp [refIndexes]; omega) ?_
    have hsize : ∀ n, n < 64 → n % sizeMod = n := fun n hn =>
      Nat.mod_eq_of_lt (by rw [sizeMod]; omega)
    simp only [rangeFits, hsize _ (show stdFirst prm < 64 by omega),
      hsize _ (show stdFirst prm + stdCount prm - 1 < 64 by omega), Bool.and_eq_true,
      decide_eq_true_eq]
    rw [sizeMod]
    omega

theorem means_stdScale (h : StdDecodes prm) (hp : p ≤ EpOp.mul.prec) :
    Means 64 3 2 p (stdScaleTree prm) (stdScaleToks prm) := by
  rw [stdScaleTree, stdScaleToks]
  cases stdRatio prm with
  | none =>
    exact ((means_stdSpan h).bin .mul (.num (isRun_fmtLiteral h.scale_pos.le)) rfl hp).mono_stacks
      (by decide) (by decide)
  | some n =>
    have hnum := (means_stdSpan h).bin .mul (.num (isRun_decText n)) rfl (le_refl EpOp.mul.prec)
    exact (hnum.bin .div (.num (isRun_decText (rawMax prm.bitLength))) rfl hp).mono_stacks
      (by decide) (by decide)

theorem prec_stdSignOp (prm : StdParameter) : (stdSignOp prm).prec = 4 := by
  rw [stdSignOp]
  split_ifs <;> rfl

/-- **The form of the text**: it renders its tree. -/
theorem means_std (h : StdDecodes prm) : Means 64 5 3 1 (stdTree prm) (stdToks prm) := by
  have hscaled : ∀ {p}, p ≤ EpOp.mul.prec →
      Means 64 3 2 p (if prm.scale = 1 then .atom (stdSpan prm) else stdScaleTree prm)
        (if prm.scale = 1 then [.atom (stdSpan prm)] else stdScaleToks prm) := by
    intro p hp
    split_ifs
    · exact (means_stdSpan h).mono_stacks (by decide) (by decide)
    · exact means_stdScale h hp
  have hoffset : Means 64 1 0 ((stdSignOp prm).prec + 1) (.atom (stdOffsetTok prm))
      [.atom (stdOffsetTok prm)] := .num (isRun_fmtLiteral (abs_nonneg _))
  have hsign : operandsOf (.op (stdSignOp prm)) ≤ 1 := by
    rw [stdSignOp]
    split_ifs <;> decide
  rw [stdTree, stdToks]
  by_cases hzero : prm.offset = 0
  · rw [if_pos hzero, if_pos hzero]
    exact (hscaled (by decide)).mono_stacks (by decide) (by decide)
  · rw [if_neg hzero, if_neg hzero]
    have hprec := prec_stdSignOp prm
    have hle : (stdSignOp prm).prec ≤ EpOp.mul.prec := by
      rw [hprec]
      decide
    exact ((hscaled hle).bin _ hoffset rfl (by omega)).mono_stacks (by omega) (by omega)

/-- The raw value of a row in a frame, without a sign and with the row's. -/
def stdRaw (frame : List UInt8) (prm : StdParameter) : ℕ :=
  ofDigitsBE 256 (((frame.drop (stdFirst prm)).take (stdCount prm)).map UInt8.toNat)

theorem stdRaw_lt (h : StdDecodes prm) (frame : List UInt8) :
    stdRaw frame prm < 2 ^ prm.bitLength := by
  have hbyte : ∀ d ∈ ((frame.drop (stdFirst prm)).take (stdCount prm)).map UInt8.toNat,
      d < 256 := by
    intro d hd
    obtain ⟨b, -, rfl⟩ := mem_map.1 hd
    exact b.toNat_lt
  have hlt := ofDigitsBE_lt hbyte
  have hle : 256 ^ (((frame.drop (stdFirst prm)).take (stdCount prm)).map UInt8.toNat).length ≤
      256 ^ stdCount prm := by
    refine Nat.pow_le_pow_right (by decide) ?_
    rw [length_map]
    exact length_take_le _ _
  rw [← h.count.1, Nat.pow_mul]
  exact hlt.trans_le hle

def stdSignedRaw (frame : List UInt8) (prm : StdParameter) : ℤ :=
  if stdSigned prm then signedOf prm.bitLength (stdRaw frame prm) else stdRaw frame prm

/-- **The span of a row** is its raw value. -/
theorem atomValue_stdSpan (h : StdDecodes prm) (v : ℚ)
    (hlen : stdFirst prm + stdCount prm ≤ frame.length) :
    atomValue ratArith frame v (stdSpan prm) = some (stdSignedRaw frame prm : ℚ) := by
  obtain ⟨hbits, hcount⟩ := h.count
  rw [stdSpan]
  by_cases hone : stdCount prm = 1
  · have hlt : stdFirst prm < frame.length := by omega
    have hget : frame[stdFirst prm]? = some frame[stdFirst prm] := List.getElem?_eq_getElem hlt
    have hraw : stdRaw frame prm = frame[stdFirst prm].toNat := by
      rw [stdRaw, hone, drop_eq_getElem_cons hlt, take_succ_cons]
      simp [ofDigitsBE]
    have h8 : prm.bitLength = 8 := by omega
    rw [stdSignedRaw, hraw, h8]
    split_ifs <;> simp [atomValue, hget, ratArith]
  · have hspan : stdFirst prm + stdCount prm - 1 - stdFirst prm + 1 = stdCount prm := by omega
    have hwidth : ((frame.drop (stdFirst prm)).take (stdCount prm)).length = stdCount prm := by
      rw [length_take, length_drop]
      omega
    have hcontainer : containerBits (stdCount prm) = prm.bitLength := by
      rw [← hbits]
      rcases hcount with hc | hc | hc
      · exact absurd hc hone
      · rw [hc]; rfl
      · rw [hc]; rfl
    rw [if_neg hone, atomValue, if_pos (by omega), hspan, spanInt, hwidth, hcontainer, stdSignedRaw]
    by_cases hsigned : stdSigned prm
    · simp only [hsigned, decide_true, if_true]
      rfl
    · simp only [hsigned, decide_false, if_false, Bool.false_eq_true]
      rfl

/-- **The value of a row**: its raw value, with the numbers as they are printed. -/
theorem treeValue_std (h : StdDecodes prm) (v : ℚ)
    (hlen : stdFirst prm + stdCount prm ≤ frame.length) :
    treeValue ratArith frame v (stdTree prm) =
      some (stdSignedRaw frame prm * stdPrintedScale prm + stdPrintedOffset prm) := by
  have hspan : treeValue ratArith frame v (.atom (stdSpan prm)) =
      some (stdSignedRaw frame prm : ℚ) :=
    atomValue_stdSpan h v hlen
  have hscaled : treeValue ratArith frame v
      (if prm.scale = 1 then .atom (stdSpan prm) else stdScaleTree prm) =
        some (stdSignedRaw frame prm * stdPrintedScale prm) := by
    rw [stdScaleTree, stdPrintedScale]
    split_ifs
    · rw [hspan, mul_one]
    · cases stdRatio prm with
      | none => exact treeValue_bin hspan (treeValue_num frame v _)
      | some n =>
        have hmax : (rawMax prm.bitLength : ℚ) ≠ 0 := by
          have := rawMax_pos h
          positivity
        have hnum := treeValue_bin (o := .mul) hspan (treeValue_num frame v (decText n))
        refine (treeValue_bin hnum (treeValue_num frame v _)).trans ?_
        rw [decimalValue_decText, decimalValue_decText]
        simp [opValue, ratArith, hmax, mul_div_assoc]
  rw [stdTree, stdPrintedOffset]
  by_cases hzero : prm.offset = 0
  · rw [if_pos hzero, if_pos hzero, hscaled, add_zero]
  · rw [if_neg hzero]
    refine (treeValue_bin hscaled (treeValue_num frame v _)).trans ?_
    rw [stdSignOp]
    split_ifs <;> simp [opValue, ratArith, sub_eq_add_neg]

/-- **The expression of a row** over a frame that has its bytes. -/
theorem stdExpression_eval (h : StdDecodes prm) (htext : stdExpression prm = .ok text) (v : ℚ)
    (hsize : frame.length < sizeMod) (hlen : stdFirst prm + stdCount prm ≤ frame.length) :
    expressionParserEval ratArith text frame v =
      .ok (stdSignedRaw frame prm * stdPrintedScale prm + stdPrintedOffset prm) := by
  rw [stdExpression_text h htext]
  exact (means_std h).eval ratArith (by decide) (by decide) hsize (treeValue_std h v hlen)

end Meatpi
