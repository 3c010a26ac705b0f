import Meatpi.Autopid.J1939Text

/-!
# The expression of a J1939 value

`ap_j1939_std_expression` writes a descriptor of the built-in table as a text the
evaluator reads, where `j1939_spn_decode` shifts and scales on its own. The two agree
when the numbers of the descriptor are printed whole (`SpnPrinted`), with one form
aside: a field inside a byte with an offset and no scale, where the offset binds
tighter than the mask.
-/

namespace Meatpi

open List Nat Option

variable {n p top : ℕ} {v : ℚ}

variable {spn : J1939Spn} {text : List Char} {data : List UInt8} {byte cap : ℕ}

/-! ## The raw value -/

/-- The sum of `i + 1` bytes. -/
def spnSumTree (byte : ℕ) : ℕ → EpTree
  | 0 => .atom (.byte byte)
  | i + 1 => .bin .add (spnSumTree byte i)
      (.bin .mul (.atom (.byte (byte + (i + 1)))) (.atom (.num (decText (2 ^ (8 * (i + 1)))))))

def spnSumToks (byte : ℕ) : ℕ → List EpTok
  | 0 => [byteTok byte]
  | i + 1 => spnSumToks byte i ++
      .op .add :: ([byteTok (byte + (i + 1))] ++ .op .mul :: [numTok (2 ^ (8 * (i + 1)))])

/-- The byte shifted, and the mask. -/
def spnShiftTree (spn : J1939Spn) : EpTree :=
  .bin .shr (.atom (.byte spn.byte)) (.atom (.num (decText spn.bit)))

def spnShiftToks (spn : J1939Spn) : List EpTok :=
  .lpar :: ([byteTok spn.byte] ++ .op .shr :: [numTok spn.bit]) ++ [.rpar]

theorem means_spnSum : ∀ {n p : ℕ}, p ≤ EpOp.add.prec → byte + n ≤ top →
    Means top (1 + 2 * n) (2 * n) p (spnSumTree byte n) (spnSumToks byte n) := by
  intro n
  induction n with
  | zero => exact fun _ h => .byte h
  | succ n ih =>
    intro p hp htop
    have hweight := (Means.byte htop).bin .mul (.num (isRun_decText (2 ^ (8 * (n + 1))))) rfl
      (show EpOp.add.prec + 1 ≤ EpOp.mul.prec by decide)
    exact ((ih le_rfl (by omega)).bin .add hweight rfl hp).mono_stacks
      (by simp only [operandsOf]; omega) (by omega)

theorem means_spnShift (h : spn.byte ≤ top) :
    Means top 2 2 p (spnShiftTree spn) (spnShiftToks spn) :=
  (((Means.byte h).bin .shr (.num (isRun_decText _)) rfl (by decide)).mono_stacks
    (by decide) le_rfl).paren

theorem spnSumToks_text (byte n : ℕ) :
    (List.range (n + 1)).flatMap (spnBytePiece byte) = (spnSumToks byte n).flatMap tokText := by
  induction n with
  | zero => simp [spnBytePiece, spnSumToks, byteTok, tokText]
  | succ n ih =>
    rw [range_succ, flatMap_append, ih, spnSumToks]
    simp [spnBytePiece, byteTok, numTok, tokText, EpOp.text, EpOp.char]

theorem length_spnSum_le (hbyte : byte < 2 ^ 8) (hn : n ≤ 3) :
    ((List.range (n + 1)).flatMap (spnBytePiece byte)).length ≤ 4 + 14 * n := by
  induction n with
  | zero =>
    have hdigits := length_decText_le (n := byte) (k := 3) (by decide) (by omega)
    have hone : (List.range (0 + 1)).flatMap (spnBytePiece byte) = 'B' :: decText byte := by
      simp [spnBytePiece]
    rw [hone, length_cons]
    omega
  | succ n ih =>
    have hdigits := length_decText_le (n := byte + (n + 1)) (k := 3) (by decide) (by omega)
    have hweight : (decText (2 ^ (8 * (n + 1)))).length ≤ 8 := by
      refine length_decText_le (by decide) ?_
      exact (Nat.pow_le_pow_right (by decide) (show 8 * (n + 1) ≤ 24 by omega)).trans_lt (by decide)
    rw [range_succ, flatMap_append]
    simp only [flatMap_singleton, spnBytePiece, succ_ne_zero, if_false, length_cons, length_append]
    omega

/-- **The value of the sum** is the number of the bytes. -/
theorem treeValue_spnSum (hlen : byte + n < data.length) :
    treeValue ratArith data v (spnSumTree byte n) =
      some (ofLeBytes ((data.drop byte).take (n + 1)) : ℚ) := by
  induction n with
  | zero =>
    rw [Nat.add_zero] at hlen
    have hget : data[byte]? = some data[byte] := List.getElem?_eq_getElem hlen
    have htake : (data.drop byte).take (0 + 1) = [data[byte]] := by
      rw [drop_eq_getElem_cons hlen]
      rfl
    rw [spnSumTree, treeValue, atomValue, hget, htake]
    simp [ratArith, ofLeBytes]
  | succ n ih =>
    have hget : data[byte + (n + 1)]? = some data[byte + (n + 1)] := List.getElem?_eq_getElem hlen
    have hdrop : n + 1 < (data.drop byte).length := by
      rw [length_drop]
      omega
    have htake : (data.drop byte).take (n + 1 + 1) =
        (data.drop byte).take (n + 1) ++ [data[byte + (n + 1)]] := by
      rw [take_succ_eq_append_getElem hdrop, getElem_drop]
    have hlength : ((data.drop byte).take (n + 1)).length = n + 1 := by
      rw [length_take, Nat.min_eq_left hdrop.le]
    rw [spnSumTree, treeValue, ih (by omega), htake, ofLeBytes_concat, hlength]
    simp only [treeValue, atomValue, hget, opValue, map_some, bind, bind_some]
    simp [ratArith, decimalValue_decText, pow_mul]

def spnMaskTok (spn : J1939Spn) : EpAtom := .num (decText (2 ^ spn.bits - 1))

/-- The raw value. -/
def spnRawTree (spn : J1939Spn) : EpTree :=
  if WholeBytes spn then spnSumTree spn.byte (spn.bits / 8 - 1)
  else .bin .band (spnShiftTree spn) (.atom (spnMaskTok spn))

def spnRawToks (spn : J1939Spn) : List EpTok :=
  if WholeBytes spn then spnSumToks spn.byte (spn.bits / 8 - 1)
  else spnShiftToks spn ++ .op .band :: [.atom (spnMaskTok spn)]

theorem means_spnRaw (hle : spn.bits ≤ 32) (hp : p ≤ EpOp.band.prec) :
    Means (spn.byte + 3) 7 6 p (spnRawTree spn) (spnRawToks spn) := by
  rw [spnRawTree, spnRawToks]
  split_ifs with hwhole
  · exact (means_spnSum (hp.trans (by decide)) (by omega)).mono_stacks (by omega) (by omega)
  · exact ((means_spnShift (by omega)).bin .band (.num (isRun_decText _)) rfl hp).mono_stacks
      (by decide) (by decide)

/-- **The value of the raw part** is the decoder's raw value. -/
theorem treeValue_spnRaw (htext : spnRawText spn = some text) (hpos : spn.bits ≠ 0)
    (hle : spn.bits ≤ 32) (v : ℚ) (hlen : spnBytes spn ≤ data.length) :
    treeValue ratArith data v (spnRawTree spn) = some (spnRaw spn data : ℚ) := by
  rw [spnRawTree]
  split_ifs with hwhole
  · obtain ⟨hbit, hbits⟩ := hwhole
    obtain ⟨n, hn⟩ : ∃ n, spn.bits = 8 * (n + 1) := ⟨spn.bits / 8 - 1, by omega⟩
    have hbytes : spnBytes spn = spn.byte + (n + 1) := by
      rw [spnBytes]
      omega
    have hlt := ofLeBytes_lt ((data.drop spn.byte).take (n + 1))
    have hlength : ((data.drop spn.byte).take (n + 1)).length = n + 1 := by
      rw [length_take, length_drop]
      omega
    have hraw : spnRaw spn data = ofLeBytes ((data.drop spn.byte).take (n + 1)) := by
      rw [hlength, show 256 = 2 ^ 8 from rfl, ← Nat.pow_mul] at hlt
      have h64 : 2 ^ (8 * (n + 1)) ≤ 2 ^ 64 := Nat.pow_le_pow_right (by decide) (by omega)
      rw [spnRaw, hbytes, hbit, hn, drop_take, Nat.add_sub_cancel_left, Nat.pow_zero,
        Nat.div_one, mod_eq_of_lt (hlt.trans_le h64), mod_eq_of_lt hlt]
    rw [show spn.bits / 8 - 1 = n by omega, treeValue_spnSum (by omega), hraw]
  · have hin : spn.bit + spn.bits ≤ 8 := by
      rw [spnRawText] at htext
      split_ifs at htext with hin
      exact hin
    have hbytes : spnBytes spn = spn.byte + 1 := by
      rw [spnBytes]
      omega
    have hget : data[spn.byte]? = some data[spn.byte] := List.getElem?_eq_getElem (by omega)
    have hraw : spnRaw spn data = data[spn.byte].toNat / 2 ^ spn.bit % 2 ^ spn.bits := by
      have hbyte := data[spn.byte].toNat_lt
      rw [spnRaw, hbytes, drop_take, Nat.add_sub_cancel_left,
        drop_eq_getElem_cons (by omega), take_succ_cons, take_zero]
      simp only [ofLeBytes]
      rw [Nat.add_zero, mod_eq_of_lt (a := data[spn.byte].toNat) (by omega)]
    have hsmall : data[spn.byte].toNat / 2 ^ spn.bit < 2 ^ 31 :=
      (Nat.div_le_self _ _).trans_lt (data[spn.byte].toNat_lt.trans_le (by decide))
    have hshift : ratArith.shr (data[spn.byte].toNat : ℚ) (spn.bit : ℚ) =
        (data[spn.byte].toNat / 2 ^ spn.bit : ℕ) :=
      shr_natCast (data[spn.byte].toNat_lt.trans_le (by decide)) (by omega)
    simp only [spnShiftTree, spnMaskTok, treeValue, atomValue, hget, opValue, map_some, bind,
      bind_some]
    rw [hraw, ← band_natCast hsmall, ← hshift]
    simp [ratArith, decimalValue_decText]

/-! ## The whole text -/

/-- The raw value under a factor: in parentheses unless it is one byte. -/
def spnFactorToks (spn : J1939Spn) : List EpTok :=
  if WholeBytes spn ∧ spn.bits = 8 then spnRawToks spn else .lpar :: spnRawToks spn ++ [.rpar]

def spnScaleTok (spn : J1939Spn) : EpAtom := .num (numText spn.scale)

/-- The offset without its sign, and the sign. -/
def spnOffsetTok (spn : J1939Spn) : EpAtom :=
  .num (numText (if spn.offset < 0 then -spn.offset else spn.offset))

def spnSignOp (spn : J1939Spn) : EpOp := if spn.offset < 0 then .sub else .add

def spnToks (spn : J1939Spn) : List EpTok :=
  if spn.scale = 1 ∧ spn.offset = 0 then spnRawToks spn
  else if spn.scale = 1 then spnRawToks spn ++ .op (spnSignOp spn) :: [.atom (spnOffsetTok spn)]
  else if spn.offset = 0 then spnFactorToks spn ++ .op .mul :: [.atom (spnScaleTok spn)]
  else (spnFactorToks spn ++ .op .mul :: [.atom (spnScaleTok spn)]) ++
    .op (spnSignOp spn) :: [.atom (spnOffsetTok spn)]

/-- What the whole text should mean. -/
def spnTree (spn : J1939Spn) : EpTree :=
  if spn.scale = 1 ∧ spn.offset = 0 then spnRawTree spn
  else if spn.scale = 1 then .bin (spnSignOp spn) (spnRawTree spn) (.atom (spnOffsetTok spn))
  else if spn.offset = 0 then .bin .mul (spnRawTree spn) (.atom (spnScaleTok spn))
  else .bin (spnSignOp spn) (.bin .mul (spnRawTree spn) (.atom (spnScaleTok spn)))
    (.atom (spnOffsetTok spn))

theorem spnRawText_eq {raw : List Char} (hraw : spnRawText spn = some raw)
    (hpos : spn.bits ≠ 0) (hle : spn.bits ≤ 32) :
    raw = (spnRawToks spn).flatMap tokText ∧
      (('+' ∈ raw ∨ raw.head? = some '(') ↔ ¬ (WholeBytes spn ∧ spn.bits = 8)) := by
  have hbyte := spn.byte_lt
  rw [spnRawText] at hraw
  rw [spnRawToks]
  split_ifs at hraw ⊢ with hwhole hin
  · obtain ⟨n, hn⟩ : ∃ n, spn.bits / 8 = n + 1 := ⟨spn.bits / 8 - 1, by have := hwhole.2; omega⟩
    have hlen := length_spnSum_le (n := n) hbyte (by omega)
    rw [hn, snprintf_eq (by omega), some.injEq] at hraw
    subst hraw
    refine ⟨by rw [spnSumToks_text, hn, Nat.add_sub_cancel], ?_⟩
    have hnot : '+' ∉ decText spn.byte := fun hmem => by cases isDigit_of_mem_decText hmem
    cases n with
    | zero =>
      have h8 : spn.bits = 8 := by have := hwhole.2; omega
      simp [spnBytePiece, hnot, hwhole, h8]
    | succ n =>
      have h8 : spn.bits ≠ 8 := by omega
      have hplus : '+' ∈ (List.range (n + 1 + 1)).flatMap (spnBytePiece spn.byte) := by
        rw [range_succ]
        simp [spnBytePiece]
      simp only [hplus, h8, and_false, not_false_eq_true, true_or]
  · have h1 := length_decText_le (n := spn.byte) (k := 3) (by decide) (by omega)
    have h2 := length_decText_le (n := spn.bit) (k := 1) (by decide) (by omega)
    have h3 : (decText (2 ^ spn.bits - 1)).length ≤ 3 := by
      refine length_decText_le (by decide) ?_
      have : 2 ^ spn.bits ≤ 2 ^ 8 := Nat.pow_le_pow_right (by decide) (by omega)
      omega
    rw [snprintf_eq, some.injEq] at hraw
    · subst hraw
      refine ⟨?_, by simp [hwhole]⟩
      simp [spnShiftToks, spnMaskTok, byteTok, numTok, tokText, EpOp.text, EpOp.char]
    · simp only [length_cons, length_append]
      omega

/-- **The text is its tokens.** -/
theorem apJ1939StdExpression_text (h : apJ1939StdExpression spn cap = some text) :
    spn.bits ≠ 0 ∧ spn.bits ≤ 32 ∧ (∃ raw, spnRawText spn = some raw) ∧
      text = (spnToks spn).flatMap tokText := by
  rw [apJ1939StdExpression, ite_none_left_eq_some] at h
  obtain ⟨hbits, h⟩ := h
  rw [not_or, not_or, Nat.not_lt] at hbits
  obtain ⟨-, hpos, hle⟩ := hbits
  obtain ⟨raw, hraw, h⟩ := bind_eq_some_iff.1 h
  obtain ⟨htoks, hcomposite⟩ := spnRawText_eq hraw hpos hle
  refine ⟨hpos, hle, ⟨raw, hraw⟩, ?_⟩
  rw [ite_none_left_eq_some, some.injEq] at h
  obtain ⟨-, rfl⟩ := h
  have hsign : tokText (.op (spnSignOp spn)) = [if spn.offset < 0 then '-' else '+'] := by
    rw [spnSignOp]
    split_ifs <;> rfl
  have hnum : ∀ run, tokText (.atom (.num run)) = run := fun _ => rfl
  have hmul : tokText (.op .mul) = ['*'] := rfl
  have hopen : tokText .lpar = ['('] := rfl
  have hclose : tokText .rpar = [')'] := rfl
  simp only [hcomposite]
  subst htoks
  rw [spnToks, spnFactorToks, spnOffsetTok, spnScaleTok]
  by_cases hscale : spn.scale = 1 <;> by_cases hoffset : spn.offset = 0 <;>
    by_cases hbyte : WholeBytes spn ∧ spn.bits = 8 <;>
    simp [hscale, hoffset, hbyte, hsign, hnum, hmul, hopen, hclose]

/-! ## What the text means -/

/-- A field inside a byte with an offset and no scale: nothing is put in parentheses. -/
def OffsetUnderMask (spn : J1939Spn) : Prop :=
  ¬ WholeBytes spn ∧ spn.scale = 1 ∧ spn.offset ≠ 0

theorem prec_spnSignOp (spn : J1939Spn) : (spnSignOp spn).prec = 4 := by
  rw [spnSignOp]
  split_ifs <;> rfl

theorem operandsOf_spnSignOp (spn : J1939Spn) : operandsOf (.op (spnSignOp spn)) ≤ 1 := by
  rw [spnSignOp]
  split_ifs <;> decide

theorem isRun_spnOffset (spn : J1939Spn) :
    IsRun (numText (if spn.offset < 0 then -spn.offset else spn.offset)) := by
  apply isRun_numText
  split_ifs with h
  · exact (neg_pos.mpr h).le
  · exact not_lt.mp h

theorem means_spnFactor {spn : J1939Spn} (hle : spn.bits ≤ 32) {p : ℕ} :
    Means (spn.byte + 3) 7 7 p (spnRawTree spn) (spnFactorToks spn) := by
  rw [spnFactorToks]
  split_ifs with hbyte
  · obtain ⟨hwhole, h8⟩ := hbyte
    rw [spnRawTree, spnRawToks, if_pos hwhole, if_pos hwhole, h8]
    exact (Means.byte (by omega)).mono_stacks (by decide) (by decide)
  · exact (means_spnRaw hle (by decide)).paren

/-- **The form of the text**: it renders its tree, the one form aside. -/
theorem means_spn (hle : spn.bits ≤ 32) (hscale : spn.scale ≠ 1 → 0 ≤ spn.scale)
    (hform : ¬ OffsetUnderMask spn) : Means (spn.byte + 3) 10 9 1 (spnTree spn) (spnToks spn) := by
  have hsign := operandsOf_spnSignOp spn
  have hone : 1 ≤ (spnSignOp spn).prec := by
    rw [prec_spnSignOp]
    decide
  have hoffset : Means (spn.byte + 3) 1 0 ((spnSignOp spn).prec + 1) (.atom (spnOffsetTok spn))
      [.atom (spnOffsetTok spn)] := .num (isRun_spnOffset spn)
  have hfactor : spn.scale ≠ 1 → ∀ {p}, p ≤ EpOp.mul.prec →
      Means (spn.byte + 3) 8 8 p (.bin .mul (spnRawTree spn) (.atom (spnScaleTok spn)))
        (spnFactorToks spn ++ .op .mul :: [.atom (spnScaleTok spn)]) := fun h1 p hp =>
    (means_spnFactor hle).bin .mul (.num (isRun_numText (hscale h1))) rfl hp
  rw [spnTree, spnToks]
  split_ifs with hplain hunit hnone
  · exact (means_spnRaw hle (by decide)).mono_stacks (by decide) (by decide)
  · have hwhole : WholeBytes spn := by
      by_contra hwhole
      exact hform ⟨hwhole, hunit, fun h0 => hplain ⟨hunit, h0⟩⟩
    have hraw : Means (spn.byte + 3) 7 6 (spnSignOp spn).prec (spnRawTree spn)
        (spnRawToks spn) := by
      rw [prec_spnSignOp, spnRawTree, spnRawToks, if_pos hwhole, if_pos hwhole]
      exact (means_spnSum (by decide) (by omega)).mono_stacks (by omega) (by omega)
    exact (hraw.bin _ hoffset rfl hone).mono_stacks (by omega) (by omega)
  · exact (hfactor hunit (by decide)).mono_stacks (by decide) (by decide)
  · have hscaled := hfactor hunit (p := (spnSignOp spn).prec) (by rw [prec_spnSignOp]; decide)
    exact (hscaled.bin _ hoffset rfl hone).mono_stacks (by omega) (by omega)

/-- The scale and the offset that are read back. -/
def printedScale (spn : J1939Spn) : ℚ :=
  if spn.scale = 1 then 1 else decimalValue (numText spn.scale)

def printedOffset (spn : J1939Spn) : ℚ :=
  if spn.offset = 0 then 0
  else if spn.offset < 0 then -decimalValue (numText (-spn.offset))
  else decimalValue (numText spn.offset)

/-- **The value of the text**: the raw value, with the numbers as they are printed. -/
theorem treeValue_spn {raw : ℚ} (hraw : treeValue ratArith data v (spnRawTree spn) = some raw) :
    treeValue ratArith data v (spnTree spn) =
      some (raw * printedScale spn + printedOffset spn) := by
  have hsign : ∀ a : ℚ, opValue ratArith (spnSignOp spn) a
      (decimalValue (numText (if spn.offset < 0 then -spn.offset else spn.offset))) =
        some (if spn.offset < 0 then a - decimalValue (numText (-spn.offset))
          else a + decimalValue (numText spn.offset)) := by
    intro a
    rw [spnSignOp]
    split_ifs <;> rfl
  have hnum : ∀ run, treeValue ratArith data v (.atom (.num run)) = some (decimalValue run) :=
    fun _ => rfl
  have hmul : ∀ a b : ℚ, opValue ratArith .mul a b = some (a * b) := fun _ _ => rfl
  rw [spnTree, printedScale, printedOffset, spnScaleTok, spnOffsetTok]
  split_ifs <;> simp_all [treeValue, sub_eq_add_neg]

/-! ## Agreement -/

/-- A payload of a small raw value. -/
def leastPayload (spn : J1939Spn) (raw : ℕ) : List UInt8 :=
  List.replicate spn.byte 0 ++ UInt8.ofNat (raw * 2 ^ spn.bit) :: List.replicate 3 0

theorem leastPayload_spec (htext : spnRawText spn = some text) (hpos : spn.bits ≠ 0)
    (hle : spn.bits ≤ 32) {raw : ℕ} (hraw : raw < 2) :
    (leastPayload spn raw).length < sizeMod ∧ spnBytes spn ≤ (leastPayload spn raw).length ∧
      spnRaw spn (leastPayload spn raw) = raw := by
  have hlength : (leastPayload spn raw).length = spn.byte + 4 := by
    rw [leastPayload, length_append, length_replicate, length_cons, length_replicate]
  have hbyte := spn.byte_lt
  -- the field lies in the four bytes, and starts in the first
  have hfield : spn.bit ≤ 7 ∧ spn.bit + spn.bits ≤ 32 := by
    rw [spnRawText] at htext
    split_ifs at htext with hwhole hin
    · have := hwhole.1
      omega
    · omega
  have hfirst : raw * 2 ^ spn.bit < 2 ^ 8 := by
    have hbit : 2 ^ spn.bit ≤ 2 ^ 7 := Nat.pow_le_pow_right (by decide) hfield.1
    have := Nat.mul_le_mul (le_of_lt_succ hraw) hbit
    omega
  have hbytes : spn.byte < spnBytes spn ∧ spnBytes spn ≤ spn.byte + 4 := by
    rw [spnBytes]
    omega
  refine ⟨by rw [sizeMod]; omega, by rw [hlength]; exact hbytes.2, ?_⟩
  have hzeros : ∀ n, ofLeBytes ((List.replicate 3 0).take n) = 0 := by
    intro n
    have hrep : ∀ n, ofLeBytes (List.replicate n 0) = 0 := by
      intro n
      induction n with
      | zero => rfl
      | succ n ih => rw [replicate_succ, ofLeBytes, ih]; rfl
    rw [take_replicate, hrep]
  have hgather : ofLeBytes (((leastPayload spn raw).take (spnBytes spn)).drop spn.byte) =
      raw * 2 ^ spn.bit := by
    rw [drop_take, leastPayload, drop_left' (by rw [length_replicate]),
      show spnBytes spn - spn.byte = spnBytes spn - spn.byte - 1 + 1 by omega, take_succ_cons,
      ofLeBytes, hzeros, Nat.add_zero, UInt8.toNat_ofNat_of_lt' hfirst]
  have hbits : raw < 2 ^ spn.bits := by
    have htwo : 2 ^ 1 ≤ 2 ^ spn.bits := Nat.pow_le_pow_right (by decide) (by omega)
    omega
  rw [spnRaw, hgather, mod_eq_of_lt (hfirst.trans (by decide)),
    Nat.mul_div_cancel _ (by positivity), mod_eq_of_lt hbits]

/-- **The expression gives** the raw value with the numbers as they are printed. -/
theorem apJ1939StdExpression_eval (h : apJ1939StdExpression spn cap = some text)
    (hscale : spn.scale ≠ 1 → 0 ≤ spn.scale) (hform : ¬ OffsetUnderMask spn) (v : ℚ)
    (hsize : data.length < sizeMod) (hlen : spnBytes spn ≤ data.length) :
    expressionParserEval ratArith text data v =
      .ok (spnRaw spn data * printedScale spn + printedOffset spn) := by
  obtain ⟨hpos, hle, ⟨raw, hraw⟩, rfl⟩ := apJ1939StdExpression_text h
  have hvalue := treeValue_spnRaw hraw hpos hle v hlen
  exact (means_spn hle hscale hform).eval ratArith (by decide) (by decide) hsize
    (treeValue_spn hvalue)

theorem eval_ne_of_neg (hle : spn.bits ≤ 32) (hscale : spn.scale < 0) (data : List UInt8)
    (v x : ℚ) : expressionParserEval ratArith ((spnToks spn).flatMap tokText) data v ≠ .ok x := by
  obtain ⟨run, hrun, hisRun⟩ := numText_neg hscale
  have hfactor := @means_spnFactor spn hle 1
  have hplaced := (Infix.isInfix_iff_placed EpOp.sub _).mp (hfactor.reads true)
  have hsep := Infix.placed_separated EpOp.sub hplaced
  have hunit : spn.scale ≠ 1 := by
    rintro h
    rw [h] at hscale
    exact absurd hscale (by decide)
  -- what stands behind the number: nothing, or the offset
  obtain ⟨rest, hrest, hw, htext⟩ : ∃ rest : List EpTok,
      Infix.separated (.op .sub :: .atom (.num run) :: rest) = true ∧
      (∀ tok ∈ rest, Writable tok) ∧ (spnToks spn).flatMap tokText = (spnFactorToks spn ++
          .op .mul :: .op .sub :: .atom (.num run) :: rest).flatMap tokText := by
    have hscaleText : tokText (.atom (spnScaleTok spn)) =
        tokText (.op .sub) ++ tokText (.atom (.num run)) := hrun
    by_cases hoffset : spn.offset = 0
    · refine ⟨[], rfl, by simp, ?_⟩
      rw [spnToks, if_neg fun h => hunit h.1, if_neg hunit, if_pos hoffset]
      simp [hscaleText]
    · refine ⟨[.op (spnSignOp spn), .atom (spnOffsetTok spn)], rfl, ?_, ?_⟩
      · intro tok htok
        simp only [mem_cons, not_mem_nil, or_false] at htok
        rcases htok with rfl | rfl
        · trivial
        · exact isRun_spnOffset spn
      · rw [spnToks, if_neg fun h => hunit h.1, if_neg hunit, if_neg hoffset]
        simp [hscaleText]
  rw [htext]
  refine expressionParserEval_minus ratArith (by decide) (fun tok htok => ?_)
    (Infix.separated_append_op hrest hsep) data v x
  simp only [mem_append, mem_cons] at htok
  rcases htok with htok | rfl | rfl | rfl | htok
  · exact hfactor.writable tok htok
  · trivial
  · trivial
  · exact hisRun
  · exact hw tok htok

theorem eval_offsetUnderMask (hform : OffsetUnderMask spn) (v : ℚ) (hsize : data.length < sizeMod)
    (hbyte : data[spn.byte]? = some 0) :
    expressionParserEval ratArith ((spnToks spn).flatMap tokText) data v = .ok 0 := by
  obtain ⟨hin, hunit, hoffset⟩ := hform
  have htoks : spnToks spn = spnShiftToks spn ++ .op .band ::
      ([.atom (spnMaskTok spn)] ++ .op (spnSignOp spn) :: [.atom (spnOffsetTok spn)]) := by
    rw [spnToks, if_neg fun h => hoffset h.2, if_pos hunit, spnRawToks, if_neg hin]
    simp
  have hoffsetTok : Means spn.byte 1 0 ((spnSignOp spn).prec + 1) (.atom (spnOffsetTok spn))
      [.atom (spnOffsetTok spn)] := .num (isRun_spnOffset spn)
  have hmask : Means spn.byte 3 1 (EpOp.band.prec + 1)
      (.bin (spnSignOp spn) (.atom (spnMaskTok spn)) (.atom (spnOffsetTok spn)))
      ([.atom (spnMaskTok spn)] ++ .op (spnSignOp spn) :: [.atom (spnOffsetTok spn)]) := by
    have hsign := operandsOf_spnSignOp spn
    exact ((Means.num (isRun_decText _)).bin _ hoffsetTok rfl
      (by rw [prec_spnSignOp]; decide)).mono_stacks (by omega) le_rfl
  have hmeans := (means_spnShift (le_refl spn.byte)).bin .band hmask rfl (show 1 ≤ _ by decide)
  rw [htoks]
  refine hmeans.eval ratArith (by decide) (by decide) hsize ?_
  obtain ⟨off, hoff⟩ : ∃ off, treeValue ratArith data v
      (.bin (spnSignOp spn) (.atom (spnMaskTok spn)) (.atom (spnOffsetTok spn))) = some off := by
    rw [spnSignOp]
    split_ifs <;> exact ⟨_, rfl⟩
  have hshift : treeValue ratArith data v (spnShiftTree spn) = some 0 := by
    have hzero : ratArith.ofInt ((0 : UInt8).toNat : ℤ) = (0 : ℚ) := rfl
    simp only [spnShiftTree, treeValue, atomValue, hbyte, map_some, bind, bind_some,
      opValue, hzero, shr_zero]
  rw [treeValue, hshift, hoff]
  exact congrArg some (band_zero off)

/-- The numbers of the descriptor are printed whole, the scale without a sign. -/
def SpnPrinted (spn : J1939Spn) : Prop :=
  0 ≤ spn.scale ∧ PrintedWhole spn.scale ∧ PrintedWhole |spn.offset|

theorem printedScale_eq (h : 0 ≤ spn.scale) :
    printedScale spn = spn.scale ↔ PrintedWhole spn.scale := by
  rw [printedScale]
  split_ifs with hunit
  · rw [hunit]
    exact iff_of_true rfl ⟨0, by decide, 1, by norm_num, by decide⟩
  · exact decimalValue_numText h

theorem printedOffset_eq (spn : J1939Spn) :
    printedOffset spn = spn.offset ↔ PrintedWhole |spn.offset| := by
  rw [printedOffset]
  split_ifs with hzero hneg
  · rw [hzero]
    exact iff_of_true rfl ⟨0, by decide, 0, by norm_num, by decide⟩
  · rw [abs_of_neg hneg, neg_eq_iff_eq_neg]
    exact decimalValue_numText (neg_pos.mpr hneg).le
  · rw [abs_of_nonneg (not_lt.mp hneg)]
    exact decimalValue_numText (not_lt.mp hneg)

theorem spnAgrees_of_printed (h : apJ1939StdExpression spn cap = some text)
    (hform : ¬ OffsetUnderMask spn) (hprinted : SpnPrinted spn) : SpnAgrees spn text := by
  obtain ⟨hscale, hwhole, hoffset⟩ := hprinted
  obtain ⟨hpos, hle, -⟩ := apJ1939StdExpression_text h
  intro data v value hsize hvalid
  obtain ⟨hlen, -, rfl⟩ := (j1939SpnDecode_valid_iff hpos hle).1 hvalid
  rw [apJ1939StdExpression_eval h (fun _ => hscale) hform v hsize hlen,
    (printedScale_eq hscale).2 hwhole, (printedOffset_eq spn).2 hoffset]

/-- **The expression agrees with the decoder** exactly when the numbers of the
descriptor are printed whole and it is not an unscaled field inside a byte with an
offset. -/
theorem apJ1939StdExpression_agrees_iff {spn : J1939Spn} {cap : ℕ} {text : List Char}
    (h : apJ1939StdExpression spn cap = some text) :
    SpnAgrees spn text ↔ ¬ OffsetUnderMask spn ∧ SpnPrinted spn := by
  refine ⟨fun hagrees => ?_, fun hcond => spnAgrees_of_printed h hcond.1 hcond.2⟩
  obtain ⟨hpos, hle, ⟨raw, hraw⟩, htext⟩ := apJ1939StdExpression_text h
  -- the two least raw values show both numbers
  have hleast : ∀ r < 2, expressionParserEval ratArith text (leastPayload spn r) 0 =
      .ok (r * spn.scale + spn.offset) := by
    intro r hr
    obtain ⟨hsize, hlen, hvalue⟩ := leastPayload_spec hraw hpos hle hr
    refine hagrees _ 0 _ hsize ((j1939SpnDecode_valid_iff hpos hle).2 ⟨hlen, ?_, ?_⟩)
    · rw [hvalue]
      exact j1939RawClass_least hr _
    · rw [hvalue]
  have hscale : 0 ≤ spn.scale := by
    by_contra hneg
    have hrefused := eval_ne_of_neg hle (not_le.mp hneg) (leastPayload spn 0) 0
    rw [← htext] at hrefused
    exact hrefused _ (hleast 0 (by decide))
  have hform : ¬ OffsetUnderMask spn := by
    intro hmask
    obtain ⟨hsize, -, -⟩ := leastPayload_spec hraw hpos hle Nat.zero_lt_two
    have hbyte : (leastPayload spn 0)[spn.byte]? = some 0 := by
      rw [leastPayload]
      simp
    have hlost := eval_offsetUnderMask hmask 0 hsize hbyte
    rw [← htext, hleast 0 (by decide)] at hlost
    simp only [cast_zero, zero_mul, zero_add, Except.ok.injEq] at hlost
    exact hmask.2.2 hlost
  have hprinted : ∀ r : ℕ, r < 2 → (r : ℚ) * spn.scale + spn.offset =
      r * printedScale spn + printedOffset spn := by
    intro r hr
    obtain ⟨hsize, hlen, hvalue⟩ := leastPayload_spec hraw hpos hle hr
    have heval := apJ1939StdExpression_eval h (fun _ => hscale) hform 0 hsize hlen
    rw [hleast r hr, hvalue, Except.ok.injEq] at heval
    exact heval
  have hzero := hprinted 0 (by decide)
  have hone := hprinted 1 (by decide)
  simp only [cast_zero, zero_mul, zero_add, cast_one, one_mul] at hzero hone
  rw [hzero, add_left_inj] at hone
  exact ⟨hform, hscale, (printedScale_eq hscale).1 hone.symm, (printedOffset_eq spn).1 hzero.symm⟩

/-- Engine speed, read by the evaluator. -/
theorem apJ1939StdExpression_agrees_speed :
    apJ1939StdExpression (spn16 "EngineSpeed" 3 0.125 0) 96 = some "(B3+B4*256)*0.125".toList ∧
      (SpnAgrees (spn16 "EngineSpeed" 3 0.125 0) "(B3+B4*256)*0.125".toList ↔
        ¬ OffsetUnderMask (spn16 "EngineSpeed" 3 0.125 0) ∧
          SpnPrinted (spn16 "EngineSpeed" 3 0.125 0)) := by
  have htext : apJ1939StdExpression (spn16 "EngineSpeed" 3 0.125 0) 96 =
      some "(B3+B4*256)*0.125".toList := by decide +kernel
  exact ⟨htext, apJ1939StdExpression_agrees_iff htext⟩

/-- Two bits with an offset: `(B4>>2)&3-1` for a raw zero is not minus one. -/
theorem not_apJ1939StdExpression_agrees :
    ¬ ∀ (spn : J1939Spn) (cap : ℕ) (text : List Char),
      apJ1939StdExpression spn cap = some text → SpnAgrees spn text := by
  intro h
  have hagrees := h ⟨"", 4, 2, 2, 1, -1, by decide, by decide, by decide⟩ 96
    "(B4>>2)&3-1".toList (by decide +kernel)
  have hvalue := hagrees [0, 0, 0, 0, 0] 0 (-1) (by decide) (by decide +kernel)
  have hzero : expressionParserEval ratArith "(B4>>2)&3-1".toList [0, 0, 0, 0, 0] 0 = .ok 0 := by
    decide +kernel
  rw [hzero] at hvalue
  exact absurd hvalue (by decide)

/-! ## The built-in table -/

theorem printedWhole_of_natCast (h : v * 10 ^ 10 = n) (hn : n < 10 ^ 22) : PrintedWhole v := by
  refine ⟨10, le_rfl, n, ?_, hn⟩
  rw [← h]
  simp

/-- **Every built-in value** has an expression, and it gives what the decoder gives on
every payload. -/
theorem spnTable_agrees :
    ∀ spn ∈ spnTable, ∃ text, apJ1939StdExpression spn 96 = some text ∧ SpnAgrees spn text := by
  intro spn hspn
  have hsome : ∀ spn ∈ spnTable, (apJ1939StdExpression spn 96).isSome = true := by decide +kernel
  have hwhole : ∀ spn ∈ spnTable, WholeBytes spn := by decide
  -- ten decimals are enough for every scale and offset
  have hnum : ∀ spn ∈ spnTable, 0 ≤ spn.scale ∧ ∀ v ∈ [spn.scale, |spn.offset|],
      v * 10 ^ 10 = (v * 10 ^ 10).num.toNat ∧ (v * 10 ^ 10).num.toNat < 10 ^ 22 := by
    decide +kernel
  obtain ⟨text, htext⟩ := Option.isSome_iff_exists.1 (hsome spn hspn)
  obtain ⟨hscale, hprinted⟩ := hnum spn hspn
  obtain ⟨hs, hslt⟩ := hprinted spn.scale (by simp)
  obtain ⟨ho, holt⟩ := hprinted |spn.offset| (by simp)
  refine ⟨text, htext, spnAgrees_of_printed htext (fun hmask => hmask.1 (hwhole spn hspn)) ?_⟩
  exact ⟨hscale, printedWhole_of_natCast hs hslt, printedWhole_of_natCast ho holt⟩

theorem spnTable_agrees_engineSpeed :
    ∃ text, apJ1939StdExpression (spn16 "EngineSpeed" 3 0.125 0) 96 = some text ∧
      SpnAgrees (spn16 "EngineSpeed" 3 0.125 0) text :=
  spnTable_agrees _ mem_cons_self

end Meatpi
