import Meatpi.Expression.Texts
import Meatpi.Library.Decimal

/-!
# Expressions in exact arithmetic

The evaluator on rational numbers in place of `double`s: nothing is rounded, a
number is the decimal that is written, and the bitwise operators and the shifts
work on the numbers cut to 32-bit integers, as the evaluator's own do.
-/

namespace Meatpi

open BitVec List Nat

variable {ds' : List Char} {k m : ℕ} {ds : List Char}

/-! ## Decimals -/

/-- `strtod` of a run of digits and points: up to the second point. -/
def decimalValue (run : List Char) : ℚ :=
  let whole := run.takeWhile Char.isDigit
  let decimals := ((run.dropWhile Char.isDigit).drop 1).takeWhile Char.isDigit
  decNat (whole ++ decimals) / 10 ^ decimals.length

theorem decimalValue_digits (h : ∀ c ∈ ds, c.isDigit = true) : decimalValue ds = decNat ds := by
  obtain ⟨htake, hdrop⟩ := takeWhile_isDigit [] h (by simp)
  rw [append_nil] at htake hdrop
  simp [decimalValue, htake, hdrop]

theorem decimalValue_decText (n : ℕ) : decimalValue (decText n) = n := by
  rw [decimalValue_digits fun _ hc => isDigit_of_mem_decText hc, decNat_decText]

theorem decimalValue_point (h : ∀ c ∈ ds, c.isDigit = true) (h' : ∀ c ∈ ds', c.isDigit = true) :
    decimalValue (ds ++ '.' :: ds') = decNat (ds ++ ds') / 10 ^ ds'.length := by
  obtain ⟨htake, hdrop⟩ := takeWhile_isDigit ('.' :: ds') h (by simp)
  obtain ⟨htake', -⟩ := takeWhile_isDigit [] h' (by simp)
  rw [append_nil] at htake'
  simp only [decimalValue, htake, hdrop, drop_succ_cons, drop_zero, htake']

theorem decNat_replicate_zero (n : ℕ) : decNat (List.replicate n '0') = 0 := by
  induction n with
  | zero => rfl
  | succ n ih => rw [List.replicate_succ', decNat_concat, ih]; rfl

theorem decimalValue_dropZeros (h : ∀ c ∈ ds, c.isDigit = true) (h' : ∀ c ∈ ds', c.isDigit = true) :
    decimalValue (dropZeros (ds ++ '.' :: ds')) = decNat (ds ++ ds') / 10 ^ ds'.length := by
  have hdot : '.' ∉ ds' := fun hmem => by cases h' _ hmem
  obtain ⟨short, zeros, rfl, htext⟩ := dropZeros_point ds hdot
  have hshort : decimalValue (dropZeros (ds ++ '.' :: (short ++ List.replicate zeros '0'))) =
      decNat (ds ++ short) / 10 ^ short.length := by
    rw [htext]
    split_ifs with hnil
    · rw [hnil, decimalValue_digits h]
      simp
    · exact decimalValue_point h fun c hc => h' c (mem_append_left _ hc)
  have hpos : (10 : ℚ) ^ zeros ≠ 0 := by positivity
  rw [hshort, ← List.append_assoc, decNat_append (ds ++ short), decNat_replicate_zero,
    List.length_append, List.length_replicate, pow_add]
  push_cast
  rw [add_zero, mul_div_mul_right _ _ hpos]

theorem decNat_decimals (w n : ℕ) : decNat (decimals w n) = n % 10 ^ w := by
  have hread : ∀ ds : List ℕ, (∀ d ∈ ds, d < 10) →
      decNat (ds.map Nat.digitChar) = ofDigitsBE 10 ds := by
    intro ds hds
    rw [decNat, map_map]
    congr 1
    refine (map_congr_left fun d hd => ?_).trans (map_id ds)
    have : ∀ d < 10, (Nat.digitChar d).toNat - '0'.toNat = d := by decide
    exact this d (hds d hd)
  rw [decimals, hread _ fun d hd => lt_of_mem_digitsBE (by decide) hd, ofDigitsBE_digitsBE]

/-! ## Integers -/

/-- The cast `(int)`, toward zero; what does not fit is undefined in C. -/
def intOf (a : ℚ) : BitVec 32 := BitVec.ofInt 32 (if 0 ≤ a then ⌊a⌋ else ⌈a⌉)

/-- Rational numbers. -/
def ratArith : Arith ℚ where
  ofInt n := n
  num := decimalValue
  add := (· + ·)
  sub := (· - ·)
  mul := (· * ·)
  div := (· / ·)
  band a b := (intOf a &&& intOf b).toInt
  bor a b := (intOf a ||| intOf b).toInt
  bxor a b := (intOf a ^^^ intOf b).toInt
  shl a b := (intOf a <<< (intOf b).toNat).toInt
  shr a b := ((intOf a).sshiftRight (intOf b).toNat).toInt
  isZero b := b == 0

theorem intOf_natCast (n : ℕ) : intOf n = BitVec.ofNat 32 n := by
  simp [intOf]

theorem toInt_natCast {n : ℕ} (h : n < 2 ^ 31) : (BitVec.ofNat 32 n).toInt = n := by
  rw [toInt_eq_toNat_of_lt] <;> rw [toNat_ofNat, mod_eq_of_lt (by omega)]
  omega

theorem shr_natCast (hm : m < 2 ^ 31) (hk : k < 32) : ratArith.shr m k = (m / 2 ^ k : ℕ) := by
  have hint : ((BitVec.ofNat 32 m).sshiftRight k).toInt = (m / 2 ^ k : ℕ) := by
    rw [toInt_sshiftRight, toInt_natCast hm, ← Int.natCast_shiftRight, shiftRight_eq_div_pow]
  have hk' : (BitVec.ofNat 32 k).toNat = k := by
    rw [toNat_ofNat, mod_eq_of_lt (by omega)]
  show (((intOf m).sshiftRight (intOf k).toNat).toInt : ℚ) = _
  rw [intOf_natCast, intOf_natCast, hk', hint]
  norm_cast

theorem band_natCast (hm : m < 2 ^ 31) : ratArith.band m (2 ^ k - 1 : ℕ) = (m % 2 ^ k : ℕ) := by
  have hand : BitVec.ofNat 32 m &&& BitVec.ofNat 32 (2 ^ k - 1) = BitVec.ofNat 32 (m % 2 ^ k) := by
    rw [← ofNat_and, and_two_pow_sub_one_eq_mod]
  show (((intOf m) &&& intOf (2 ^ k - 1 : ℕ)).toInt : ℚ) = _
  rw [intOf_natCast, intOf_natCast, hand, toInt_natCast ((mod_le _ _).trans_lt hm)]
  norm_cast

theorem shr_zero (b : ℚ) : ratArith.shr 0 b = 0 := by
  simp [ratArith, intOf]

theorem band_zero (b : ℚ) : ratArith.band 0 b = 0 := by
  simp [ratArith, intOf]

end Meatpi
