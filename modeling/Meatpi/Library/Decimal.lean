import Mathlib.Data.Int.Log
import Mathlib.Data.List.DropRight
import Mathlib.Data.Rat.Floor
import Meatpi.Library.Numeral

/-!
# Numbers printed in decimals

`printf` on a finite number, exactly: `%.<d>f` rounds to a number of decimals,
`%.<p>g` to a number of significant digits and then leaves out what is zero at the
end. Both round to the nearest, and a tie to the even one.
-/

namespace Meatpi

open List

/-- A `double`. -/
inductive CDouble where
  | fin (q : ℚ)
  | inf (neg : Bool)
  | nan
  deriving DecidableEq

/-- `-x` -/
def CDouble.neg : CDouble → CDouble
  | .fin q => .fin (-q)
  | .inf neg => .inf !neg
  | .nan => .nan

/-- The nearest integer to a number that is not negative, a tie to the even one. -/
def roundHalfEven (q : ℚ) : ℕ :=
  let below := ⌊q⌋₊
  if q - below < 1 / 2 then below
  else if 1 / 2 < q - below then below + 1
  else if below % 2 = 0 then below
  else below + 1

/-- The `float` nearest to a number, in the range of its normal values. -/
def floatOf (q : ℚ) : ℚ :=
  if q = 0 then 0
  else
    let e := Int.log 2 |q| - 23
    let m : ℚ := roundHalfEven (|q| / 2 ^ e) * 2 ^ e
    if q < 0 then -m else m

/-- The decimals of a number. -/
def decimals (d n : ℕ) : List Char := (digitsBE 10 d n).map Nat.digitChar

/-- `n / 10 ^ d` with its `d` decimals. -/
def decimalText (d n : ℕ) : List Char :=
  Nat.toDigits 10 (n / 10 ^ d) ++ if d = 0 then [] else '.' :: decimals d (n % 10 ^ d)

/-- The zeros at the end left out, and the point when nothing is left behind it. -/
def dropZeros (text : List Char) : List Char :=
  if '.' ∈ text then
    let short := text.rdropWhile (· = '0')
    if short.getLast? = some '.' then short.dropLast else short
  else text

/-- `%.<d>f` of a number that is not negative. -/
def fixedText (d : ℕ) (q : ℚ) : List Char := decimalText d (roundHalfEven (q * 10 ^ d))

/-- The exponent of a positive number rounded to `p` digits, and these digits. -/
def scientific (p : ℕ) (q : ℚ) : ℤ × ℕ :=
  let e := Int.log 10 q
  let digits := roundHalfEven (q / (10 : ℚ) ^ (e + 1 - p))
  if digits = 10 ^ p then (e + 1, 10 ^ (p - 1)) else (e, digits)

/-- `%.<p>g` of a number that is not negative. -/
def generalText (p : ℕ) (q : ℚ) : List Char :=
  if q = 0 then ['0']
  else
    let s := scientific p q
    if -4 ≤ s.1 ∧ s.1 < p then
      let d := (p - 1 - s.1).toNat
      if d = 0 then decimalText 0 s.2 else dropZeros (decimalText d s.2)
    else
      dropZeros (decimalText (p - 1) s.2) ++ 'e' :: (if s.1 < 0 then '-' else '+') ::
        (if s.1.natAbs < 10 then '0' :: Nat.toDigits 10 s.1.natAbs
          else Nat.toDigits 10 s.1.natAbs)

/-- A number printed with the sign in front. -/
def signedText (text : ℚ → List Char) : CDouble → List Char
  | .fin q => if q < 0 then '-' :: text (-q) else text q
  | .inf neg => if neg then ['-', 'i', 'n', 'f'] else ['i', 'n', 'f']
  | .nan => ['n', 'a', 'n']

theorem roundHalfEven_natCast (n : ℕ) : roundHalfEven n = n := by
  simp [roundHalfEven]

theorem abs_roundHalfEven_sub_le {q : ℚ} (hq : 0 ≤ q) : |(roundHalfEven q : ℚ) - q| ≤ 1 / 2 := by
  have hbelow := Nat.floor_le hq
  have habove := Nat.lt_floor_add_one q
  rw [roundHalfEven, abs_le]
  split_ifs <;> push_cast <;> constructor <;> linarith

/-- Of a positive number 24 bits are kept. -/
theorem abs_float_sub_le {q : ℚ} (hq : 0 < q) {e : ℤ} (he : e = Int.log 2 q - 23) :
    |roundHalfEven (q / 2 ^ e) * (2 : ℚ) ^ e - q| ≤ q / 2 ^ 24 := by
  have hulp : (0 : ℚ) < 2 ^ e := zpow_pos two_pos e
  -- the last bit that is kept is a part in `2 ^ 23` of the number, or less
  have hlast : (2 : ℚ) ^ e * 2 ^ 23 ≤ q := by
    have hlog := Int.zpow_log_le_self one_lt_two hq
    rw [show Int.log 2 q = e + 23 by omega] at hlog
    push_cast at hlog
    rwa [zpow_add₀ two_ne_zero] at hlog
  have hscaled : roundHalfEven (q / 2 ^ e) * (2 : ℚ) ^ e - q =
      (roundHalfEven (q / 2 ^ e) - q / 2 ^ e) * 2 ^ e := by
    rw [sub_mul, div_mul_cancel₀ _ hulp.ne']
  have hround := abs_roundHalfEven_sub_le (div_nonneg hq.le hulp.le)
  rw [hscaled, abs_mul, abs_of_pos hulp]
  linarith [mul_le_mul_of_nonneg_right hround hulp.le]

/-- **A `float` is close.** -/
theorem abs_floatOf_sub_le (q : ℚ) : |floatOf q - q| ≤ |q| / 2 ^ 24 := by
  by_cases h0 : q = 0
  · simp [floatOf, h0]
  have hclose := abs_float_sub_le (abs_pos.2 h0) rfl
  rw [floatOf, if_neg h0]
  dsimp only
  split_ifs with hneg
  · rw [abs_of_neg hneg, sub_neg_eq_add, add_comm] at hclose
    rwa [abs_of_neg hneg, ← abs_neg, neg_sub, sub_neg_eq_add]
  · rwa [abs_of_nonneg (not_lt.1 hneg)] at hclose ⊢

theorem dropZeros_point (ds : List Char) : ∀ {ds' : List Char}, '.' ∉ ds' →
    ∃ short zeros, ds' = short ++ List.replicate zeros '0' ∧
      dropZeros (ds ++ '.' :: ds') = if short = [] then ds else ds ++ '.' :: short := by
  have hdot : ∀ ds' : List Char, '.' ∈ ds ++ '.' :: ds' := by simp
  intro ds'
  induction ds' using List.reverseRecOn with
  | nil =>
    intro _
    refine ⟨[], 0, rfl, ?_⟩
    rw [dropZeros]
    simp
  | append_singleton ds' c ih =>
    intro h
    have hshape : ds ++ '.' :: (ds' ++ [c]) = (ds ++ '.' :: ds') ++ [c] := by simp
    by_cases hzero : c = '0'
    · subst hzero
      obtain ⟨short, zeros, hds', htext⟩ := ih fun hmem => h (mem_append_left _ hmem)
      refine ⟨short, zeros + 1, ?_, ?_⟩
      · rw [replicate_succ', ← append_assoc, ← hds']
      · rw [← htext, dropZeros, dropZeros, if_pos (hdot _), if_pos (hdot _), hshape,
          rdropWhile_concat_pos _ _ _ (by decide)]
    · have hlast : ((ds ++ '.' :: ds') ++ [c]).getLast? ≠ some '.' := by
        rw [List.getLast?_concat]
        rintro ⟨⟩
        exact h (by simp)
      refine ⟨ds' ++ [c], 0, by simp, ?_⟩
      rw [dropZeros, if_pos (hdot _), hshape, rdropWhile_concat_neg _ _ _ (by simpa using hzero)]
      rw [if_neg hlast, if_neg (by simp)]

/-! ## The characters -/

/-- A digit or the point. -/
def IsDecimalChar (c : Char) : Prop := c.isDigit = true ∨ c = '.'

theorem isDigit_digitChar : ∀ {d : ℕ}, d < 10 → (Nat.digitChar d).isDigit = true := by decide

theorem isDecimalChar_decimalText {d n : ℕ} {c : Char} (h : c ∈ decimalText d n) :
    IsDecimalChar c := by
  rw [decimalText, mem_append] at h
  rcases h with h | h
  · exact .inl (Nat.isDigit_of_mem_toDigits (by decide) (by decide) h)
  · split_ifs at h
    · cases h
    · rcases mem_cons.1 h with rfl | h
      · exact .inr rfl
      · obtain ⟨k, hk, rfl⟩ := mem_map.1 h
        exact .inl (isDigit_digitChar (lt_of_mem_digitsBE (by decide) hk))

theorem decimalText_head (d n : ℕ) : ∃ c rest, decimalText d n = c :: rest ∧ c.isDigit = true := by
  obtain ⟨c, rest, h⟩ := exists_cons_of_ne_nil (Nat.toDigits_ne_nil (b := 10) (n := n / 10 ^ d))
  refine ⟨c, _, by rw [decimalText, h, cons_append], ?_⟩
  exact Nat.isDigit_of_mem_toDigits (by decide) (by decide) (h ▸ mem_cons_self)

end Meatpi
