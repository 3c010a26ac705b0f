import Meatpi.Autopid.ExprMeaning
import Meatpi.J1939.SpnCore

/-!
# The text of a J1939 value

`ap_j1939_std_expression` and the numbers in its text: which are printed whole, and
so read back as they are (`decimalValue_numText`).
-/

namespace Meatpi

open List

variable {d : ℕ} {n : ℕ} {v : ℚ}

/-! ## The text -/

def numText (v : ℚ) : List Char := dropZeros (snprintf 24 (signedText (fixedText 10) (.fin v)))

/-- A byte of the sum, the least significant first. -/
def spnBytePiece (byte i : ℕ) : List Char :=
  if i = 0 then 'B' :: decText byte
  else '+' :: 'B' :: decText (byte + i) ++ '*' :: decText (2 ^ (8 * i))

/-- The field is whole bytes. -/
def WholeBytes (spn : J1939Spn) : Prop := spn.bit = 0 ∧ spn.bits % 8 = 0

instance (spn : J1939Spn) : Decidable (WholeBytes spn) :=
  inferInstanceAs (Decidable (_ ∧ _))

/-- `raw`: the raw value, or nothing for a field across bytes. -/
def spnRawText (spn : J1939Spn) : Option (List Char) :=
  if WholeBytes spn then
    -- whole bytes: B3+B4*256+B5*65536..
    some (snprintf 64 ((List.range (spn.bits / 8)).flatMap (spnBytePiece spn.byte)))
  else if spn.bit + spn.bits ≤ 8 then
    -- a field inside one byte
    some (snprintf 64 ('(' :: 'B' :: decText spn.byte ++ '>' :: '>' :: decText spn.bit ++
      ')' :: '&' :: decText (2 ^ spn.bits - 1)))
  else none

/-- `ap_j1939_std_expression`, into a buffer of `cap` bytes. -/
def apJ1939StdExpression (spn : J1939Spn) (cap : ℕ) : Option (List Char) :=
  if cap = 0 ∨ spn.bits = 0 ∨ 32 < spn.bits then none
  else
    (spnRawText spn).bind fun raw =>
      let scale := numText spn.scale
      let offset := numText (if spn.offset < 0 then -spn.offset else spn.offset)
      let sign := if spn.offset < 0 then '-' else '+'
      let unitScale := spn.scale = 1
      let noOffset := spn.offset = 0
      let composite := '+' ∈ raw ∨ raw.head? = some '('
      let out :=
        if unitScale ∧ noOffset then raw
        else if unitScale then raw ++ sign :: offset
        else if noOffset then
          if composite then '(' :: raw ++ ')' :: '*' :: scale else raw ++ '*' :: scale
        else
          if composite then '(' :: raw ++ ')' :: '*' :: scale ++ sign :: offset
          else raw ++ '*' :: scale ++ sign :: offset
      if cap ≤ out.length then none else some out

/-- The expression and the decoder give one value, on every payload that holds one. -/
def SpnAgrees (spn : J1939Spn) (text : List Char) : Prop :=
  ∀ (data : List UInt8) (v value : ℚ), data.length < sizeMod →
    j1939SpnDecode spn data = (.valid, some value) →
      expressionParserEval ratArith text data v = .ok value

/-! ## Numbers -/

/-- `num_text` prints all of it: at most ten decimals, and 22 digits in all (23 of an
integer, that has no point). -/
def PrintedWhole (v : ℚ) : Prop :=
  ∃ d ≤ 10, ∃ n : ℕ, v = n / 10 ^ d ∧ n < 10 ^ (if d = 0 then 23 else 22)

theorem numText_cases (hv : 0 ≤ v) {k : ℕ} (hn : roundHalfEven (v * 10 ^ 10) = n)
    (hk : (decText (n / 10 ^ 10)).length = k) :
    23 ≤ k ∧ numText v = (decText (n / 10 ^ 10)).take 23 ∨
      k ≤ 22 ∧ numText v = dropZeros (decText (n / 10 ^ 10) ++
        '.' :: decimals (min 10 (22 - k)) (n % 10 ^ 10 / 10 ^ (10 - min 10 (22 - k)))) := by
  have htext : snprintf 24 (signedText (fixedText 10) (.fin v)) =
      (decText (n / 10 ^ 10) ++ '.' :: decimals 10 (n % 10 ^ 10)).take 23 := by
    rw [signedText, if_neg (not_lt.mpr hv), fixedText, hn]
    rfl
  rcases Nat.lt_or_ge 22 k with hlong | hshort
  · refine .inl ⟨hlong, ?_⟩
    rw [numText, htext, take_append_of_le_length (by omega), dropZeros, if_neg]
    intro hmem
    cases isDigit_of_mem_decText (mem_of_mem_take hmem)
  · refine .inr ⟨hshort, ?_⟩
    have hkeep : (decimals 10 (n % 10 ^ 10)).take (22 - k) =
        decimals (min 10 (22 - k)) (n % 10 ^ 10 / 10 ^ (10 - min 10 (22 - k))) := by
      rw [decimals, decimals, ← map_take]
      rcases Nat.le_total 10 (22 - k) with h | h
      · rw [Nat.min_eq_left h, take_of_length_le (by rw [length_digitsBE]; exact h),
          Nat.pow_zero, Nat.div_one]
      · rw [Nat.min_eq_right h, take_digitsBE 10 _ h]
    rw [numText, htext, take_append, take_of_length_le (by omega), hk,
      show 23 - k = 22 - k + 1 by omega, take_succ_cons, hkeep]

theorem isDigit_decimals {c : Char} (h : c ∈ decimals d n) : c.isDigit = true := by
  obtain ⟨k, hk, rfl⟩ := mem_map.1 h
  exact isDigit_digitChar (lt_of_mem_digitsBE (by decide) hk)

theorem dropZeros_take (sign : List Char) {ds ds' : List Char} {m : ℕ} (hsign : '.' ∉ sign)
    (hne : ds ≠ []) (h : ∀ c ∈ ds, c.isDigit = true) (h' : ∀ c ∈ ds', c.isDigit = true)
    (hm : sign.length < m) :
    ∃ run, dropZeros ((sign ++ ds ++ '.' :: ds').take m) = sign ++ run ∧ IsRun run := by
  have hrun : ∀ c ∈ ds, isNumChar c = true := fun c hc => isNumChar_of_isDigit (h c hc)
  have hdot : '.' ∉ ds := fun hmem => by cases h _ hmem
  rcases Nat.lt_or_ge (sign ++ ds).length m with hlong | hshort
  · have hdrop : '.' ∉ ds'.take (m - (sign ++ ds).length - 1) :=
      fun hmem => by cases h' _ (mem_of_mem_take hmem)
    obtain ⟨short, zeros, hshort, htext⟩ := dropZeros_point (sign ++ ds) hdrop
    rw [take_append, take_of_length_le hlong.le,
      show m - (sign ++ ds).length = m - (sign ++ ds).length - 1 + 1 by omega, take_succ_cons,
      htext]
    split_ifs
    · exact ⟨ds, rfl, hne, hrun⟩
    · refine ⟨ds ++ '.' :: short, by simp, by simp, fun c hc => ?_⟩
      rcases mem_append.1 hc with hc | hc
      · exact hrun c hc
      · rcases mem_cons.1 hc with rfl | hc
        · decide
        · have hmem : c ∈ ds'.take (m - (sign ++ ds).length - 1) := by
            rw [hshort]
            exact mem_append_left _ hc
          exact isNumChar_of_isDigit (h' c (mem_of_mem_take hmem))
  · have htake : (sign ++ ds ++ '.' :: ds').take m = sign ++ ds.take (m - sign.length) := by
      rw [take_append_of_le_length hshort, take_append, take_of_length_le hm.le]
    refine ⟨ds.take (m - sign.length), ?_, ?_, fun c hc => hrun c (mem_of_mem_take hc)⟩
    · rw [htake, dropZeros, if_neg]
      intro hmem
      rcases mem_append.1 hmem with hmem | hmem
      · exact hsign hmem
      · exact hdot (mem_of_mem_take hmem)
    · have : m - sign.length ≠ 0 := by omega
      simp [take_eq_nil_iff, hne, this]

theorem fixedText_eq (v : ℚ) : ∃ n, fixedText 10 v = decText n ++ '.' ::
    decimals 10 (roundHalfEven (v * 10 ^ 10) % 10 ^ 10) :=
  ⟨roundHalfEven (v * 10 ^ 10) / 10 ^ 10, by rw [fixedText]; rfl⟩

/-- **A number that is not negative** is printed as a run. -/
theorem isRun_numText (hv : 0 ≤ v) : IsRun (numText v) := by
  obtain ⟨n, htext⟩ := fixedText_eq v
  obtain ⟨run, hdrop, hrun⟩ := dropZeros_take [] (m := 23) (by simp)
    (decText_ne_nil n) (fun _ hc => isDigit_of_mem_decText hc)
    (fun c hc => isDigit_decimals (n := roundHalfEven (v * 10 ^ 10) % 10 ^ 10) (d := 10) hc)
    (by decide)
  rw [numText, signedText, if_neg (not_lt.mpr hv), htext]
  exact hdrop ▸ hrun

/-- **A negative number** is printed with a minus. -/
theorem numText_neg (hv : v < 0) : ∃ run, numText v = '-' :: run ∧ IsRun run := by
  obtain ⟨n, htext⟩ := fixedText_eq (-v)
  obtain ⟨run, hdrop, hrun⟩ := dropZeros_take ['-'] (m := 23) (by decide)
    (decText_ne_nil n) (fun _ hc => isDigit_of_mem_decText hc)
    (fun c hc => isDigit_decimals (n := roundHalfEven (-v * 10 ^ 10) % 10 ^ 10) (d := 10) hc)
    (by decide)
  refine ⟨run, ?_, hrun⟩
  rw [numText, signedText, if_pos hv, htext]
  exact hdrop

theorem roundHalfEven_decimals (hd : d ≤ 10) :
    roundHalfEven ((n / 10 ^ d : ℚ) * 10 ^ 10) = n * 10 ^ (10 - d) := by
  have hcast : (n / 10 ^ d : ℚ) * 10 ^ 10 = (n * 10 ^ (10 - d) : ℕ) := by
    have hpow : (10 : ℚ) ^ 10 = 10 ^ (10 - d) * 10 ^ d := by rw [← pow_add, Nat.sub_add_cancel hd]
    rw [hpow]
    push_cast
    field_simp
  rw [hcast, roundHalfEven_natCast]

/-- **What is read back** of a printed number is the number, when it is printed whole. -/
theorem decimalValue_numText (hv : 0 ≤ v) : decimalValue (numText v) = v ↔ PrintedWhole v := by
  obtain ⟨n, hn⟩ : ∃ n, roundHalfEven (v * 10 ^ 10) = n := ⟨_, rfl⟩
  obtain ⟨k, hk⟩ : ∃ k, (decText (n / 10 ^ 10)).length = k := ⟨_, rfl⟩
  have hdigits : ∀ c ∈ decText (n / 10 ^ 10), c.isDigit = true :=
    fun _ hc => isDigit_of_mem_decText hc
  -- how long the integer is, by how great it is
  have hlength : ∀ {j}, 0 < j → (n / 10 ^ 10 < 10 ^ j ↔ k ≤ j) := fun hj =>
    hk ▸ (Nat.length_toDigits_le_iff (by decide) hj).symm
  have hwhole : ∀ {d m}, d ≤ 10 → m * 10 ^ (10 - d) = n → n / 10 ^ 10 = m / 10 ^ d := by
    rintro d m hd rfl
    rw [← Nat.sub_add_cancel hd, Nat.pow_add, Nat.sub_add_cancel hd, Nat.mul_comm (10 ^ (10 - d)),
      Nat.mul_div_mul_right _ _ (by positivity)]
  rcases numText_cases hv hn hk with ⟨hlong, htext⟩ | ⟨hshort, htext⟩
  · have htake : ∀ c ∈ (decText (n / 10 ^ 10)).take 23, c.isDigit = true :=
      fun c hc => hdigits c (mem_of_mem_take hc)
    rw [htext, decimalValue_digits htake]
    constructor
    · intro heq
      have hlt := decNat_lt htake
      rw [length_take, hk, Nat.min_eq_left hlong] at hlt
      exact ⟨0, by decide, _, by rw [pow_zero, div_one, heq], hlt⟩
    · rintro ⟨d, hd, m, rfl, hm⟩
      rw [roundHalfEven_decimals hd] at hn
      have hint := hwhole hd hn
      -- with decimals the integer would be short
      obtain rfl : d = 0 := by
        by_contra hd0
        rw [if_neg hd0] at hm
        have := (hlength (by decide)).1 (hint ▸ (Nat.div_le_self _ _).trans_lt hm)
        omega
      rw [Nat.pow_zero, Nat.div_one] at hint
      rw [hint] at hk hlength ⊢
      have hle : k ≤ 23 := (hlength (by decide)).1 hm
      rw [take_of_length_le (by omega), decNat_decText, pow_zero, div_one]
  · obtain ⟨d, hd⟩ : ∃ d, min 10 (22 - k) = d := ⟨_, rfl⟩
    have hd10 : d ≤ 10 := by omega
    have hkpos : 0 < k := hk ▸ length_pos_of_ne_nil (decText_ne_nil _)
    have hten : 10 ^ (10 - d) * 10 ^ d = 10 ^ 10 := by rw [← Nat.pow_add, Nat.sub_add_cancel hd10]
    have hdiv : n / 10 ^ 10 = n / 10 ^ (10 - d) / 10 ^ d := by
      rw [Nat.div_div_eq_div_mul, hten]
    have hvalue : decimalValue (numText v) = (n / 10 ^ (10 - d) : ℕ) / 10 ^ d := by
      have hmod : n % 10 ^ 10 / 10 ^ (10 - d) % 10 ^ d = n / 10 ^ (10 - d) % 10 ^ d := by
        rw [← hten, Nat.mod_mul_right_div_self, Nat.mod_mod]
      have hlen : (decimals d (n % 10 ^ 10 / 10 ^ (10 - d))).length = d := by
        rw [decimals, length_map, length_digitsBE]
      rw [htext, hd, decimalValue_dropZeros hdigits fun _ hc => isDigit_decimals hc, decNat_append,
        decNat_decText, decNat_decimals, hlen, hdiv, hmod, Nat.div_add_mod']
    rw [hvalue]
    constructor
    · intro heq
      refine ⟨d, hd10, n / 10 ^ (10 - d), heq.symm, ?_⟩
      have hlt := (hlength hkpos).2 le_rfl
      rw [hdiv, Nat.div_lt_iff_lt_mul (by positivity), ← Nat.pow_add] at hlt
      refine hlt.trans_le (Nat.pow_le_pow_right (by decide) ?_)
      split_ifs <;> omega
    · rintro ⟨d', hd', m, rfl, hm⟩
      rw [roundHalfEven_decimals hd'] at hn
      have hint := hwhole hd' hn
      have hle : d' ≤ d := by
        rcases Nat.eq_zero_or_pos d' with rfl | hpos
        · exact Nat.zero_le _
        have hlt : n / 10 ^ 10 < 10 ^ (22 - d') := by
          rw [hint, Nat.div_lt_iff_lt_mul (by positivity), ← Nat.pow_add,
            Nat.sub_add_cancel (by omega)]
          rwa [if_neg (by omega)] at hm
        have := (hlength (by omega)).1 hlt
        omega
      have hsplit : n / 10 ^ (10 - d) = m * 10 ^ (d - d') := by
        rw [← hn, show 10 - d' = d - d' + (10 - d) by omega, Nat.pow_add, ← Nat.mul_assoc,
          Nat.mul_div_cancel _ (by positivity)]
      have hpow : (10 : ℚ) ^ d = 10 ^ (d - d') * 10 ^ d' := by
        rw [← pow_add, Nat.sub_add_cancel hle]
      have hpos : (10 : ℚ) ^ (d - d') ≠ 0 := by positivity
      rw [hsplit, hpow]
      push_cast
      rw [mul_comm (m : ℚ), mul_div_mul_left _ _ hpos]

end Meatpi
