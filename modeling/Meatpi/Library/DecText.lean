import Meatpi.Library.Numeral

/-!
# Decimal texts

A number as a program prints it, and a run of digits as it reads one. Printing and
reading are inverse to each other (`decNat_decText`, `decText_decNat`), but for zeros
that a text may have in front.
-/

namespace Meatpi

open List Nat

variable {c : Char} {n : ℕ} {ds : List Char}

/-- A digit run as a number. -/
def decNat (digits : List Char) : ℕ :=
  ofDigitsBE 10 (digits.map fun c => c.toNat - '0'.toNat)

/-- A number as it is written. -/
def decText (n : ℕ) : List Char := Nat.toDigits 10 n

theorem decText_ne_nil (n : ℕ) : decText n ≠ [] := toDigits_ne_nil

theorem isDigit_of_mem_decText (h : c ∈ decText n) : c.isDigit = true :=
  isDigit_of_mem_toDigits (by decide) (by decide) h

theorem decNat_decText (n : ℕ) : decNat (decText n) = n := by
  have hread : ∀ (cs : List Char) (k : ℕ), Nat.ofDigitChars 10 cs k =
      (cs.map fun c => c.toNat - '0'.toNat).foldl (fun a d => a * 10 + d) k := by
    intro cs
    induction cs with
    | nil => intro k; rfl
    | cons c cs ih =>
      intro k
      rw [ofDigitChars_cons, ih, map_cons, foldl_cons, Nat.mul_comm]
  rw [decNat, ofDigitsBE, ← hread, decText, ofDigitChars_ten_toDigits]

theorem decNat_concat (ds : List Char) (c : Char) :
    decNat (ds ++ [c]) = decNat ds * 10 + (c.toNat - '0'.toNat) := by
  rw [decNat, map_append, map_singleton, ofDigitsBE_concat, ← decNat]

theorem decNat_append (ds ds' : List Char) :
    decNat (ds ++ ds') = decNat ds * 10 ^ ds'.length + decNat ds' := by
  induction ds' using List.reverseRecOn with
  | nil => simp [decNat]
  | append_singleton ds' c ih =>
    rw [← append_assoc, decNat_concat, decNat_concat, ih, length_append, length_singleton]
    ring

/-! ## Digits -/

theorem takeWhile_isDigit (rest : List Char) (h : ∀ c ∈ ds, c.isDigit = true)
    (hrest : ∀ c ∈ rest.head?, c.isDigit = false) :
    (ds ++ rest).takeWhile Char.isDigit = ds ∧ (ds ++ rest).dropWhile Char.isDigit = rest := by
  rw [takeWhile_append_of_pos h, dropWhile_append_of_pos h]
  cases rest with
  | nil => simp
  | cons c rest => simp [hrest c rfl]

theorem digit_cases (h : c.isDigit = true) :
    c.toNat - '0'.toNat < 10 ∧ Nat.digitChar (c.toNat - '0'.toNat) = c := by
  simp only [Char.isDigit, Bool.and_eq_true, decide_eq_true_eq] at h
  have hlow := UInt32.le_iff_toNat_le.1 h.1
  have hhigh := UInt32.le_iff_toNat_le.1 h.2
  change 48 ≤ c.toNat at hlow
  change c.toNat ≤ 57 at hhigh
  change c.toNat - 48 < 10 ∧ Nat.digitChar (c.toNat - 48) = c
  have hlt : c.toNat - 48 < 10 := by omega
  refine ⟨hlt, Char.toNat_inj.mp ?_⟩
  rw [toNat_digitChar_of_lt_ten hlt]
  omega

theorem decNat_lt (h : ∀ c ∈ ds, c.isDigit = true) : decNat ds < 10 ^ ds.length := by
  have hdigit : ∀ d ∈ ds.map (fun c => c.toNat - '0'.toNat), d < 10 := by
    intro d hd
    obtain ⟨c, hc, rfl⟩ := mem_map.1 hd
    exact (digit_cases (h c hc)).1
  have hlt := ofDigitsBE_lt hdigit
  rwa [length_map] at hlt

/-- **A run of digits is how its number is written**, unless a zero is in front of it. -/
theorem decText_decNat (h : ∀ c ∈ ds, c.isDigit = true) (hne : ds ≠ [])
    (hzero : 1 < ds.length → ds.head? ≠ some '0') : decText (decNat ds) = ds := by
  induction ds using List.reverseRecOn with
  | nil => exact absurd rfl hne
  | append_singleton ds c ih =>
    obtain ⟨hlt, hchar⟩ := digit_cases (h c mem_concat_self)
    rw [decNat_concat, decText]
    cases ds with
    | nil =>
      rw [show decNat [] * 10 + (c.toNat - '0'.toNat) = c.toNat - '0'.toNat by simp [decNat],
        toDigits_of_lt_base hlt, hchar]
      rfl
    | cons d ds =>
      have hds : ∀ x ∈ d :: ds, x.isDigit = true := fun x hx => h x (mem_append_left _ hx)
      have hhead : d ≠ '0' := by
        intro hd
        exact hzero (by simp) (by simp [hd])
      have hprev := ih hds (cons_ne_nil _ _) fun _ => by simpa using hhead
      -- a number whose text does not start with a zero is not zero
      have hpos : 0 < decNat (d :: ds) := by
        by_contra hzero
        rw [Nat.eq_zero_of_not_pos hzero] at hprev
        exact hhead (cons.inj hprev).1.symm
      have hjoin := toDigits_append_toDigits (b := 10) (n := decNat (d :: ds))
        (d := c.toNat - '0'.toNat) (by decide) hpos hlt
      rw [Nat.mul_comm, ← hjoin, toDigits_of_lt_base hlt, hchar]
      exact congrArg (· ++ [c]) hprev

theorem head_decText (h : 1 < (decText n).length) : (decText n).head? ≠ some '0' := by
  have hlen : ¬ (Nat.toDigits 10 n).length ≤ 1 := Nat.not_le_of_lt h
  rw [length_toDigits_le_iff (by decide) (by decide)] at hlen
  induction n using Nat.strong_induction_on with
  | _ n ih =>
    rw [decText, toDigits_of_base_le (by decide) (by omega)]
    by_cases hsmall : n / 10 < 10
    · rw [toDigits_of_lt_base hsmall]
      have hdigit : ∀ d < 10, 0 < d → Nat.digitChar d ≠ '0' := by decide
      simpa using hdigit (n / 10) hsmall (by omega)
    · have hlong : ¬ (Nat.toDigits 10 (n / 10)).length ≤ 1 := by
        rw [length_toDigits_le_iff (by decide) (by decide)]
        omega
      have hprev := ih (n / 10) (by omega) (by rw [decText]; omega) (by omega)
      rw [decText] at hprev
      cases hdigits : Nat.toDigits 10 (n / 10) with
      | nil => exact absurd hdigits toDigits_ne_nil
      | cons c cs =>
        rw [hdigits] at hprev
        exact hprev

end Meatpi
