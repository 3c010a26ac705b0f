import Mathlib.Data.UInt

/-!
# Times on a 32-bit clock that wraps

A time in milliseconds is kept as its remainder, `UInt32.ofNat t`, and two such
times are compared by the sign of their difference. That is right for times less
than half a wrap apart; what it says of others is stated exactly here.
-/

namespace Meatpi

theorem stamp_add (t : ℕ) (d : UInt32) : UInt32.ofNat t + d = UInt32.ofNat (t + d.toNat) := by
  rw [UInt32.ofNat_add, UInt32.ofNat_toNat]

theorem stamp_sub (a b : ℕ) : (UInt32.ofNat a - UInt32.ofNat b).toNat =
    (2 ^ 32 - b % 2 ^ 32 + a) % 2 ^ 32 := by
  rw [UInt32.toNat_sub, UInt32.toNat_ofNat', UInt32.toNat_ofNat']
  omega

theorem toInt32_toInt (d : UInt32) :
    d.toInt32.toInt = if d.toNat < 2 ^ 31 then (d.toNat : ℤ) else (d.toNat : ℤ) - (2 ^ 32 : ℕ) := by
  have hint : d.toInt32.toInt =
      if 2 * d.toNat < 2 ^ 32 then (d.toNat : ℤ) else (d.toNat : ℤ) - (2 ^ 32 : ℕ) :=
    BitVec.toInt_eq_toNat_cond d.toBitVec
  rw [hint]
  split <;> split <;> omega

theorem toInt32_nonneg_iff (d : UInt32) : 0 ≤ d.toInt32.toInt ↔ d.toNat < 2 ^ 31 := by
  have hd : d.toNat < 2 ^ 32 := d.toNat_lt
  rw [toInt32_toInt]
  split <;> omega

theorem toInt32_pos_iff (d : UInt32) : 0 < d.toInt32.toInt ↔ 0 < d.toNat ∧ d.toNat < 2 ^ 31 := by
  have hd : d.toNat < 2 ^ 32 := d.toNat_lt
  rw [toInt32_toInt]
  split <;> omega

variable {due now : ℕ}

theorem stamp_reached_iff (hdue : due ≤ now) :
    0 ≤ (UInt32.ofNat now - UInt32.ofNat due).toInt32.toInt ↔ (now - due) % 2 ^ 32 < 2 ^ 31 := by
  have hd : (2 ^ 32 - due % 2 ^ 32 + now) % 2 ^ 32 = (now - due) % 2 ^ 32 := by omega
  rw [toInt32_nonneg_iff, stamp_sub, hd]

theorem le_of_stamp_reached (hnear : due ≤ now + 2 ^ 31)
    (hreached : 0 ≤ (UInt32.ofNat now - UInt32.ofNat due).toInt32.toInt) : due ≤ now := by
  rw [toInt32_nonneg_iff, stamp_sub] at hreached
  omega

theorem lt_of_stamp_later (hnear : due ≤ now + 2 ^ 31)
    (hlater : 0 < (UInt32.ofNat now - UInt32.ofNat due).toInt32.toInt) : due < now := by
  rw [toInt32_pos_iff, stamp_sub] at hlater
  omega

/-- Less than half a wrap apart. -/
def Near (a b : ℕ) : Prop := a < b + 2 ^ 31 ∧ b < a + 2 ^ 31

theorem stamp_later_iff {a b : ℕ} (h : Near a b) :
    0 < (UInt32.ofNat b - UInt32.ofNat a).toInt32.toInt ↔ a < b := by
  obtain ⟨hab, hba⟩ := h
  rw [toInt32_pos_iff, stamp_sub]
  omega

theorem stamp_left (hnow : now ≤ due) (hnear : due < now + 2 ^ 31) :
    (UInt32.ofNat due - UInt32.ofNat now).toInt32.toInt = (due - now : ℕ) := by
  have hd : (2 ^ 32 - now % 2 ^ 32 + due) % 2 ^ 32 = due - now := by omega
  rw [toInt32_toInt, stamp_sub, hd, if_pos (by omega)]

end Meatpi
