import Mathlib.Data.List.Induction
import Mathlib.Tactic.Ring

/-!
# Numerals of a fixed width

Digits most significant first, as text prints them: `digitsBE b w n` is the
`w`-digit numeral of `n` in base `b`, `ofDigitsBE` reads a numeral back, and
`hexWord` / `hexNum` are the two in the characters of base sixteen.
-/

namespace Meatpi

open List Nat

variable {d n : ℕ} {w : ℕ} {b : ℕ}

/-- The value of a numeral, read from its most significant digit. -/
def ofDigitsBE (b : ℕ) (ds : List ℕ) : ℕ := ds.foldl (fun a d => a * b + d) 0

/-- The numeral of `n` with exactly `w` digits (the high ones are lost when it
does not fit). -/
def digitsBE (b : ℕ) : ℕ → ℕ → List ℕ
  | 0, _ => []
  | w + 1, n => digitsBE b w (n / b) ++ [n % b]

@[simp] theorem ofDigitsBE_nil (b : ℕ) : ofDigitsBE b [] = 0 := rfl

@[simp] theorem ofDigitsBE_concat (b : ℕ) (ds : List ℕ) (d : ℕ) :
    ofDigitsBE b (ds ++ [d]) = ofDigitsBE b ds * b + d := by
  simp [ofDigitsBE, foldl_append]

@[simp] theorem length_digitsBE (b : ℕ) : ∀ w n, (digitsBE b w n).length = w
  | 0, _ => rfl
  | w + 1, n => by simp [digitsBE, length_digitsBE b w]

theorem lt_of_mem_digitsBE (hb : 0 < b) (hd : d ∈ digitsBE b w n) : d < b := by
  induction w generalizing n d with
  | zero => simp [digitsBE] at hd
  | succ w ih =>
    rcases mem_append.mp hd with hd | hd
    · exact ih hd
    · rw [mem_singleton.mp hd]
      exact mod_lt _ hb

theorem ofDigitsBE_lt {ds : List ℕ} (h : ∀ d ∈ ds, d < b) : ofDigitsBE b ds < b ^ ds.length := by
  induction ds using List.reverseRecOn with
  | nil => exact Nat.one_pos
  | append_singleton ds d ih =>
    have hds := ih fun d hd => h d (mem_append_left _ hd)
    have hd : d < b := h d (by simp)
    rw [ofDigitsBE_concat, length_append]
    calc ofDigitsBE b ds * b + d < ofDigitsBE b ds * b + b := Nat.add_lt_add_left hd _
      _ = (ofDigitsBE b ds + 1) * b := by ring
      _ ≤ b ^ ds.length * b := Nat.mul_le_mul_right b hds

theorem ofDigitsBE_digitsBE (b : ℕ) : ∀ w n, ofDigitsBE b (digitsBE b w n) = n % b ^ w := by
  intro w
  induction w with
  | zero => intro n; simp [digitsBE, mod_one]
  | succ w ih =>
    intro n
    rw [digitsBE, ofDigitsBE_concat, ih, pow_succ, Nat.mul_comm (b ^ w) b, mod_mul]
    ring

theorem ofDigitsBE_cons (b d : ℕ) (ds : List ℕ) :
    ofDigitsBE b (d :: ds) = d * b ^ ds.length + ofDigitsBE b ds := by
  induction ds using List.reverseRecOn with
  | nil =>
    rw [length_nil, pow_zero, Nat.mul_one]
    change 0 * b + d = d
    rw [Nat.zero_mul, Nat.zero_add]
  | append_singleton ds e ih =>
    rw [← cons_append, ofDigitsBE_concat, ih, ofDigitsBE_concat, length_append, length_singleton]
    ring

/-- Numerals of one length come in the order of their values, whatever signs stand for
the digits, as long as these come in the order of the digits. -/
theorem lt_of_ofDigitsBE_lt {α : Type} [LT α] {digit : α → ℕ} {xs : List α} :
    ∀ {ys : List α}, xs.length = ys.length → (∀ x ∈ xs, digit x < b) → (∀ y ∈ ys, digit y < b) →
      (∀ x ∈ xs, ∀ y ∈ ys, (digit x < digit y → x < y) ∧ (digit x = digit y → x = y)) →
      ofDigitsBE b (xs.map digit) < ofDigitsBE b (ys.map digit) → xs < ys := by
  induction xs with
  | nil =>
    intro ys hlen _ _ _ hlt
    rw [length_eq_zero_iff.1 hlen.symm] at hlt
    exact absurd hlt (Nat.lt_irrefl _)
  | cons x xs ih =>
    intro ys hlen hxs hys hsame hlt
    cases ys with
    | nil => cases hlen
    | cons y ys =>
      have hlen' : xs.length = ys.length := succ.inj hlen
      obtain ⟨hfirst, heq⟩ := hsame x mem_cons_self y mem_cons_self
      rw [map_cons, map_cons, ofDigitsBE_cons, ofDigitsBE_cons, length_map,
        length_map, hlen'] at hlt
      have hrest : ofDigitsBE b (ys.map digit) < b ^ ys.length := by
        have hdigits : ∀ d ∈ ys.map digit, d < b := by
          intro d hd
          obtain ⟨z, hz, rfl⟩ := mem_map.1 hd
          exact hys z (mem_cons_of_mem y hz)
        have h := ofDigitsBE_lt hdigits
        rwa [length_map] at h
      rcases Nat.lt_trichotomy (digit x) (digit y) with h | h | h
      · exact cons_lt_cons_iff.2 (.inl (hfirst h))
      · rw [h] at hlt
        refine cons_lt_cons_iff.2 (.inr ⟨heq h, ?_⟩)
        exact ih hlen' (fun z hz => hxs z (mem_cons_of_mem x hz))
          (fun z hz => hys z (mem_cons_of_mem y hz))
          (fun z hz w hw => hsame z (mem_cons_of_mem x hz) w (mem_cons_of_mem y hw))
          (Nat.lt_of_add_lt_add_left hlt)
      · -- a larger first digit is more than all digits behind a smaller one
        exfalso
        have hle : (digit y + 1) * b ^ ys.length ≤ digit x * b ^ ys.length :=
          Nat.mul_le_mul_right _ h
        rw [succ_mul] at hle
        omega

theorem take_digitsBE (b : ℕ) (n : ℕ) (hd : d ≤ w) :
    (digitsBE b w n).take d = digitsBE b d (n / b ^ (w - d)) := by
  induction w generalizing d n with
  | zero =>
    obtain rfl : d = 0 := by omega
    rfl
  | succ w ih =>
    rcases Nat.lt_or_eq_of_le hd with hlt | rfl
    · rw [digitsBE, take_append_of_le_length (by rw [length_digitsBE]; omega),
        ih _ (by omega), Nat.div_div_eq_div_mul, ← Nat.pow_succ',
        show w + 1 - d = w - d + 1 by omega]
    · rw [Nat.sub_self, Nat.pow_zero, Nat.div_one, take_of_length_le]
      rw [length_digitsBE]

/-! ## Base sixteen, in characters -/

/-- The digit character of a value below sixteen, upper case. -/
def hexChar (d : ℕ) : Char := if d < 10 then Char.ofNat (48 + d) else Char.ofNat (55 + d)

/-- The value of a digit character of either case. -/
def hexVal (c : Char) : ℕ :=
  if c.isDigit then c.toNat - 48
  else if 97 ≤ c.toNat then c.toNat - 87
  else c.toNat - 55

/-- The value of a run of hexadecimal digits. -/
def hexNum (cs : List Char) : ℕ := ofDigitsBE 16 (cs.map hexVal)

/-- `n` printed with exactly `w` hexadecimal digits. -/
def hexWord (w n : ℕ) : List Char := (digitsBE 16 w n).map hexChar

theorem hexVal_hexChar : ∀ {d : ℕ}, d < 16 → hexVal (hexChar d) = d := by decide

theorem isHexDigit_hexChar : ∀ {d : ℕ}, d < 16 → (hexChar d).isHexDigit = true := by decide

@[simp] theorem length_hexWord (w n : ℕ) : (hexWord w n).length = w := by simp [hexWord]

theorem isHexDigit_of_mem_hexWord {c : Char} (hc : c ∈ hexWord w n) : c.isHexDigit = true := by
  obtain ⟨d, hd, rfl⟩ := mem_map.mp hc
  exact isHexDigit_hexChar (lt_of_mem_digitsBE (by decide) hd)

theorem hexNum_hexWord (w n : ℕ) : hexNum (hexWord w n) = n % 16 ^ w := by
  have hmap : (digitsBE 16 w n).map (hexVal ∘ hexChar) = digitsBE 16 w n := by
    refine (map_congr_left fun d hd => ?_).trans (map_id _)
    exact hexVal_hexChar (lt_of_mem_digitsBE (by decide) hd)
  rw [hexNum, hexWord, map_map, hmap, ofDigitsBE_digitsBE]

/-! ## Little-endian bytes -/

/-- The `w` bytes of `n`, least significant first. -/
def leBytes : ℕ → ℕ → List UInt8
  | 0, _ => []
  | w + 1, n => UInt8.ofNat n :: leBytes w (n / 256)

/-- The value of bytes, least significant first. -/
def ofLeBytes : List UInt8 → ℕ
  | [] => 0
  | b :: bs => b.toNat + 256 * ofLeBytes bs

@[simp] theorem length_leBytes : ∀ w n, (leBytes w n).length = w
  | 0, _ => rfl
  | w + 1, n => by rw [leBytes, length_cons, length_leBytes w]

theorem ofLeBytes_concat (bs : List UInt8) (b : UInt8) :
    ofLeBytes (bs ++ [b]) = ofLeBytes bs + b.toNat * 256 ^ bs.length := by
  induction bs with
  | nil => simp [ofLeBytes]
  | cons x bs ih =>
    rw [cons_append, ofLeBytes, ih, ofLeBytes, length_cons]
    ring

theorem ofLeBytes_lt (bs : List UInt8) : ofLeBytes bs < 256 ^ bs.length := by
  induction bs with
  | nil => exact Nat.one_pos
  | cons b bs ih =>
    have hb : b.toNat < 256 := b.toNat_lt
    rw [ofLeBytes, length_cons]
    omega

theorem ofLeBytes_leBytes : ∀ {w n : ℕ}, n < 256 ^ w → ofLeBytes (leBytes w n) = n
  | 0, n, h => by
    rw [leBytes, ofLeBytes]
    omega
  | w + 1, n, h => by
    rw [leBytes, ofLeBytes, ofLeBytes_leBytes (Nat.div_lt_of_lt_mul (by omega))]
    exact mod_add_div n 256

end Meatpi
