import Mathlib.Data.List.Basic

/-!
# Taking tokens off a stream

A reader that is fed a stream in pieces keeps what it could not use yet and takes
whole tokens off the front of that. If what follows a token never changes it
(`Framer.append`), the pieces do not matter: reading a piece and then the next
is reading the two at once (`Framer.tokens_append`, `Framer.rest_append`).
-/

namespace Meatpi

open List

variable {n : ℕ}

/-- The next token at the front of a buffer and the length it has there; none as
long as the buffer does not settle it. -/
structure Framer (α ε : Type) where
  peel : List α → Option (ε × ℕ)
  pos : ∀ {s e n}, peel s = some (e, n) → 0 < n
  le_length : ∀ {s e n}, peel s = some (e, n) → n ≤ s.length
  /-- what follows does not change a token -/
  append : ∀ {s e n} (t : List α), peel s = some (e, n) → peel (s ++ t) = some (e, n)

namespace Framer

variable {α ε : Type} (F : Framer α ε)

/-- Tokens are taken off as long as there is one, and at most that often. -/
def read : ℕ → List α → List ε × List α
  | 0, s => ([], s)
  | k + 1, s =>
    match F.peel s with
    | none => ([], s)
    | some p => (p.1 :: (read k (s.drop p.2)).1, (read k (s.drop p.2)).2)

/-- The tokens of a buffer. -/
def tokens (s : List α) : List ε := (F.read s.length s).1

/-- What is left of a buffer behind its tokens. -/
def rest (s : List α) : List α := (F.read s.length s).2

variable {F}

/-- What holds of a buffer without a token, and of one with a token if it holds
behind the token, holds of every buffer. -/
theorem induction {P : List α → Prop} (hnone : ∀ s, F.peel s = none → P s)
    (hsome : ∀ s e n, F.peel s = some (e, n) → P (s.drop n) → P s) : ∀ s, P s := by
  have hlength : ∀ k s, s.length ≤ k → P s := by
    intro k
    induction k with
    | zero =>
      intro s hs
      cases hpeel : F.peel s with
      | none => exact hnone s hpeel
      | some p =>
        have hpos := F.pos hpeel
        have hle := F.le_length hpeel
        omega
    | succ k ih =>
      intro s hs
      cases hpeel : F.peel s with
      | none => exact hnone s hpeel
      | some p =>
        have hpos := F.pos hpeel
        apply hsome s p.1 p.2 hpeel (ih _ _)
        rw [length_drop]
        omega
  exact fun s => hlength s.length s (Nat.le_refl _)

theorem read_enough : ∀ (s : List α) {k : ℕ}, s.length ≤ k → F.read k s = F.read s.length s := by
  have henough : ∀ s : List α, ∀ k l, s.length ≤ k → s.length ≤ l → F.read k s = F.read l s := by
    intro s
    induction s using F.induction with
    | hnone s hpeel =>
      have hread : ∀ k, F.read k s = ([], s) := by
        intro k
        cases k with
        | zero => rfl
        | succ k => rw [read, hpeel]
      intro k l _ _
      rw [hread k, hread l]
    | hsome s e n hpeel ih =>
      intro k l hk hl
      have hpos := F.pos hpeel
      have hle := F.le_length hpeel
      obtain ⟨k, rfl⟩ := Nat.exists_eq_add_of_le' (show 1 ≤ k by omega)
      obtain ⟨l, rfl⟩ := Nat.exists_eq_add_of_le' (show 1 ≤ l by omega)
      have hsame := ih k l (by rw [length_drop]; omega) (by rw [length_drop]; omega)
      rw [read, read, hpeel]
      dsimp only
      rw [hsame]
  exact fun s k hk => henough s k s.length hk (Nat.le_refl _)

theorem read_of_peel {s : List α} {e : ε} (h : F.peel s = some (e, n)) :
    F.read s.length s = (e :: F.tokens (s.drop n), F.rest (s.drop n)) := by
  have hpos := F.pos h
  have hle := F.le_length h
  obtain ⟨k, hk⟩ := Nat.exists_eq_add_of_le' (show 1 ≤ s.length by omega)
  have hdrop : (s.drop n).length ≤ k := by
    rw [length_drop]
    omega
  rw [hk, read, h]
  dsimp only
  rw [read_enough _ hdrop]
  rfl

theorem tokens_of_peel {s : List α} {e : ε} (h : F.peel s = some (e, n)) :
    F.tokens s = e :: F.tokens (s.drop n) := by
  rw [tokens, read_of_peel h]

theorem rest_of_peel {s : List α} {e : ε} (h : F.peel s = some (e, n)) :
    F.rest s = F.rest (s.drop n) := by
  rw [rest, read_of_peel h]

theorem read_of_none {s : List α} (h : F.peel s = none) : F.read s.length s = ([], s) := by
  cases hk : s.length with
  | zero => rfl
  | succ k => rw [read, h]

theorem tokens_of_none {s : List α} (h : F.peel s = none) : F.tokens s = [] := by
  rw [tokens, read_of_none h]

theorem rest_of_none {s : List α} (h : F.peel s = none) : F.rest s = s := by
  rw [rest, read_of_none h]

theorem peel_rest : ∀ s : List α, F.peel (F.rest s) = none := by
  intro s
  induction s using F.induction with
  | hnone s hpeel => rw [rest_of_none hpeel, hpeel]
  | hsome s e n hpeel ih => rw [rest_of_peel hpeel, ih]

theorem drop_append_of_peel {s t : List α} {e : ε} (h : F.peel s = some (e, n)) :
    (s ++ t).drop n = s.drop n ++ t :=
  drop_append_of_le_length (F.le_length h)

/-- **Pieces do not matter**: the tokens of two pieces are those of the first, and
those of what it left with the second. -/
theorem tokens_append : ∀ s t : List α,
    F.tokens (s ++ t) = F.tokens s ++ F.tokens (F.rest s ++ t) := by
  intro s t
  induction s using F.induction with
  | hnone s hpeel => rw [tokens_of_none hpeel, rest_of_none hpeel, nil_append]
  | hsome s e n hpeel ih =>
    rw [tokens_of_peel (F.append t hpeel), drop_append_of_peel hpeel, ih, tokens_of_peel hpeel,
      rest_of_peel hpeel, cons_append]

theorem rest_append : ∀ s t : List α, F.rest (s ++ t) = F.rest (F.rest s ++ t) := by
  intro s t
  induction s using F.induction with
  | hnone s hpeel => rw [rest_of_none hpeel]
  | hsome s e n hpeel ih =>
    rw [rest_of_peel (F.append t hpeel), drop_append_of_peel hpeel, ih, rest_of_peel hpeel]

theorem rest_suffix : ∀ s : List α, F.rest s <:+ s := by
  intro s
  induction s using F.induction with
  | hnone s hpeel => exact ⟨[], rest_of_none hpeel⟩
  | hsome s e n hpeel ih =>
    rw [rest_of_peel hpeel]
    exact ih.trans (drop_suffix n s)

theorem rest_flatten_append {ws : List (List α)} (h : ∀ w ∈ ws, ∃ e, F.peel w = some (e, w.length))
    (t : List α) : F.rest (ws.flatten ++ t) = F.rest t := by
  induction ws with
  | nil => rfl
  | cons w ws ih =>
    obtain ⟨e, hw⟩ := h w mem_cons_self
    rw [flatten_cons, append_assoc, rest_of_peel (F.append (ws.flatten ++ t) hw),
      drop_left, ih fun w' hw' => h w' (mem_cons_of_mem w hw')]

/-- **No tokens reach further** into a buffer than the ones that are taken off it. -/
theorem flatten_length_le {ws : List (List α)} (h : ∀ w ∈ ws, ∃ e, F.peel w = some (e, w.length))
    {s : List α} (hs : ws.flatten <+: s) : ws.flatten.length + (F.rest s).length ≤ s.length := by
  obtain ⟨t, rfl⟩ := hs
  rw [rest_flatten_append h, length_append]
  exact Nat.add_le_add_left (rest_suffix t).length_le _

end Framer

end Meatpi
