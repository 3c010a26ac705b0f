import Mathlib.Algebra.Ring.Nat
import Mathlib.Logic.Function.Basic

/-!
# Linear probing with backward shift

A table of `n` slots, each with a key or empty, and a home slot for each key. A key is
looked for from its home on, round the table, up to the first empty slot; so it is found
when no slot on the way to it is empty (`Sound`). Taking a key out leaves a gap for keys
behind it. The rules of `Gap` are those of a loop that walks on from the gap and moves
back into it each key it hides, until it meets an empty slot: then the table is sound.
-/

namespace Meatpi.Probing

open Function

variable {n : ℕ} {κ : Type*}

/-- The slot after `i`, round the table. -/
def next (i : Fin n) : Fin n := ⟨(i + 1) % n, Nat.mod_lt _ (Nat.zero_lt_of_lt i.isLt)⟩

/-- How many slots `p` is ahead of `h`, going round. -/
def ahead (h p : Fin n) : ℕ := if h.val ≤ p.val then p - h else n + p - h

theorem next_val (i : Fin n) : (next i).val = if i.val + 1 = n then 0 else i.val + 1 := by
  rw [next]
  dsimp only
  split_ifs with hlast
  · rw [hlast, Nat.mod_self]
  · exact Nat.mod_eq_of_lt (by omega)

theorem ahead_lt (h p : Fin n) : ahead h p < n := by
  rw [ahead]
  split_ifs <;> omega

@[simp] theorem ahead_self (h : Fin n) : ahead h h = 0 := by
  rw [ahead, if_pos (le_refl _), Nat.sub_self]

theorem ahead_eq_zero {h p : Fin n} : ahead h p = 0 ↔ p = h := by
  rw [ahead]
  split_ifs <;> omega

theorem ahead_inj {h p q : Fin n} : ahead h p = ahead h q ↔ p = q := by
  rw [ahead, ahead]
  split_ifs <;> omega

theorem ahead_next {h i : Fin n} (hlt : ahead h i + 1 < n) : ahead h (next i) = ahead h i + 1 := by
  rw [ahead] at hlt
  rw [ahead, ahead, next_val]
  split_ifs at hlt ⊢ <;> omega

theorem ahead_add {h i p : Fin n} (hle : ahead h i ≤ ahead h p) :
    ahead h p = ahead h i + ahead i p := by
  rw [ahead, ahead] at hle
  rw [ahead, ahead, ahead]
  split_ifs at hle ⊢ <;> omega

theorem ahead_add_of_lt {h i p : Fin n} (hlt : ahead h i + ahead i p < n) :
    ahead h p = ahead h i + ahead i p := by
  rw [ahead, ahead] at hlt
  rw [ahead, ahead, ahead]
  split_ifs at hlt ⊢ <;> omega

/-! ## Sound tables -/

variable (home : κ → Fin n)

/-- Every key is reached from its home, and is there once. -/
structure Sound (T : Fin n → Option κ) : Prop where
  reach : ∀ p k, T p = some k → ∀ q, ahead (home k) q < ahead (home k) p → T q ≠ none
  unique : ∀ p q k, T p = some k → T q = some k → p = q

variable {home} {T : Fin n → Option κ}

theorem Sound.empty : Sound home fun _ => none :=
  ⟨fun _ _ h => (nomatch h), fun _ _ _ h => (nomatch h)⟩

theorem Sound.insert (h : Sound home T) {i : Fin n} {k : κ}
    (hway : ∀ q, ahead (home k) q < ahead (home k) i → T q ≠ none) (hnew : ∀ p, T p ≠ some k) :
    Sound home (update T i (some k)) := by
  have htaken : ∀ q, T q ≠ none → update T i (some k) q ≠ none := by
    intro q hq
    by_cases hqi : q = i
    · rw [hqi, update_self]
      exact Option.some_ne_none k
    · rw [update_of_ne hqi]
      exact hq
  constructor
  · intro p k' hp q hq
    apply htaken
    by_cases hpi : p = i
    · rw [hpi, update_self] at hp
      obtain rfl := Option.some.inj hp
      rw [hpi] at hq
      exact hway q hq
    · rw [update_of_ne hpi] at hp
      exact h.reach p k' hp q hq
  · intro p q k' hp hq
    by_cases hpi : p = i
    · by_cases hqi : q = i
      · rw [hpi, hqi]
      · rw [hpi, update_self] at hp
        rw [update_of_ne hqi, ← Option.some.inj hp] at hq
        exact absurd hq (hnew q)
    · by_cases hqi : q = i
      · rw [hqi, update_self] at hq
        rw [update_of_ne hpi, ← Option.some.inj hq] at hp
        exact absurd hp (hnew p)
      · rw [update_of_ne hpi] at hp
        rw [update_of_ne hqi] at hq
        exact h.unique p q k' hp hq

/-! ## Closing a gap -/

/-- There is a gap at `i`, and the slots after it up to `j` were looked at:
they are taken by keys that the gap does not hide. -/
structure Gap (home : κ → Fin n) (T : Fin n → Option κ) (i j : Fin n) : Prop where
  gap : T i = none
  reach : ∀ p k, T p = some k → ∀ q, q ≠ i → ahead (home k) q < ahead (home k) p → T q ≠ none
  seen : ∀ p k, T p = some k → ahead i p ≤ ahead i j → ahead (home k) p ≤ ahead (home k) i
  taken : ∀ q, q ≠ i → ahead i q ≤ ahead i j → T q ≠ none
  unique : ∀ p q k, T p = some k → T q = some k → p = q

theorem Sound.erase (h : Sound home T) (i : Fin n) : Gap home (update T i none) i i := by
  have hkeep : ∀ {p k}, update T i none p = some k → p ≠ i ∧ T p = some k := by
    intro p k hp
    by_cases hpi : p = i
    · rw [hpi, update_self] at hp
      cases hp
    · rw [update_of_ne hpi] at hp
      exact ⟨hpi, hp⟩
  refine ⟨update_self .., ?_, ?_, ?_, ?_⟩
  · intro p k hp q hqi hq
    rw [update_of_ne hqi]
    exact h.reach p k (hkeep hp).2 q hq
  · intro p k hp hle
    rw [ahead_self, Nat.le_zero, ahead_eq_zero] at hle
    exact absurd hle (hkeep hp).1
  · intro q hqi hle
    rw [ahead_self, Nat.le_zero, ahead_eq_zero] at hle
    exact absurd hle hqi
  · intro p q k hp hq
    exact h.unique p q k (hkeep hp).2 (hkeep hq).2

section Walk

variable {i j e : Fin n}

theorem Gap.ahead_lt (h : Gap home T i j) (he : T e = none) (hei : e ≠ i) :
    ahead i j < ahead i e := by
  by_contra hle
  exact h.taken e hei (not_lt.mp hle) he

theorem Gap.ahead_next (h : Gap home T i j) (he : T e = none) (hei : e ≠ i) :
    ahead i (next j) = ahead i j + 1 := by
  have hlt := h.ahead_lt he hei
  have hmax := Probing.ahead_lt i e
  exact Probing.ahead_next (by omega)

theorem Gap.next_ne (h : Gap home T i j) (he : T e = none) (hei : e ≠ i) : next j ≠ i := by
  intro heq
  have hnext := h.ahead_next he hei
  rw [heq, ahead_self] at hnext
  omega

/-- **The end of the walk**: the slot is empty, and nothing is hidden. -/
theorem Gap.close (h : Gap home T i j) (hj : T (next j) = none) (hne : next j ≠ i) :
    Sound home T := by
  refine ⟨?_, h.unique⟩
  intro p k hp q hq hempty
  have hqi : q = i := by
    by_contra hqi
    exact h.reach p k hp q hqi hq hempty
  subst hqi
  have hstep := h.ahead_next hj hne
  -- the key is behind the empty slot
  have hbehind : ahead q j < ahead q p := by
    by_contra hle
    exact absurd (h.seen p k hp (not_lt.mp hle)) (not_le.mpr hq)
  have hpj : p ≠ next j := by
    rintro rfl
    rw [hj] at hp
    cases hp
  have hlt : ahead q (next j) < ahead q p := by
    have hne' : ahead q (next j) ≠ ahead q p := fun heq => hpj (ahead_inj.mp heq).symm
    omega
  have hsum := ahead_add (le_of_lt hq)
  have hmax := Probing.ahead_lt (home k) p
  have hway : ahead (home k) (next j) = ahead (home k) q + ahead q (next j) :=
    ahead_add_of_lt (by omega)
  exact h.reach p k hp (next j) hne (by omega) hj

theorem Gap.stay (h : Gap home T i j) {k : κ} (hj : T (next j) = some k)
    (hstep : ahead i (next j) = ahead i j + 1)
    (hstay : ahead (home k) (next j) ≤ ahead (home k) i) : Gap home T i (next j) := by
  have hlast : ∀ {q}, ahead i q ≤ ahead i (next j) → ahead i q ≤ ahead i j ∨ q = next j := by
    intro q hq
    by_cases hle : ahead i q ≤ ahead i j
    · exact .inl hle
    · exact .inr (ahead_inj.mp (le_antisymm hq (by omega)))
  refine ⟨h.gap, h.reach, ?_, ?_, h.unique⟩
  · intro p k' hp hle
    rcases hlast hle with hle | rfl
    · exact h.seen p k' hp hle
    · rw [hj] at hp
      obtain rfl := Option.some.inj hp
      exact hstay
  · intro q hqi hle
    rcases hlast hle with hle | rfl
    · exact h.taken q hqi hle
    · rw [hj]
      exact Option.some_ne_none k

theorem Gap.move (h : Gap home T i j) {k : κ} (hj : T (next j) = some k) (hne : next j ≠ i)
    (hhidden : ahead (home k) i < ahead (home k) (next j)) :
    Gap home (update (update T i (some k)) (next j) none) (next j) (next j) := by
  have hself : update (update T i (some k)) (next j) none (next j) = none :=
    update_self ..
  have hi : update (update T i (some k)) (next j) none i = some k := by
    rw [update_of_ne (Ne.symm hne), update_self]
  have hother : ∀ p, p ≠ i → p ≠ next j →
      update (update T i (some k)) (next j) none p = T p := by
    intro p hpi hpj
    rw [update_of_ne hpj, update_of_ne hpi]
  -- a key of the new table was in the old one
  have hold : ∀ {p k'}, update (update T i (some k)) (next j) none p = some k' →
      p ≠ next j ∧ (p = i ∧ k' = k ∨ p ≠ i ∧ T p = some k') := by
    intro p k' hp
    have hpj : p ≠ next j := by
      rintro rfl
      rw [hself] at hp
      cases hp
    refine ⟨hpj, ?_⟩
    by_cases hpi : p = i
    · rw [hpi, hi] at hp
      exact .inl ⟨hpi, (Option.some.inj hp).symm⟩
    · rw [hother p hpi hpj] at hp
      exact .inr ⟨hpi, hp⟩
  refine ⟨hself, ?_, ?_, ?_, ?_⟩
  · intro p k' hp q hqj hq
    by_cases hqi : q = i
    · rw [hqi, hi]
      exact Option.some_ne_none k
    · rw [hother q hqi hqj]
      obtain ⟨-, ⟨rfl, rfl⟩ | ⟨-, hp⟩⟩ := hold hp
      · -- the way into the gap is the first part of the way it had
        exact h.reach (next j) k' hj q hqi (Nat.lt_trans hq hhidden)
      · exact h.reach p k' hp q hqi hq
  · intro p k' hp hle
    rw [ahead_self, Nat.le_zero, ahead_eq_zero] at hle
    exact absurd hle (hold hp).1
  · intro q hqj hle
    rw [ahead_self, Nat.le_zero, ahead_eq_zero] at hle
    exact absurd hle hqj
  · intro p q k' hp hq
    obtain ⟨hpj, ⟨hpi, hpk⟩ | ⟨hpi, hp⟩⟩ := hold hp
    · obtain ⟨hqj, ⟨hqi, -⟩ | ⟨-, hq⟩⟩ := hold hq
      · rw [hpi, hqi]
      · rw [hpk] at hq
        exact absurd (h.unique q (next j) k hq hj) hqj
    · obtain ⟨hqj, ⟨-, hqk⟩ | ⟨-, hq⟩⟩ := hold hq
      · rw [hqk] at hp
        exact absurd (h.unique p (next j) k hp hj) hpj
      · exact h.unique p q k' hp hq

end Walk

end Meatpi.Probing
