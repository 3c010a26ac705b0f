import Mathlib.Data.List.TakeWhile

/-!
# Windows of a ring

A window of a ring of slots starts at one slot and goes on for some slots,
around the end. It is read as a list. A window grows at its end, shrinks at its
start, and does not see what is written behind it.
-/

namespace Meatpi

open Function List Nat

variable {n : ℕ} {cap : ℕ}

namespace Library

variable {α : Type}

/-- The slots from `start` on, `n` of them, of a ring of `cap` slots. -/
def window (buf : ℕ → α) (cap start n : ℕ) : List α :=
  (List.range n).map fun i => buf ((start + i) % cap)

theorem length_window (buf : ℕ → α) (cap start n : ℕ) : (window buf cap start n).length = n := by
  rw [window, length_map, length_range]

theorem window_zero (buf : ℕ → α) (cap start : ℕ) : window buf cap start 0 = [] := rfl

theorem window_succ (buf : ℕ → α) (cap start n : ℕ) :
    window buf cap start (n + 1) = window buf cap start n ++ [buf ((start + n) % cap)] := by
  rw [window, range_succ, map_append]
  rfl

theorem window_cons (buf : ℕ → α) (cap start n : ℕ) :
    window buf cap start (n + 1) = buf (start % cap) :: window buf cap ((start + 1) % cap) n := by
  rw [window, range_succ_eq_map, map_cons, map_map]
  congr 1
  apply map_congr_left
  intro i _
  rw [comp_apply, mod_add_mod, Nat.add_assoc, succ_eq_add_one, Nat.add_comm i 1]

theorem slot_ne {start i j : ℕ} (hij : i < j) (hj : j < cap + i) :
    (start + i) % cap ≠ (start + j) % cap := by
  intro h
  have hdvd : cap ∣ start + j - (start + i) := dvd_of_mod_eq_zero (sub_mod_eq_zero_of_mod_eq h.symm)
  have hle := le_of_dvd (by omega) hdvd
  omega

theorem window_update (buf : ℕ → α) (start : ℕ) (x : α) (hn : n < cap) :
    window (Function.update buf ((start + n) % cap) x) cap start n = window buf cap start n := by
  apply map_congr_left
  intro i hi
  have hlt := mem_range.mp hi
  rw [update_of_ne (slot_ne hlt (by omega))]

theorem window_push (buf : ℕ → α) (start : ℕ) (x : α) (hn : n < cap) :
    window (Function.update buf ((start + n) % cap) x) cap start (n + 1) =
      window buf cap start n ++ [x] := by
  rw [window_succ, window_update buf start x hn, update_self]

end Library

end Meatpi
