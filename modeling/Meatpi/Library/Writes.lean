import Mathlib.Data.List.Basic

/-!
# Whole writes, one after the other

A store is changed by writes that replace a whole value (`Writes.land`). When the
power goes between two of them, those before it have landed: they are the first so
many of the list, and what is true of a store that any of the writes may have
reached is true of it then as well.
-/

namespace Meatpi

open Function

namespace Writes

variable {P D : Type*} [DecidableEq P]

/-- The store once these writes have landed. -/
def land (files : P → Option D) : List (P × D) → P → Option D
  | [] => files
  | w :: ws => land (Function.update files w.1 (some w.2)) ws

variable {files : P → Option D}

theorem land_append (ws ws' : List (P × D)) : ∀ files : P → Option D,
    land files (ws ++ ws') = land (land files ws) ws' := by
  induction ws with
  | nil => exact fun _ => rfl
  | cons w ws ih => exact fun files => ih _

theorem land_other {ws : List (P × D)} {p : P} : ∀ {files : P → Option D},
    (∀ w ∈ ws, w.1 ≠ p) → land files ws p = files p := by
  induction ws with
  | nil => exact fun _ => rfl
  | cons w ws ih =>
    intro files h
    obtain ⟨hw, hws⟩ := List.forall_mem_cons.mp h
    rw [land, ih hws, update_of_ne hw.symm]

theorem land_cases {p : P} (ws : List (P × D)) : ∀ files : P → Option D,
    land files ws p = files p ∨ ∃ d, (p, d) ∈ ws ∧ land files ws p = some d := by
  induction ws with
  | nil => exact fun _ => Or.inl rfl
  | cons w ws ih =>
    intro files
    rw [land]
    rcases ih (Function.update files w.1 (some w.2)) with h | ⟨d, hd, h⟩
    · by_cases hw : p = w.1
      · subst hw
        refine Or.inr ⟨w.2, List.mem_cons_self, ?_⟩
        rw [h, update_self]
      · rw [update_of_ne hw] at h
        exact Or.inl h
    · exact Or.inr ⟨d, List.mem_cons_of_mem w hd, h⟩

/-- What holds of the values there and of every value written holds of the values
after the writes. -/
theorem land_forall {Q : P → D → Prop} {ws : List (P × D)}
    (hfiles : ∀ p d, files p = some d → Q p d) (hws : ∀ w ∈ ws, Q w.1 w.2) (p : P) (d : D)
    (h : land files ws p = some d) : Q p d := by
  rcases land_cases ws files with heq | ⟨d', hd', heq⟩
  · exact hfiles p d (heq.symm.trans h)
  · obtain rfl : d' = d := Option.some.inj (heq.symm.trans h)
    exact hws _ hd'

theorem land_mid {p : P} {d : D} (ws : List (P × D)) {ws' : List (P × D)} (h : ∀ w ∈ ws', w.1 ≠ p) :
    land files (ws ++ (p, d) :: ws') p = some d := by
  rw [land_append, land, land_other h, update_self]

end Writes

end Meatpi
