import Mathlib.Data.List.Basic

/-!
# The first distinct values

A table with room for `m` values takes a value that it does not hold yet, as
long as there is room (`addDistinct`). Filling it from a list keeps the first
`m` distinct values of the list, in the order they came (`foldl_addDistinct`).
-/

namespace Meatpi

open List

variable {α : Type*} [BEq α] [LawfulBEq α]

/-- Adding to a table of `m` distinct values. -/
def addDistinct (m : ℕ) (table : List α) (x : α) : List α :=
  if x ∉ table ∧ table.length < m then table ++ [x] else table

theorem eraseDups_concat (xs : List α) (x : α) :
    (xs ++ [x]).eraseDups = if x ∈ xs then xs.eraseDups else xs.eraseDups ++ [x] := by
  rw [eraseDups_append]
  split_ifs with hx
  · simp [List.removeAll, hx]
  · simp [List.removeAll, hx, eraseDups_cons]

theorem addDistinct_take (m : ℕ) (xs : List α) (x : α) :
    addDistinct m (xs.eraseDups.take m) x = (xs ++ [x]).eraseDups.take m := by
  rw [eraseDups_concat, addDistinct]
  rcases Nat.lt_or_ge xs.eraseDups.length m with hroom | hfull
  · rw [take_of_length_le (Nat.le_of_lt hroom)]
    simp only [mem_eraseDups]
    split_ifs with hadd hx hx
    · exact absurd hx hadd.1
    · rw [take_of_length_le (by rw [length_append, length_singleton]; omega)]
    · exact (take_of_length_le (Nat.le_of_lt hroom)).symm
    · exact absurd ⟨hx, hroom⟩ hadd
  · have hlen : (xs.eraseDups.take m).length = m := by rw [length_take]; omega
    rw [if_neg (by rw [hlen]; exact fun h => absurd h.2 (Nat.lt_irrefl m))]
    split_ifs with hx
    · rfl
    · exact (take_append_of_le_length hfull).symm

/-- **Filling the table** keeps the first `m` distinct values. -/
theorem foldl_addDistinct (m : ℕ) (ys xs : List α) :
    ys.foldl (addDistinct m) (xs.eraseDups.take m) = (xs ++ ys).eraseDups.take m := by
  induction ys generalizing xs with
  | nil => rw [foldl_nil, append_nil]
  | cons y ys ih =>
    rw [foldl_cons, addDistinct_take, ih, append_assoc, singleton_append]

theorem foldl_addDistinct_full {m : ℕ} {table : List α} (h : m ≤ table.length) (ys : List α) :
    ys.foldl (addDistinct m) table = table := by
  induction ys with
  | nil => rfl
  | cons y ys ih =>
    rw [foldl_cons, addDistinct, if_neg (fun hadd => absurd hadd.2 (Nat.not_lt.mpr h)), ih]

end Meatpi
