import Mathlib.Data.List.Perm.Basic
import Mathlib.Data.List.Sort

/-!
# Sorted insertion without repetition

`insertAsc` puts a value in its place in a strictly ascending list, and leaves
the list alone when it is there already. Inserting value after value gives the
distinct values in ascending order, whatever the order they came in
(`foldl_insertAsc`): two lists with the same members give the same result.

A table that holds only the `m` least values inserts into the list it has kept
(`take_insertAsc`): what was cut off before never comes back.
-/

namespace Meatpi

open List

variable {α : Type*} [LinearOrder α]

/-- The value at its place in an ascending list. -/
def insertAsc (h : α) : List α → List α
  | [] => [h]
  | x :: s => if x < h then x :: insertAsc h s else if x = h then x :: s else h :: x :: s

theorem mem_insertAsc {h y : α} {s : List α} : y ∈ insertAsc h s ↔ y = h ∨ y ∈ s := by
  induction s with
  | nil => simp [insertAsc]
  | cons x s ih =>
    simp only [insertAsc]
    split_ifs with hlt heq
    · rw [mem_cons, mem_cons, ih]
      exact or_left_comm
    · subst heq
      simp
    · simp

theorem pairwise_insertAsc {h : α} {s : List α} (hs : s.Pairwise (· < ·)) :
    (insertAsc h s).Pairwise (· < ·) := by
  induction s with
  | nil => simp [insertAsc]
  | cons x s ih =>
    obtain ⟨hx, hs'⟩ := pairwise_cons.mp hs
    simp only [insertAsc]
    split_ifs with hlt heq
    · refine pairwise_cons.mpr ⟨fun y hy => ?_, ih hs'⟩
      rcases mem_insertAsc.mp hy with rfl | hy
      · exact hlt
      · exact hx y hy
    · exact hs
    · have hhx : h < x := lt_of_le_of_ne (not_lt.mp hlt) (Ne.symm heq)
      refine pairwise_cons.mpr ⟨fun y hy => ?_, hs⟩
      rcases mem_cons.mp hy with rfl | hy
      · exact hhx
      · exact hhx.trans (hx y hy)

theorem take_insertAsc (h : α) (m : ℕ) (s : List α) :
    (insertAsc h (s.take m)).take m = (insertAsc h s).take m := by
  induction m generalizing s with
  | zero => simp
  | succ m ih =>
    cases s with
    | nil => rfl
    | cons x s =>
      simp only [take_succ_cons, insertAsc]
      split_ifs with hlt heq
      · rw [take_succ_cons, take_succ_cons, ih]
      · rw [take_succ_cons, take_succ_cons, take_take, Nat.min_self]
      · cases m with
        | zero => simp
        | succ m => simp [take_take]

theorem eq_of_pairwise_lt {s t : List α} (hs : s.Pairwise (· < ·)) (ht : t.Pairwise (· < ·))
    (h : ∀ x, x ∈ s ↔ x ∈ t) : s = t := by
  have hperm : s.Perm t := (perm_ext_iff_of_nodup (hs.imp ne_of_lt) (ht.imp ne_of_lt)).mpr h
  exact hperm.eq_of_pairwise' (hs.imp le_of_lt) (ht.imp le_of_lt)

theorem mem_foldl_insertAsc {y : α} (xs s : List α) :
    y ∈ xs.foldl (fun s x => insertAsc x s) s ↔ y ∈ xs ∨ y ∈ s := by
  induction xs generalizing s with
  | nil => simp
  | cons x xs ih =>
    rw [foldl_cons, ih, mem_insertAsc, mem_cons]
    exact or_left_comm.trans or_assoc.symm

theorem pairwise_foldl_insertAsc (xs : List α) {s : List α} (hs : s.Pairwise (· < ·)) :
    (xs.foldl (fun s x => insertAsc x s) s).Pairwise (· < ·) := by
  induction xs generalizing s with
  | nil => exact hs
  | cons x xs ih => exact ih (pairwise_insertAsc hs)

/-- **Insertion in any order**: the ascending list of what was inserted. -/
theorem foldl_insertAsc {xs t : List α} (ht : t.Pairwise (· < ·)) (h : ∀ x, x ∈ xs ↔ x ∈ t) :
    xs.foldl (fun s x => insertAsc x s) [] = t := by
  apply eq_of_pairwise_lt (pairwise_foldl_insertAsc xs List.Pairwise.nil) ht
  intro x
  rw [mem_foldl_insertAsc, h]
  simp

theorem pairwise_insertionSort_of_nodup {xs : List α} (h : xs.Nodup) :
    (xs.insertionSort (· ≤ ·)).Pairwise (· < ·) := by
  have hle := pairwise_insertionSort (· ≤ ·) xs
  have hne : (xs.insertionSort (· ≤ ·)).Nodup := (perm_insertionSort (· ≤ ·) xs).nodup_iff.mpr h
  exact hle.imp₂ (fun _ _ hab hne => lt_of_le_of_ne hab hne) hne

end Meatpi
