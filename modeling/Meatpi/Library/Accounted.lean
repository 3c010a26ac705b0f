import Mathlib.Data.List.Nodup

/-!
# Items that are kept or dropped

Items are offered one after another; some are dropped later, and the others are
kept in the order they were offered, wherever in a pipeline they are by then
(`Accounted`). Whatever the pipeline, it is made of three moves: an item comes
at the end, one that is kept is dropped, and the place where an item is kept
changes without its order.
-/

namespace Meatpi

open List

variable {α : Type*} [DecidableEq α]

/-- The items kept are the items offered without the dropped ones, in order. -/
structure Accounted (offered dropped kept : List α) : Prop where
  nodup : offered.Nodup
  sub : ∀ x ∈ dropped, x ∈ offered
  kept_eq : offered.filter (fun x => decide (x ∉ dropped)) = kept

namespace Accounted

variable {offered dropped kept a b : List α} {x : α} {p : α → Bool}

theorem nil : Accounted ([] : List α) [] [] where
  nodup := nodup_nil
  sub := by intro x hx; cases hx
  kept_eq := rfl

theorem mem (h : Accounted offered dropped kept) (hx : x ∈ offered) : x ∈ kept ∨ x ∈ dropped := by
  rw [← h.kept_eq, mem_filter, decide_eq_true_iff]
  by_cases hd : x ∈ dropped
  · exact .inr hd
  · exact .inl ⟨hx, hd⟩

theorem mem_kept (h : Accounted offered dropped kept) (hx : x ∈ kept) :
    x ∈ offered ∧ x ∉ dropped := by
  rw [← h.kept_eq, mem_filter, decide_eq_true_iff] at hx
  exact hx

theorem sublist (h : Accounted offered dropped kept) : kept.Sublist offered := by
  rw [← h.kept_eq]
  exact filter_sublist

theorem offer (h : Accounted offered dropped kept) (hx : x ∉ offered) :
    Accounted (offered ++ [x]) dropped (kept ++ [x]) where
  nodup := by
    rw [nodup_append]
    refine ⟨h.nodup, nodup_singleton x, ?_⟩
    intro y hy z hz hyz
    rw [mem_singleton.mp hz] at hyz
    exact hx (hyz ▸ hy)
  sub := by
    intro y hy
    exact mem_append_left _ (h.sub y hy)
  kept_eq := by
    have hd : x ∉ dropped := fun hd => hx (h.sub x hd)
    rw [filter_append, h.kept_eq, filter_singleton, decide_eq_true hd]
    rfl

theorem drop (h : Accounted offered dropped (a ++ x :: b)) :
    Accounted offered (dropped ++ [x]) (a ++ b) where
  nodup := h.nodup
  sub := by
    intro y hy
    rcases mem_append.mp hy with hold | hnew
    · exact h.sub y hold
    · rw [mem_singleton.mp hnew]
      exact (h.mem_kept (mem_append_right _ mem_cons_self)).1
  kept_eq := by
    have hsplit : offered.filter (fun y => decide (y ∉ dropped ++ [x])) =
        (a ++ x :: b).filter fun y => decide (y ≠ x) := by
      rw [← h.kept_eq, filter_filter]
      apply filter_congr
      intro y _
      rw [← Bool.decide_and, decide_eq_decide, mem_append, mem_singleton, not_or, and_comm]
    have hnd : (a ++ x :: b).Nodup := by
      rw [← h.kept_eq]
      exact h.nodup.filter _
    rw [nodup_middle, nodup_cons] at hnd
    rw [hsplit, filter_append, filter_cons_of_neg (by simp), ← filter_append]
    apply filter_eq_self.mpr
    intro y hy
    apply decide_eq_true
    rintro rfl
    exact hnd.1 hy

theorem filter_eq (h : Accounted offered dropped kept) (hp : ∀ x ∈ dropped, p x = false) :
    offered.filter p = kept.filter p := by
  rw [← h.kept_eq, filter_filter]
  apply filter_congr
  intro y _
  cases hpy : p y with
  | false => rfl
  | true =>
    have hy : y ∉ dropped := by
      intro hd
      rw [hp y hd] at hpy
      cases hpy
    rw [decide_eq_true hy]
    rfl

end Accounted

end Meatpi
