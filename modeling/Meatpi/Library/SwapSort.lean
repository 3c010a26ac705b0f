import Mathlib.Data.List.DropRight
import Mathlib.Order.Lattice

/-!
# Sorting by swaps

Insertion sort the way a C loop does it: each element in turn is swapped down past the
smaller ones before it, so that the greatest key comes first. Where the keys differ the
result depends on the elements alone, not on the order they came in.
-/

namespace Meatpi

open List

namespace SwapSort

variable {ι α : Type*} [LinearOrder α] (key : ι → α)

/-- One element swapped down past the smaller ones before it. -/
def insert (sorted : List ι) (r : ι) : List ι :=
  sorted.rdropWhile (fun q => decide (key q < key r)) ++
    r :: sorted.rtakeWhile fun q => decide (key q < key r)

/-- Greatest key first. -/
def sort (rs : List ι) : List ι := rs.foldl (insert key) []

/-- Keys never rise along the list. -/
def Descending (l : List ι) : Prop := l.Pairwise fun a b => key b ≤ key a

variable {key}

theorem insert_perm (sorted : List ι) (r : ι) : (insert key sorted r).Perm (r :: sorted) := by
  have happ := rdropWhile_append_rtakeWhile (p := fun q => decide (key q < key r)) (l := sorted)
  refine perm_middle.trans ?_
  rw [happ]

theorem insert_descending {sorted : List ι} (h : Descending key sorted) (r : ι) :
    Descending key (insert key sorted r) := by
  have happ := rdropWhile_append_rtakeWhile (p := fun q => decide (key q < key r)) (l := sorted)
  have hparts := h
  rw [← happ, Descending, pairwise_append] at hparts
  obtain ⟨hbefore, hafter, hcross⟩ := hparts
  -- the last element that stays is not smaller, so none before it is
  have hge : ∀ q ∈ sorted.rdropWhile (fun q => decide (key q < key r)), key r ≤ key q := by
    intro q hq
    have hne := ne_nil_of_mem hq
    have hlast := rdropWhile_last_not (fun q => decide (key q < key r)) sorted hne
    have hle : key r ≤ key ((sorted.rdropWhile fun q => decide (key q < key r)).getLast hne) := by
      simpa using hlast
    have hsplit := dropLast_append_getLast hne
    rw [← hsplit, pairwise_append] at hbefore
    rw [← hsplit] at hq
    rcases mem_append.mp hq with hq | hq
    · exact hle.trans (hbefore.2.2 q hq _ (mem_singleton_self _))
    · rwa [mem_singleton.mp hq]
  have hlt : ∀ q ∈ sorted.rtakeWhile (fun q => decide (key q < key r)), key q < key r := by
    intro q hq
    simpa using mem_rtakeWhile_imp hq
  rw [insert, Descending, pairwise_append]
  refine ⟨hbefore, pairwise_cons.mpr ⟨fun q hq => (hlt q hq).le, hafter⟩, ?_⟩
  intro a ha b hb
  rcases mem_cons.mp hb with rfl | hb
  · exact hge a ha
  · exact hcross a ha b hb

theorem foldl_insert (rs : List ι) : ∀ {sorted : List ι}, Descending key sorted →
    Descending key (rs.foldl (insert key) sorted) ∧
      (rs.foldl (insert key) sorted).Perm (sorted ++ rs) := by
  induction rs with
  | nil => intro sorted h; exact ⟨h, by simp⟩
  | cons r rs ih =>
    intro sorted h
    obtain ⟨hdesc, hperm⟩ := ih (insert_descending h r)
    refine ⟨hdesc, hperm.trans ?_⟩
    exact ((insert_perm sorted r).append_right rs).trans perm_middle.symm

theorem sort_descending (rs : List ι) : Descending key (sort key rs) := (foldl_insert rs .nil).1

theorem sort_perm (rs : List ι) : (sort key rs).Perm rs := (foldl_insert rs .nil).2

/-- **The order the elements came in does not matter** where their keys differ. -/
theorem sort_eq_of_perm {rs rs' : List ι} (h : rs.Perm rs')
    (hinj : ∀ a ∈ rs, ∀ b ∈ rs, key a = key b → a = b) : sort key rs = sort key rs' := by
  have hp : (sort key rs).Perm (sort key rs') := (sort_perm rs).trans (h.trans (sort_perm rs').symm)
  refine hp.eq_of_pairwise ?_ (sort_descending rs) (sort_descending rs')
  intro a b ha hb hab hba
  exact hinj a ((sort_perm rs).mem_iff.mp ha) b (h.mem_iff.mpr ((sort_perm rs').mem_iff.mp hb))
    (le_antisymm hba hab)

theorem Descending.first_greatest {l : List ι} (h : Descending key l) {p : ι → Bool}
    {i : Fin l.length} (hi : l.findFinIdx? p = some i) :
    p l[i] = true ∧ ∀ r ∈ l, p r = true → key r ≤ key l[i] := by
  obtain ⟨hp, hfirst⟩ := List.findFinIdx?_eq_some_iff.mp hi
  refine ⟨hp, fun r hr hpr => ?_⟩
  obtain ⟨j, hj, rfl⟩ := mem_iff_getElem.mp hr
  rcases lt_trichotomy j i.val with hlt | heq | hgt
  · exact absurd hpr (hfirst ⟨j, hj⟩ hlt)
  · subst heq
    exact le_rfl
  · exact pairwise_iff_getElem.mp h i.val j i.isLt hj hgt

end SwapSort

end Meatpi
