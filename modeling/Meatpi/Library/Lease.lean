import Mathlib.Data.List.Nodup
import Mathlib.Data.List.Perm.Basic

/-!
# Records that name slots

A table of records, some of which name a slot of another table, and what the
slots hold. The records are `Leased` when every slot a record names holds a
value that the record was promised, and no slot is named twice. The order of
the records does not count, so the table may be kept dense by letting the last
record take the place of one that goes (`swapRemove`).
-/

namespace Meatpi

open List

universe u v w

variable {ρ : Type u} {ι : Type v} {V : Type w}

/-! ## Removal without order -/

/-- Remove the record at a place; the last record takes the place. -/
def swapRemove (rs : List ρ) (i : ℕ) : List ρ :=
  match rs.getLast? with
  | some last => (rs.set i last).dropLast
  | none => rs

/-- Remove the first record with a property. -/
def swapRemoveFirst (rs : List ρ) (p : ρ → Bool) : List ρ :=
  match rs.findIdx? p with
  | some i => swapRemove rs i
  | none => rs

theorem swapRemove_perm {rs : List ρ} {i : ℕ} (h : i < rs.length) :
    (swapRemove rs i).Perm (rs.eraseIdx i) := by
  rcases eq_nil_or_concat rs with rfl | ⟨init, last, rfl⟩
  · exact .nil
  · rw [concat_eq_append] at h ⊢
    rw [length_append, length_singleton] at h
    have hdef : swapRemove (init ++ [last]) i = ((init ++ [last]).set i last).dropLast := by
      rw [swapRemove, List.getLast?_concat]
    rw [hdef]
    rcases Nat.lt_or_ge i init.length with hlt | hge
    · rw [set_append_left _ _ hlt, dropLast_concat, eraseIdx_append_of_lt_length hlt]
      exact (set_perm_cons_eraseIdx hlt last).trans (perm_append_singleton last _).symm
    · have hi : i = init.length := by omega
      subst hi
      rw [eraseIdx_append_of_length_le (Nat.le_refl _)]
      simp

theorem swapRemoveFirst_perm (rs : List ρ) (p : ρ → Bool) :
    (swapRemoveFirst rs p).Perm (rs.eraseP p) := by
  rw [swapRemoveFirst, eraseP_eq_eraseIdx]
  cases hfind : rs.findIdx? p with
  | none => exact .refl _
  | some i => exact swapRemove_perm (List.findIdx?_eq_some_iff_getElem.mp hfind).1

/-! ## Leases -/

/-- Every slot that a record names holds what the record was promised, and no
slot is named twice. -/
structure Leased (names : ρ → Option ι) (promise : ρ → V → Prop) (slots : ι → Option V)
    (rs : List ρ) : Prop where
  held : ∀ r ∈ rs, ∀ i, names r = some i → ∃ v, slots i = some v ∧ promise r v
  once : (rs.filterMap names).Nodup

namespace Leased

variable {names : ρ → Option ι} {promise promise' : ρ → V → Prop} {slots slots' : ι → Option V}
  {rs rs' : List ρ} {r f : ρ} {i : ι} {p : ρ → Bool}

theorem nil : Leased names promise slots [] where
  held := by intro r hr; cases hr
  once := nodup_nil

theorem mono (h : Leased names promise slots rs) (hp : ∀ r v, promise r v → promise' r v) :
    Leased names promise' slots rs where
  held := by
    intro r hr i hi
    obtain ⟨v, hv, hrv⟩ := h.held r hr i hi
    exact ⟨v, hv, hp r v hrv⟩
  once := h.once

theorem perm (h : Leased names promise slots rs) (hp : rs'.Perm rs) :
    Leased names promise slots rs' where
  held := by
    intro r hr
    exact h.held r (hp.mem_iff.mp hr)
  once := (hp.filterMap names).nodup_iff.mpr h.once

theorem eraseP (h : Leased names promise slots rs) (p : ρ → Bool) :
    Leased names promise slots (rs.eraseP p) where
  held := by
    intro r hr
    exact h.held r (mem_of_mem_eraseP hr)
  once := h.once.sublist ((eraseP_sublist).filterMap names)

theorem frame (h : Leased names promise slots rs)
    (hs : ∀ r ∈ rs, ∀ i, names r = some i → slots' i = slots i) :
    Leased names promise slots' rs where
  held := by
    intro r hr i hi
    rw [hs r hr i hi]
    exact h.held r hr i hi
  once := h.once

theorem freed (h : Leased names promise slots rs) (hf : rs.find? p = some f)
    (hi : names f = some i) : ∀ r ∈ rs.eraseP p, names r ≠ some i := by
  obtain ⟨hpf, as, bs, rfl, has⟩ := List.find?_eq_some_iff_append.mp hf
  have herase : (as ++ f :: bs).eraseP p = as ++ bs := by
    rw [eraseP_append_right _ (by simpa using has), eraseP_cons_of_pos hpf]
  have honce := h.once
  rw [filterMap_append, filterMap_cons_some hi, nodup_middle,
    nodup_cons, ← filterMap_append] at honce
  rw [herase]
  intro r hr hri
  exact honce.1 (mem_filterMap.mpr ⟨r, hr, hri⟩)

/-- **A grant**: a slot that nobody names is filled for a new record. -/
theorem grant (h : Leased names promise slots rs) {v : V} (hr : names r = some i)
    (hfree : ∀ r' ∈ rs, names r' ≠ some i) (hv : slots' i = some v) (hp : promise r v)
    (hs : ∀ j, j ≠ i → slots' j = slots j) : Leased names promise slots' (rs ++ [r]) where
  held := by
    intro r' hr' j hj
    rcases mem_append.mp hr' with hold | hnew
    · have hji : j ≠ i := by
        rintro rfl
        exact hfree r' hold hj
      rw [hs j hji]
      exact h.held r' hold j hj
    · obtain rfl := mem_singleton.mp hnew
      obtain rfl : i = j := Option.some.inj (hr.symm.trans hj)
      exact ⟨v, hv, hp⟩
  once := by
    rw [filterMap_append, filterMap_cons_some hr, nodup_append]
    refine ⟨h.once, nodup_singleton i, ?_⟩
    intro a ha b hb hab
    obtain ⟨r', hr', hri⟩ := mem_filterMap.mp ha
    rw [hab, mem_singleton.mp hb] at hri
    exact hfree r' hr' hri

theorem append_none (h : Leased names promise slots rs) (hr : names r = none) :
    Leased names promise slots (rs ++ [r]) where
  held := by
    intro r' hr' j hj
    rcases mem_append.mp hr' with hold | hnew
    · exact h.held r' hold j hj
    · obtain rfl := mem_singleton.mp hnew
      rw [hr] at hj
      cases hj
  once := by
    rw [filterMap_append, filterMap_cons_none hr, filterMap_nil, append_nil]
    exact h.once

end Leased

end Meatpi
