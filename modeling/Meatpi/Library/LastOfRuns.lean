import Mathlib.Data.List.Sort

/-!
# The last of each key

A list that is sorted so that equal keys are neighbours is thinned to one value
for each key by keeping the last of every run (`lastOfRuns`). What is left is
strictly ascending, and holds of each key the greatest value.
-/

namespace Meatpi

open List

variable {α κ : Type*}

/-- Of neighbours with equal keys the last stays. -/
def lastOfRuns [DecidableEq κ] (key : α → κ) : List α → List α
  | a :: b :: rest =>
    if key a = key b then lastOfRuns key (b :: rest) else a :: lastOfRuns key (b :: rest)
  | l => l

section

variable [DecidableEq κ] {key : α → κ}

theorem sublist_lastOfRuns (l : List α) : (lastOfRuns key l).Sublist l := by
  fun_induction lastOfRuns key l with
  | case1 a b rest _ ih => exact ih.trans (sublist_cons_self ..)
  | case2 a b rest _ ih => exact ih.cons_cons a
  | case3 l _ => exact List.Sublist.refl l

theorem mem_of_mem_lastOfRuns {a : α} {l : List α} (h : a ∈ lastOfRuns key l) : a ∈ l :=
  (sublist_lastOfRuns l).subset h

theorem lastOfRuns_ne_nil {l : List α} (h : l ≠ []) : lastOfRuns key l ≠ [] := by
  fun_induction lastOfRuns key l with
  | case1 a b rest _ ih => exact ih (cons_ne_nil _ _)
  | case2 => exact cons_ne_nil _ _
  | case3 l _ => exact h

end

section

variable [LinearOrder κ] [DecidableEq κ] {key : α → κ}

theorem lastOfRuns_eq_self {l : List α} (h : l.Pairwise (key · < key ·)) :
    lastOfRuns key l = l := by
  fun_induction lastOfRuns key l with
  | case1 a b rest heq _ =>
    have hlt := (pairwise_cons.mp h).1 b (mem_cons_self ..)
    exact absurd heq (ne_of_lt hlt)
  | case2 a b rest _ ih => rw [ih (pairwise_cons.mp h).2]
  | case3 => rfl

theorem pairwise_lastOfRuns {l : List α} (h : l.Pairwise (key · ≤ key ·)) :
    (lastOfRuns key l).Pairwise (key · < key ·) := by
  fun_induction lastOfRuns key l with
  | case1 a b rest _ ih => exact ih (pairwise_cons.mp h).2
  | case2 a b rest hne ih =>
    obtain ⟨hhead, htail⟩ := pairwise_cons.mp h
    rw [pairwise_cons]
    refine ⟨?_, ih htail⟩
    intro c hc
    -- `b` is above `a`, and what is left of the rest is not below `b`
    have hab : key a < key b := lt_of_le_of_ne (hhead b (mem_cons_self ..)) hne
    rcases mem_cons.mp (mem_of_mem_lastOfRuns hc) with rfl | hmem
    · exact hab
    · exact lt_of_lt_of_le hab ((pairwise_cons.mp htail).1 c hmem)
  | case3 l hnot =>
    rcases l with _ | ⟨a, _ | ⟨b, rest⟩⟩
    · exact List.Pairwise.nil
    · exact pairwise_singleton ..
    · exact absurd rfl (hnot a b rest)

/-- **What stays of each key**: the greatest value, in an order that refines
that of the keys. -/
theorem mem_lastOfRuns {r : α → α → Prop} (hrefl : ∀ a, r a a)
    (hkey : ∀ {a b}, r a b → key a ≤ key b) {l : List α}
    (hanti : ∀ a ∈ l, ∀ b ∈ l, r a b → r b a → a = b) (h : l.Pairwise r) {a : α} :
    a ∈ lastOfRuns key l ↔ a ∈ l ∧ ∀ b ∈ l, key b = key a → r b a := by
  fun_induction lastOfRuns key l with
  | case1 x y rest heq ih =>
    obtain ⟨hhead, htail⟩ := pairwise_cons.mp h
    have hxy := hhead y (mem_cons_self ..)
    rw [ih (fun a ha b hb => hanti a (mem_cons_of_mem _ ha) b (mem_cons_of_mem _ hb)) htail]
    constructor
    · rintro ⟨ha, hmax⟩
      refine ⟨mem_cons_of_mem _ ha, ?_⟩
      intro b hb hba
      rcases mem_cons.mp hb with rfl | hb
      · exact hhead a ha
      · exact hmax b hb hba
    · rintro ⟨ha, hmax⟩
      refine ⟨?_, fun b hb => hmax b (mem_cons_of_mem _ hb)⟩
      rcases mem_cons.mp ha with rfl | ha
      · -- the head is the greatest of its run: it equals the one behind it
        have hyx := hmax y (mem_cons_of_mem _ (mem_cons_self ..)) heq.symm
        rw [hanti a (mem_cons_self ..) y (mem_cons_of_mem _ (mem_cons_self ..)) hxy hyx]
        exact mem_cons_self ..
      · exact ha
  | case2 x y rest hne ih =>
    obtain ⟨hhead, htail⟩ := pairwise_cons.mp h
    have hlt : ∀ b ∈ y :: rest, key x < key b := by
      intro b hb
      have hxy : key x < key y := lt_of_le_of_ne (hkey (hhead y (mem_cons_self ..))) hne
      rcases mem_cons.mp hb with rfl | hb
      · exact hxy
      · exact lt_of_lt_of_le hxy (hkey ((pairwise_cons.mp htail).1 b hb))
    rw [mem_cons, mem_cons,
      ih (fun a ha b hb => hanti a (mem_cons_of_mem _ ha) b (mem_cons_of_mem _ hb))
        htail]
    constructor
    · rintro (rfl | ⟨ha, hmax⟩)
      · refine ⟨Or.inl rfl, ?_⟩
        intro b hb hba
        rcases mem_cons.mp hb with rfl | hb
        · exact hrefl b
        · exact absurd hba (ne_of_gt (hlt b hb))
      · refine ⟨Or.inr ha, ?_⟩
        intro b hb hba
        rcases mem_cons.mp hb with rfl | hb
        · exact absurd hba (ne_of_lt (hlt a ha))
        · exact hmax b hb hba
    · rintro ⟨rfl | ha, hmax⟩
      · exact Or.inl rfl
      · exact Or.inr ⟨ha, fun b hb => hmax b (mem_cons_of_mem _ hb)⟩
  | case3 l hnot =>
    rcases l with _ | ⟨x, _ | ⟨y, rest⟩⟩
    · simp
    · simp only [mem_singleton, forall_eq]
      constructor
      · rintro rfl
        exact ⟨rfl, fun _ => hrefl a⟩
      · exact And.left
    · exact absurd rfl (hnot x y rest)

end

end Meatpi
