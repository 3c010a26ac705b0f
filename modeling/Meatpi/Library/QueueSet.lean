import Mathlib.Algebra.Order.BigOperators.Group.Finset

/-!
# A set of queues

Queues with one list of notifications: what arrives in a queue leaves a notification
there, and a reader takes a notification before it reads the queue it names. Between
the two the reader owes a read (`QueueSet.Owes`). A reader that keeps to that always
finds what it was notified of, and the notifications never outnumber what the queues
hold (`Owes.length_le`), so they find room where the queues do.
-/

namespace Meatpi

open Function List Multiset Option

variable {depth room : ℕ}

structure QueueSet (ι α : Type) where
  queue : ι → List α
  notes : List ι

namespace QueueSet

variable {ι α : Type} [DecidableEq ι]

/-- Nothing in it. -/
def empty : QueueSet ι α := ⟨fun _ => [], []⟩

/-- An item arrives; a full queue turns it away, and a notification without room is
none of the outcomes a reader can live with. -/
def put (depth room : ℕ) (qs : QueueSet ι α) (i : ι) (a : α) : Option (QueueSet ι α) :=
  if depth ≤ (qs.queue i).length then some qs
  else if room ≤ qs.notes.length then none
  else some ⟨update qs.queue i (qs.queue i ++ [a]), qs.notes ++ [i]⟩

/-- The next notification, if there is one. -/
def select (qs : QueueSet ι α) : Option (ι × QueueSet ι α) :=
  match qs.notes with
  | [] => none
  | i :: notes => some (i, ⟨qs.queue, notes⟩)

/-- The next item of a queue, if there is one. -/
def receive (qs : QueueSet ι α) (i : ι) : Option (α × QueueSet ι α) :=
  match qs.queue i with
  | [] => none
  | a :: rest => some (a, ⟨update qs.queue i rest, qs.notes⟩)

/-- One notification for each item, but for the reads that are owed. -/
def Owes (qs : QueueSet ι α) (owed : ι → ℕ) : Prop :=
  ∀ i, (qs.queue i).length = qs.notes.count i + owed i

theorem owes_empty : (empty : QueueSet ι α).Owes fun _ => 0 := fun _ => rfl

variable {qs qs' : QueueSet ι α} {owed : ι → ℕ} {i : ι} {a : α}

omit [DecidableEq ι] in
theorem select_eq_some (h : qs.select = some (i, qs')) :
    qs.notes = i :: qs'.notes ∧ qs'.queue = qs.queue := by
  unfold select at h
  split at h
  · cases h
  · rename_i hnotes
    obtain ⟨rfl, rfl⟩ := Prod.mk.inj (some.inj h)
    exact ⟨hnotes, rfl⟩

omit [DecidableEq ι] in
theorem select_eq_none : qs.select = none ↔ qs.notes = [] := by
  unfold select
  split
  · rename_i hnotes
    exact ⟨fun _ => hnotes, fun _ => rfl⟩
  · rename_i hnotes
    rw [hnotes]
    exact iff_of_false (some_ne_none _) (cons_ne_nil _ _)

theorem receive_eq_some (h : qs.receive i = some (a, qs')) :
    qs.queue i = a :: qs'.queue i ∧ (∀ j, j ≠ i → qs'.queue j = qs.queue j) ∧
      qs'.notes = qs.notes := by
  unfold receive at h
  split at h
  · cases h
  · rename_i hqueue
    obtain ⟨rfl, rfl⟩ := Prod.mk.inj (some.inj h)
    refine ⟨?_, fun j hj => update_of_ne hj _ _, rfl⟩
    rw [hqueue]
    exact congrArg _ (update_self i _ qs.queue).symm

theorem Owes.select (h : qs.Owes owed) (hsel : qs.select = some (i, qs')) :
    qs'.Owes (update owed i (owed i + 1)) := by
  obtain ⟨hnotes, hqueue⟩ := select_eq_some hsel
  intro j
  have hj := h j
  rw [hnotes, List.count_cons] at hj
  rw [hqueue, hj]
  by_cases hij : j = i
  · rw [hij, update_self, if_pos (beq_self_eq_true i)]
    omega
  · rw [update_of_ne hij, if_neg (by simpa using fun h => hij h.symm)]
    omega

theorem Owes.exists_receive (h : qs.Owes owed) (hi : 0 < owed i) :
    ∃ a qs', qs.receive i = some (a, qs') := by
  have hlen := h i
  unfold receive
  split
  · rename_i hqueue
    rw [hqueue, length_nil] at hlen
    omega
  · exact ⟨_, _, rfl⟩

theorem Owes.receive (h : qs.Owes owed) (hrec : qs.receive i = some (a, qs')) (hi : 0 < owed i) :
    qs'.Owes (update owed i (owed i - 1)) := by
  obtain ⟨hqueue, hothers, hnotes⟩ := receive_eq_some hrec
  intro j
  have hj := h j
  rw [hnotes]
  by_cases hij : j = i
  · subst hij
    rw [hqueue, length_cons] at hj
    rw [update_self]
    omega
  · rw [update_of_ne hij, hothers j hij, hj]

theorem put_eq_some (h : qs.put depth room i a = some qs') :
    depth ≤ (qs.queue i).length ∧ qs' = qs ∨ (qs.queue i).length < depth ∧
        qs' = ⟨update qs.queue i (qs.queue i ++ [a]), qs.notes ++ [i]⟩ := by
  unfold put at h
  split_ifs at h with hfull hroom
  · exact Or.inl ⟨hfull, (some.inj h).symm⟩
  · exact Or.inr ⟨Nat.lt_of_not_le hfull, (some.inj h).symm⟩

theorem Owes.put (h : qs.Owes owed) (hput : qs.put depth room i a = some qs') : qs'.Owes owed := by
  rcases put_eq_some hput with ⟨-, rfl⟩ | ⟨-, rfl⟩
  · exact h
  · intro j
    have hj := h j
    dsimp only
    rw [count_append]
    by_cases hij : j = i
    · subst hij
      rw [update_self, List.length_append, List.count_singleton_self,
        List.length_singleton]
      omega
    · rw [update_of_ne hij, hj, List.count_singleton,
        if_neg (by simpa using fun h => hij h.symm), Nat.add_zero]

/-- No more than `depth` items in any queue. -/
def Fits (qs : QueueSet ι α) (depth : ℕ) : Prop := ∀ i, (qs.queue i).length ≤ depth

theorem Fits.put (h : qs.Fits depth) (hput : qs.put depth room i a = some qs') :
    qs'.Fits depth := by
  rcases put_eq_some hput with ⟨-, rfl⟩ | ⟨hroom, rfl⟩
  · exact h
  · intro j
    dsimp only
    by_cases hij : j = i
    · subst hij
      rw [update_self, List.length_append]
      exact hroom
    · rw [update_of_ne hij]
      exact h j

theorem Fits.receive (h : qs.Fits depth) (hrec : qs.receive i = some (a, qs')) :
    qs'.Fits depth := by
  obtain ⟨hqueue, hothers, -⟩ := receive_eq_some hrec
  intro j
  by_cases hij : j = i
  · subst hij
    have hj := h j
    rw [hqueue, length_cons] at hj
    omega
  · rw [hothers j hij]
    exact h j

variable [Fintype ι]

theorem Owes.length_le (h : qs.Owes owed) : qs.notes.length ≤ ∑ i, (qs.queue i).length := by
  have hcount : ∑ i, qs.notes.count i = qs.notes.length := by
    simpa only [coe_count, coe_card] using
      sum_count_eq_card (m := (qs.notes : Multiset ι)) fun i _ => Finset.mem_univ i
  rw [← hcount]
  exact Finset.sum_le_sum fun i _ => (h i).symm ▸ Nat.le_add_right _ _

/-- **A notification finds room** where there is as much as the queues can hold. -/
theorem Owes.put_isSome (h : qs.Owes owed) (hfits : qs.Fits depth) (i : ι) (a : α) :
    (qs.put depth (Fintype.card ι * depth) i a).isSome = true := by
  unfold QueueSet.put
  split_ifs with hfull hroom
  · rfl
  · -- the queue the item goes to has room itself
    have hlt : ∑ j, (qs.queue j).length < ∑ _j : ι, depth :=
      Finset.sum_lt_sum (fun j _ => hfits j) ⟨i, Finset.mem_univ i, Nat.lt_of_not_le hfull⟩
    rw [Finset.sum_const_nat fun _ _ => rfl] at hlt
    exact absurd (Nat.lt_of_le_of_lt h.length_le hlt) (Nat.not_lt.mpr hroom)
  · rfl

end QueueSet

end Meatpi
