import Mathlib.Data.Set.Card
import Mathlib.Data.Set.Finite.Lemmas

/-!
# Stepping up through versions

A set of items, each with a version and with the least version it can be reached from.
One can step from a version to a higher item whose need is met. To step to the newest
reachable item again and again is never wrong: where some chain of steps leads to the
newest item of all, the greedy steps lead there too.
-/

namespace Meatpi

namespace Stepping

variable {ι α : Type*} [LinearOrder α] (ver : ι → α) (need : ι → Option α)

/-- One step from the version `v` to the item `r`. -/
def Step (v : α) (r : ι) : Prop := v < ver r ∧ ∀ m, need r = some m → m ≤ v

/-- Steps through items of `S` lead from the version `v` to the item `t`. -/
inductive Chain (S : ι → Prop) : α → ι → Prop
  | one {v : α} {t : ι} : S t → Step ver need v t → Chain S v t
  | more {v : α} {r t : ι} : S r → Step ver need v r → Chain S (ver r) t → Chain S v t

/-- The newest item one step away from `v`. -/
def Newest (S : ι → Prop) (v : α) (r : ι) : Prop :=
  S r ∧ Step ver need v r ∧ ∀ r', S r' → Step ver need v r' → ver r' ≤ ver r

/-- `k` steps, each to the newest item, lead from `v` to `t`. -/
inductive Greedy (S : ι → Prop) : ℕ → α → ι → Prop
  | one {v : α} {t : ι} : Newest ver need S v t → Greedy S 1 v t
  | more {k : ℕ} {v : α} {r t : ι} :
      Newest ver need S v r → Greedy S k (ver r) t → Greedy S (k + 1) v t

variable {ver need} {S : ι → Prop}

theorem Chain.mem {v : α} {t : ι} (h : Chain ver need S v t) : S t := by
  induction h with
  | one ht _ => exact ht
  | more _ _ _ ih => exact ih

theorem Chain.first {v : α} {t : ι} (h : Chain ver need S v t) : ∃ r, S r ∧ Step ver need v r := by
  cases h with
  | one ht hstep => exact ⟨_, ht, hstep⟩
  | more hr hstep _ => exact ⟨_, hr, hstep⟩

/-- **A chain can be entered at any higher version** below its end: a need met by a lower
version is met by a higher one. -/
theorem Chain.enter {v w : α} {t : ι} (h : Chain ver need S v t) (hvw : v ≤ w) (hwt : w < ver t) :
    Chain ver need S w t := by
  induction h with
  | one ht hstep => exact .one ht ⟨hwt, fun m hm => (hstep.2 m hm).trans hvw⟩
  | @more v r t hr hstep hchain ih =>
    rcases lt_or_ge w (ver r) with hlt | hge
    · exact .more hr ⟨hlt, fun m hm => (hstep.2 m hm).trans hvw⟩ hchain
    · exact ih hge hwt

theorem exists_newest (hfin : {r | S r}.Finite) {v : α} (h : ∃ r, S r ∧ Step ver need v r) :
    ∃ r, Newest ver need S v r := by
  have hsub : {r | S r ∧ Step ver need v r} ⊆ {r | S r} := fun r hr => hr.1
  obtain ⟨r, hr, hmax⟩ := Set.exists_max_image _ ver (hfin.subset hsub) h
  exact ⟨r, hr.1, hr.2, fun r' hr' hstep' => hmax r' ⟨hr', hstep'⟩⟩

/-- **Greedy steps arrive**: where a chain leads to the newest item of a finite `S`, the
steps to the newest reachable item lead there. -/
theorem Chain.greedy (hfin : {r | S r}.Finite) (hinj : ∀ r r', S r → S r' → ver r = ver r' → r = r')
    {t : ι} (htop : ∀ r, S r → ver r ≤ ver t) {v : α} (h : Chain ver need S v t) :
    ∃ k, Greedy ver need S k v t := by
  -- induction on the number of items above `v`
  induction hn : {r | S r ∧ v < ver r}.ncard using Nat.strong_induction_on generalizing v with
  | _ n ih =>
    obtain ⟨r, hr⟩ := exists_newest hfin h.first
    have hrS : S r := hr.1
    have hstep : Step ver need v r := hr.2.1
    rcases (htop r hrS).eq_or_lt with heq | hlt
    · have hrt : r = t := hinj r t hrS h.mem heq
      rw [hrt] at hr
      exact ⟨1, .one hr⟩
    · have hfewer : {q | S q ∧ ver r < ver q}.ncard < n := by
        rw [← hn]
        apply Set.ncard_lt_ncard _ (hfin.subset fun q hq => hq.1)
        refine ⟨fun q hq => ⟨hq.1, hstep.1.trans hq.2⟩, fun hsub => ?_⟩
        have hmem : r ∈ {q | S q ∧ v < ver q} := ⟨hrS, hstep.1⟩
        exact lt_irrefl _ (hsub hmem).2
      obtain ⟨k, hk⟩ := ih _ hfewer (h.enter hstep.1.le hlt) rfl
      exact ⟨k + 1, .more hr hk⟩

end Stepping

end Meatpi
