import Mathlib.Data.List.Nodup
import Mathlib.Order.Basic

/-!
# Labelled runs and bounded overtaking

A labelled step relation `step : σ → ε → σ → Prop` and its finite runs, kept with the
list of labels, so that statements can be made about what happened in a run.

* `Run.inv`: what one step preserves, a run preserves;
* `Along.congr`: what is kept by the steps may be used at every step;
* `Run.picks_nodup`: where an entry of least key is run and its key then moves past a
  waiting entry's, nobody overtakes the waiting entry twice.
-/

namespace Meatpi

open List

universe u v w

variable {σ : Type u} {ε : Type v}

/-- A finite run from `s` with the labels of its steps in order. -/
inductive Run (step : σ → ε → σ → Prop) : σ → List ε → σ → Prop
  | nil (s : σ) : Run step s [] s
  | cons {s s' s'' : σ} {e : ε} {es : List ε} :
      step s e s' → Run step s' es s'' → Run step s (e :: es) s''

namespace Run

variable {step : σ → ε → σ → Prop}

theorem inv {I : σ → Prop} (hstep : ∀ s e s', step s e s' → I s → I s') :
    ∀ {s s' : σ} {es : List ε}, Run step s es s' → I s → I s' := by
  intro s s' es hrun
  induction hrun with
  | nil s => exact id
  | cons hs _ ih => exact fun hI => ih (hstep _ _ _ hs hI)

theorem withInv {I : σ → Prop} (hstep : ∀ s e s', step s e s' → I s → I s') :
    ∀ {s s' : σ} {es : List ε}, Run step s es s' → I s →
      Run (fun s e s' => step s e s' ∧ I s) s es s' := by
  intro s s' es hrun
  induction hrun with
  | nil s => exact fun _ => .nil s
  | cons hs _ ih => exact fun hI => .cons ⟨hs, hI⟩ (ih (hstep _ _ _ hs hI))

theorem snoc {s s' s'' : σ} {e : ε} {es : List ε} (h : Run step s es s') (hs : step s' e s'') :
    Run step s (es ++ [e]) s'' := by
  induction h with
  | nil s => exact .cons hs (.nil s'')
  | cons hfirst _ ih => exact .cons hfirst (ih hs)

theorem split {es es' : List ε} : ∀ {s s'' : σ}, Run step s (es ++ es') s'' →
    ∃ s', Run step s es s' ∧ Run step s' es' s'' := by
  induction es with
  | nil => exact fun h => ⟨_, .nil _, h⟩
  | cons e es ih =>
    intro s s'' h
    cases h with
    | cons hs hrun =>
      obtain ⟨s', h₁, h₂⟩ := ih hrun
      exact ⟨s', .cons hs h₁, h₂⟩

/-- What holds of no label, and after one step more, holds of a run and its
labels. -/
theorem history {I : List ε → σ → Prop}
    (hstep : ∀ es s e s', step s e s' → I es s → I (es ++ [e]) s') {s s' : σ} {es : List ε}
    (hrun : Run step s es s') (h0 : I [] s) : I es s' := by
  suffices hgen : ∀ pre, I pre s → I (pre ++ es) s' by
    have h := hgen [] h0
    rwa [nil_append] at h
  clear h0
  induction hrun with
  | nil s =>
    intro pre h
    rw [append_nil]
    exact h
  | @cons s s₁ s₂ e es hs _ ih =>
    intro pre h
    have h' := ih (pre ++ [e]) (hstep pre s e s₁ hs h)
    rwa [append_assoc] at h'

end Run

/-! ## Bounded overtaking

`key s i` orders the entries. A step either runs an entry (`pick e = some i`)
or does something that leaves every key alone. -/

section Overtaking

variable {ι : Type w} {K : Type*} [Preorder K]

/-- What a step has to do for the entry `j` to be overtaken by nobody twice:
an entry that runs is not above `j`, is moved above `j`, and nothing else
moves. -/
structure Overtakes (key : σ → ι → K) (pick : ε → Option ι) (j : ι)
    (s : σ) (e : ε) (s' : σ) : Prop where
  /-- the entry that runs is not above the waiting one, which does not run -/
  least : ∀ i, pick e = some i → ¬ key s j < key s i ∧ i ≠ j
  /-- it is moved above the waiting one -/
  moved : ∀ i, pick e = some i → key s j < key s' i
  /-- every other key stays -/
  frame : ∀ k, pick e ≠ some k → key s' k = key s k

variable {key : σ → ι → K} {pick : ε → Option ι} {j : ι} {step : σ → ε → σ → Prop}

theorem Overtakes.above {s s' : σ} {e : ε} (h : Overtakes key pick j s e s') {k : ι}
    (hk : key s j < key s k) : key s' j < key s' k := by
  have hj : key s' j = key s j := by
    apply h.frame
    intro hp
    exact (h.least j hp).2 rfl
  by_cases hp : pick e = some k
  · exact absurd hk (h.least k hp).1
  · rw [hj, h.frame k hp]
    exact hk

theorem Run.not_mem_picks (hstep : ∀ s e s', step s e s' → Overtakes key pick j s e s') :
    ∀ {s s' : σ} {es : List ε}, Run step s es s' → ∀ {k : ι}, key s j < key s k →
      k ∉ es.filterMap pick := by
  intro s s' es hrun
  induction hrun with
  | nil s => intro k _; simp
  | @cons s s₁ s₂ e es hs _ ih =>
    intro k hk
    have ho := hstep _ _ _ hs
    have hrest := ih (ho.above hk)
    rcases hp : pick e with _ | i
    · rw [filterMap_cons_none hp]
      exact hrest
    · rw [filterMap_cons_some hp, mem_cons, not_or]
      refine ⟨?_, hrest⟩
      rintro rfl
      exact (ho.least k hp).1 hk

/-- **Bounded overtaking**: while `j` waits, every other entry runs at most
once. -/
theorem Run.picks_nodup (hstep : ∀ s e s', step s e s' → Overtakes key pick j s e s') :
    ∀ {s s' : σ} {es : List ε}, Run step s es s' → (es.filterMap pick).Nodup := by
  intro s s' es hrun
  induction hrun with
  | nil s => simp
  | @cons s s₁ s₂ e es hs hrun ih =>
    have ho := hstep _ _ _ hs
    rcases hp : pick e with _ | i
    · rw [filterMap_cons_none hp]
      exact ih
    · rw [filterMap_cons_some hp, nodup_cons]
      refine ⟨?_, ih⟩
      apply Run.not_mem_picks hstep hrun
      have hj : key s₁ j = key s j := by
        apply ho.frame
        intro hpj
        exact (ho.least j hpj).2 rfl
      rw [hj]
      exact ho.moved i hp

end Overtaking

/-! ## What holds at every step -/

section Along

variable {S : Type u} {C : Type v} {next : S → C → S}

/-- Each input finds a state that it has this relation to. -/
def Along (next : S → C → S) (P : S → C → Prop) : S → List C → Prop
  | _, [] => True
  | s, c :: cs => P s c ∧ Along next P (next s c) cs

variable {P Q : S → C → Prop}

theorem Along.and {cs : List C} : ∀ {s : S}, Along next P s cs → Along next Q s cs →
    Along next (fun s c => P s c ∧ Q s c) s cs := by
  induction cs with
  | nil => exact fun _ _ => trivial
  | cons c cs ih => exact fun hP hQ => ⟨⟨hP.1, hQ.1⟩, ih hP.2 hQ.2⟩

/-- A property of the steps may be exchanged for another where both are the same,
given an invariant and what is known of each step. -/
theorem Along.congr {I : S → Prop} {K : S → C → Prop} (hkeep : ∀ s c, I s → K s c → I (next s c))
    (hiff : ∀ s c, I s → K s c → (P s c ↔ Q s c)) {cs : List C} :
    ∀ {s : S}, I s → Along next K s cs → (Along next P s cs ↔ Along next Q s cs) := by
  induction cs with
  | nil => exact fun _ _ => Iff.rfl
  | cons c cs ih =>
    intro s hI hK
    rw [Along, Along, hiff s c hI hK.1, ih (hkeep s c hI hK.1) hK.2]

theorem Along.of_forall (h : ∀ s c, P s c) (cs : List C) : ∀ s : S, Along next P s cs := by
  induction cs with
  | nil => exact fun _ => trivial
  | cons c cs ih => exact fun s => ⟨h s c, ih (next s c)⟩

end Along

end Meatpi
