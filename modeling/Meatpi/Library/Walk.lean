import Mathlib.Data.List.Basic

/-!
# Walks that stop at the first failure

A walk goes through a list. Each item acts on a state and may fail; a failure
ends the walk, and what was done before it stays done. A walk succeeds exactly
when every item does in the state it finds (`walk_ok_iff`), and what every item
leaves alone the walk leaves alone (`walk_frame`), however it ends.
-/

namespace Meatpi

open List

universe u v w

variable {S : Type u} {A : Type v} {E : Type w}

/-- Each item acts in turn, and the first failure ends the walk. -/
def walk (act : S → A → Except E Unit × S) : S → List A → Except E Unit × S
  | s, [] => (.ok (), s)
  | s, a :: as =>
    match act s a with
    | (.error err, s') => (.error err, s')
    | (.ok (), s') => walk act s' as

/-- Every item succeeds in the state it finds. -/
def Passes (act : S → A → Except E Unit × S) : S → List A → Prop
  | _, [] => True
  | s, a :: as => (act s a).1 = .ok () ∧ Passes act (act s a).2 as

variable {act : S → A → Except E Unit × S}

theorem walk_cons_ok {s : S} {a : A} (as : List A) (h : (act s a).1 = .ok ()) :
    walk act s (a :: as) = walk act (act s a).2 as := by
  rcases hact : act s a with ⟨r, s'⟩
  rw [hact] at h
  cases h
  rw [walk, hact]

theorem walk_cons_error {s : S} {a : A} (as : List A) {err : E} (h : (act s a).1 = .error err) :
    walk act s (a :: as) = (.error err, (act s a).2) := by
  rcases hact : act s a with ⟨r, s'⟩
  rw [hact] at h
  cases h
  rw [walk, hact]

/-- **A walk succeeds** when every item does. -/
theorem walk_ok_iff {as : List A} : ∀ {s : S}, (walk act s as).1 = .ok () ↔ Passes act s as := by
  induction as with
  | nil =>
    intro s
    exact ⟨fun _ => trivial, fun _ => rfl⟩
  | cons a as ih =>
    intro s
    cases h : (act s a).1 with
    | error err =>
      rw [walk_cons_error as h, Passes, h]
      constructor
      · intro herr
        cases herr
      · intro hpass
        cases hpass.1
    | ok u =>
      rw [walk_cons_ok as h, ih]
      exact ⟨fun hpass => ⟨h, hpass⟩, fun hpass => hpass.2⟩

theorem walk_frame {α : Type*} (f : S → α) {as : List A}
    (hact : ∀ s, ∀ a ∈ as, f (act s a).2 = f s) : ∀ s : S, f (walk act s as).2 = f s := by
  induction as with
  | nil =>
    intro s
    rfl
  | cons a as ih =>
    intro s
    have hrest : ∀ s, ∀ b ∈ as, f (act s b).2 = f s := fun s b hb => hact s b (mem_cons_of_mem a hb)
    cases h : (act s a).1 with
    | error err => rw [walk_cons_error as h, hact s a mem_cons_self]
    | ok u => rw [walk_cons_ok as h, ih hrest, hact s a mem_cons_self]

theorem passes_quiet {s : S} {as : List A} (hquiet : ∀ a ∈ as, (act s a).2 = s) :
    Passes act s as ↔ ∀ a ∈ as, (act s a).1 = .ok () := by
  induction as with
  | nil => exact ⟨fun _ a ha => (not_mem_nil ha).elim, fun _ => trivial⟩
  | cons a as ih =>
    have hrest := ih fun b hb => hquiet b (mem_cons_of_mem a hb)
    rw [Passes, hquiet a mem_cons_self, hrest, forall_mem_cons]

theorem passes_iff_forall {P : A → Prop} {as : List A}
    (hact : ∀ s, ∀ a ∈ as, (act s a).1 = .ok () ↔ P a) :
    ∀ {s : S}, Passes act s as ↔ ∀ a ∈ as, P a := by
  induction as with
  | nil =>
    intro s
    exact ⟨fun _ a ha => (not_mem_nil ha).elim, fun _ => trivial⟩
  | cons a as ih =>
    intro s
    have hrest : ∀ s, ∀ b ∈ as, (act s b).1 = .ok () ↔ P b :=
      fun s b hb => hact s b (mem_cons_of_mem a hb)
    rw [Passes, hact s a mem_cons_self, ih hrest, forall_mem_cons]

end Meatpi
