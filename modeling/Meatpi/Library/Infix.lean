import Mathlib.Data.List.Basic

/-!
# Infix notation

Atoms, binary operators, parentheses and a minus that may stand in front. The
language of infix texts (`IsInfix`) says what follows what; `placed` decides it
in one pass. `Renders` says which tree a text means when operators have a
precedence and associate to the left: a `minus` in front is read at its own
precedence, over the operators that bind tighter.
-/

namespace Meatpi.Infix

variable {lead : Bool}

/-- The tokens of an infix text. -/
inductive Tok (A O : Type*) where
  | atom (a : A)
  | op (o : O)
  | lpar
  | rpar
  deriving DecidableEq

/-- What an infix text means. -/
inductive Tree (A O : Type*) where
  | atom (a : A)
  | bin (o : O) (l r : Tree A O)
  | neg (t : Tree A O)

variable {A O : Type*}

/-! ## The language -/

section Language

variable (minus : O)

/-- The infix texts; `lead` says whether a minus may stand in front. -/
inductive IsInfix : Bool → List (Tok A O) → Prop
  | atom (lead : Bool) (a : A) : IsInfix lead [.atom a]
  | paren (lead : Bool) {ts : List (Tok A O)} :
      IsInfix true ts → IsInfix lead (.lpar :: ts ++ [.rpar])
  | bin (o : O) {lead : Bool} {ts ts' : List (Tok A O)} :
      IsInfix lead ts → IsInfix false ts' → IsInfix lead (ts ++ .op o :: ts')
  | neg {ts : List (Tok A O)} : IsInfix false ts → IsInfix true (.op minus :: ts)

/-- One pass over a text: is a value awaited, may a minus stand here, and how
many parentheses are open. -/
def placed [DecidableEq O] : Bool → Bool → ℕ → List (Tok A O) → Bool
  | awaited, _, depth, [] => !awaited && depth == 0
  | awaited, _, depth, .atom _ :: ts => awaited && placed false false depth ts
  | awaited, lead, depth, .op o :: ts =>
    (!awaited || (lead && decide (o = minus))) && placed true false depth ts
  | awaited, _, depth, .lpar :: ts => awaited && placed true true (depth + 1) ts
  | awaited, _, depth, .rpar :: ts =>
    !awaited && decide (0 < depth) && placed false false (depth - 1) ts

variable [DecidableEq O]

theorem IsInfix.placed_append {ts : List (Tok A O)} (h : IsInfix minus lead ts) :
    ∀ (depth : ℕ) (rest : List (Tok A O)),
      placed minus true lead depth (ts ++ rest) = placed minus false false depth rest := by
  induction h with
  | atom lead a => intro depth rest; simp [placed]
  | paren lead _ ih =>
    intro depth rest
    simp [placed, ih]
  | bin o _ _ ih ih' =>
    intro depth rest
    rw [List.append_assoc, ih]
    simp [placed, ih']
  | neg _ ih =>
    intro depth rest
    simp [placed, ih]

theorem placed_value {n : ℕ} : ∀ {ts : List (Tok A O)} {lead : Bool} {depth : ℕ},
    ts.length ≤ n → placed minus true lead depth ts = true →
      ∃ us rest, ts = us ++ rest ∧ us ≠ [] ∧ IsInfix minus lead us ∧
        placed minus false false depth rest = true ∧ ∀ o rest', rest ≠ .op o :: rest' := by
  induction n with
  | zero =>
    intro ts lead depth hlen h
    rw [List.eq_nil_of_length_eq_zero (Nat.le_zero.mp hlen)] at h
    simp [placed] at h
  | succ n ih =>
    -- the operators behind a first value, one after the other
    have hmore : ∀ (k : ℕ) {us rest : List (Tok A O)} {lead : Bool} {depth : ℕ},
        rest.length ≤ k → k ≤ n → us ≠ [] → IsInfix minus lead us →
        placed minus false false depth rest = true →
        ∃ vs rest', us ++ rest = vs ++ rest' ∧ vs ≠ [] ∧ IsInfix minus lead vs ∧
          placed minus false false depth rest' = true ∧ ∀ o rest'', rest' ≠ .op o :: rest'' := by
      intro k
      induction k with
      | zero =>
        intro us rest lead depth hlen _ hne hus h
        have hnil := List.eq_nil_of_length_eq_zero (Nat.le_zero.mp hlen)
        subst hnil
        exact ⟨us, [], rfl, hne, hus, h, fun o rest' => by simp⟩
      | succ k ihk =>
        intro us rest lead depth hlen hk hne hus h
        cases rest with
        | nil => exact ⟨us, [], rfl, hne, hus, h, fun o rest' => by simp⟩
        | cons tok rest =>
          cases tok with
          | op o =>
            rw [List.length_cons] at hlen
            obtain ⟨vs, rest', rfl, _, hvs, hrest', hop⟩ := ih (by omega) h
            exact ⟨us ++ .op o :: vs, rest', by simp, by simp, .bin o hus hvs, hrest', hop⟩
          | atom a => exact ⟨us, .atom a :: rest, rfl, hne, hus, h, fun o rest' => by simp⟩
          | lpar => exact ⟨us, .lpar :: rest, rfl, hne, hus, h, fun o rest' => by simp⟩
          | rpar => exact ⟨us, .rpar :: rest, rfl, hne, hus, h, fun o rest' => by simp⟩
    intro ts lead depth hlen h
    cases ts with
    | nil => simp [placed] at h
    | cons tok ts =>
      rw [List.length_cons, Nat.add_le_add_iff_right] at hlen
      cases tok with
      | atom a =>
        exact hmore n hlen (Nat.le_refl n) (by simp) (.atom lead a) h
      | op o =>
        simp only [placed, Bool.not_true, Bool.false_or, Bool.and_eq_true, decide_eq_true_eq] at h
        obtain ⟨⟨rfl, rfl⟩, h⟩ := h
        obtain ⟨vs, rest', rfl, _, hvs, hrest', hop⟩ := ih hlen h
        exact ⟨.op o :: vs, rest', rfl, by simp, .neg hvs, hrest', hop⟩
      | lpar =>
        obtain ⟨vs, rest', rfl, hne, hvs, hrest', hop⟩ := ih hlen h
        rw [List.length_append] at hlen
        cases rest' with
        | nil => simp [placed] at hrest'
        | cons tok rest' =>
          cases tok with
          | rpar =>
            have hval : IsInfix minus lead (.lpar :: vs ++ [.rpar]) := .paren lead hvs
            have hshort : rest'.length ≤ n := by
              rw [List.length_cons] at hlen
              omega
            obtain ⟨ws, rest'', heq, hrest⟩ := hmore n hshort (Nat.le_refl n) (by simp) hval hrest'
            exact ⟨ws, rest'', by rw [← heq]; simp, hrest⟩
          | op o => exact absurd rfl (hop o rest')
          | atom a => simp [placed] at hrest'
          | lpar => simp [placed] at hrest'
      | rpar => simp [placed] at h

/-- **The language in one pass.** -/
theorem isInfix_iff_placed (ts : List (Tok A O)) :
    IsInfix minus true ts ↔ placed minus true true 0 ts = true := by
  constructor
  · intro h
    have := h.placed_append minus 0 []
    rw [List.append_nil] at this
    rw [this]
    rfl
  · intro h
    obtain ⟨us, rest, rfl, _, hus, hrest, hop⟩ := placed_value minus (Nat.le_refl _) h
    cases rest with
    | nil => rwa [List.append_nil]
    | cons tok rest =>
      cases tok with
      | op o => exact absurd rfl (hop o rest)
      | atom a => simp [placed] at hrest
      | lpar => simp [placed] at hrest
      | rpar => simp [placed] at hrest

omit [DecidableEq O] in
/-- Does no atom follow an atom? -/
def separated : List (Tok A O) → Bool
  | [] => true
  | .atom _ :: .atom _ :: _ => false
  | _ :: ts => separated ts

omit [DecidableEq O] in
theorem separated_tail {tok : Tok A O} {ts : List (Tok A O)} (h : separated (tok :: ts) = true) :
    separated ts = true := by
  rcases ts with _ | ⟨tok', ts⟩
  · rfl
  · cases tok <;> cases tok' <;> first | exact h | cases h

omit [DecidableEq O] in
theorem separated_append_op {o : O} {ts' : List (Tok A O)} (h' : separated ts' = true)
    {ts : List (Tok A O)} (h : separated ts = true) : separated (ts ++ .op o :: ts') = true := by
  induction ts with
  | nil => exact h'
  | cons tok ts ih =>
    have hrest := ih (separated_tail h)
    rcases ts with _ | ⟨tok', ts⟩
    · cases tok <;> exact h'
    · cases tok <;> cases tok' <;> first | exact hrest | cases h

theorem placed_separated {ts : List (Tok A O)} {awaited : Bool} {depth : ℕ}
    (h : placed minus awaited lead depth ts = true) : separated ts = true := by
  induction ts generalizing awaited lead depth with
  | nil => rfl
  | cons tok ts ih =>
    cases tok with
    | atom a =>
      simp only [placed, Bool.and_eq_true] at h
      rcases ts with _ | ⟨tok', ts⟩
      · rfl
      · cases tok' with
        | atom b => simp [placed] at h
        | op o => exact ih h.2
        | lpar => simp [placed] at h
        | rpar => exact ih h.2
    | op o =>
      simp only [placed, Bool.and_eq_true] at h
      exact ih h.2
    | lpar =>
      simp only [placed, Bool.and_eq_true] at h
      exact ih h.2
    | rpar =>
      simp only [placed, Bool.and_eq_true] at h
      exact ih h.2

end Language

/-! ## Precedence -/

section Precedence

variable (prec : O → ℕ) (minus : O)

/-- `Renders lead p t ts`: the text `ts` means `t`, read by operators that bind
at least as tight as `p`. Operators associate to the left; any parentheses may
be added. -/
inductive Renders : Bool → ℕ → Tree A O → List (Tok A O) → Prop
  | atom (lead : Bool) (p : ℕ) (a : A) : Renders lead p (.atom a) [.atom a]
  | paren (lead : Bool) (p : ℕ) {t : Tree A O} {ts : List (Tok A O)} :
      Renders true 1 t ts → Renders lead p t (.lpar :: ts ++ [.rpar])
  | bin {lead : Bool} {p : ℕ} {o : O} {l r : Tree A O} {ts ts' : List (Tok A O)} :
      p ≤ prec o → Renders lead (prec o) l ts → Renders false (prec o + 1) r ts' →
      Renders lead p (.bin o l r) (ts ++ .op o :: ts')
  | neg {p : ℕ} {t : Tree A O} {ts : List (Tok A O)} :
      p ≤ prec minus → Renders false (prec minus + 1) t ts →
      Renders true p (.neg t) (.op minus :: ts)

theorem Renders.isInfix {p : ℕ} {t : Tree A O} {ts : List (Tok A O)}
    (h : Renders prec minus lead p t ts) : IsInfix minus lead ts := by
  induction h with
  | atom lead p a => exact .atom lead a
  | paren lead p _ ih => exact .paren lead ih
  | bin _ _ _ ih ih' => exact .bin _ ih ih'
  | neg _ _ ih => exact .neg ih

end Precedence

end Meatpi.Infix
