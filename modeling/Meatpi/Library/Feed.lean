import Mathlib.Data.List.Basic

/-!
# Feeding a machine in pieces

A machine takes one symbol at a time and may give up on one (`feed`); it is called
with piece after piece. If it never gives up the pieces do not matter
(`feeds_eq_foldl`), and a stream made of tokens that each bring it back to rest does
what its tokens do, one after the other (`foldl_tokens`).
-/

namespace Meatpi

open List

variable {τ α ε : Type}

/-- The symbols one by one, up to the first that fails. -/
def feed (step : τ → α → τ × Option ε) : τ → List α → τ × Option ε
  | t, [] => (t, none)
  | t, a :: as =>
    match step t a with
    | (t, none) => feed step t as
    | (t, some e) => (t, some e)

/-- One call for each piece. -/
def feeds (step : τ → α → τ × Option ε) (t : τ) (pieces : List (List α)) : τ :=
  pieces.foldl (fun t piece => (feed step t piece).1) t

section Accepting

variable {step : τ → α → τ × Option ε} (haccepts : ∀ t a, (step t a).2 = none)
include haccepts

theorem feed_eq_foldl (as : List α) :
    ∀ t, feed step t as = (as.foldl (fun t a => (step t a).1) t, none) := by
  induction as with
  | nil =>
    intro t
    rfl
  | cons a as ih =>
    intro t
    have hstep : step t a = ((step t a).1, none) := Prod.ext rfl (haccepts t a)
    rw [feed, hstep]
    exact ih (step t a).1

/-- **Pieces do not matter** to a machine that never gives up. -/
theorem feeds_eq_foldl (pieces : List (List α)) :
    ∀ t, feeds step t pieces = pieces.flatten.foldl (fun t a => (step t a).1) t := by
  induction pieces with
  | nil =>
    intro t
    rfl
  | cons piece pieces ih =>
    intro t
    have hfirst := congrArg Prod.fst (feed_eq_foldl haccepts piece t)
    rw [feeds, foldl_cons, hfirst, flatten_cons, foldl_append]
    exact ih _

end Accepting

/-- If each token brings the machine from rest to rest and adds to a log, a stream of
tokens does so too. -/
theorem foldl_tokens {β γ : Type} {f : τ → α → τ} {symbols : β → List α} {out : β → List γ}
    (Rest : τ → Prop) (log : τ → List γ) {toks : List β}
    (h : ∀ tok ∈ toks, ∀ t, Rest t → Rest ((symbols tok).foldl f t) ∧
      log ((symbols tok).foldl f t) = log t ++ out tok) :
    ∀ t, Rest t → Rest ((toks.flatMap symbols).foldl f t) ∧
      log ((toks.flatMap symbols).foldl f t) = log t ++ toks.flatMap out := by
  induction toks with
  | nil =>
    intro t ht
    exact ⟨ht, (append_nil _).symm⟩
  | cons tok toks ih =>
    intro t ht
    obtain ⟨hrest, hlog⟩ := h tok mem_cons_self t ht
    obtain ⟨hrest', hlog'⟩ := ih (fun u hu => h u (mem_cons_of_mem tok hu)) _ hrest
    rw [flatMap_cons, foldl_append, flatMap_cons]
    refine ⟨hrest', ?_⟩
    rw [hlog', hlog, append_assoc]

end Meatpi
