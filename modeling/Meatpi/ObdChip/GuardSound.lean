import Meatpi.ObdChip.GuardReads

/-!
# What the guard lets through

A second scan of what the guard let through finds nothing. What it let through
holds no write if every write in it was spelled as the guard rewrites it
(`obdChipGuardCmd_reads`), and not otherwise: a blank between the two letters
that begin a command hides it from the guard.
-/

namespace Meatpi

open List

variable {b₀ b₁ : Char} {o s : List Char} {prev : Option Char}

/-! ## A second scan -/

/-- The text as the guard leaves it, place by place. -/
inductive GuardPatched : List Char → List Char → Prop
  | nil : GuardPatched [] []
  | cons (c : Char) {s o : List Char} (h : GuardPatched s o) : GuardPatched (c :: s) (c :: o)
  | word {a t : Char} {s o : List Char} (ha : a.toLower = 'a') (ht : t.toLower = 't') :
      GuardPatched (a :: t :: s) ('A' :: 'T' :: o)

theorem GuardPatched.refl : ∀ s, GuardPatched s s
  | [] => .nil
  | c :: s => .cons c (refl s)

theorem GuardPatched.append (h : GuardPatched s o) (tok : List Char) :
    GuardPatched (tok ++ s) (tok ++ o) := by
  induction tok with
  | nil => exact h
  | cons c tok ih => exact ih.cons c

theorem GuardScanned.patched (h : GuardScanned prev s o) : GuardPatched s o := by
  induction h with
  | short h => exact .refl _
  | ends hws => exact .refl _
  | other h _ ih => exact ih.cons _
  | patch hprev ha ht => exact .word ha ht
  | leave hprev ha ht hws hws' hws'' hl hl' hl'' _ ih =>
    exact ((((ih.cons _).append _).cons _ |>.append _).cons _ |>.append _).cons _ |>.cons _

theorem GuardPatched.skipWs (h : GuardPatched s o) :
    (guardSkipWs s = [] ∧ guardSkipWs o = []) ∨
    (∃ l r r', guardSkipWs s = l :: r ∧ guardSkipWs o = l :: r' ∧ GuardPatched r r') ∨
    (∃ r', guardSkipWs o = 'A' :: 'T' :: r') := by
  induction h with
  | nil => exact .inl ⟨rfl, rfl⟩
  | @cons c s o h ih =>
    cases hc : guardWs c with
    | true => rwa [skipWs_ws hc, skipWs_ws hc]
    | false => exact .inr (.inl ⟨c, s, o, skipWs_letter hc s, skipWs_letter hc o, h⟩)
  | @word a t s o ha ht =>
    exact .inr (.inr ⟨o, skipWs_letter (by decide) _⟩)

theorem GuardPatched.takeWhile (h : GuardPatched s o)
    (hno : ¬ ['A', 'T'] <:+: o.takeWhile Char.isAlpha) :
    s.takeWhile Char.isAlpha = o.takeWhile Char.isAlpha := by
  induction h with
  | nil => rfl
  | @cons c s o h ih =>
    rw [takeWhile_cons, takeWhile_cons]
    rw [takeWhile_cons] at hno
    split_ifs at hno ⊢ with hc
    · rw [ih fun hin => hno (hin.trans (suffix_cons c _).isInfix)]
    · rfl
  | @word a t s o ha ht =>
    have hAT : ('A' :: 'T' :: o).takeWhile Char.isAlpha = ['A', 'T'] ++ o.takeWhile Char.isAlpha := by
      rfl
    exact absurd (hAT ▸ (prefix_append _ _).isInfix) hno

theorem GuardPatched.guardWord {w : List Char} (h : GuardPatched s o) (hlen : w.length < 8)
    (hw : ¬ ['A', 'T'] <:+: w) (ho : guardWord o = w) : guardWord s = w := by
  have hshort : (o.takeWhile Char.isAlpha).take 8 = o.takeWhile Char.isAlpha := by
    refine take_of_length_le ?_
    by_contra hlong
    have hlen' := congrArg List.length ho
    rw [Meatpi.guardWord, length_map, length_take] at hlen'
    omega
  have hno : ¬ ['A', 'T'] <:+: o.takeWhile Char.isAlpha := by
    intro hin
    have hmap := hin.map Char.toUpper
    rw [Meatpi.guardWord, hshort] at ho
    rw [ho] at hmap
    exact hw hmap
  rw [Meatpi.guardWord, h.takeWhile hno]
  exact ho

/-- **Nothing is seen** where nothing was seen. -/
theorem guardAt_patched (h : GuardPatched s o) (hother : guardAt true b₀ b₁ s = .other) :
    guardAt true b₀ b₁ o = .other := by
  have hA : ∀ l, ¬ GuardLetters l 'A' ∧ ¬ GuardLetters 'A' l := by
    intro l
    constructor
    all_goals
      rintro (⟨h, h'⟩ | ⟨h, h'⟩ | ⟨h, h'⟩ | ⟨h, h'⟩ | ⟨h, h'⟩)
      all_goals first
        | exact absurd h (by decide)
        | exact absurd h' (by decide)
  rcases h.skipWs with ⟨hs, -⟩ | ⟨l, r, r', hs, ho, hr⟩ | ⟨r', ho⟩
  · rw [guardAt, hs] at hother
    exact GuardToken.noConfusion hother
  · rcases hr.skipWs with ⟨-, ho'⟩ | ⟨l', t, t', hs', ho', -⟩ | ⟨t', ho'⟩
    · rw [guardAt, ho]
      dsimp only
      rw [ho']
    · rw [guardAt_eq_other hs hs'] at hother
      exact (guardAt_eq_other ho ho').2 hother
    · exact (guardAt_eq_other ho ho').2 (hA l).1
  · exact (guardAt_eq_other ho (skipWs_letter (by decide) r')).2 (hA 'T').2

theorem guardSt_patched (h : GuardPatched s o) (hother : guardSt s = .other) :
    guardSt o = .other := by
  rw [guardSt] at hother ⊢
  rcases h.skipWs with ⟨hs, -⟩ | ⟨l, r, r', hs, ho, hr⟩ | ⟨r', ho⟩
  · rw [hs] at hother
    exact GuardToken.noConfusion hother
  · rw [hs] at hother
    rw [ho]
    dsimp only at hother ⊢
    split_ifs at hother with hword
    refine if_neg fun hno => hword (hno.imp ?_ ?_)
    · exact (hr.cons l).guardWord (by decide) (by decide)
    · exact (hr.cons l).guardWord (by decide) (by decide)
  · rw [ho]
    dsimp only
    have hhead : ∃ d, guardWord ('A' :: 'T' :: r') = 'A' :: d := ⟨_, rfl⟩
    obtain ⟨d, hd⟩ := hhead
    rw [hd]
    exact if_neg (by simp)

theorem guardToken_patched (h : GuardPatched (b₁ :: s) o)
    (hother : guardToken true b₀ b₁ s = .other) :
    ∀ b₁' o', o = b₁' :: o' → guardToken true b₀ b₁' o' = .other := by
  rintro b₁' o' rfl
  cases h with
  | cons c h =>
    rw [guardToken] at hother ⊢
    split_ifs at hother ⊢
    · exact guardAt_patched h hother
    · exact guardSt_patched h hother
    · rfl
  | word ha ht =>
    rw [guardToken, if_neg fun hno => absurd hno.2 (by decide),
      if_neg fun hno => absurd hno.2 (by decide)]

/-- The guard has nothing to do behind `prev`. -/
def GuardPasses (prev : Option Char) (s : List Char) : Prop :=
  ∀ n, s.length ≤ n → guardScan true n prev s = (.pass, s)

theorem GuardPasses.short {prev : Option Char} {s : List Char} (h : s.length ≤ 1) :
    GuardPasses prev s := by
  intro n _
  match n, s, h with
  | 0, _, _ => rfl
  | _ + 1, [], _ => rfl
  | _ + 1, [_], _ => rfl

theorem GuardPasses.cons {prev : Option Char} {b : Char} {s : List Char} (h : GuardPasses (some b) s)
    (hother : guardBoundary prev = true → ∀ b₁ r, s = b₁ :: r →
      guardToken true b b₁ r = .other) : GuardPasses prev (b :: s) := by
  intro n hlen
  match n, s, hlen with
  | n + 1, [], hlen =>
    have hone : GuardPasses prev [b] := .short (by exact Nat.le_refl 1)
    exact hone (n + 1) hlen
  | n + 1, b₁ :: r, hlen =>
    have htoken : (if guardBoundary prev then guardToken true b b₁ r else .other) = .other := by
      split_ifs with hprev
      · exact hother hprev b₁ r rfl
      · rfl
    rw [guardScan, htoken]
    rw [h n (Nat.le_of_succ_le_succ hlen)]

theorem GuardPasses.ends {prev : Option Char} {b b₁ : Char} {s : List Char}
    (h : GuardPasses (some b) (b₁ :: s)) (hs : ∀ c ∈ s, guardWs c = true) :
    GuardPasses prev (b :: b₁ :: s) := by
  intro n hlen
  match n, hlen with
  | n + 1, hlen =>
    have hskip : guardSkipWs s = [] := dropWhile_eq_nil_iff.2 hs
    have hrest := h n (Nat.le_of_succ_le_succ hlen)
    rw [guardScan, guardToken, guardAt, guardSt, hskip]
    split_ifs
    all_goals first
      | rfl
      | (dsimp only; rw [hrest])

theorem GuardPasses.plain {prev : Option Char} {b : Char} {s : List Char} (h : GuardPasses (some b) s)
    (hb : b.toLower ≠ 'a' ∧ b.toLower ≠ 's') : GuardPasses prev (b :: s) :=
  h.cons fun _ b₁ r _ => by
    rw [guardToken, if_neg fun hno => hb.1 hno.1, if_neg fun hno => hb.2 hno.1]

theorem toLower_of_guardWs {c : Char} (hc : guardWs c = true) :
    c.toLower ≠ 'a' ∧ c.toLower ≠ 's' ∧ c.toLower ≠ 't' := by
  rw [guardWs, Bool.or_eq_true, beq_iff_eq, beq_iff_eq] at hc
  rcases hc with rfl | rfl
  all_goals decide

theorem GuardPasses.word {prev : Option Char} {b : Char} {s ws : List Char}
    (h : GuardPasses (some b) s) (hb : b.toLower ≠ 'a' ∧ b.toLower ≠ 's')
    (hws : ∀ c ∈ ws, guardWs c = true) : GuardPasses prev (ws ++ b :: s) := by
  induction ws generalizing prev with
  | nil => exact h.plain hb
  | cons c ws ih =>
    exact (ih fun c' hc' => hws c' (mem_cons_of_mem c hc')).plain
      ((toLower_of_guardWs (hws c mem_cons_self)).imp_right And.left)

theorem GuardPasses.blank {ws : List Char} (hws : ∀ c ∈ ws, guardWs c = true) :
    GuardPasses prev ws := by
  induction ws generalizing prev with
  | nil => exact .short (Nat.zero_le 1)
  | cons c ws ih =>
    exact (ih fun c' hc' => hws c' (mem_cons_of_mem c hc')).plain
      ((toLower_of_guardWs (hws c mem_cons_self)).imp_right And.left)

theorem GuardPasses.leave {prev : Option Char} {a t l l' l'' : Char} {ws ws' ws'' s : List Char}
    (h : GuardPasses (some l'') s) (ha : a.toLower = 'a') (ht : t.toLower = 't')
    (hws : ∀ c ∈ ws, guardWs c = true) (hws' : ∀ c ∈ ws', guardWs c = true)
    (hws'' : ∀ c ∈ ws'', guardWs c = true) (hl : l.toLower = 'p') (hl' : l'.toLower = 'p')
    (hl'' : l''.toLower = 's') (hprev : guardBoundary prev = true) :
    GuardPasses prev (a :: t :: (ws ++ l :: (ws' ++ l' :: (ws'' ++ l'' :: s)))) := by
  intro n hlen
  match n, hlen with
  | n + 1, hlen =>
    have hrest : s.length ≤ n := by
      simp only [length_cons, length_append] at hlen
      omega
    rw [guardScan, if_pos hprev, guardToken_leave ha ht hws hws' hws'' hl hl' hl'']
    dsimp only
    rw [h n hrest]
    simp only [cons_append, append_assoc, nil_append]

theorem GuardPair.plain {l l' p p' : Char} (h : GuardPair l l' p p') :
    (p.toLower ≠ 'a' ∧ p.toLower ≠ 's') ∧ (p'.toLower ≠ 'a' ∧ p'.toLower ≠ 's') ∧
      ¬ GuardLetters p p' ∧ guardWs p = false ∧ guardWs p' = false := by
  cases h with
  | sp => refine ⟨by decide, by decide, ?_, by decide, by decide⟩; unfold GuardLetters; decide
  | m1 => refine ⟨by decide, by decide, ?_, by decide, by decide⟩; unfold GuardLetters; decide

/-- **A second scan** finds nothing. -/
theorem GuardScanned.passes (h : GuardScanned prev s o) : GuardPasses prev o := by
  induction h with
  | short h => exact .short h
  | ends hws =>
    refine ((GuardPasses.blank hws).cons fun _ b c heq => ?_).ends hws
    have hb : b.toLower ≠ 't' := toLower_of_guardWs (hws b (heq ▸ mem_cons_self)) |>.2.2
    rw [guardToken, if_neg fun hno => hb hno.2, if_neg fun hno => hb hno.2]
  | @other prev b₀ b₁ s o h hrest ih =>
    exact ih.cons fun hprev => guardToken_patched hrest.patched (h hprev)
  | @patch prev a t l l' p p' ws ws' s o hprev ha ht hws hws' hpair _ ih =>
    obtain ⟨hp, hp', hletters, hpw, hpw'⟩ := hpair.plain
    have hbehind : GuardPasses (some 'A') ('T' :: (ws ++ p :: (ws' ++ p' :: o))) :=
      ((ih.word hp' hws').word hp hws).plain (by decide)
    refine hbehind.cons fun _ b r heq => ?_
    injection heq with hb hr
    subst hb hr
    exact (guardAt_eq_other (skipWs_append hws hpw _) (skipWs_append hws' hpw' _)).2 hletters
  | leave hprev ha ht hws hws' hws'' hl hl' hl'' _ ih =>
    exact ih.leave ha ht hws hws' hws'' hl hl' hl'' hprev

/-! ## What the guard lets through -/

/-- **What the guard is sound for**: after it let a buffer through, no command
the chip reads there writes the EEPROM if and only if every one that did is
spelled as the guard rewrites it; a second run changes nothing. -/
theorem obdChipGuardCmd_reads (buf : List Char) (hpass : (obdChipGuardCmd buf).1 ≠ .blocked) :
    ((∀ c ∈ commands (obdChipGuardCmd buf).2, ¬ WritesEeprom (chipReads c)) ∧
        obdChipGuardCmd (obdChipGuardCmd buf).2 = (.pass, (obdChipGuardCmd buf).2)) ↔
      ∀ c ∈ commands buf, WritesEeprom (chipReads c) → Caught c := by
  have hscan := guardScan_scanned buf.length none buf (Nat.le_refl _) hpass
  change GuardScanned none buf (obdChipGuardCmd buf).2 at hscan
  have hagain : obdChipGuardCmd (obdChipGuardCmd buf).2 = (.pass, (obdChipGuardCmd buf).2) :=
    hscan.passes _ (Nat.le_refl _)
  rw [and_iff_left hagain]
  obtain ⟨c, cs, c', cs', hbuf, hout, -, hlater, hstart⟩ := hscan.followed
  have hall : List.Forall₂ GuardKept (commands buf) (commands (obdChipGuardCmd buf).2) := by
    rw [hbuf, hout]
    exact .cons (hstart rfl) hlater
  generalize commands buf = ins at hall ⊢
  generalize commands (obdChipGuardCmd buf).2 = outs at hall ⊢
  induction hall with
  | nil => exact iff_of_true nofun nofun
  | cons hkept _ ih =>
    rw [forall_mem_cons, forall_mem_cons, hkept.writes, not_and_not_right]
    exact and_congr_right fun _ => ih

theorem obdChipGuardCmd_reads_atsp :
    (∀ c ∈ commands (obdChipGuardCmd "ATZ\rat s p6".toList).2, ¬ WritesEeprom (chipReads c)) ∧
      obdChipGuardCmd (obdChipGuardCmd "ATZ\rat s p6".toList).2 =
        (.pass, (obdChipGuardCmd "ATZ\rat s p6".toList).2) := by
  have hcaught : Caught "at s p6".toList :=
    ⟨'a', 't', " s p6".toList, by decide, by decide, by decide, .inl (by decide)⟩
  refine (obdChipGuardCmd_reads "ATZ\rat s p6".toList (by decide)).2 fun c hc hwrites => ?_
  have hcmds : commands "ATZ\rat s p6".toList = ["ATZ".toList, "at s p6".toList] := by decide
  rw [hcmds, mem_cons, mem_singleton] at hc
  rcases hc with rfl | rfl
  · exact absurd hwrites (by decide)
  · exact hcaught

/-- A blank between the `A` and the `T`: the guard sees no command, the chip one
that saves its protocol. -/
theorem obdChipGuardCmd_reads_blank :
    ¬ ∀ buf, (obdChipGuardCmd buf).1 ≠ .blocked →
      (∀ c ∈ commands (obdChipGuardCmd buf).2, ¬ WritesEeprom (chipReads c)) ∧
        obdChipGuardCmd (obdChipGuardCmd buf).2 = (.pass, (obdChipGuardCmd buf).2) := by
  intro hall
  exact (hall "A TSP6\r".toList (by decide)).1 "A TSP6".toList (by decide) (by decide)

end Meatpi
