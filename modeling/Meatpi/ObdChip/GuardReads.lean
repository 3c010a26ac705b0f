import Meatpi.ObdChip.Guard

/-!
# The guard and the chip, command by command

What the guard leaves of a text has the same commands, at the same places. Where
it saw one it knows begin, the chip reads a command that writes nothing there;
where it saw none, the chip reads a write if and only if it read one before
(`GuardKept`, `GuardScanned.followed`).
-/

namespace Meatpi

open Bool List

variable {cs : List (List Char)} {r w : List Char}

variable {b b₁ l l' x : Char} {c c' d d' o s tail tok : List Char} {prev : Option Char}

/-! ## What the chip reads of the result -/

theorem chipReads_ws {c : Char} (hc : guardWs c = true) (s : List Char) :
    chipReads (c :: s) = chipReads s := by
  rw [chipReads, filter_cons_of_neg (by rw [hc]; exact Bool.false_ne_true), chipReads]

theorem chipReads_cons {c : Char} (hc : guardWs c = false) (s : List Char) :
    chipReads (c :: s) = c.toLower :: chipReads s := by
  rw [chipReads, filter_cons_of_pos (by rw [hc]; rfl), map_cons, chipReads]

theorem chipReads_blank {ws : List Char} (hws : ∀ c ∈ ws, guardWs c = true) (s : List Char) :
    chipReads (ws ++ s) = chipReads s := by
  induction ws with
  | nil => rfl
  | cons c ws ih =>
    rw [cons_append, chipReads_ws (hws c mem_cons_self)]
    exact ih fun c' hc' => hws c' (mem_cons_of_mem c hc')

theorem guardWs_of_toLower {c : Char} (hc : c.toLower = x) (hx : x ≠ ' ' ∧ x ≠ '\t') :
    guardWs c = false := by
  rw [guardWs, or_eq_false_iff, beq_eq_false_iff_ne, beq_eq_false_iff_ne]
  refine ⟨?_, ?_⟩
  · rintro rfl
    exact hx.1 hc.symm
  · rintro rfl
    exact hx.2 hc.symm

theorem isCmdEnd_of_toLower {c : Char} (hc : c.toLower = x) (hx : isCmdEnd x = false) :
    isCmdEnd c = false := by
  by_contra hno
  rw [not_eq_false, isCmdEnd, or_eq_true, or_eq_true, beq_iff_eq, beq_iff_eq, beq_iff_eq] at hno
  rcases hno with (rfl | rfl) | rfl
  all_goals exact absurd (hc ▸ hx) (by decide)

/-- Readings that differ where the guard rewrote a command. -/
inductive ReadPatched : List Char → List Char → Prop
  | nil : ReadPatched [] []
  | cons (c : Char) {d d' : List Char} (h : ReadPatched d d') : ReadPatched (c :: d) (c :: d')
  | patch {x y x' y' : Char} {d d' : List Char} (h : ReadPatched d d') :
      ReadPatched ('a' :: 't' :: x :: y :: d) ('a' :: 't' :: x' :: y' :: d')

theorem ReadPatched.refl : ∀ d, ReadPatched d d
  | [] => .nil
  | c :: d => .cons c (refl d)

theorem ReadPatched.prefix_iff (h : ReadPatched d d') (hw : ¬ ['a', 't'] <:+: w) :
    w <+: d' ↔ w <+: d := by
  induction h generalizing w with
  | nil => rfl
  | cons c h ih =>
    cases w with
    | nil => simp
    | cons x w =>
      rw [cons_prefix_cons, cons_prefix_cons,
        ih fun hin => hw (hin.trans (suffix_cons x w).isInfix)]
  | patch h ih =>
    match w with
    | [] => simp
    | [x] => rw [cons_prefix_cons]; simp
    | x :: y :: w =>
      have hno : ¬ (x = 'a' ∧ y = 't') := by
        rintro ⟨rfl, rfl⟩
        exact hw (prefix_append ['a', 't'] w).isInfix
      simp only [cons_prefix_cons]
      constructor
      · exact fun ⟨hx, hy, _⟩ => absurd ⟨hx, hy⟩ hno
      · exact fun ⟨hx, hy, _⟩ => absurd ⟨hx, hy⟩ hno

theorem ReadPatched.length (h : ReadPatched d d') : d'.length = d.length := by
  induction h with
  | nil => rfl
  | cons c h ih => rw [length_cons, length_cons, ih]
  | patch h ih => simp only [length_cons, ih]

theorem ReadPatched.eq_iff (h : ReadPatched d d') (hw : ¬ ['a', 't'] <:+: w) : d' = w ↔ d = w := by
  have hiff := h.prefix_iff hw
  constructor
  · rintro rfl
    exact ((hiff.1 (prefix_refl d')).eq_of_length h.length).symm
  · rintro rfl
    exact ((hiff.2 (prefix_refl d)).eq_of_length h.length.symm).symm

/-- **Behind its first letter** a write is not changed into another command, and
no command into a write. -/
theorem ReadPatched.writes_iff (h : ReadPatched d d') (x : Char) :
    WritesEeprom (x :: d') ↔ WritesEeprom (x :: d) := by
  have hpre : ∀ (y : Char) (w : List Char), ¬ ['a', 't'] <:+: w →
      (y :: w <+: x :: d' ↔ y :: w <+: x :: d) := by
    intro y w hw
    rw [cons_prefix_cons, cons_prefix_cons, h.prefix_iff hw]
  have heq : ∀ (y : Char) (w : List Char), ¬ ['a', 't'] <:+: w →
      (x :: d' = y :: w ↔ x :: d = y :: w) := by
    intro y w hw
    rw [cons.injEq, cons.injEq, h.eq_iff hw]
  exact or_congr (hpre 'a' "tsp".toList (by decide)) (or_congr (hpre 'a' "tsd".toList (by decide))
    (or_congr (hpre 'a' "tcv".toList (by decide)) (or_congr (hpre 's' "twbr".toList (by decide))
      (or_congr (hpre 's' "tsavcal".toList (by decide)) (or_congr (heq 'a' "tm1".toList (by decide))
        (and_congr (hpre 'a' "tpp".toList (by decide))
          (not_congr (heq 'a' "tpps".toList (by decide)))))))))

/-! ## Command by command -/

theorem commands_cons_end (hb : isCmdEnd b = true) (s : List Char) :
    commands (b :: s) = [] :: commands s := by
  rw [commands, splitOnP_cons_eq_if_modifyHead, if_pos hb, commands]

theorem commands_append (htok : ∀ x ∈ tok, isCmdEnd x = false) (h : commands s = c :: cs) :
    commands (tok ++ s) = (tok ++ c) :: cs := by
  induction tok with
  | nil => exact h
  | cons b tok ih =>
    have ih := ih fun x hx => htok x (mem_cons_of_mem b hx)
    rw [commands] at ih
    rw [cons_append, commands, splitOnP_cons_eq_if_modifyHead,
      if_neg (by rw [htok b mem_cons_self]; exact Bool.false_ne_true), ih]
    rfl

/-- The command `c` and what the guard left of it. -/
structure GuardFollows (c c' : List Char) : Prop where
  reads : ReadPatched (chipReads c) (chipReads c')
  blanks : c'.any guardWs = c.any guardWs

/-- The guard saw where the command begins. -/
structure GuardKept (c c' : List Char) : Prop extends GuardFollows c c' where
  writes : WritesEeprom (chipReads c') ↔ WritesEeprom (chipReads c) ∧ ¬ Caught c
  passes : ∀ b₀ b₁ s, guardSkipWs c = b₀ :: b₁ :: s → guardToken true b₀ b₁ s ≠ .refused

/-- The commands of a text and those of what the guard left of it. -/
def GuardFollowed (prev : Option Char) (s o : List Char) : Prop :=
  ∃ c cs c' cs', commands s = c :: cs ∧ commands o = c' :: cs' ∧ GuardFollows c c' ∧
    List.Forall₂ GuardKept cs cs' ∧ (guardBoundary prev = true → GuardKept c c')

theorem isCmdEnd_of_guardWs {c : Char} (hc : guardWs c = true) : isCmdEnd c = false := by
  rw [guardWs, or_eq_true, beq_iff_eq, beq_iff_eq] at hc
  rcases hc with rfl | rfl
  all_goals decide

theorem GuardFollows.cons {c c' : List Char} (h : GuardFollows c c') (b : Char) :
    GuardFollows (b :: c) (b :: c') where
  reads := by
    cases hb : guardWs b with
    | true =>
      rw [chipReads_ws hb, chipReads_ws hb]
      exact h.reads
    | false =>
      rw [chipReads_cons hb, chipReads_cons hb]
      exact .cons b.toLower h.reads
  blanks := by rw [any_cons, any_cons, h.blanks]

theorem skipWs_ws (hb : guardWs b = true) (c : List Char) : guardSkipWs (b :: c) = guardSkipWs c :=
  dropWhile_cons_of_pos hb

theorem skipWs_letter (hb : guardWs b = false) (c : List Char) : guardSkipWs (b :: c) = b :: c :=
  dropWhile_cons_of_neg (by rw [hb]; exact Bool.false_ne_true)

theorem GuardKept.short {c : List Char} (h : ∀ b₀ b₁ s, guardSkipWs c ≠ b₀ :: b₁ :: s) :
    GuardKept c c where
  reads := .refl _
  blanks := rfl
  writes := by
    have hno : ¬ Caught c := fun ⟨a, t, s, hc, _⟩ => h a t s hc
    exact (and_iff_left hno).symm
  passes b₀ b₁ s hc := absurd hc (h b₀ b₁ s)

theorem GuardKept.ws (h : GuardKept c c') (hb : guardWs b = true) :
    GuardKept (b :: c) (b :: c') where
  toGuardFollows := h.toGuardFollows.cons b
  writes := by
    rw [chipReads_ws hb, chipReads_ws hb, h.writes, Caught, Caught, skipWs_ws hb]
  passes b₀ b₁ s hc := h.passes b₀ b₁ s (by rwa [skipWs_ws hb] at hc)

theorem GuardKept.letter (h : GuardFollows c c') (hb : guardWs b = false)
    (hother : ∀ b₁ s, c = b₁ :: s → ¬ Caught (b :: b₁ :: s) ∧ guardToken true b b₁ s ≠ .refused) :
    GuardKept (b :: c) (b :: c') where
  toGuardFollows := h.cons b
  writes := by
    have hno : ¬ Caught (b :: c) := by
      rintro ⟨a, t, s, hc, hrest⟩
      rw [skipWs_letter hb] at hc
      obtain ⟨rfl, rfl⟩ := hc
      exact (hother t s rfl).1 ⟨b, t, s, skipWs_letter hb _, hrest⟩
    rw [chipReads_cons hb, chipReads_cons hb, h.reads.writes_iff, and_iff_left hno]
  passes b₀ b₁ s hc := by
    rw [skipWs_letter hb, cons.injEq] at hc
    exact hc.1 ▸ (hother b₁ s hc.2).2

theorem chipReads_cons_inv (h : chipReads s = x :: d) :
    ∃ l r, guardSkipWs s = l :: r ∧ l.toLower = x ∧ chipReads r = d := by
  cases hs : guardSkipWs s with
  | nil =>
    have hnil := chipReads_blank (skipWs_nil hs) []
    rw [append_nil, h] at hnil
    cases hnil
  | cons l r =>
    obtain ⟨hws, hl, heq⟩ := skipWs_cons hs
    rw [heq, chipReads_blank hws, chipReads_cons hl, cons.injEq] at h
    exact ⟨l, r, rfl, h.1, h.2⟩

theorem guardToken_caught (hb : guardWs b = false) (h : Caught (b :: b₁ :: s)) :
    ∃ out last rest, guardToken true b b₁ s = .patch out last rest := by
  obtain ⟨a, t, s', hc, ha, ht, hword⟩ := h
  rw [skipWs_letter hb] at hc
  injection hc with hba hc
  injection hc with hbt hs
  subst hba hbt hs
  rw [guardToken, if_pos ⟨ha, ht⟩, guardAt]
  rcases hword with ⟨d, hd⟩ | ⟨d, hd⟩
  all_goals
    obtain ⟨l, r, hs, hl, hr⟩ := chipReads_cons_inv hd.symm
    obtain ⟨l', r', hs', hl', -⟩ := chipReads_cons_inv hr
    rw [hs]
    dsimp only
    rw [hs']
    dsimp only
  · exact ⟨_, _, _, by rw [if_pos ⟨hl, hl'⟩, if_pos rfl]⟩
  · have hno : ¬ (l.toLower = 's' ∧ l'.toLower = 'p') := by
      rw [hl]
      exact fun hno => absurd hno.1 (by decide)
    exact ⟨_, _, _, by rw [if_neg hno, if_pos ⟨hl, hl'⟩, if_pos rfl]⟩

/-- Nothing, or the end of a command. -/
def AtEnd (tail : List Char) : Prop := ∀ e ∈ tail.head?, isCmdEnd e = true

theorem skipWs_local (h : guardSkipWs s = l :: r) : guardSkipWs (s ++ tail) = l :: (r ++ tail) := by
  obtain ⟨hws, hl, heq⟩ := skipWs_cons h
  rw [heq, append_assoc, cons_append, skipWs_append hws hl]

theorem takeWhile_local (htail : AtEnd tail) :
    (s ++ tail).takeWhile Char.isAlpha = s.takeWhile Char.isAlpha := by
  have hnone : tail.takeWhile Char.isAlpha = [] := by
    cases tail with
    | nil => rfl
    | cons e tail =>
      have he := htail e rfl
      rw [isCmdEnd, or_eq_true, or_eq_true, beq_iff_eq, beq_iff_eq, beq_iff_eq] at he
      rcases he with (rfl | rfl) | rfl
      all_goals rfl
  induction s with
  | nil => exact hnone
  | cons b s ih =>
    rw [cons_append, takeWhile_cons, takeWhile_cons, ih]

/-- The letters behind `AT` that the guard knows. -/
def GuardLetters (l l' : Char) : Prop :=
  (l.toLower = 's' ∧ l'.toLower = 'p') ∨ (l.toLower = 'm' ∧ l'.toLower = '1') ∨
    (l.toLower = 'p' ∧ l'.toLower = 'p') ∨
      ((l.toLower = 's' ∧ l'.toLower = 'd') ∨ (l.toLower = 'c' ∧ l'.toLower = 'v'))

theorem guardAt_eq_other {b₀ : Char} {r' : List Char} (hs : guardSkipWs s = l :: r)
    (hr : guardSkipWs r = l' :: r') : guardAt true b₀ b₁ s = .other ↔ ¬ GuardLetters l l' := by
  rw [guardAt, hs]
  dsimp only
  rw [hr]
  dsimp only
  by_cases hsp : l.toLower = 's' ∧ l'.toLower = 'p'
  · rw [if_pos hsp]
    exact iff_of_false (fun hno => GuardToken.noConfusion hno) (not_not_intro (.inl hsp))
  rw [if_neg hsp]
  by_cases hm1 : l.toLower = 'm' ∧ l'.toLower = '1'
  · rw [if_pos hm1]
    exact iff_of_false (fun hno => GuardToken.noConfusion hno) (not_not_intro (.inr (.inl hm1)))
  rw [if_neg hm1]
  by_cases hpp : l.toLower = 'p' ∧ l'.toLower = 'p'
  · rw [if_pos hpp]
    refine iff_of_false ?_ (not_not_intro (.inr (.inr (.inl hpp))))
    cases guardSkipWs r' with
    | nil => exact fun hno => GuardToken.noConfusion hno
    | cons l'' r'' =>
      dsimp only
      by_cases hl'' : l''.toLower ≠ 's'
      · rw [if_pos hl'']
        exact fun hno => GuardToken.noConfusion hno
      · rw [if_neg hl'']
        exact fun hno => GuardToken.noConfusion hno
  rw [if_neg hpp]
  by_cases hsd : (l.toLower = 's' ∧ l'.toLower = 'd') ∨ (l.toLower = 'c' ∧ l'.toLower = 'v')
  · rw [if_pos hsd]
    exact iff_of_false (fun hno => GuardToken.noConfusion hno)
      (not_not_intro (.inr (.inr (.inr hsd))))
  · rw [if_neg hsd]
    refine iff_of_true rfl ?_
    rintro (hno | hno | hno | hno)
    · exact hsp hno
    · exact hm1 hno
    · exact hpp hno
    · exact hsd hno

/-- **Where the guard sees nothing** it sees nothing in the command either. -/
theorem guardToken_local (htail : AtEnd tail) (h : guardToken true b b₁ (s ++ tail) = .other) :
    guardToken true b b₁ s = .other ∨ guardToken true b b₁ s = .ends := by
  rw [guardToken] at h ⊢
  split_ifs at h ⊢ with hat hst
  · cases hs : guardSkipWs s with
    | nil => exact .inr (by rw [guardAt, hs])
    | cons l r =>
      cases hr : guardSkipWs r with
      | nil =>
        refine .inl ?_
        rw [guardAt, hs]
        dsimp only
        rw [hr]
      | cons l' r' =>
        rw [guardAt_eq_other (skipWs_local hs) (skipWs_local hr)] at h
        exact .inl ((guardAt_eq_other hs hr).2 h)
  · rw [guardSt] at h ⊢
    cases hs : guardSkipWs s with
    | nil => exact .inr rfl
    | cons l r =>
      rw [skipWs_local hs] at h
      dsimp only at h ⊢
      have hword : guardWord (l :: (r ++ tail)) = guardWord (l :: r) := by
        rw [guardWord, guardWord, ← cons_append, takeWhile_local htail]
      rw [hword] at h
      split_ifs at h with hno
      exact .inl (if_neg hno)
  · exact .inl rfl

theorem commands_ne_nil (s : List Char) : ∃ c cs, commands s = c :: cs :=
  exists_cons_of_ne_nil (splitOnP_ne_nil isCmdEnd s)

theorem commands_head (h : commands s = c :: cs) : ∃ tail, s = c ++ tail ∧ AtEnd tail := by
  induction s generalizing c cs with
  | nil =>
    cases h
    exact ⟨[], rfl, nofun⟩
  | cons b s ih =>
    cases hb : isCmdEnd b with
    | true =>
      rw [commands_cons_end hb] at h
      cases h
      exact ⟨b :: s, rfl, fun e he => by cases he; exact hb⟩
    | false =>
      obtain ⟨d, ds, hs⟩ := commands_ne_nil s
      have hb' : ∀ x ∈ [b], isCmdEnd x = false := fun x hx => mem_singleton.1 hx ▸ hb
      have hcons := commands_append hb' hs
      rw [singleton_append, h] at hcons
      cases hcons
      obtain ⟨tail, rfl, htail⟩ := ih hs
      exact ⟨tail, rfl, htail⟩

theorem GuardFollowed.ending (hb : isCmdEnd b = true) (h : GuardFollowed (some b) s o) :
    GuardFollowed prev (b :: s) (b :: o) := by
  obtain ⟨c, cs, c', cs', hs, ho, -, hlater, hstart⟩ := h
  have hprev : guardBoundary (some b) = true := by
    rw [isCmdEnd, or_eq_true, or_eq_true, beq_iff_eq, beq_iff_eq, beq_iff_eq] at hb
    rcases hb with (rfl | rfl) | rfl
    all_goals decide
  have hnil : GuardKept [] [] := .short nofun
  refine ⟨[], c :: cs, [], c' :: cs', ?_, ?_, hnil.toGuardFollows, .cons (hstart hprev) hlater,
    fun _ => hnil⟩
  · rw [commands_cons_end hb, hs]
  · rw [commands_cons_end hb, ho]

theorem GuardFollowed.cons {prev : Option Char} {b : Char} {s o : List Char}
    (h : GuardFollowed (some b) s o)
    (hsees : guardBoundary prev = true → guardWs b = false → ∀ b₁ c tail,
      s = b₁ :: (c ++ tail) → AtEnd tail →
        ¬ Caught (b :: b₁ :: c) ∧ guardToken true b b₁ c ≠ .refused) :
    GuardFollowed prev (b :: s) (b :: o) := by
  cases hb : isCmdEnd b with
  | true => exact h.ending hb
  | false =>
    obtain ⟨c, cs, c', cs', hs, ho, hfirst, hlater, hstart⟩ := h
    have hb' : ∀ x ∈ [b], isCmdEnd x = false := fun x hx => mem_singleton.1 hx ▸ hb
    refine ⟨b :: c, cs, b :: c', cs', commands_append hb' hs, commands_append hb' ho,
      hfirst.cons b, hlater, fun hprev => ?_⟩
    cases hws : guardWs b with
    | true =>
      have hblank : guardBoundary (some b) = true := by
        rw [guardBoundary, hws, Bool.or_true, Bool.true_or]
      exact (hstart hblank).ws hws
    | false =>
      refine .letter hfirst hws fun b₁ c₁ hc => ?_
      obtain ⟨tail, heq, htail⟩ := commands_head hs
      rw [hc] at heq
      exact hsees hprev hws b₁ c₁ tail heq htail

theorem GuardFollowed.token {last : Option Char} {tok' : List Char} (h : GuardFollowed last s o)
    (htok : ∀ x ∈ tok, isCmdEnd x = false) (htok' : ∀ x ∈ tok', isCmdEnd x = false)
    (hkept : ∀ c c', GuardFollows c c' → GuardKept (tok ++ c) (tok' ++ c')) :
    GuardFollowed prev (tok ++ s) (tok' ++ o) := by
  obtain ⟨c, cs, c', cs', hs, ho, hfirst, hlater, -⟩ := h
  exact ⟨tok ++ c, cs, tok' ++ c', cs', commands_append htok hs, commands_append htok' ho,
    (hkept c c' hfirst).toGuardFollows, hlater, fun _ => hkept c c' hfirst⟩

theorem GuardFollowed.nil (prev : Option Char) : GuardFollowed prev [] [] :=
  ⟨[], [], [], [], rfl, rfl, ⟨.nil, rfl⟩, .nil, fun _ => .short nofun⟩

theorem guardToken_blank (hb : guardWs b = false) (hc : ∀ x ∈ c, guardWs x = true) :
    ¬ Caught (b :: b₁ :: c) ∧ guardToken true b b₁ c ≠ .refused := by
  have hskip : guardSkipWs c = [] := dropWhile_eq_nil_iff.2 hc
  constructor
  · intro hcaught
    obtain ⟨out, last, rest, htoken⟩ := guardToken_caught hb hcaught
    rw [guardToken, guardAt, guardSt, hskip] at htoken
    split_ifs at htoken
  · rw [guardToken, guardAt, guardSt, hskip]
    split_ifs
    all_goals exact fun hno => GuardToken.noConfusion hno

theorem GuardFollowed.blank {ws : List Char} (hws : ∀ c ∈ ws, guardWs c = true) :
    GuardFollowed prev ws ws := by
  induction ws generalizing prev with
  | nil => exact .nil prev
  | cons b ws ih =>
    exact (ih fun c hc => hws c (mem_cons_of_mem b hc)).cons fun _ hb =>
      absurd (hb.symm.trans (hws b mem_cons_self)) Bool.false_ne_true

theorem GuardPair.reads {p p' : Char} (h : GuardPair l l' p p') :
    (guardWs l = false ∧ guardWs l' = false ∧ isCmdEnd l = false ∧ isCmdEnd l' = false) ∧
    (guardWs p = false ∧ guardWs p' = false ∧ isCmdEnd p = false ∧ isCmdEnd p' = false) ∧
    ((l.toLower = 's' ∧ l'.toLower = 'p' ∧ p.toLower = 't' ∧ p'.toLower = 'p') ∨
      (l.toLower = 'm' ∧ l'.toLower = '1' ∧ p.toLower = 'm' ∧ p'.toLower = '0')) := by
  cases h with
  | sp h h' =>
    exact ⟨⟨guardWs_of_toLower h (by decide), guardWs_of_toLower h' (by decide),
      isCmdEnd_of_toLower h (by decide), isCmdEnd_of_toLower h' (by decide)⟩, by decide,
      .inl ⟨h, h', by decide, by decide⟩⟩
  | m1 h h' =>
    exact ⟨⟨guardWs_of_toLower h (by decide), guardWs_of_toLower h' (by decide),
      isCmdEnd_of_toLower h (by decide), isCmdEnd_of_toLower h' (by decide)⟩, by decide,
      .inr ⟨h, h', by decide, by decide⟩⟩

theorem GuardFollows.append (h : GuardFollows c c') (tok : List Char) :
    GuardFollows (tok ++ c) (tok ++ c') := by
  induction tok with
  | nil => exact h
  | cons b tok ih => exact ih.cons b

theorem chipReads_word {ws : List Char} (hws : ∀ c ∈ ws, guardWs c = true) (hl : guardWs l = false)
    (s : List Char) : chipReads (ws ++ l :: s) = l.toLower :: chipReads s := by
  rw [chipReads_blank hws, chipReads_cons hl]

/-- **A command the guard rewrites** is a write no longer. -/
theorem GuardKept.patch {a t l l' p p' : Char} {ws ws' c c' : List Char} (ha : a.toLower = 'a')
    (ht : t.toLower = 't') (hws : ∀ c ∈ ws, guardWs c = true) (hws' : ∀ c ∈ ws', guardWs c = true)
    (hpair : GuardPair l l' p p') (h : GuardFollows c c') :
    GuardKept (a :: t :: (ws ++ l :: (ws' ++ l' :: c)))
      ('A' :: 'T' :: (ws ++ p :: (ws' ++ p' :: c'))) := by
  have haw := guardWs_of_toLower ha (by decide)
  have htw := guardWs_of_toLower ht (by decide)
  obtain ⟨⟨hlw, hlw', -, -⟩, ⟨hpw, hpw', -, -⟩, hlower⟩ := hpair.reads
  have hreads : chipReads (a :: t :: (ws ++ l :: (ws' ++ l' :: c))) =
      'a' :: 't' :: l.toLower :: l'.toLower :: chipReads c := by
    rw [chipReads_cons haw, chipReads_cons htw, chipReads_word hws hlw, chipReads_word hws' hlw',
      ha, ht]
  have hreads' : chipReads ('A' :: 'T' :: (ws ++ p :: (ws' ++ p' :: c'))) =
      'a' :: 't' :: p.toLower :: p'.toLower :: chipReads c' := by
    have hA : guardWs 'A' = false := by decide
    have hT : guardWs 'T' = false := by decide
    rw [chipReads_cons hA, chipReads_cons hT, chipReads_word hws hpw, chipReads_word hws' hpw']
    rfl
  have hcaught : Caught (a :: t :: (ws ++ l :: (ws' ++ l' :: c))) := by
    refine ⟨a, t, _, skipWs_letter haw _, ha, ht, ?_⟩
    rw [chipReads_word hws hlw, chipReads_word hws' hlw']
    rcases hlower with ⟨hl, hl', -, -⟩ | ⟨hl, hl', -, -⟩
    · rw [hl, hl']
      exact .inl (prefix_append ['s', 'p'] _)
    · rw [hl, hl']
      exact .inr (prefix_append ['m', '1'] _)
  refine ⟨⟨?_, ?_⟩, iff_of_false ?_ fun hno => hno.2 hcaught, fun b₀ b₁ s hc => ?_⟩
  · rw [hreads, hreads']
    exact .patch h.reads
  · have hblanks := h.blanks
    simp only [any_cons, any_append, haw, htw, hlw, hlw', hpw, hpw', hblanks]
    rfl
  · rw [hreads']
    rcases hlower with ⟨-, -, hp, hp'⟩ | ⟨-, -, hp, hp'⟩
    all_goals
      rw [hp, hp']
      simp [WritesEeprom, cons_prefix_cons]
  · rw [skipWs_letter haw] at hc
    injection hc with hba hc
    injection hc with hbt hs
    subst hba hbt hs
    obtain ⟨out, last, rest, htoken⟩ := guardToken_caught haw hcaught
    rw [htoken]
    exact fun hno => GuardToken.noConfusion hno

theorem takeWhile_ws {ws : List Char} (hws : ∀ c ∈ ws, guardWs c = true) (hl : guardWs l = false)
    (s : List Char) : (ws ++ l :: s).takeWhile guardWs = ws := by
  have hnone : (l :: s).takeWhile guardWs = [] :=
    takeWhile_cons_of_neg (by rw [hl]; exact Bool.false_ne_true)
  rw [takeWhile_append_of_pos hws, hnone, append_nil]

theorem guardToken_leave {a t l'' : Char} {ws ws' ws'' : List Char} (ha : a.toLower = 'a')
    (ht : t.toLower = 't') (hws : ∀ c ∈ ws, guardWs c = true) (hws' : ∀ c ∈ ws', guardWs c = true)
    (hws'' : ∀ c ∈ ws'', guardWs c = true) (hl : l.toLower = 'p') (hl' : l'.toLower = 'p')
    (hl'' : l''.toLower = 's') (s : List Char) :
    guardToken true a t (ws ++ l :: (ws' ++ l' :: (ws'' ++ l'' :: s))) =
      .leave (a :: t :: (ws ++ l :: (ws' ++ l' :: (ws'' ++ [l''])))) l'' s := by
  have hlw := guardWs_of_toLower hl (by decide)
  have hlw' := guardWs_of_toLower hl' (by decide)
  have hlw'' := guardWs_of_toLower hl'' (by decide)
  have hsp : ¬ (l.toLower = 's' ∧ l'.toLower = 'p') := by
    rw [hl]
    exact fun hno => absurd hno.1 (by decide)
  have hm1 : ¬ (l.toLower = 'm' ∧ l'.toLower = '1') := by
    rw [hl]
    exact fun hno => absurd hno.1 (by decide)
  rw [guardToken, if_pos ⟨ha, ht⟩, guardAt, skipWs_append hws hlw, takeWhile_ws hws hlw]
  dsimp only
  rw [skipWs_append hws' hlw', takeWhile_ws hws' hlw']
  dsimp only
  rw [if_neg hsp, if_neg hm1, if_pos ⟨hl, hl'⟩, skipWs_append hws'' hlw'', takeWhile_ws hws'' hlw'']
  dsimp only
  rw [if_neg (not_not_intro hl'')]

/-- **The read** of the programmable parameters passes. -/
theorem GuardKept.leave {a t l l' l'' : Char} {ws ws' ws'' c c' : List Char} (ha : a.toLower = 'a')
    (ht : t.toLower = 't') (hws : ∀ c ∈ ws, guardWs c = true) (hws' : ∀ c ∈ ws', guardWs c = true)
    (hws'' : ∀ c ∈ ws'', guardWs c = true) (hl : l.toLower = 'p') (hl' : l'.toLower = 'p')
    (hl'' : l''.toLower = 's') (h : GuardFollows c c') :
    GuardKept (a :: t :: (ws ++ l :: (ws' ++ l' :: (ws'' ++ l'' :: c))))
      (a :: t :: (ws ++ l :: (ws' ++ l' :: (ws'' ++ l'' :: c')))) := by
  have haw := guardWs_of_toLower ha (by decide)
  have hfollows : GuardFollows (t :: (ws ++ l :: (ws' ++ l' :: (ws'' ++ l'' :: c))))
      (t :: (ws ++ l :: (ws' ++ l' :: (ws'' ++ l'' :: c')))) :=
    ((((h.cons l'').append ws'').cons l' |>.append ws').cons l |>.append ws).cons t
  refine .letter hfollows haw fun b₁ s hc => ?_
  injection hc with hbt hs
  subst hbt hs
  have htoken := guardToken_leave ha ht hws hws' hws'' hl hl' hl'' c
  constructor
  · intro hcaught
    obtain ⟨out', last', rest', htoken'⟩ := guardToken_caught haw hcaught
    rw [htoken] at htoken'
    cases htoken'
  · rw [htoken]
    exact fun hno => GuardToken.noConfusion hno

theorem noEnd_cons {ws : List Char} (hl : isCmdEnd l = false) (hws : ∀ c ∈ ws, guardWs c = true)
    (htok : ∀ x ∈ tok, isCmdEnd x = false) : ∀ x ∈ ws ++ l :: tok, isCmdEnd x = false :=
  forall_mem_append.2
    ⟨fun x hx => isCmdEnd_of_guardWs (hws x hx), forall_mem_cons.2 ⟨hl, htok⟩⟩

/-- **Command by command**: what the scan leaves of a text. -/
theorem GuardScanned.followed (h : GuardScanned prev s o) : GuardFollowed prev s o := by
  induction h with
  | @short prev s h =>
    match s, h with
    | [], _ => exact .nil prev
    | [b], _ => exact (GuardFollowed.nil (some b)).cons fun _ _ b₁ c tail hno => nomatch hno
  | @ends prev b₀ b₁ ws hws =>
    have htail : ∀ (c tail : List Char), ws = c ++ tail → ∀ x ∈ c, guardWs x = true :=
      fun c tail heq x hx => hws x (heq ▸ mem_append_left tail hx)
    refine (GuardFollowed.cons (.blank hws) ?_).cons ?_
    · intro _ hb b c tail heq _
      exact guardToken_blank hb fun x hx =>
        htail (b :: c) tail heq x (mem_cons_of_mem b hx)
    · intro _ hb b c tail heq _
      injection heq with _ heq
      exact guardToken_blank hb (htail c tail heq)
  | @other prev b₀ b₁ s o h _ ih =>
    refine ih.cons fun hprev hb b c tail heq htail => ?_
    injection heq with hbb hs
    subst hbb hs
    have hlocal := guardToken_local htail (h hprev)
    constructor
    · intro hcaught
      obtain ⟨out, last, rest, htoken⟩ := guardToken_caught hb hcaught
      rw [htoken] at hlocal
      rcases hlocal with hno | hno
      all_goals cases hno
    · intro hrefused
      rw [hrefused] at hlocal
      rcases hlocal with hno | hno
      all_goals cases hno
  | @patch prev a t l l' p p' ws ws' s o hprev ha ht hws hws' hpair _ ih =>
    have hae := isCmdEnd_of_toLower ha (by decide)
    have hte := isCmdEnd_of_toLower ht (by decide)
    obtain ⟨⟨-, -, hle, hle'⟩, ⟨-, -, hpe, hpe'⟩, -⟩ := hpair.reads
    have hall : GuardFollowed prev ((a :: t :: (ws ++ l :: (ws' ++ [l']))) ++ s)
        (('A' :: 'T' :: (ws ++ p :: (ws' ++ [p']))) ++ o) := by
      refine ih.token ?_ ?_ fun c c' hfollows => ?_
      · exact forall_mem_cons.2 ⟨hae, forall_mem_cons.2
          ⟨hte, noEnd_cons hle hws (noEnd_cons hle' hws' nofun)⟩⟩
      · exact forall_mem_cons.2 ⟨by decide, forall_mem_cons.2
          ⟨by decide, noEnd_cons hpe hws (noEnd_cons hpe' hws' nofun)⟩⟩
      · have hkept := GuardKept.patch ha ht hws hws' hpair hfollows
        simpa only [cons_append, append_assoc, nil_append] using hkept
    simpa only [cons_append, append_assoc, nil_append] using hall
  | @leave prev a t l l' l'' ws ws' ws'' s o hprev ha ht hws hws' hws'' hl hl' hl'' _ ih =>
    have hae := isCmdEnd_of_toLower ha (by decide)
    have hte := isCmdEnd_of_toLower ht (by decide)
    have hle := isCmdEnd_of_toLower hl (by decide)
    have hle' := isCmdEnd_of_toLower hl' (by decide)
    have hle'' := isCmdEnd_of_toLower hl'' (by decide)
    have hnoEnd : ∀ x ∈ a :: t :: (ws ++ l :: (ws' ++ l' :: (ws'' ++ [l'']))), isCmdEnd x = false :=
      forall_mem_cons.2 ⟨hae, forall_mem_cons.2
        ⟨hte, noEnd_cons hle hws (noEnd_cons hle' hws' (noEnd_cons hle'' hws'' nofun))⟩⟩
    have hall : GuardFollowed prev ((a :: t :: (ws ++ l :: (ws' ++ l' :: (ws'' ++ [l''])))) ++ s)
        ((a :: t :: (ws ++ l :: (ws' ++ l' :: (ws'' ++ [l''])))) ++ o) := by
      refine ih.token hnoEnd hnoEnd fun c c' hfollows => ?_
      have hkept := GuardKept.leave ha ht hws hws' hws'' hl hl' hl'' hfollows
      simpa only [cons_append, append_assoc, nil_append] using hkept
    simpa only [cons_append, append_assoc, nil_append] using hall

end Meatpi
