import Mathlib.Data.List.Infix
import Mathlib.Data.List.Nodup

/-!
# Renaming repeats

A list of names is made distinct from the front: a name that was given before gets the
first numbered suffix, `lo` and up, that is not given yet (`renameRepeats`). Only `n`
suffixes are tried and only the names in front are looked at, so the outcome may hold a
name twice, or take one that stands further on. `renameRepeats_iff` says exactly when
it does neither (`RepeatsFit`): the `j`-th repeat of a stem takes the `j`-th suffix that
is no name of the list, and those it passes over are names in front of it.
-/

namespace Meatpi

open List Option

variable {k : ℕ}

section Rename

variable {α σ : Type*} [DecidableEq α] (stem : α → σ) (suffixed : σ → ℕ → α)
  (lo n : ℕ)

/-- The name with the first suffix that is not taken; the last one when all are. -/
def freshName (taken : List α) (s : σ) : α :=
  suffixed s (((List.range' lo n).find? fun k => suffixed s k ∉ taken).getD (lo + n - 1))

/-- The next name is given, or a fresh one when it was given before. -/
def renameStep (given : List α) (x : α) : List α :=
  given ++ [if x ∈ given then freshName suffixed lo n given (stem x) else x]

/-- The names given for a list of names. -/
def renameRepeats (names : List α) : List α := names.foldl (renameStep stem suffixed lo n) []

/-- The suffixes of a stem that make no name of the list. -/
def freeSuffixes (names : List α) (s : σ) : List ℕ :=
  (List.range' lo n).filter fun k => suffixed s k ∉ names

/-- Each name is kept where it stands first. -/
def FirstsKept (names given : List α) : Prop :=
  ∀ pre x post, names = pre ++ x :: post → x ∉ pre → given[pre.length]? = some x

/-! ## One name more -/

theorem renameRepeats_concat (pre : List α) (x : α) :
    renameRepeats stem suffixed lo n (pre ++ [x]) =
      renameStep stem suffixed lo n (renameRepeats stem suffixed lo n pre) x := by
  rw [renameRepeats, foldl_append]
  rfl

theorem length_renameRepeats (names : List α) :
    (renameRepeats stem suffixed lo n names).length = names.length := by
  induction names using List.reverseRecOn with
  | nil => rfl
  | append_singleton pre x ih =>
    rw [renameRepeats_concat, renameStep, length_append, ih, length_append,
      length_singleton, length_singleton]

theorem renameRepeats_prefix (pre post : List α) :
    renameRepeats stem suffixed lo n pre <+: renameRepeats stem suffixed lo n (pre ++ post) := by
  induction post using List.reverseRecOn with
  | nil => rw [append_nil]
  | append_singleton post x ih =>
    rw [← append_assoc, renameRepeats_concat]
    exact ih.trans (prefix_append _ _)

theorem getElem?_renameRepeats (pre : List α) (x : α) (post : List α) :
    (renameRepeats stem suffixed lo n (pre ++ x :: post))[pre.length]? =
      some (if x ∈ renameRepeats stem suffixed lo n pre then
        freshName suffixed lo n (renameRepeats stem suffixed lo n pre) (stem x) else x) := by
  obtain ⟨rest, hrest⟩ := renameRepeats_prefix stem suffixed lo n (pre ++ [x]) post
  rw [append_assoc, singleton_append] at hrest
  rw [← hrest, renameRepeats_concat, renameStep, append_assoc,
    ← length_renameRepeats stem suffixed lo n pre, List.getElem?_append_right (Nat.le_refl _),
    Nat.sub_self]
  rfl

theorem renameRepeats_of_nodup {names : List α} (h : names.Nodup) :
    renameRepeats stem suffixed lo n names = names := by
  induction names using List.reverseRecOn with
  | nil => rfl
  | append_singleton pre x ih =>
    obtain ⟨hpre, -, hdisj⟩ := nodup_append.mp h
    have hx : x ∉ pre := fun hx => hdisj x hx x (mem_singleton_self x) rfl
    rw [renameRepeats_concat, renameStep, ih hpre, if_neg hx]

theorem mem_renameRepeats (hn : 0 < n) {names : List α} {y : α}
    (h : y ∈ renameRepeats stem suffixed lo n names) :
    y ∈ names ∨ ∃ x k, k < lo + n ∧ y = suffixed (stem x) k := by
  induction names using List.reverseRecOn with
  | nil => cases h
  | append_singleton pre x ih =>
    rw [renameRepeats_concat, renameStep, mem_append, mem_singleton] at h
    rcases h with h | h
    · exact (ih h).imp_left fun h => mem_append_left _ h
    · split_ifs at h with hx
      · refine .inr ⟨x, _, ?_, h⟩
        cases hfind : (List.range' lo n).find?
            fun k => suffixed (stem x) k ∉ renameRepeats stem suffixed lo n pre with
        | none => simp only [getD_none]; omega
        | some k =>
          have hk := List.mem_of_find?_eq_some hfind
          rw [mem_range'_1] at hk
          exact hk.2
      · subst h
        exact .inl (mem_append_right _ (mem_singleton_self y))

omit [DecidableEq α] in
theorem FirstsKept.mem {names given : List α} (h : FirstsKept names given) {x : α}
    (hx : x ∈ names) : x ∈ given := by
  obtain ⟨pre, post, hnames, hfst⟩ := eq_append_cons_of_mem hx
  exact mem_of_getElem? (h pre x post hnames hfst)

omit [DecidableEq α] in
theorem firstsKept_append {names given : List α} (hlen : given.length = names.length)
    (more : List α) : FirstsKept (names ++ more) (given ++ more) ↔ FirstsKept names given := by
  constructor
  · intro h pre x post hnames hx
    have hat := h pre x (post ++ more) (by rw [hnames, append_assoc, cons_append]) hx
    rwa [List.getElem?_append_left (by rw [hlen, hnames, length_append, length_cons]; omega)] at hat
  · intro h pre x post hnames hx
    rcases append_eq_append_iff.mp hnames with ⟨pre', rfl, hmore⟩ | ⟨rest, hpre, hrest⟩
    · -- behind the names
      rw [length_append, ← hlen, List.getElem?_append_right (Nat.le_add_right _ _),
        Nat.add_sub_cancel_left, hmore, List.getElem?_append_right (Nat.le_refl _), Nat.sub_self]
      rfl
    · rcases rest with _ | ⟨y, rest⟩
      · rw [append_nil] at hpre
        rw [nil_append] at hrest
        rw [← hpre, ← hlen, List.getElem?_append_right (Nat.le_refl _), Nat.sub_self, ← hrest]
        rfl
      · obtain ⟨rfl, -⟩ := cons.inj hrest
        have hat := h pre x rest hpre hx
        rwa [List.getElem?_append_left (List.getElem?_eq_some_iff.mp hat).1]

/-- The names given so far, and how many of them are fresh. -/
def renameCount (st : List α × ℕ) (x : α) : List α × ℕ :=
  (renameStep stem suffixed lo n st.1 x, if x ∈ st.1 then st.2 + 1 else st.2)

theorem foldl_renameCount_fst (names : List α) : ∀ st : List α × ℕ,
    (names.foldl (renameCount stem suffixed lo n) st).1 =
      names.foldl (renameStep stem suffixed lo n) st.1 := by
  induction names with
  | nil => intro st; rfl
  | cons x names ih => intro st; rw [foldl_cons, ih]; rfl

theorem foldl_renameCount_snd (names : List α) :
    (names.foldl (renameCount stem suffixed lo n) ([], 0)).2 = 0 ↔ names.Nodup := by
  induction names using List.reverseRecOn with
  | nil => simp
  | append_singleton pre x ih =>
    have hfst : (pre.foldl (renameCount stem suffixed lo n) ([], 0)).1 =
        renameRepeats stem suffixed lo n pre := foldl_renameCount_fst stem suffixed lo n pre ([], 0)
    rw [foldl_append, foldl_cons, foldl_nil, renameCount, hfst]
    have hnodup : (pre ++ [x]).Nodup ↔ pre.Nodup ∧ x ∉ pre := by
      rw [nodup_append]
      simp only [nodup_singleton, mem_singleton, forall_eq, true_and]
      exact and_congr_right fun _ => ⟨fun h hx => h x hx rfl, fun h y hy hyx => h (hyx ▸ hy)⟩
    rw [hnodup]
    constructor
    · intro hzero
      split_ifs at hzero with hx
      have hpre := ih.mp hzero
      rw [renameRepeats_of_nodup stem suffixed lo n hpre] at hx
      exact ⟨hpre, hx⟩
    · rintro ⟨hpre, hx⟩
      rw [renameRepeats_of_nodup stem suffixed lo n hpre, if_neg hx]
      exact ih.mpr hpre

/-! ## The condition -/

section FreeSuffixes

variable {stem suffixed lo n}

theorem pairwise_freeSuffixes (names : List α) (s : σ) :
    (freeSuffixes suffixed lo n names s).Pairwise (· < ·) :=
  (pairwise_lt_range' (s := lo) (n := n)).filter _

theorem mem_freeSuffixes {names : List α} {s : σ} :
    k ∈ freeSuffixes suffixed lo n names s ↔ (lo ≤ k ∧ k < lo + n) ∧ suffixed s k ∉ names := by
  rw [freeSuffixes, mem_filter, mem_range'_1, decide_eq_true_eq]

end FreeSuffixes

variable [DecidableEq σ]

/-- How many names of a stem stand behind an equal one, the names `seen` in
front. -/
def repeatCount (s : σ) : List α → List α → ℕ
  | _, [] => 0
  | seen, x :: xs =>
    (if x ∈ seen ∧ stem x = s then 1 else 0) + repeatCount s (seen ++ [x]) xs

/-- **The repeats fit**: each takes the free suffix that is due, which is no
reserved name, and the suffixes passed over are names in front. -/
def RepeatsFit (names reserved : List α) : Prop :=
  ∀ pre x post, names = pre ++ x :: post → x ∈ pre →
    ∃ k, (freeSuffixes suffixed lo n names (stem x))[repeatCount stem (stem x) [] pre]? = some k ∧
      suffixed (stem x) k ∉ reserved ∧
      ∀ k', lo ≤ k' → k' < k → suffixed (stem x) k' ∈ names → suffixed (stem x) k' ∈ pre

theorem repeatCount_concat (s : σ) (x : α) : ∀ (seen pre : List α),
    repeatCount stem s seen (pre ++ [x]) =
      repeatCount stem s seen pre + if x ∈ seen ++ pre ∧ stem x = s then 1 else 0 := by
  intro seen pre
  induction pre generalizing seen with
  | nil => simp [repeatCount]
  | cons y pre ih =>
    rw [cons_append, repeatCount, repeatCount, ih, append_assoc, singleton_append, Nat.add_assoc]

theorem exists_repeat {s : σ} {j : ℕ} : ∀ {pre : List α}, j < repeatCount stem s [] pre →
    ∃ pre' x post, pre = pre' ++ x :: post ∧ x ∈ pre' ∧ stem x = s ∧
      repeatCount stem s [] pre' = j := by
  intro pre
  induction pre using List.reverseRecOn with
  | nil => intro hj; simp [repeatCount] at hj
  | append_singleton pre x ih =>
    intro hj
    rw [repeatCount_concat] at hj
    by_cases hlast : j < repeatCount stem s [] pre
    · obtain ⟨pre', y, post, rfl, hy⟩ := ih hlast
      exact ⟨pre', y, post ++ [x], by simp, hy⟩
    · split_ifs at hj with hx
      · exact ⟨pre, x, [], rfl, hx.1, hx.2, by omega⟩
      · omega

/-! ## The condition is exact -/

variable {stem suffixed lo n}

/-- The names given so far: the names themselves, and for each stem the first
free suffixes, one a repeat. -/
structure Assigned (stem : α → σ) (suffixed : σ → ℕ → α) (lo n : ℕ) (names pre : List α) :
    Prop where
  mem : ∀ y, y ∈ renameRepeats stem suffixed lo n pre ↔ y ∈ pre ∨
    ∃ s j k, j < repeatCount stem s [] pre ∧
      (freeSuffixes suffixed lo n names s)[j]? = some k ∧ y = suffixed s k
  room : ∀ s, repeatCount stem s [] pre ≤ (freeSuffixes suffixed lo n names s).length

theorem assigned_nil (names : List α) : Assigned stem suffixed lo n names [] where
  mem := by simp [renameRepeats, repeatCount]
  room := by simp [repeatCount]

theorem Assigned.first {names pre : List α} {x : α} (h : Assigned stem suffixed lo n names pre)
    (hx : x ∉ pre) (hgiven : x ∉ renameRepeats stem suffixed lo n pre) :
    Assigned stem suffixed lo n names (pre ++ [x]) := by
  have hcount : ∀ s, repeatCount stem s [] (pre ++ [x]) = repeatCount stem s [] pre := by
    intro s
    rw [repeatCount_concat, if_neg (fun h => hx h.1), Nat.add_zero]
  refine ⟨fun y => ?_, fun s => ?_⟩
  · rw [renameRepeats_concat, renameStep, if_neg hgiven, mem_append, h.mem, mem_append]
    simp only [hcount, mem_singleton]
    exact or_right_comm
  · rw [hcount]
    exact h.room s

theorem Assigned.repeat {names pre : List α} {x : α}
    (h : Assigned stem suffixed lo n names pre) (hx : x ∈ pre)
    (hk : (freeSuffixes suffixed lo n names (stem x))[repeatCount stem (stem x) [] pre]? = some k)
    (hfresh : freshName suffixed lo n (renameRepeats stem suffixed lo n pre) (stem x) =
      suffixed (stem x) k) :
    Assigned stem suffixed lo n names (pre ++ [x]) := by
  have hcount : ∀ s, repeatCount stem s [] (pre ++ [x]) =
      repeatCount stem s [] pre + if stem x = s then 1 else 0 := by
    intro s
    rw [repeatCount_concat]
    simp [hx]
  have hgiven : x ∈ renameRepeats stem suffixed lo n pre := (h.mem x).mpr (.inl hx)
  refine ⟨fun y => ?_, fun s => ?_⟩
  · rw [renameRepeats_concat, renameStep, if_pos hgiven, mem_append, h.mem, mem_append,
      mem_singleton, mem_singleton, hfresh]
    constructor
    · rintro ((hy | ⟨s, j, k', hj, hk', rfl⟩) | rfl)
      · exact .inl (.inl hy)
      · exact .inr ⟨s, j, k', by rw [hcount]; omega, hk', rfl⟩
      · exact .inr ⟨stem x, _, k, by rw [hcount, if_pos rfl]; omega, hk, rfl⟩
    · rintro ((hy | rfl) | ⟨s, j, k', hj, hk', rfl⟩)
      · exact .inl (.inl hy)
      · exact .inl (.inl hx)
      · rw [hcount] at hj
        by_cases hlast : j < repeatCount stem s [] pre
        · exact .inl (.inr ⟨s, j, k', hlast, hk', rfl⟩)
        · split_ifs at hj with hs
          · subst hs
            obtain rfl : j = repeatCount stem (stem x) [] pre := by omega
            rw [hk, some.injEq] at hk'
            rw [hk']
            exact .inr rfl
          · omega
  · rw [hcount]
    split_ifs with hs
    · subst hs
      obtain ⟨hlt, -⟩ := List.getElem?_eq_some_iff.mp hk
      exact hlt
    · exact h.room s

theorem Assigned.first_free {names pre post : List α} {x : α}
    (h : Assigned stem suffixed lo n names pre) (hnames : names = pre ++ x :: post) (hx : x ∉ pre) :
    x ∉ renameRepeats stem suffixed lo n pre := by
  rw [h.mem]
  rintro (hmem | ⟨s, j, k, -, hk, rfl⟩)
  · exact hx hmem
  · apply (mem_freeSuffixes.mp (mem_of_getElem? hk)).2
    rw [hnames]
    simp

/-! ### The suffix found -/

omit [DecidableEq σ] in
theorem freshName_eq {taken : List α} {s : σ} (hk : lo ≤ k ∧ k < lo + n)
    (hfree : suffixed s k ∉ taken) (hless : ∀ k', lo ≤ k' → k' < k → suffixed s k' ∈ taken) :
    freshName suffixed lo n taken s = suffixed s k := by
  have hfind : (List.range' lo n).find? (fun k => suffixed s k ∉ taken) = some k := by
    rw [List.find?_range'_eq_some, mem_range'_1]
    refine ⟨by simpa using hfree, hk, fun k' hlo hlt => ?_⟩
    simpa using hless k' hlo hlt
  rw [freshName, hfind, getD_some]

omit [DecidableEq σ] in
theorem freshName_free (hn : 0 < n) {taken : List α} {s : σ}
    (h : freshName suffixed lo n taken s ∉ taken) :
    ∃ k, (lo ≤ k ∧ k < lo + n) ∧ freshName suffixed lo n taken s = suffixed s k ∧
      ∀ k', lo ≤ k' → k' < k → suffixed s k' ∈ taken := by
  cases hfind : (List.range' lo n).find? fun k => suffixed s k ∉ taken with
  | none =>
    -- all suffixes are taken, and so is the last
    rw [freshName, hfind, getD_none] at h
    rw [List.find?_range'_eq_none] at hfind
    exact absurd (by simpa using hfind (lo + n - 1) (by omega) (by omega)) h
  | some k =>
    have hname : freshName suffixed lo n taken s = suffixed s k := by
      rw [freshName, hfind, getD_some]
    rw [List.find?_range'_eq_some, mem_range'_1] at hfind
    exact ⟨k, hfind.2.1, hname, fun k' hlo hlt => by simpa using hfind.2.2 k' hlo hlt⟩

section Exact

variable (hinj : ∀ x k x' k', k < lo + n → k' < lo + n →
  suffixed (stem x) k = suffixed (stem x') k' → stem x = stem x' ∧ k = k')

include hinj

theorem Assigned.mem_suffixed {names pre : List α} (h : Assigned stem suffixed lo n names pre)
    (hpre : ∀ y ∈ pre, y ∈ names) {x : α} (hk : k ∈ freeSuffixes suffixed lo n names (stem x)) :
    suffixed (stem x) k ∈ renameRepeats stem suffixed lo n pre ↔
      ∃ j, j < repeatCount stem (stem x) [] pre ∧
        (freeSuffixes suffixed lo n names (stem x))[j]? = some k := by
  obtain ⟨hkn, hnot⟩ := mem_freeSuffixes.mp hk
  rw [h.mem]
  constructor
  · rintro (hmem | ⟨s', j, k', hj, hk', heq⟩)
    · exact absurd (hpre _ hmem) hnot
    · have hkn' := (mem_freeSuffixes.mp (mem_of_getElem? hk')).1
      obtain ⟨-, x', -, -, -, rfl, -⟩ := exists_repeat stem hj
      obtain ⟨hstem, rfl⟩ := hinj _ _ _ _ hkn.2 hkn'.2 heq
      rw [hstem]
      exact ⟨j, hj, hk'⟩
  · rintro ⟨j, hj, hk'⟩
    exact .inr ⟨stem x, j, k, hj, hk', rfl⟩

theorem RepeatsFit.fresh {names reserved pre post : List α} {x : α}
    (h : RepeatsFit stem suffixed lo n names reserved) (hnames : names = pre ++ x :: post)
    (hA : Assigned stem suffixed lo n names pre) (hx : x ∈ pre) :
    ∃ k, (freeSuffixes suffixed lo n names (stem x))[repeatCount stem (stem x) [] pre]? = some k ∧
      suffixed (stem x) k ∉ renameRepeats stem suffixed lo n pre ∧
      freshName suffixed lo n (renameRepeats stem suffixed lo n pre) (stem x) =
        suffixed (stem x) k := by
  obtain ⟨k, hk, -, hpassed⟩ := h pre x post hnames hx
  have hpre : ∀ y ∈ pre, y ∈ names := fun y hy => by rw [hnames]; exact mem_append_left _ hy
  have hfree := mem_of_getElem? hk
  have hasc : (freeSuffixes suffixed lo n names (stem x)).Pairwise (· < ·) :=
    pairwise_freeSuffixes names (stem x)
  have hnew : suffixed (stem x) k ∉ renameRepeats stem suffixed lo n pre := by
    rw [hA.mem_suffixed hinj hpre hfree]
    rintro ⟨j, hj, hkj⟩
    obtain ⟨hj', hkj⟩ := List.getElem?_eq_some_iff.mp hkj
    obtain ⟨hc', hkc⟩ := List.getElem?_eq_some_iff.mp hk
    have hless := pairwise_iff_getElem.mp hasc j _ hj' hc' hj
    omega
  refine ⟨k, hk, hnew, freshName_eq (mem_freeSuffixes.mp hfree).1 hnew fun k' hlo hlt => ?_⟩
  · by_cases hmem : suffixed (stem x) k' ∈ names
    · exact (hA.mem _).mpr (.inl (hpassed k' hlo hlt hmem))
    · -- a free suffix below the due one is one of the first
      have hn := (mem_freeSuffixes.mp hfree).1
      have hfree' : k' ∈ freeSuffixes suffixed lo n names (stem x) :=
        mem_freeSuffixes.mpr ⟨⟨hlo, by omega⟩, hmem⟩
      obtain ⟨j, hj, hkj⟩ := getElem_of_mem hfree'
      rw [hA.mem_suffixed hinj hpre hfree']
      refine ⟨j, ?_, List.getElem?_eq_some_iff.mpr ⟨hj, hkj⟩⟩
      obtain ⟨hc', hkc⟩ := List.getElem?_eq_some_iff.mp hk
      by_contra hge
      rcases Nat.lt_or_eq_of_le (Nat.le_of_not_lt hge) with hgt | heq
      · have hless := pairwise_iff_getElem.mp hasc _ _ hc' hj hgt
        omega
      · subst heq
        omega

theorem RepeatsFit.assigned {names reserved : List α}
    (h : RepeatsFit stem suffixed lo n names reserved) :
    ∀ {pre post : List α}, names = pre ++ post → Assigned stem suffixed lo n names pre := by
  intro pre
  induction pre using List.reverseRecOn with
  | nil => intro post _; exact assigned_nil names
  | append_singleton pre x ih =>
    intro post hnames
    rw [append_assoc] at hnames
    have hA := ih hnames
    by_cases hx : x ∈ pre
    · obtain ⟨k, hk, -, hfresh⟩ := h.fresh hinj hnames hA hx
      exact hA.repeat hx hk hfresh
    · exact hA.first hx (hA.first_free hnames hx)

/-- Where the outcome is good, a repeat was given the suffix that is due, past
names in front of it. -/
theorem Assigned.due {names pre post : List α} {x : α} (hn : 0 < n)
    (h : Assigned stem suffixed lo n names pre) (hnames : names = pre ++ x :: post)
    (hnodup : (renameRepeats stem suffixed lo n names).Nodup)
    (hfirst : FirstsKept names (renameRepeats stem suffixed lo n names)) (hx : x ∈ pre) :
    ∃ k, (freeSuffixes suffixed lo n names (stem x))[repeatCount stem (stem x) [] pre]? = some k ∧
      freshName suffixed lo n (renameRepeats stem suffixed lo n pre) (stem x) =
        suffixed (stem x) k ∧
      ∀ k', lo ≤ k' → k' < k → suffixed (stem x) k' ∈ names → suffixed (stem x) k' ∈ pre := by
  have hpre : ∀ y ∈ pre, y ∈ names := fun y hy => by rw [hnames]; exact mem_append_left _ hy
  have hgiven : x ∈ renameRepeats stem suffixed lo n pre := (h.mem x).mpr (.inl hx)
  have hat := getElem?_renameRepeats stem suffixed lo n pre x post
  rw [if_pos hgiven, ← hnames] at hat
  -- what was given here was given nowhere before
  have hnew : freshName suffixed lo n (renameRepeats stem suffixed lo n pre) (stem x) ∉
      renameRepeats stem suffixed lo n pre := by
    intro hmem
    obtain ⟨p, hp, hpx⟩ := getElem_of_mem hmem
    obtain ⟨rest, hrest⟩ := renameRepeats_prefix stem suffixed lo n pre (x :: post)
    have hbefore : (renameRepeats stem suffixed lo n names)[p]? =
        some (freshName suffixed lo n (renameRepeats stem suffixed lo n pre) (stem x)) := by
      rw [hnames, ← hrest, List.getElem?_append_left hp, List.getElem?_eq_getElem hp, hpx]
    rw [length_renameRepeats] at hp
    have heq := (List.getElem?_inj (by
      rw [length_renameRepeats, hnames, length_append]; omega) hnodup).mp (hbefore.trans hat.symm)
    omega
  obtain ⟨k, hk, hname, hless⟩ := freshName_free hn hnew
  rw [hname] at hat hnew
  -- no name of the list: its first holder would have lost it
  have hnot : suffixed (stem x) k ∉ names := by
    intro hmem
    obtain ⟨pre', post', hsplit, hfst⟩ := eq_append_cons_of_mem hmem
    have hkept := hfirst pre' _ post' hsplit hfst
    have heq := (List.getElem?_inj (by
      rw [length_renameRepeats, hsplit, length_append, length_cons]
      omega) hnodup).mp (hkept.trans hat.symm)
    have hsame : pre' = pre ∧ suffixed (stem x) k :: post' = x :: post :=
      append_inj (hsplit.symm.trans hnames) heq
    have hkx : suffixed (stem x) k = x := (cons.inj hsame.2).1
    rw [hkx] at hnew
    exact hnew hgiven
  have hfree : k ∈ freeSuffixes suffixed lo n names (stem x) := mem_freeSuffixes.mpr ⟨hk, hnot⟩
  have hasc : (freeSuffixes suffixed lo n names (stem x)).Pairwise (· < ·) :=
    pairwise_freeSuffixes names (stem x)
  obtain ⟨i, hi, hik⟩ := getElem_of_mem hfree
  have hindex : i = repeatCount stem (stem x) [] pre := by
    rcases Nat.lt_trichotomy i (repeatCount stem (stem x) [] pre) with hlt | heq | hgt
    · refine absurd ((h.mem_suffixed hinj hpre hfree).mpr ⟨i, hlt, ?_⟩) hnew
      exact List.getElem?_eq_some_iff.mpr ⟨hi, hik⟩
    · exact heq
    · -- the one that is due is smaller, so it was taken, so it was not due
      have hc := Nat.lt_trans hgt hi
      have hdue := pairwise_iff_getElem.mp hasc _ _ hc hi hgt
      have hmem := getElem_mem hc
      have htaken := hless _ (mem_freeSuffixes.mp hmem).1.1 (hik ▸ hdue)
      rw [h.mem_suffixed hinj hpre hmem] at htaken
      obtain ⟨j, hj, hkj⟩ := htaken
      obtain ⟨hj', hkj⟩ := List.getElem?_eq_some_iff.mp hkj
      have hbelow := pairwise_iff_getElem.mp hasc _ _ hj' hc hj
      omega
  refine ⟨k, ?_, hname, fun k' hlo hlt hmem => ?_⟩
  · rw [← hindex]
    exact List.getElem?_eq_some_iff.mpr ⟨hi, hik⟩
  · rcases (h.mem _).mp (hless k' hlo hlt) with hin | ⟨s, j, k'', -, hk'', heq⟩
    · exact hin
    · rw [heq] at hmem
      exact absurd hmem (mem_freeSuffixes.mp (mem_of_getElem? hk'')).2

theorem RepeatsFit.nodup {names reserved : List α}
    (h : RepeatsFit stem suffixed lo n names reserved) :
    ∀ {pre post : List α}, names = pre ++ post → (renameRepeats stem suffixed lo n pre).Nodup := by
  intro pre
  induction pre using List.reverseRecOn with
  | nil => intro post _; exact nodup_nil
  | append_singleton pre x ih =>
    intro post hnames
    rw [append_assoc] at hnames
    have hA := h.assigned hinj hnames
    have hnew : (if x ∈ renameRepeats stem suffixed lo n pre then
        freshName suffixed lo n (renameRepeats stem suffixed lo n pre) (stem x) else x) ∉
          renameRepeats stem suffixed lo n pre := by
      by_cases hx : x ∈ pre
      · obtain ⟨k, -, hnew, hfresh⟩ := h.fresh hinj hnames hA hx
        rw [if_pos ((hA.mem x).mpr (.inl hx)), hfresh]
        exact hnew
      · rw [if_neg (hA.first_free hnames hx)]
        exact hA.first_free hnames hx
    rw [renameRepeats_concat, renameStep, nodup_append]
    refine ⟨ih hnames, nodup_singleton _, ?_⟩
    intro y hy z hz heq
    rw [mem_singleton.mp hz] at heq
    exact hnew (heq ▸ hy)

/-- **The condition is exact**: the names given are distinct, first holders keep
theirs and no fresh name is a reserved one, if and only if the repeats fit. -/
theorem renameRepeats_iff (hn : 0 < n) (names reserved : List α) :
    ((renameRepeats stem suffixed lo n names).Nodup ∧
      FirstsKept names (renameRepeats stem suffixed lo n names) ∧
      ∀ y ∈ renameRepeats stem suffixed lo n names, y ∉ names → y ∉ reserved) ↔
    RepeatsFit stem suffixed lo n names reserved := by
  constructor
  · rintro ⟨hnodup, hfirst, hres⟩
    have hassigned : ∀ {pre post : List α}, names = pre ++ post →
        Assigned stem suffixed lo n names pre := by
      intro pre
      induction pre using List.reverseRecOn with
      | nil => intro post _; exact assigned_nil names
      | append_singleton pre x ih =>
        intro post hnames
        rw [append_assoc] at hnames
        have hA := ih hnames
        by_cases hx : x ∈ pre
        · obtain ⟨k, hk, hfresh, -⟩ := hA.due hinj hn hnames hnodup hfirst hx
          exact hA.repeat hx hk hfresh
        · exact hA.first hx (hA.first_free hnames hx)
    intro pre x post hnames hx
    have hA := hassigned hnames
    obtain ⟨k, hk, hfresh, hpassed⟩ := hA.due hinj hn hnames hnodup hfirst hx
    refine ⟨k, hk, ?_, hpassed⟩
    have hat := getElem?_renameRepeats stem suffixed lo n pre x post
    rw [if_pos ((hA.mem x).mpr (.inl hx)), hfresh, ← hnames] at hat
    exact hres _ (mem_of_getElem? hat) (mem_freeSuffixes.mp (mem_of_getElem? hk)).2
  · intro h
    refine ⟨h.nodup hinj (append_nil names).symm, fun pre x post hnames hx => ?_,
      fun y hy hnot => ?_⟩
    · have hat := getElem?_renameRepeats stem suffixed lo n pre x post
      rwa [if_neg ((h.assigned hinj hnames).first_free hnames hx), ← hnames] at hat
    · have hA := h.assigned hinj (append_nil names).symm
      obtain ⟨s, j, k, hj, hk, rfl⟩ := ((hA.mem y).mp hy).resolve_left hnot
      obtain ⟨pre, x, post, hnames, hx, rfl, rfl⟩ := exists_repeat stem hj
      obtain ⟨k', hk', hres, -⟩ := h pre x post hnames hx
      rw [hk, some.injEq] at hk'
      rwa [hk']

end Exact

end Rename

end Meatpi
