import Meatpi.WifiManager.Select

/-!
# How many networks get their turn (`wifi_manager_select.c`)

Failures fade after two minutes, and at the slow cadence three attempts take a
minute and a half. Two networks in sight take turns whatever happened before. With
three, the first has faded again when the second has had its three attempts, and
the third is never reached.
-/

namespace Meatpi

open List WmReconnect

variable {r : WmReconnect}

section

variable {cand : List WmNetwork} {present : List (List UInt8)}

/-! ## Two visible networks -/

/-- **Two networks take turns**: with no more than one rival, a visible candidate is
picked within five attempts, from every state. -/
theorem picked_within_five (hcand : cand.length ≤ wmMaxCandidates) {i o : ℕ}
    (htwo : ∀ p ∈ seenCandidates cand present, p = i ∨ p = o) (hi : i ∈ seenCandidates cand present)
    (hr : WmReconnect.Reachable cand r) : ∃ k < 5, r.pickAt cand present k = some i := by
  by_contra hnever
  push Not at hnever
  have hspec : ∀ k < 5, o ∈ seenCandidates cand present ∧
      ((r.after cand present k).attempt cand present).2 = some o ∧
      (wmSelectIsDeprioritised (r.after cand present k).sel o
          (r.after cand present k).nowMs = true →
        (r.after cand present (k + 1)).sel.depCursor = o ∧
          ((r.after cand present k).sel.depCursor ≠ i →
            (r.after cand present k).sel.depCursor ≠ o)) := by
    intro k hk
    obtain ⟨p, hp, hpick, hdep⟩ := attempt_spec (hr.after k) hi
    rw [after_succ]
    obtain rfl | rfl := htwo p hp
    · exact absurd hpick (hnever k hk)
    · exact ⟨hp, hpick, hdep⟩
  have ho : o < wmMaxCandidates := (mem_seenCandidates.1 (hspec 0 (by omega)).1).1.trans_le hcand
  -- every attempt is one failure more for the rival
  have hfresh : ∀ k < 5, ((r.after cand present (k + 1)).sel.fails ⟨o, ho⟩).Fresh (k + 1)
      (r.after cand present (k + 1)).nowMs := by
    intro k
    induction k with
    | zero =>
      intro hk
      rw [after_succ, fails_attempt (hspec 0 hk).2.1, if_pos rfl]
      exact fresh_strike (by omega) (.inl rfl) _
    | succ k ih =>
      intro hk
      rw [after_succ, fails_attempt (hspec (k + 1) hk).2.1, if_pos rfl]
      exact fresh_strike (by omega) (.inr (ih (by omega))) _
  have hdep : ∀ k, 2 ≤ k → k < 5 → wmSelectIsDeprioritised (r.after cand present (k + 1)).sel o
      (r.after cand present (k + 1)).nowMs = true := by
    intro k h2 hk
    obtain ⟨hcount, hlive⟩ := hfresh k hk
    rw [wmSelectIsDeprioritised_eq ho, hlive, Bool.and_true, decide_eq_true_eq]
    unfold wmAuthFailThreshold
    omega
  -- the fourth attempt was the rival's turn, so the fifth is not
  have hcursor := ((hspec 3 (by omega)).2.2 (hdep 2 (by omega) (by omega))).1
  have hne : (o : ℤ) ≠ i := by
    intro heq
    apply hnever 0 (by omega)
    rw [pickAt_eq, (hspec 0 (by omega)).2.1, Int.natCast_inj.1 heq]
  have hturn := ((hspec 4 (by omega)).2.2 (hdep 3 (by omega) (by omega))).2
  rw [hcursor] at hturn
  exact hturn hne rfl

/-! ## Three visible networks -/

/-- An entry as it is seen at a time: the failures, and how long ago the last was. -/
abbrev Aged : Type := ℕ × UInt32

/-- Passed over. -/
def Aged.dep (v : Aged) : Bool :=
  decide (wmAuthFailThreshold ≤ v.1) && decide (v.2 < wmFailMemoryMs)

/-- Picked, and seen after a while. -/
def Aged.strike (v : Aged) (gap : UInt32) : Aged :=
  let count := if decide (0 < v.1) && decide (v.2 < wmFailMemoryMs) then v.1 else 0
  (if count < 255 then count + 1 else count, gap)

/-- Seen after a while. -/
def Aged.wait (v : Aged) (gap : UInt32) : Aged := (v.1, v.2 + gap)

/-- Two entries, the first of which goes first. -/
def rivalsStep (v : Aged × Aged) (gap : UInt32) : Aged × Aged :=
  if v.1.dep then (v.1.wait gap, v.2.strike gap) else (v.1.strike gap, v.2.wait gap)

/-- How an entry is seen before an attempt. -/
def WmReconnect.aged (r : WmReconnect) (j : Fin wmMaxCandidates) : Aged :=
  ((r.sel.fails j).failCount, r.nowMs - (r.sel.fails j).lastFailMs)

theorem dep_aged (r : WmReconnect) (j : Fin wmMaxCandidates) :
    (r.aged j).dep = wmSelectIsDeprioritised r.sel j r.nowMs := by
  rw [wmSelectIsDeprioritised_eq j.isLt]
  change (decide (wmAuthFailThreshold ≤ (r.sel.fails j).failCount) &&
      decide (r.nowMs - (r.sel.fails j).lastFailMs < wmFailMemoryMs)) =
    (decide (wmAuthFailThreshold ≤ (r.sel.fails j).failCount) &&
      (decide (0 < (r.sel.fails j).failCount) &&
        decide (r.nowMs - (r.sel.fails j).lastFailMs < wmFailMemoryMs)))
  by_cases hcount : wmAuthFailThreshold ≤ (r.sel.fails j).failCount
  · have hpos : 0 < (r.sel.fails j).failCount := by
      unfold wmAuthFailThreshold at hcount
      omega
    rw [decide_eq_true hcount, decide_eq_true hpos, Bool.true_and, Bool.true_and]
  · rw [decide_eq_false hcount, Bool.false_and, Bool.false_and]

theorem aged_attempt {p : ℕ} (hpick : (r.attempt cand present).2 = some p)
    (j : Fin wmMaxCandidates) :
    (r.attempt cand present).1.aged j = if p = j then (r.aged j).strike (wmGapMs (r.retryCount + 1))
      else (r.aged j).wait (wmGapMs (r.retryCount + 1)) := by
  have hnow : (r.attempt cand present).1.nowMs = r.nowMs + wmGapMs (r.retryCount + 1) := rfl
  simp only [WmReconnect.aged, fails_attempt hpick, hnow]
  split_ifs
  · simp [WmFailEntry.strike, WmFailEntry.memoryLive, Aged.strike, add_sub_cancel_left]
  · simp [Aged.wait, add_sub_right_comm]

/-- `a` and `b` are the first two visible candidates. -/
structure FirstTwo (cand : List WmNetwork) (present : List (List UInt8))
    (a b : Fin wmMaxCandidates) : Prop where
  memA : (a : ℕ) ∈ seenCandidates cand present
  memB : (b : ℕ) ∈ seenCandidates cand present
  lt : (a : ℕ) < b
  first : ∀ q ∈ seenCandidates cand present, q < b → q = a

variable {a b : Fin wmMaxCandidates}

theorem FirstTwo.attempt (h : FirstTwo cand present a b) {r : WmReconnect}
    (hclean : (r.aged a).dep = false ∨ (r.aged b).dep = false) :
    (r.attempt cand present).2 = some (if (r.aged a).dep then (b : ℕ) else a) ∧
      ((r.attempt cand present).1.aged a, (r.attempt cand present).1.aged b) =
        rivalsStep (r.aged a, r.aged b) (wmGapMs (r.retryCount + 1)) := by
  have hne : (a : ℕ) ≠ b := Nat.ne_of_lt h.lt
  have hpick : (r.attempt cand present).2 = some (if (r.aged a).dep then (b : ℕ) else a) := by
    cases hdep : (r.aged a).dep with
    | false =>
      have hscan := @wmSelectFromScan_clean cand present r.sel r.nowMs a h.memA
        (by rw [← dep_aged, hdep]) fun q hq hlt => absurd (h.first q hq (hlt.trans h.lt)) hlt.ne
      exact congrArg Prod.snd hscan
    | true =>
      have hb := hclean.resolve_left (by simp [hdep])
      have hscan := @wmSelectFromScan_clean cand present r.sel r.nowMs b h.memB
        (by rw [← dep_aged, hb]) fun q hq hlt => by rw [h.first q hq hlt, ← dep_aged, hdep]
      exact congrArg Prod.snd hscan
  refine ⟨hpick, ?_⟩
  rw [aged_attempt hpick, aged_attempt hpick]
  cases hdep : (r.aged a).dep with
  | false => simp [rivalsStep, hdep, hne]
  | true => simp [rivalsStep, hdep, hne.symm]

theorem wmGapMs_slow {retryCount : ℤ} (h : 5 ≤ retryCount) : wmGapMs retryCount = 30000 := by
  have hskip : wmBackoffSkipLoops retryCount = 5 := by
    unfold wmBackoffSkipLoops
    rw [if_neg (by omega)]
    by_cases h7 : 4 < retryCount - 2
    · rw [if_pos h7]
      rfl
    · obtain rfl | rfl : retryCount = 5 ∨ retryCount = 6 := by omega
      · rfl
      · rfl
  rw [wmGapMs, hskip]
  rfl

/-- How two rivals look before the attempts of the slow cadence: three for each, and
by then the other has faded. The first three are the first round after the start. -/
def rivalsCycle : List (Aged × Aged) :=
  [((3, 120000), (3, 60000)), ((1, 30000), (3, 90000)), ((2, 30000), (3, 120000)),
    ((3, 30000), (3, 150000)), ((3, 60000), (1, 30000)), ((3, 90000), (2, 30000)),
    ((3, 120000), (3, 30000)), ((1, 30000), (3, 60000)), ((2, 30000), (3, 90000)),
    ((3, 30000), (3, 120000))]

theorem rivalsCycle_clean : ∀ v ∈ rivalsCycle, v.1.dep = false ∨ v.2.dep = false := by decide

theorem rivalsCycle_step : ∀ v ∈ rivalsCycle, rivalsStep v 30000 ∈ rivalsCycle := by decide

theorem FirstTwo.never (h : FirstTwo cand present a b) (hcycle : (r.aged a, r.aged b) ∈ rivalsCycle)
    (hslow : 4 ≤ r.retryCount) (k : ℕ) :
    r.pickAt cand present k = some (a : ℕ) ∨ r.pickAt cand present k = some (b : ℕ) := by
  have hinv : ∀ k, ((r.after cand present k).aged a, (r.after cand present k).aged b) ∈
      rivalsCycle ∧ 4 ≤ (r.after cand present k).retryCount := by
    intro k
    induction k with
    | zero => exact ⟨hcycle, hslow⟩
    | succ k ih =>
      obtain ⟨hin, hretry⟩ := ih
      have hstep := (h.attempt (rivalsCycle_clean _ hin)).2
      rw [wmGapMs_slow (by omega)] at hstep
      rw [after_succ, hstep]
      refine ⟨rivalsCycle_step _ hin, ?_⟩
      change 4 ≤ (r.after cand present k).retryCount + 1
      omega
  rw [pickAt_eq, (h.attempt (rivalsCycle_clean _ (hinv k).1)).1]
  split_ifs
  · exact .inr rfl
  · exact .inl rfl

theorem FirstTwo.start (h : FirstTwo cand present a b) (k : ℕ) (hk : k ≤ 6) :
    ((WmReconnect.after cand present ⟨wmSelectInit, 0, 0⟩ k).aged a,
      (WmReconnect.after cand present ⟨wmSelectInit, 0, 0⟩ k).aged b) =
        (List.range k).foldl (fun v n => rivalsStep v (wmGapMs (n + 1 : ℕ))) ((0, 0), (0, 0)) ∧
      (WmReconnect.after cand present ⟨wmSelectInit, 0, 0⟩ k).retryCount = k ∧
      ∀ c : Fin wmMaxCandidates, c ≠ a → c ≠ b →
        ((WmReconnect.after cand present ⟨wmSelectInit, 0, 0⟩ k).aged c).1 = 0 := by
  induction k with
  | zero =>
    refine ⟨?_, rfl, fun _ _ _ => rfl⟩
    simp [WmReconnect.after, WmReconnect.aged, wmSelectInit]
  | succ k ih =>
    obtain ⟨hviews, hretry, hothers⟩ := ih (by omega)
    have hclean : ∀ k < 6, ((List.range k).foldl (fun v n => rivalsStep v (wmGapMs (n + 1 : ℕ)))
          ((0, 0), (0, 0))).1.dep = false ∨
        ((List.range k).foldl (fun v n => rivalsStep v (wmGapMs (n + 1 : ℕ)))
          ((0, 0), (0, 0))).2.dep = false := by decide
    have hcleank := hclean k (by omega)
    rw [← hviews] at hcleank
    obtain ⟨hpick, hstep⟩ := h.attempt hcleank
    rw [after_succ, hstep, hviews, hretry, range_succ, foldl_append]
    refine ⟨rfl, ?_, ?_⟩
    · change (WmReconnect.after cand present ⟨wmSelectInit, 0, 0⟩ k).retryCount + 1 = _
      rw [hretry]
      rfl
    · intro c hca hcb
      rw [aged_attempt hpick, if_neg]
      · exact hothers c hca hcb
      · split_ifs
        · exact fun heq => hcb (Fin.ext heq.symm)
        · exact fun heq => hca (Fin.ext heq.symm)

/-- **The third is starved**: a state that is reached by seven attempts from the
start, and from which only the first two are ever picked. -/
theorem FirstTwo.starves (h : FirstTwo cand present a b) {c : ℕ}
    (hc : c ∈ seenCandidates cand present) (hcand : cand.length ≤ wmMaxCandidates) (hbc : b < c)
    (hthird : ∀ q ∈ seenCandidates cand present, q < c → q = a ∨ q = b) :
    ∀ k, WmReconnect.pickAt cand present
      (WmReconnect.after cand present ⟨wmSelectInit, 0, 0⟩ 7) k ≠ some c := by
  have hcount : c < wmMaxCandidates := (mem_seenCandidates.1 hc).1.trans_le hcand
  have hca : (⟨c, hcount⟩ : Fin wmMaxCandidates) ≠ a := fun heq =>
    absurd (congrArg Fin.val heq) (Nat.ne_of_gt (h.lt.trans hbc))
  have hcb : (⟨c, hcount⟩ : Fin wmMaxCandidates) ≠ b := fun heq =>
    absurd (congrArg Fin.val heq) (Nat.ne_of_gt hbc)
  obtain ⟨hviews, hretry, hothers⟩ := h.start 6 (le_refl 6)
  rw [Prod.mk.injEq] at hviews
  -- the seventh attempt is the third's, its first and last
  have hdepa : wmSelectIsDeprioritised (WmReconnect.after cand present ⟨wmSelectInit, 0, 0⟩ 6).sel a
      (WmReconnect.after cand present ⟨wmSelectInit, 0, 0⟩ 6).nowMs = true := by
    rw [← dep_aged, hviews.1]
    decide
  have hdepb : wmSelectIsDeprioritised (WmReconnect.after cand present ⟨wmSelectInit, 0, 0⟩ 6).sel b
      (WmReconnect.after cand present ⟨wmSelectInit, 0, 0⟩ 6).nowMs = true := by
    rw [← dep_aged, hviews.2]
    decide
  have hcleanc : wmSelectIsDeprioritised
      (WmReconnect.after cand present ⟨wmSelectInit, 0, 0⟩ 6).sel c
      (WmReconnect.after cand present ⟨wmSelectInit, 0, 0⟩ 6).nowMs = false := by
    have hdep := dep_aged (WmReconnect.after cand present ⟨wmSelectInit, 0, 0⟩ 6) ⟨c, hcount⟩
    rw [← hdep, Aged.dep, hothers _ hca hcb]
    rfl
  have hpick : ((WmReconnect.after cand present ⟨wmSelectInit, 0, 0⟩ 6).attempt cand present).2 =
      some c := by
    have hscan := wmSelectFromScan_clean hc hcleanc fun q hq hlt => by
      rcases hthird q hq hlt with rfl | rfl
      · exact hdepa
      · exact hdepb
    exact congrArg Prod.snd hscan
  have hseven : ((WmReconnect.after cand present ⟨wmSelectInit, 0, 0⟩ 7).aged a,
      (WmReconnect.after cand present ⟨wmSelectInit, 0, 0⟩ 7).aged b) =
        ((3, 120000), (3, 60000)) := by
    rw [after_succ, aged_attempt hpick, aged_attempt hpick, if_neg, if_neg, hviews.1,
      hviews.2, hretry]
    · rfl
    · exact fun heq => hcb (Fin.ext heq)
    · exact fun heq => hca (Fin.ext heq)
  intro k hk
  have hslow : 4 ≤ (WmReconnect.after cand present ⟨wmSelectInit, 0, 0⟩ 7).retryCount := by
    change 4 ≤ (WmReconnect.after cand present ⟨wmSelectInit, 0, 0⟩ 6).retryCount + 1
    omega
  rcases h.never (by rw [hseven]; decide) hslow k with hpa | hpb
  · rw [hpa] at hk
    exact hca (Fin.ext (Option.some.inj hk).symm)
  · rw [hpb] at hk
    exact hcb (Fin.ext (Option.some.inj hk).symm)

theorem noneStarved_of_two (hcand : cand.length ≤ wmMaxCandidates)
    (htwo : (seenCandidates cand present).length ≤ 2) : NoneStarved cand present := by
  refine ⟨5, fun r hr i hi => ?_⟩
  obtain ⟨o, ho⟩ : ∃ o, ∀ p ∈ seenCandidates cand present, p = i ∨ p = o := by
    rcases hseen : seenCandidates cand present with _ | ⟨x, _ | ⟨y, _ | ⟨z, rest⟩⟩⟩
    · exact ⟨i, fun p hp => absurd hp not_mem_nil⟩
    · exact ⟨x, fun p hp => .inr (mem_singleton.1 hp)⟩
    · rw [hseen] at hi
      rcases mem_pair.1 hi with rfl | rfl
      · exact ⟨y, fun p hp => mem_pair.1 hp⟩
      · exact ⟨x, fun p hp => (mem_pair.1 hp).symm⟩
    · rw [hseen] at htwo
      simp only [length_cons] at htwo
      omega
  exact picked_within_five hcand ho hi hr

theorem not_noneStarved_of_three (hcand : cand.length ≤ wmMaxCandidates)
    (hthree : 2 < (seenCandidates cand present).length) : ¬ NoneStarved cand present := by
  rintro ⟨n, h⟩
  have hsorted : (seenCandidates cand present).Pairwise (· < ·) :=
    List.Pairwise.filter _ pairwise_lt_range
  have hmem : ∀ q ∈ seenCandidates cand present, q < wmMaxCandidates := fun q hq =>
    (mem_seenCandidates.1 hq).1.trans_le hcand
  rcases hseen : seenCandidates cand present with _ | ⟨x, _ | ⟨y, _ | ⟨z, rest⟩⟩⟩
  all_goals rw [hseen] at hthree hsorted hmem
  · simp at hthree
  · simp at hthree
  · simp at hthree
  · simp only [pairwise_cons, forall_mem_cons] at hsorted
    obtain ⟨⟨hxy, -⟩, ⟨hyz, hyrest⟩, hzrest, -⟩ := hsorted
    have hfirst : FirstTwo cand present ⟨x, hmem x (by simp)⟩ ⟨y, hmem y (by simp)⟩ := by
      refine ⟨by simp [hseen], by simp [hseen], hxy, ?_⟩
      intro q hq hlt
      rw [hseen, mem_cons, mem_cons, mem_cons] at hq
      rcases hq with rfl | rfl | rfl | hrest
      · rfl
      · exact absurd hlt (lt_irrefl _)
      · exact absurd hlt (Nat.lt_asymm hyz)
      · exact absurd hlt (Nat.lt_asymm (hyrest q hrest))
    have hz : z ∈ seenCandidates cand present := by simp [hseen]
    have hreach : WmReconnect.Reachable cand
        (WmReconnect.after cand present ⟨wmSelectInit, 0, 0⟩ 7) :=
      (WmReconnect.Reachable.start 0).after 7
    obtain ⟨k, -, hk⟩ := h _ hreach z hz
    refine hfirst.starves hz hcand hyz ?_ k hk
    intro q hq hlt
    rw [hseen, mem_cons, mem_cons, mem_cons] at hq
    rcases hq with rfl | rfl | rfl | hrest
    · exact .inl rfl
    · exact .inr rfl
    · exact absurd hlt (lt_irrefl _)
    · exact absurd hlt (Nat.lt_asymm (hzrest q hrest))

/-- **When nobody is starved.** Every visible candidate is picked within a bounded
number of failing attempts, from every state that can be reached, exactly if no more
than two candidates are visible. -/
theorem noneStarved_iff (hcand : cand.length ≤ wmMaxCandidates) :
    NoneStarved cand present ↔ (seenCandidates cand present).length ≤ 2 := by
  constructor
  · intro h
    by_contra hthree
    exact not_noneStarved_of_three hcand (Nat.lt_of_not_le hthree) h
  · exact noneStarved_of_two hcand

end

/-- Two of three networks in sight take turns. -/
theorem noneStarved_iff_pair :
    NoneStarved [⟨[0x41]⟩, ⟨[0x42]⟩, ⟨[0x43]⟩] [[0x43], [0x41]] :=
  (noneStarved_iff (by decide)).mpr (by decide)

/-- Three networks in sight: the third is tried once and never again. -/
theorem not_noneStarved_three :
    ¬ ∀ (cand : List WmNetwork) (present : List (List UInt8)), cand.length ≤ wmMaxCandidates →
      seenCandidates cand present ≠ [] → NoneStarved cand present := by
  intro h
  exact not_noneStarved_of_three (by decide) (by decide)
    (h [⟨[0x41]⟩, ⟨[0x42]⟩, ⟨[0x43]⟩] [[0x41], [0x42], [0x43]] (by decide) (by decide))

end Meatpi
