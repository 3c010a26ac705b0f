import Mathlib.Tactic.IntervalCases
import Meatpi.Library.WrapClock

/-!
# Which network is tried next (`wifi_manager_select.c`)

The networks on the list are tried in their order. One that failed three times is
passed over while its failures are fresh, and when every visible one is passed
over they take turns. Here are the selection, the attempts of the reconnect task
around it, and what one selection and one attempt do.
-/

namespace Meatpi

open Int List

variable {count p : ℕ} {ok : ℕ → Bool} {i : ℕ}

def wmMaxCandidates : ℕ := 6
def wmAuthFailThreshold : ℕ := 3
def wmFailMemoryMs : UInt32 := 120000
def wmBackoffMaxSkipLoops : ℕ := 5
def wmReconnectPeriodMs : UInt32 := 5000

/-- What the selection reads of a `wm_network_t`. -/
structure WmNetwork where
  ssid : List UInt8

/-- `wm_fail_entry_t`; the count is a byte that saturates. -/
structure WmFailEntry where
  failCount : ℕ
  lastFailMs : UInt32

structure WmSelectState where
  fails : Fin wmMaxCandidates → WmFailEntry
  seqCursor : ℤ
  depCursor : ℤ

def wmSelectInit : WmSelectState := ⟨fun _ => ⟨0, 0⟩, -1, -1⟩

/-! ## The failure memory -/

def WmFailEntry.memoryLive (e : WmFailEntry) (nowMs : UInt32) : Bool :=
  decide (0 < e.failCount) && decide (nowMs - e.lastFailMs < wmFailMemoryMs)

def wmSelectFailCount (st : WmSelectState) (idx : ℕ) (nowMs : UInt32) : ℕ :=
  if h : idx < wmMaxCandidates then
    if (st.fails ⟨idx, h⟩).memoryLive nowMs then (st.fails ⟨idx, h⟩).failCount else 0
  else 0

def wmSelectIsDeprioritised (st : WmSelectState) (idx : ℕ) (nowMs : UInt32) : Bool :=
  decide (wmAuthFailThreshold ≤ wmSelectFailCount st idx nowMs)

/-- The count after one failure more. -/
def WmFailEntry.strike (e : WmFailEntry) (nowMs : UInt32) : WmFailEntry :=
  -- faded: an old streak does not count
  let count := if e.memoryLive nowMs then e.failCount else 0
  ⟨if count < 255 then count + 1 else count, nowMs⟩

/-- The entry of an index, if there is one, replaced. -/
def WmSelectState.setEntry (st : WmSelectState) (idx : ℕ) (f : WmFailEntry → WmFailEntry) :
    WmSelectState :=
  if h : idx < wmMaxCandidates then
    { st with fails := Function.update st.fails ⟨idx, h⟩ (f (st.fails ⟨idx, h⟩)) }
  else st

def wmSelectOnAttemptFail (st : WmSelectState) (idx : ℕ) (nowMs : UInt32) : WmSelectState :=
  st.setEntry idx (·.strike nowMs)

def wmSelectDeprioritise (st : WmSelectState) (idx : ℕ) (nowMs : UInt32) : WmSelectState :=
  st.setEntry idx fun e =>
    ⟨if e.memoryLive nowMs = false ∨ e.failCount < wmAuthFailThreshold then wmAuthFailThreshold
      else e.failCount, nowMs⟩

def wmSelectOnSuccess (st : WmSelectState) (idx : ℕ) : WmSelectState :=
  st.setEntry idx fun _ => ⟨0, 0⟩

/-! ## The selection -/

def ssidPresent (present : List (List UInt8)) (ssid : List UInt8) : Bool :=
  decide (ssid ≠ [] ∧ ssid ∈ present)

/-- Whether the candidate at an index was seen. -/
def seenAt (cand : List WmNetwork) (present : List (List UInt8)) (i : ℕ) : Bool :=
  (cand[i]?).any fun net => ssidPresent present net.ssid

/-- The loop over `dep_cursor`: the cursor, and the index it stopped at. -/
def wmRotate (ok : ℕ → Bool) (count : ℕ) : ℕ → ℤ → ℤ × Option ℕ
  | 0, cursor => (cursor, none)
  | n + 1, cursor =>
    let next := (cursor + 1).tmod count
    if ok next.toNat then (next, some next.toNat) else wmRotate ok count n next

/-- `wm_select_from_scan`; `none` is its −1. -/
def wmSelectFromScan (st : WmSelectState) (cand : List WmNetwork)
    (present : List (List UInt8)) (nowMs : UInt32) : WmSelectState × Option ℕ :=
  let clean := (List.range cand.length).find? fun i =>
    seenAt cand present i && !wmSelectIsDeprioritised st i nowMs
  if clean.isSome then (st, clean)
  else
    -- every visible entry failed lately: they take turns
    let turn := wmRotate (seenAt cand present) cand.length cand.length st.depCursor
    ({ st with depCursor := turn.1 }, turn.2)

def wmSelectSequential (st : WmSelectState) (cand : List WmNetwork) (nowMs : UInt32) :
    WmSelectState × Option ℕ :=
  if cand.length = 0 then (st, none)
  else
    let turn := wmRotate (fun i => !wmSelectIsDeprioritised st i nowMs) cand.length cand.length
      st.seqCursor
    -- when all of them failed, the next one regardless
    let cursor := if turn.2.isSome then turn.1 else (turn.1 + 1).tmod cand.length
    ({ st with seqCursor := cursor }, some cursor.toNat)

def wmBackoffSkipLoops (retryCount : ℤ) : ℕ :=
  if retryCount ≤ 2 then 0
  else
    let shift := if 4 < retryCount - 2 then 4 else retryCount - 2
    let skip := (1 <<< shift.toNat) - 1
    if wmBackoffMaxSkipLoops < skip then wmBackoffMaxSkipLoops else skip

/-! ## The reconnect task -/

/-- What the reconnect task carries from one attempt to the next; `nowMs` is the
time of the next one. -/
structure WmReconnect where
  sel : WmSelectState
  retryCount : ℤ
  nowMs : UInt32

/-- From one attempt to the next: the loops that are skipped, and one. -/
def wmGapMs (retryCount : ℤ) : UInt32 :=
  wmReconnectPeriodMs * UInt32.ofNat (wmBackoffSkipLoops retryCount + 1)

/-- One attempt that fails, with what the scan sees. -/
def WmReconnect.attempt (cand : List WmNetwork) (present : List (List UInt8)) (r : WmReconnect) :
    WmReconnect × Option ℕ :=
  let pick := wmSelectFromScan r.sel cand present r.nowMs
  ({ sel := pick.2.elim pick.1 fun i => wmSelectOnAttemptFail pick.1 i r.nowMs
     retryCount := r.retryCount + 1
     nowMs := r.nowMs + wmGapMs (r.retryCount + 1) }, pick.2)

/-- The states the task can be in: after attempts with whatever the scans saw, after
time passed, after an address came (which forgets the count), after the other
entrances of the selection. -/
inductive WmReconnect.Reachable (cand : List WmNetwork) : WmReconnect → Prop
  | start (nowMs : UInt32) : Reachable cand ⟨wmSelectInit, 0, nowMs⟩
  | attempt {r : WmReconnect} (present : List (List UInt8)) (h : Reachable cand r) :
      Reachable cand (r.attempt cand present).1
  | wait {r : WmReconnect} (nowMs : UInt32) (h : Reachable cand r) :
      Reachable cand { r with nowMs := nowMs }
  | reset {r : WmReconnect} (h : Reachable cand r) : Reachable cand { r with retryCount := 0 }
  | scan {r : WmReconnect} (present : List (List UInt8)) (h : Reachable cand r) :
      Reachable cand { r with sel := (wmSelectFromScan r.sel cand present r.nowMs).1 }
  | blind {r : WmReconnect} (h : Reachable cand r) :
      Reachable cand { r with sel := (wmSelectSequential r.sel cand r.nowMs).1 }
  | fail {r : WmReconnect} (idx : ℕ) (h : Reachable cand r) :
      Reachable cand { r with sel := wmSelectOnAttemptFail r.sel idx r.nowMs }
  | deprioritise {r : WmReconnect} (idx : ℕ) (h : Reachable cand r) :
      Reachable cand { r with sel := wmSelectDeprioritise r.sel idx r.nowMs }
  | success {r : WmReconnect} (idx : ℕ) (h : Reachable cand r) :
      Reachable cand { r with sel := wmSelectOnSuccess r.sel idx }

/-- The indexes of the visible candidates, in their order. -/
def seenCandidates (cand : List WmNetwork) (present : List (List UInt8)) : List ℕ :=
  (List.range cand.length).filter (seenAt cand present)

/-- The pick of the `k`-th attempt from now. -/
def WmReconnect.pickAt (cand : List WmNetwork) (present : List (List UInt8)) (r : WmReconnect)
    (k : ℕ) : Option ℕ :=
  (((fun r => (WmReconnect.attempt cand present r).1)^[k] r).attempt cand present).2

/-- Every visible candidate is picked within a bounded number of attempts, from
every state that can be reached. -/
def NoneStarved (cand : List WmNetwork) (present : List (List UInt8)) : Prop :=
  ∃ n, ∀ r, WmReconnect.Reachable cand r → ∀ i ∈ seenCandidates cand present,
    ∃ k < n, r.pickAt cand present k = some i

section

variable {cand : List WmNetwork} {present : List (List UInt8)}

theorem mem_seenCandidates :
    i ∈ seenCandidates cand present ↔ i < cand.length ∧ seenAt cand present i = true := by
  rw [seenCandidates, mem_filter, mem_range]

/-! ## The turns -/

theorem wmRotate_eq {ok : ℕ → Bool} {count : ℕ} (hcount : 0 < count) (n : ℕ) {cursor : ℤ}
    (hcursor : -1 ≤ cursor) :
    (∀ j : ℕ, 1 ≤ j → j ≤ n → ok ((cursor + j) % count).toNat = false) ∨
      ∃ j : ℕ, 1 ≤ j ∧ j ≤ n ∧ ok ((cursor + j) % count).toNat = true ∧
        (∀ j' : ℕ, 1 ≤ j' → j' < j → ok ((cursor + j') % count).toNat = false) ∧
        wmRotate ok count n cursor = ((cursor + j) % count, some ((cursor + j) % count).toNat) := by
  induction n generalizing cursor with
  | zero =>
    refine .inl ?_
    intro j h1 h0
    omega
  | succ n ih =>
    have hnext : (cursor + 1).tmod count = (cursor + 1) % count := tmod_eq_emod_of_nonneg (by omega)
    have hrange := emod_nonneg (cursor + 1) (by omega : (count : ℤ) ≠ 0)
    have hadd : ∀ j : ℕ, ((cursor + 1) % count + j) % count = (cursor + (j + 1 : ℕ)) % count := by
      intro j
      rw [emod_add_emod]
      congr 1
      omega
    simp only [wmRotate, hnext]
    by_cases hok : ok ((cursor + 1) % count).toNat = true
    · rw [if_pos hok]
      exact .inr ⟨1, le_refl 1, by omega, by simpa using hok, by omega, by simp⟩
    · rw [if_neg hok]
      -- the first index is not fit, so what is said of the others is said one later
      have hlater : ∀ m : ℕ,
          (∀ j : ℕ, 1 ≤ j → j ≤ m → ok (((cursor + 1) % count + j) % count).toNat = false) →
          ∀ j : ℕ, 1 ≤ j → j ≤ m + 1 → ok ((cursor + j) % count).toNat = false := by
        intro m hall j h1 hm
        rcases Nat.lt_or_eq_of_le h1 with h1 | rfl
        · have h := hall (j - 1) (by omega) (by omega)
          rwa [hadd, Nat.sub_add_cancel (by omega)] at h
        · simpa using hok
      have hnonneg : -1 ≤ (cursor + 1) % count := by omega
      rcases ih hnonneg with hall | ⟨j, h1, hn, hj, hmin, heq⟩
      · exact .inl (hlater n hall)
      · rw [hadd] at hj heq
        refine .inr ⟨j + 1, by omega, by omega, hj, ?_, heq⟩
        intro j' h1' hlt'
        exact hlater (j - 1) (fun k hk hkj => hmin k hk (by omega)) j' h1' (by omega)

theorem wmRotate_turn (hi : i < count) (hok : ok i = true) {cursor : ℤ} (hcursor : -1 ≤ cursor)
    (hlt : cursor < count) :
    ∃ p : ℕ, wmRotate ok count count cursor = ((p : ℤ), some p) ∧ p < count ∧ ok p = true ∧
      (cursor ≠ i → cursor ≠ p) := by
  -- the distance to `i`: at most one turn, and less if `i` is not where the cursor stands
  obtain ⟨d, hd1, hdn, hdi, hdlt⟩ : ∃ d : ℕ, 1 ≤ d ∧ d ≤ count ∧ (cursor + d) % count = (i : ℤ) ∧
      (0 ≤ cursor → cursor ≠ i → d < count) := by
    have hmod : (i : ℤ) % count = i := emod_eq_of_lt (by omega) (by omega)
    rcases lt_or_ge cursor (i : ℤ) with hbefore | hafter
    · refine ⟨(i - cursor).toNat, by omega, by omega, ?_, by omega⟩
      rw [show cursor + ((i - cursor).toNat : ℕ) = (i : ℤ) by omega, hmod]
    · refine ⟨(count + i - cursor).toNat, by omega, by omega, ?_, by omega⟩
      rw [show cursor + ((count + i - cursor).toNat : ℕ) = (i : ℤ) + count by omega,
        add_emod_right, hmod]
  have hokd : ok ((cursor + d) % count).toNat = true := by
    rw [hdi]
    exact hok
  rcases @wmRotate_eq ok count (by omega) count cursor hcursor with
    hall | ⟨j, h1, hn, hj, hmin, heq⟩
  · rw [hall d hd1 hdn] at hokd
    exact absurd hokd Bool.false_ne_true
  · have hrange := emod_nonneg (cursor + j) (by omega : (count : ℤ) ≠ 0)
    have hbound := emod_lt_of_pos (cursor + j) (by omega : (0 : ℤ) < count)
    refine ⟨((cursor + j) % count).toNat, ?_, by omega, hj, ?_⟩
    · rw [heq, toNat_of_nonneg hrange]
    · intro hne heqc
      have hjd : j ≤ d := by
        by_contra hdj
        rw [hmin d hd1 (by omega)] at hokd
        exact absurd hokd Bool.false_ne_true
      -- less than a turn away is another index
      rcases lt_or_ge (cursor + j) (count : ℤ) with hshort | hround
      · rw [emod_eq_of_lt (by omega) hshort] at heqc
        omega
      · rw [← sub_emod_right, emod_eq_of_lt (by omega) (by omega)] at heqc
        omega

theorem wmRotate_bounds (hcount : 0 < count) (n : ℕ) {cursor : ℤ} (hcursor : -1 ≤ cursor)
    (hlt : cursor < count) :
    -1 ≤ (wmRotate ok count n cursor).1 ∧ (wmRotate ok count n cursor).1 < count := by
  induction n generalizing cursor with
  | zero => exact ⟨hcursor, hlt⟩
  | succ n ih =>
    have hnext : (cursor + 1).tmod count = (cursor + 1) % count := tmod_eq_emod_of_nonneg (by omega)
    have hrange := emod_nonneg (cursor + 1) (by omega : (count : ℤ) ≠ 0)
    have hbound := emod_lt_of_pos (cursor + 1) (by omega : (0 : ℤ) < count)
    simp only [wmRotate, hnext]
    split_ifs
    · exact ⟨by omega, hbound⟩
    · exact ih (by omega) hbound

/-! ## One selection -/

variable {st : WmSelectState} {nowMs : UInt32}

theorem wmSelectFromScan_clean {p : ℕ} (hp : p ∈ seenCandidates cand present)
    (hclean : wmSelectIsDeprioritised st p nowMs = false)
    (hfirst : ∀ q ∈ seenCandidates cand present, q < p →
      wmSelectIsDeprioritised st q nowMs = true) :
    wmSelectFromScan st cand present nowMs = (st, some p) := by
  rw [mem_seenCandidates] at hp
  have hfind : ((List.range cand.length).find? fun i =>
      seenAt cand present i && !wmSelectIsDeprioritised st i nowMs) = some p := by
    rw [List.find?_range_eq_some]
    refine ⟨by simp [hp.2, hclean], mem_range.2 hp.1, ?_⟩
    intro q hq
    by_cases hseen : seenAt cand present q = true
    · simp [hfirst q (mem_seenCandidates.2 ⟨hq.trans hp.1, hseen⟩) hq]
    · simp [hseen]
  simp [wmSelectFromScan, hfind]

theorem wmSelectFromScan_turn
    (hall : ∀ q ∈ seenCandidates cand present, wmSelectIsDeprioritised st q nowMs = true) :
    wmSelectFromScan st cand present nowMs = ({ st with depCursor :=
          (wmRotate (seenAt cand present) cand.length cand.length st.depCursor).1 },
        (wmRotate (seenAt cand present) cand.length cand.length st.depCursor).2) := by
  have hfind : ((List.range cand.length).find? fun i =>
      seenAt cand present i && !wmSelectIsDeprioritised st i nowMs) = none := by
    rw [List.find?_eq_none]
    intro q hq
    by_cases hseen : seenAt cand present q = true
    · simp [hall q (mem_seenCandidates.2 ⟨mem_range.1 hq, hseen⟩)]
    · simp [hseen]
  simp [wmSelectFromScan, hfind]

/-- **One selection**: something visible is picked; and if it is an entry that failed
lately then they all did, and the cursor moved on to it. -/
theorem wmSelectFromScan_spec {i : ℕ} (hi : i ∈ seenCandidates cand present)
    (hcursor : -1 ≤ st.depCursor) (hlt : st.depCursor < cand.length) :
    ∃ p ∈ seenCandidates cand present, (wmSelectFromScan st cand present nowMs).2 = some p ∧
      (wmSelectFromScan st cand present nowMs).1.fails = st.fails ∧
      (wmSelectIsDeprioritised st p nowMs = true →
        (wmSelectFromScan st cand present nowMs).1.depCursor = p ∧
          (st.depCursor ≠ i → st.depCursor ≠ p)) := by
  by_cases hall : ∀ q ∈ seenCandidates cand present, wmSelectIsDeprioritised st q nowMs = true
  · obtain ⟨hicount, hseen⟩ := mem_seenCandidates.1 hi
    obtain ⟨p, heq, hp, hok, hne⟩ := wmRotate_turn hicount hseen hcursor hlt
    rw [wmSelectFromScan_turn hall, heq]
    exact ⟨p, mem_seenCandidates.2 ⟨hp, hok⟩, rfl, rfl, fun _ => ⟨rfl, hne⟩⟩
  · -- the first clean one
    have hex : ∃ q, q ∈ seenCandidates cand present ∧
        wmSelectIsDeprioritised st q nowMs = false := by
      push Not at hall
      obtain ⟨q, hq, hclean⟩ := hall
      exact ⟨q, hq, Bool.eq_false_iff.2 hclean⟩
    classical
    obtain ⟨hp, hclean⟩ := Nat.find_spec hex
    rw [wmSelectFromScan_clean hp hclean]
    · refine ⟨Nat.find hex, hp, rfl, rfl, ?_⟩
      intro hdep
      rw [hclean] at hdep
      exact absurd hdep Bool.false_ne_true
    · intro q hq hlt
      by_contra hdep
      exact Nat.find_min hex hlt ⟨hq, Bool.eq_false_iff.2 hdep⟩

/-! ## The entries of the memory -/

@[simp] theorem fails_setEntry (st : WmSelectState) (idx : ℕ) (f : WmFailEntry → WmFailEntry)
    (j : Fin wmMaxCandidates) :
    (st.setEntry idx f).fails j = if idx = j then f (st.fails j) else st.fails j := by
  unfold WmSelectState.setEntry
  split_ifs with h hj hj
  · subst hj
    simp
  · exact Function.update_of_ne (fun heq => hj (by rw [heq])) _ _
  · exact absurd (hj ▸ j.isLt) h
  · rfl

@[simp] theorem depCursor_setEntry (st : WmSelectState) (idx : ℕ)
    (f : WmFailEntry → WmFailEntry) : (st.setEntry idx f).depCursor = st.depCursor := by
  unfold WmSelectState.setEntry
  split_ifs <;> rfl

/-- So many failures, and fresh. -/
def WmFailEntry.Fresh (e : WmFailEntry) (n : ℕ) (nowMs : UInt32) : Prop :=
  n ≤ e.failCount ∧ e.memoryLive nowMs = true

theorem wmSelectIsDeprioritised_eq (hp : p < wmMaxCandidates) :
    wmSelectIsDeprioritised st p nowMs =
      (decide (wmAuthFailThreshold ≤ (st.fails ⟨p, hp⟩).failCount) &&
        (st.fails ⟨p, hp⟩).memoryLive nowMs) := by
  unfold wmSelectIsDeprioritised wmSelectFailCount
  rw [dif_pos hp]
  cases (st.fails ⟨p, hp⟩).memoryLive nowMs with
  | false => rw [Bool.and_false]; rfl
  | true => rw [if_pos rfl, Bool.and_true]

theorem wmBackoffSkipLoops_le (retryCount : ℤ) : wmBackoffSkipLoops retryCount ≤ 5 := by
  unfold wmBackoffSkipLoops
  dsimp only
  split_ifs
  · exact Nat.zero_le 5
  · exact le_refl 5
  · exact Nat.not_lt.1 ‹_›
  · exact le_refl 5
  · exact Nat.not_lt.1 ‹_›

theorem wmGapMs_lt (retryCount : ℤ) : wmGapMs retryCount < wmFailMemoryMs := by
  have h := wmBackoffSkipLoops_le retryCount
  unfold wmGapMs
  interval_cases wmBackoffSkipLoops retryCount <;> decide

theorem fresh_strike {e : WmFailEntry} {n : ℕ} (hn : n < 255) (h : n = 0 ∨ e.Fresh n nowMs)
    (retryCount : ℤ) : (e.strike nowMs).Fresh (n + 1) (nowMs + wmGapMs retryCount) := by
  have hage : nowMs + wmGapMs retryCount - nowMs < wmFailMemoryMs := by
    rw [add_sub_cancel_left]
    exact wmGapMs_lt retryCount
  have hcount : n + 1 ≤ (e.strike nowMs).failCount := by
    rcases h with rfl | ⟨hle, hlive⟩
    · simp only [WmFailEntry.strike]
      split_ifs <;> omega
    · simp only [WmFailEntry.strike, hlive, if_true]
      split_ifs <;> omega
  refine ⟨hcount, ?_⟩
  rw [WmFailEntry.memoryLive, Bool.and_eq_true, decide_eq_true_eq, decide_eq_true_eq]
  exact ⟨by omega, hage⟩

/-! ## Along the attempts -/

/-- The state before the `k`-th attempt from now. -/
def WmReconnect.after (cand : List WmNetwork) (present : List (List UInt8)) (r : WmReconnect)
    (k : ℕ) : WmReconnect :=
  (fun r => (WmReconnect.attempt cand present r).1)^[k] r

theorem WmReconnect.after_succ (r : WmReconnect) (k : ℕ) :
    r.after cand present (k + 1) = ((r.after cand present k).attempt cand present).1 :=
  Function.iterate_succ_apply' _ k r

theorem WmReconnect.pickAt_eq (r : WmReconnect) (k : ℕ) :
    r.pickAt cand present k = ((r.after cand present k).attempt cand present).2 := rfl

theorem WmReconnect.Reachable.cursor {r : WmReconnect} (h : Reachable cand r) :
    -1 ≤ r.sel.depCursor ∧ r.sel.depCursor < cand.length := by
  have hscan : ∀ (st : WmSelectState) present nowMs,
      (-1 ≤ st.depCursor ∧ st.depCursor < cand.length) →
      -1 ≤ (wmSelectFromScan st cand present nowMs).1.depCursor ∧
        (wmSelectFromScan st cand present nowMs).1.depCursor < cand.length := by
    intro st present nowMs hst
    unfold wmSelectFromScan
    dsimp only
    split_ifs
    · exact hst
    · rcases Nat.eq_zero_or_pos cand.length with hzero | hpos
      · rw [hzero] at hst ⊢
        exact hst
      · exact wmRotate_bounds hpos _ hst.1 hst.2
  induction h with
  | start nowMs => exact ⟨le_refl _, by simp [wmSelectInit]; omega⟩
  | @attempt r present _ ih =>
    have hsel := hscan r.sel present r.nowMs ih
    cases hpick : (wmSelectFromScan r.sel cand present r.nowMs).2 with
    | none =>
      simp only [WmReconnect.attempt, hpick, Option.elim]
      exact hsel
    | some p =>
      simp only [WmReconnect.attempt, hpick, Option.elim, wmSelectOnAttemptFail, depCursor_setEntry]
      exact hsel
  | wait _ _ ih => exact ih
  | reset _ ih => exact ih
  | scan present _ ih => exact hscan _ _ _ ih
  | blind _ ih =>
    unfold wmSelectSequential
    split_ifs <;> exact ih
  | fail idx _ ih => simpa [wmSelectOnAttemptFail] using ih
  | deprioritise idx _ ih => simpa [wmSelectDeprioritise] using ih
  | success idx _ ih => simpa [wmSelectOnSuccess] using ih

theorem WmReconnect.Reachable.after {r : WmReconnect} (h : Reachable cand r) (k : ℕ) :
    Reachable cand (r.after cand present k) := by
  induction k with
  | zero => exact h
  | succ k ih =>
    rw [WmReconnect.after_succ]
    exact ih.attempt present

theorem WmReconnect.fails_attempt {r : WmReconnect} (hpick : (r.attempt cand present).2 = some p)
    (j : Fin wmMaxCandidates) :
    (r.attempt cand present).1.sel.fails j =
      if p = j then (r.sel.fails j).strike r.nowMs else r.sel.fails j := by
  have hscan : (wmSelectFromScan r.sel cand present r.nowMs).2 = some p := hpick
  have hfails : (wmSelectFromScan r.sel cand present r.nowMs).1.fails = r.sel.fails := by
    unfold wmSelectFromScan
    dsimp only
    split_ifs <;> rfl
  simp only [WmReconnect.attempt, hscan, Option.elim, wmSelectOnAttemptFail, fails_setEntry, hfails]

/-- **One attempt**: something visible is picked; and if it is an entry that failed
lately, the cursor stands on it, and did not stand on it before unless it stood on
`i`. -/
theorem WmReconnect.attempt_spec {r : WmReconnect} (hr : Reachable cand r)
    (hi : i ∈ seenCandidates cand present) :
    ∃ p ∈ seenCandidates cand present, (r.attempt cand present).2 = some p ∧
      (wmSelectIsDeprioritised r.sel p r.nowMs = true →
        (r.attempt cand present).1.sel.depCursor = p ∧
          (r.sel.depCursor ≠ i → r.sel.depCursor ≠ p)) := by
  obtain ⟨p, hp, hscan, -, hdep⟩ := @wmSelectFromScan_spec cand present r.sel r.nowMs i hi
    hr.cursor.1 hr.cursor.2
  refine ⟨p, hp, hscan, ?_⟩
  intro hpdep
  simp only [WmReconnect.attempt, hscan, Option.elim, wmSelectOnAttemptFail, depCursor_setEntry]
  exact hdep hpdep

end

end Meatpi
