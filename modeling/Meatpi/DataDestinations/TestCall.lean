import Meatpi.DataDestinations.Poster

/-!
# Testing one destination (`data_destinations.c`)

A call that tests a destination posts the destination's index, wakes the poster and
waits for a completion; the poster delivers, stores the result, clears the index and
gives the completion. Callers and poster share the index, the result and the
completion, and a caller that waited long enough gives up while the poster goes on.
-/

namespace Meatpi

open List Nat Option

variable {ready : Bool} {cfg : DdConfig} {name : String}

/-! ## The callers and the poster -/

/-- What `data_destinations_test` returns but for `ESP_OK`. -/
inductive DdTestErr where
  | invalidState
  | notFound
  | timeout

/-- A call on its way: the name it was given, the index found for it, and when it began. -/
structure DdRequest where
  name : String
  index : ℕ
  since : ℕ

/-- Where a call of `data_destinations_test` is. -/
inductive DdCaller where
  | idle
  /-- `dd_config_find` found the name. -/
  | found (q : DdRequest)
  /-- No test was posted. -/
  | checked (q : DdRequest)
  /-- A stale completion was taken. -/
  | drained (q : DdRequest)
  /-- The test is posted and the poster notified. -/
  | waiting (q : DdRequest)
  /-- A completion was taken. -/
  | completed (q : DdRequest)
  /-- No completion came in `DD_TEST_WAIT_MS`. -/
  | timedOut (q : DdRequest)
  | returned (name : String) (since : ℕ) (result : Except DdTestErr DdResult)

/-- Where `poster_task` is with a test. -/
inductive DdTestPoster where
  | idle
  /-- It read `s_test_idx`. -/
  | read (i : ℕ)
  /-- `take_dest` copied the destination, and `run_one` is on its way. -/
  | delivering (d : DdDest) (started : ℕ)
  | storing (r : DdResult)
  | clearing
  | giving

/-- A delivery for a test. -/
structure DdDelivery where
  dest : DdDest
  started : ℕ
  result : DdResult

/-- What callers and poster share and where they are; beside it the time, the deliveries,
whose test is posted and not read yet, and whose tests were erased or overwritten in
that state by someone else. -/
structure DdTestWorld (ι : Type) where
  testIdx : Option ℕ
  testResult : DdResult
  testDone : Bool
  poster : DdTestPoster
  caller : ι → DdCaller
  time : ℕ
  deliveries : List DdDelivery
  pending : Option ι
  dropped : List ι

/-- As `data_destinations_init` leaves it. -/
def DdTestWorld.init {ι : Type} : DdTestWorld ι :=
  ⟨none, ⟨false, 0, ""⟩, false, .idle, fun _ => .idle, 0, [], none, []⟩

/-- `dd_config_find`: the last destination of that name -/
def ddConfigFind (cfg : DdConfig) (name : String) : Option ℕ :=
  cfg.dest.zipIdx.foldl (fun idx p => if p.1.name = name then some p.2 else idx) none

inductive DdTestAct (ι : Type) where
  /-- A caller begins. -/
  | call (c : ι) (name : String)
  /-- It goes on. -/
  | step (c : ι)
  /-- Its wait is over. -/
  | timeout (c : ι)
  /-- The poster goes on; `r` is the result if a delivery ends. -/
  | poster (r : DdResult)

variable {ι : Type} [DecidableEq ι]

/-- A caller is at another place. -/
def DdTestWorld.goes (w : DdTestWorld ι) (c : ι) (x : DdCaller) : DdTestWorld ι :=
  { w with caller := Function.update w.caller c x, time := w.time + 1 }

/-- The beginning of `data_destinations_test`. -/
def ddTestCall (cfg : DdConfig) (ready : Bool) (w : DdTestWorld ι) (c : ι) (name : String) :
    Option (DdTestWorld ι) :=
  match w.caller c with
  | .idle | .returned _ _ _ =>
    some <| w.goes c <|
      if ! ready then .returned name w.time (.error .invalidState)
      else
        match ddConfigFind cfg name with
        | none => .returned name w.time (.error .notFound)
        | some i => .found ⟨name, i, w.time⟩
  | _ => none

/-- The next step of `data_destinations_test`, where there is one. -/
def ddTestNext (w : DdTestWorld ι) (c : ι) : Option (DdTestWorld ι) :=
  match w.caller c with
  | .found q =>
    -- one test at a time
    some (w.goes c (if w.testIdx.isSome then .returned q.name q.since (.error .invalidState)
      else .checked q))
  | .checked q => some ({ w with testDone := false }.goes c (.drained q))
  | .drained q =>
    some ({ w with
      testIdx := some q.index
      pending := some c
      dropped := w.dropped ++ w.pending.toList }.goes c (.waiting q))
  | .waiting q =>
    if w.testDone then some ({ w with testDone := false }.goes c (.completed q)) else none
  | .completed q => some (w.goes c (.returned q.name q.since (.ok w.testResult)))
  | .timedOut q =>
    some ({ w with
      testIdx := none
      pending := none
      dropped := w.dropped ++ (w.pending.toList.filter (· ≠ c)) }.goes c
        (.returned q.name q.since (.error .timeout)))
  | _ => none

/-- A wait that is over. -/
def ddTestTimeout (w : DdTestWorld ι) (c : ι) : Option (DdTestWorld ι) :=
  match w.caller c with
  | .waiting q => if w.testDone then none else some (w.goes c (.timedOut q))
  | _ => none

/-- The next step of `poster_task` as far as tests go. -/
def ddTestPost (cfg : DdConfig) (w : DdTestWorld ι) (r : DdResult) : DdTestWorld ι :=
  let w := { w with time := w.time + 1 }
  match w.poster with
  | .idle =>
    match w.testIdx with
    | none => w
    | some i => { w with poster := .read i, pending := none }
  | .read i =>
    match cfg.dest[i]? with
    | some d => { w with poster := .delivering d w.time }
    | none => { w with poster := .storing ⟨false, 0, "unknown destination"⟩ }
  | .delivering d started =>
    { w with poster := .storing r, deliveries := w.deliveries ++ [⟨d, started, r⟩] }
  | .storing r => { w with poster := .clearing, testResult := r }
  | .clearing =>
    { w with
      poster := .giving
      testIdx := none
      pending := none
      dropped := w.dropped ++ w.pending.toList }
  | .giving => { w with poster := .idle, testDone := true }

/-- A step, where it can be taken. -/
def ddTestStep (cfg : DdConfig) (ready : Bool) (w : DdTestWorld ι) :
    DdTestAct ι → Option (DdTestWorld ι)
  | .call c name => ddTestCall cfg ready w c name
  | .step c => ddTestNext w c
  | .timeout c => ddTestTimeout w c
  | .poster r => some (ddTestPost cfg w r)

/-! ## What a test is to give -/

/-- A delivery to the destination of that name gave the result, and began after that time. -/
def DdTestWorld.Answered (w : DdTestWorld ι) (name : String) (since : ℕ) (r : DdResult) : Prop :=
  ∃ e ∈ w.deliveries, e.dest.name = name ∧ since < e.started ∧ e.result = r

/-- **A test answers for the destination asked**, and none that is posted is dropped but
by its own caller. -/
structure DdTestGood (w : DdTestWorld ι) : Prop where
  answered : ∀ c name since r, w.caller c = .returned name since (.ok r) →
    w.Answered name since r
  kept : w.dropped = []

/-- The request of a call between its post and its return. -/
def DdCaller.posted : DdCaller → Option DdRequest
  | .waiting q | .completed q | .timedOut q => some q
  | _ => none

/-- The request of a call that has not returned. -/
def DdCaller.request : DdCaller → Option DdRequest
  | .found q | .checked q | .drained q | .waiting q | .completed q | .timedOut q => some q
  | _ => none

theorem DdCaller.request_of_posted {x : DdCaller} {q : DdRequest} (h : x.posted = some q) :
    x.request = some q := by
  cases x with
  | waiting => exact h
  | completed => exact h
  | timedOut => exact h
  | _ => cases h

/-- A call posts its test when the poster has none in its hands, no completion is left, and
no other call is between its post and its return. -/
def DdTestCalm (w : DdTestWorld ι) : DdTestAct ι → Prop
  | .step c => ∀ q, w.caller c = .drained q →
    w.poster = .idle ∧ w.testDone = false ∧ ∀ c', (w.caller c').posted = none
  | _ => True

/-! ## The invariant of calm runs -/

/-- What is known of a posted request at a place of the poster. -/
def DdTestWorld.Owed (w : DdTestWorld ι) : DdTestPoster → DdRequest → Prop
  | .idle, _ => True
  | .read i, q => q.index = i
  | .delivering d started, q => d.name = q.name ∧ q.since < started
  | .storing r, q => w.Answered q.name q.since r
  | .clearing, q => w.Answered q.name q.since w.testResult
  | .giving, q => w.Answered q.name q.since w.testResult

/-- The request of a call is for a destination of its name, and was made before now. -/
def DdTestWorld.Named (cfg : DdConfig) (w : DdTestWorld ι) (x : DdCaller) : Prop :=
  ∀ q, x.request = some q →
    (∃ d, cfg.dest[q.index]? = some d ∧ d.name = q.name) ∧ q.since < w.time

/-- What calm runs keep. -/
structure DdTestInv (cfg : DdConfig) (w : DdTestWorld ι) : Prop where
  good : DdTestGood w
  /-- One call is between its post and its return. -/
  one : ∀ c c' q q', (w.caller c).posted = some q → (w.caller c').posted = some q' → c = c'
  named : ∀ c, w.Named cfg (w.caller c)
  owed : ∀ c q, (w.caller c).posted = some q → w.Owed w.poster q
  /-- What the poster has in its hands is not posted any more. -/
  read : w.poster ≠ .idle → w.pending = none
  /-- No completion for a test that is on its way. -/
  early : w.poster ≠ .idle ∨ w.pending ≠ none →
    w.testDone = false ∧ ∀ c q, w.caller c ≠ .completed q
  posted : ∀ c, w.pending = some c → ∃ q, (w.caller c).posted = some q ∧ w.testIdx = some q.index
  erased : w.pending = none → w.poster = .idle ∨ w.poster = .giving → w.testIdx = none
  /-- A completion is for the result stored. -/
  done : ∀ c q, (w.caller c).posted = some q → w.testDone = true ∨ w.caller c = .completed q →
    w.Answered q.name q.since w.testResult

theorem ddConfigFind_name {i : ℕ} (h : ddConfigFind cfg name = some i) :
    ∃ d, cfg.dest[i]? = some d ∧ d.name = name := by
  -- over the table from its end: the last match counts
  have hgen : ∀ (l : List (DdDest × ℕ)) (acc : Option ℕ), (∀ p ∈ l, cfg.dest[p.2]? = some p.1) →
      (∀ i, acc = some i → ∃ d, cfg.dest[i]? = some d ∧ d.name = name) →
      ∀ i, l.foldl (fun idx p => if p.1.name = name then some p.2 else idx) acc = some i →
        ∃ d, cfg.dest[i]? = some d ∧ d.name = name := by
    intro l
    induction l with
    | nil => intro acc _ hacc i hi; exact hacc i hi
    | cons p l ih =>
      intro acc hl hacc i hi
      refine ih _ (fun p' hp' => hl p' (mem_cons_of_mem _ hp')) ?_ i hi
      intro j hj
      by_cases hname : p.1.name = name
      · simp only [if_pos hname, some.injEq] at hj
        subst hj
        exact ⟨p.1, hl p mem_cons_self, hname⟩
      · simp only [if_neg hname] at hj
        exact hacc j hj
  refine hgen cfg.dest.zipIdx none ?_ (by simp) i h
  intro p hp
  exact List.mk_mem_zipIdx_iff_getElem?.1 hp

/-! ### A caller goes on -/

@[simp] theorem DdTestWorld.goes_self (w : DdTestWorld ι) (c : ι) (x : DdCaller) :
    (w.goes c x).caller c = x := Function.update_self ..

theorem DdTestWorld.goes_ne (w : DdTestWorld ι) {c c' : ι} (x : DdCaller) (h : c' ≠ c) :
    (w.goes c x).caller c' = w.caller c' := Function.update_of_ne h ..

theorem DdTestWorld.goes_all {w : DdTestWorld ι} {c : ι} {x : DdCaller} {P : ι → DdCaller → Prop}
    (hx : P c x) (hw : ∀ c', c' ≠ c → P c' (w.caller c')) :
    ∀ c', P c' ((w.goes c x).caller c') := by
  intro c'
  by_cases hc : c' = c
  · subst hc
    rw [w.goes_self]
    exact hx
  · rw [w.goes_ne x hc]
    exact hw c' hc

theorem DdTestWorld.answered_goes {w : DdTestWorld ι} {c : ι} {x : DdCaller}
    (hx : ∀ name since r, x = .returned name since (.ok r) → w.Answered name since r)
    (hw : ∀ c name since r, w.caller c = .returned name since (.ok r) → w.Answered name since r) :
    ∀ c' name since r, (w.goes c x).caller c' = .returned name since (.ok r) →
      (w.goes c x).Answered name since r :=
  DdTestWorld.goes_all (P := fun _ y => ∀ name since r, y = .returned name since (.ok r) →
    w.Answered name since r) hx fun c' _ => hw c'

theorem DdTestWorld.named_goes {w : DdTestWorld ι} {c : ι} {x : DdCaller}
    (hx : (w.goes c x).Named cfg x) (hw : ∀ c, w.Named cfg (w.caller c)) :
    ∀ c', (w.goes c x).Named cfg ((w.goes c x).caller c') := by
  refine DdTestWorld.goes_all (P := fun _ y => (w.goes c x).Named cfg y) hx ?_
  intro c' _ q hq
  exact ⟨(hw c' q hq).1, lt_succ_of_lt (hw c' q hq).2⟩

theorem DdTestInv.moves {w : DdTestWorld ι} (h : DdTestInv cfg w) {c : ι}
    {x : DdCaller} {done : Bool} (hdone : done = true → w.testDone = true)
    (hposted : x.posted = (w.caller c).posted) (hcomp : ∀ q, x ≠ .completed q)
    (hnamed : ∀ q, x.request = some q →
      (∃ d, cfg.dest[q.index]? = some d ∧ d.name = q.name) ∧ q.since ≤ w.time)
    (hret : ∀ name since r, x ≠ .returned name since (.ok r)) :
    DdTestInv cfg ({ w with testDone := done }.goes c x) := by
  have hsame : ∀ c', (({ w with testDone := done }.goes c x).caller c').posted =
      (w.caller c').posted := by
    refine DdTestWorld.goes_all (P := fun c' y => y.posted = (w.caller c').posted) hposted ?_
    intro c' _
    rfl
  have htaken : ∀ c' q, ({ w with testDone := done }.goes c x).caller c' = .completed q →
      w.caller c' = .completed q := by
    refine DdTestWorld.goes_all
      (P := fun c' y => ∀ q, y = .completed q → w.caller c' = .completed q) ?_ ?_
    · intro q hq
      exact absurd hq (hcomp q)
    · intro c' _ q hq
      exact hq
  refine ⟨⟨?_, h.good.kept⟩, ?_, ?_, ?_, h.read, ?_, ?_, h.erased, ?_⟩
  · refine DdTestWorld.answered_goes ?_ h.good.answered
    intro name since r hr
    exact absurd hr (hret name since r)
  · intro c₁ c₂ q₁ q₂ h₁ h₂
    rw [hsame] at h₁ h₂
    exact h.one c₁ c₂ q₁ q₂ h₁ h₂
  · refine DdTestWorld.named_goes ?_ h.named
    intro q hq
    exact ⟨(hnamed q hq).1, lt_succ_of_le (hnamed q hq).2⟩
  · intro c' q hq
    rw [hsame] at hq
    exact h.owed c' q hq
  · intro hbusy
    obtain ⟨hoff, hnone⟩ := h.early hbusy
    refine ⟨?_, fun c' q hq => hnone c' q (htaken c' q hq)⟩
    by_contra hon
    rw [hdone (Bool.eq_true_of_not_eq_false hon)] at hoff
    exact absurd hoff (by decide)
  · intro c' hc'
    rw [hsame]
    exact h.posted c' hc'
  · intro c' q hq hend
    rw [hsame] at hq
    exact h.done c' q hq (hend.imp hdone (htaken c' q))

theorem DdTestInv.leaves {w : DdTestWorld ι} (h : DdTestInv cfg w) {c : ι} {q : DdRequest}
    (hc : (w.caller c).posted = some q) {idx : Option ℕ} {x : Except DdTestErr DdResult}
    (hidx : idx = none ∨ idx = w.testIdx ∧ w.pending = none)
    (hret : ∀ r, x = .ok r → w.Answered q.name q.since r) :
    DdTestInv cfg ({ w with testIdx := idx, pending := none }.goes c
      (.returned q.name q.since x)) := by
  have hnone : ∀ c', (({ w with testIdx := idx, pending := none }.goes c
      (.returned q.name q.since x)).caller c').posted = none := by
    refine DdTestWorld.goes_all (P := fun _ y => y.posted = none) rfl ?_
    intro c' hne
    rw [eq_none_iff_forall_ne_some]
    intro q' hq'
    exact hne (h.one c' c q' q hq' hc)
  have hnot : ∀ c' q', (({ w with testIdx := idx, pending := none }.goes c
      (.returned q.name q.since x)).caller c').posted ≠ some q' := by
    intro c' q'
    rw [hnone]
    exact (some_ne_none q').symm
  refine ⟨⟨?_, h.good.kept⟩, ?_, ?_, ?_, fun _ => rfl, ?_, ?_, ?_, ?_⟩
  · refine DdTestWorld.answered_goes ?_ h.good.answered
    intro name since r hr
    obtain ⟨rfl, rfl, hx⟩ := DdCaller.returned.inj hr
    exact hret r hx
  · intro c₁ _ q₁ _ h₁
    exact absurd h₁ (hnot c₁ q₁)
  · refine DdTestWorld.named_goes ?_ h.named
    intro q' hq'
    cases hq'
  · intro c' q' hq'
    exact absurd hq' (hnot c' q')
  · intro hbusy
    have hposter := hbusy.resolve_right (fun hp => hp rfl)
    refine ⟨(h.early (.inl hposter)).1, ?_⟩
    intro c' q' hq'
    refine hnot c' q' ?_
    rw [hq']
    rfl
  · intro c' hc'
    cases hc'
  · intro _ hplace
    rcases hidx with rfl | ⟨rfl, hpending⟩
    · rfl
    · exact h.erased hpending hplace
  · intro c' q' hq'
    exact absurd hq' (hnot c' q')

theorem DdTestInv.takes {cfg : DdConfig} {w : DdTestWorld ι} (h : DdTestInv cfg w) {c : ι}
    {q : DdRequest} (hc : w.caller c = .waiting q) (hon : w.testDone = true) :
    DdTestInv cfg ({ w with testDone := false }.goes c (.completed q)) := by
  have hposted : (w.caller c).posted = some q := by
    rw [hc]
    rfl
  have hsame : ∀ c', (({ w with testDone := false }.goes c (.completed q)).caller c').posted =
      (w.caller c').posted := by
    refine DdTestWorld.goes_all (P := fun c' y => y.posted = (w.caller c').posted) hposted.symm ?_
    intro c' _
    rfl
  -- a completion is there: the poster is at rest, and no test is posted
  have hfree : w.poster = .idle ∧ w.pending = none := by
    by_contra hbusy
    rw [not_and_or] at hbusy
    rw [(h.early hbusy).1] at hon
    exact absurd hon (by decide)
  refine ⟨⟨?_, h.good.kept⟩, ?_, ?_, ?_, h.read, ?_, ?_, h.erased, ?_⟩
  · refine DdTestWorld.answered_goes ?_ h.good.answered
    intro name since r hr
    cases hr
  · intro c₁ c₂ q₁ q₂ h₁ h₂
    rw [hsame] at h₁ h₂
    exact h.one c₁ c₂ q₁ q₂ h₁ h₂
  · refine DdTestWorld.named_goes ?_ h.named
    intro q' hq'
    have hn := h.named c q' (by rw [hc]; exact hq')
    exact ⟨hn.1, lt_succ_of_lt hn.2⟩
  · intro c' q' hq'
    rw [hsame] at hq'
    exact h.owed c' q' hq'
  · intro hbusy
    exact absurd hfree (not_and_or.2 hbusy)
  · intro c' hc'
    rw [hsame]
    exact h.posted c' hc'
  · intro c' q' hq' _
    rw [hsame] at hq'
    exact h.done c' q' hq' (.inl hon)

theorem DdTestInv.posts {w : DdTestWorld ι} (h : DdTestInv cfg w) {c : ι} {q : DdRequest}
    (hc : w.caller c = .drained q) (hidle : w.poster = .idle) (hoff : w.testDone = false)
    (hquiet : ∀ c', (w.caller c').posted = none) :
    DdTestInv cfg ({ w with
      testIdx := some q.index
      pending := some c
      dropped := w.dropped ++ w.pending.toList }.goes c (.waiting q)) := by
  -- what is posted is another call's between its post and its return
  have hpending : w.pending = none := by
    rw [eq_none_iff_forall_ne_some]
    intro c' hc'
    obtain ⟨q', hq', _⟩ := h.posted c' hc'
    rw [hquiet c'] at hq'
    cases hq'
  have honly : ∀ c' q', (({ w with
      testIdx := some q.index
      pending := some c
      dropped := w.dropped ++ w.pending.toList }.goes c (.waiting q)).caller c').posted = some q' →
      c' = c := by
    refine DdTestWorld.goes_all (P := fun c' y => ∀ q', y.posted = some q' → c' = c) ?_ ?_
    · intro _ _
      rfl
    · intro c' _ q' hq'
      rw [hquiet c'] at hq'
      cases hq'
  have hnone : ∀ c' q', ({ w with
      testIdx := some q.index
      pending := some c
      dropped := w.dropped ++ w.pending.toList }.goes c (.waiting q)).caller c' ≠
      .completed q' := by
    refine DdTestWorld.goes_all (P := fun _ y => ∀ q', y ≠ .completed q') ?_ ?_
    · intro q' hq'
      cases hq'
    · intro c' _ q' hq'
      have hp := hquiet c'
      rw [hq'] at hp
      cases hp
  refine ⟨⟨?_, ?_⟩, ?_, ?_, ?_, ?_, ?_, ?_, ?_, ?_⟩
  · refine DdTestWorld.answered_goes ?_ h.good.answered
    intro name since r hr
    cases hr
  · rw [h.good.kept, hpending]
    rfl
  · intro c₁ c₂ q₁ q₂ h₁ h₂
    rw [honly c₁ q₁ h₁, honly c₂ q₂ h₂]
  · refine DdTestWorld.named_goes ?_ h.named
    intro q' hq'
    have hn := h.named c q' (by rw [hc]; exact hq')
    exact ⟨hn.1, lt_succ_of_lt hn.2⟩
  · intro c' q' _
    rw [hidle]
    exact trivial
  · intro hbusy
    exact absurd hidle hbusy
  · intro _
    exact ⟨hoff, hnone⟩
  · intro c' hc'
    obtain rfl : c = c' := some.inj hc'
    refine ⟨q, ?_, rfl⟩
    rw [DdTestWorld.goes_self]
    rfl
  · intro hp
    cases hp
  · intro c' q' _ hend
    rcases hend with hon | htaken
    · rw [hoff] at hon
      cases hon
    · exact absurd htaken (hnone c' q')

/-! ### The poster goes on -/

omit [DecidableEq ι] in
theorem DdTestWorld.Answered.mono {w w' : DdTestWorld ι} {since : ℕ} {r : DdResult}
    (h : w.Answered name since r) (hle : w.deliveries ⊆ w'.deliveries) :
    w'.Answered name since r := by
  obtain ⟨e, he, hrest⟩ := h
  exact ⟨e, hle he, hrest⟩

omit [DecidableEq ι] in
theorem DdTestInv.works {w w' : DdTestWorld ι} (h : DdTestInv cfg w)
    (hcaller : w'.caller = w.caller) (htime : w'.time = w.time + 1)
    (hdropped : w'.dropped = w.dropped) (hle : w.deliveries ⊆ w'.deliveries)
    (howed : ∀ c q, (w.caller c).posted = some q → w'.Owed w'.poster q)
    (hread : w'.poster ≠ .idle → w'.pending = none)
    (hearly : w'.poster ≠ .idle ∨ w'.pending ≠ none →
      w'.testDone = false ∧ ∀ c q, w.caller c ≠ .completed q)
    (hposted : ∀ c, w'.pending = some c →
      ∃ q, (w.caller c).posted = some q ∧ w'.testIdx = some q.index)
    (herased : w'.pending = none → w'.poster = .idle ∨ w'.poster = .giving → w'.testIdx = none)
    (hdone : ∀ c q, (w.caller c).posted = some q → w'.testDone = true ∨ w.caller c = .completed q →
      w'.Answered q.name q.since w'.testResult) : DdTestInv cfg w' := by
  rw [← hcaller] at howed hearly hposted hdone
  refine ⟨⟨?_, ?_⟩, ?_, ?_, howed, hread, hearly, hposted, herased, hdone⟩
  · intro c name since r hr
    rw [hcaller] at hr
    exact (h.good.answered c name since r hr).mono hle
  · rw [hdropped]
    exact h.good.kept
  · rw [hcaller]
    exact h.one
  · intro c q hq
    rw [hcaller] at hq
    rw [htime]
    exact ⟨(h.named c q hq).1, lt_succ_of_lt (h.named c q hq).2⟩

omit [DecidableEq ι] in
theorem DdTestInv.busy {w : DdTestWorld ι} (h : DdTestInv cfg w) (hp : w.poster ≠ .idle) :
    w.pending = none ∧ w.testDone = false ∧ ∀ c q, w.caller c ≠ .completed q :=
  ⟨h.read hp, h.early (.inl hp)⟩

omit [DecidableEq ι] in
theorem DdTestInv.inHands {w : DdTestWorld ι} (h : DdTestInv cfg w) {p : DdTestPoster}
    (hp : w.poster = p) (hne : p ≠ .idle) :
    w.poster ≠ .idle ∧ ∀ c q, (w.caller c).posted = some q → w.Owed p q := by
  subst hp
  exact ⟨hne, h.owed⟩

omit [DecidableEq ι] in
theorem DdTestInv.carries {w w' : DdTestWorld ι} (h : DdTestInv cfg w) (hp : w.poster ≠ .idle)
    (hcaller : w'.caller = w.caller) (htime : w'.time = w.time + 1)
    (hdropped : w'.dropped = w.dropped) (hle : w.deliveries ⊆ w'.deliveries)
    (howed : ∀ c q, (w.caller c).posted = some q → w'.Owed w'.poster q) (hp' : w'.poster ≠ .idle)
    (hpending : w'.pending = none) (hdone : w'.testDone = w.testDone)
    (herased : w'.poster = .giving → w'.testIdx = none) : DdTestInv cfg w' := by
  obtain ⟨_, hoff, hnone⟩ := h.busy hp
  refine h.works hcaller htime hdropped hle howed (fun _ => hpending) ?_ ?_ ?_ ?_
  · intro _
    exact ⟨hdone.trans hoff, hnone⟩
  · intro c hc
    rw [hpending] at hc
    cases hc
  · intro _ hplace
    exact herased (hplace.resolve_left hp')
  · intro c q _ hend
    rw [hdone, hoff] at hend
    exact absurd (hend.resolve_left Bool.false_ne_true) (hnone c q)

omit [DecidableEq ι] in
/-- **The poster keeps the invariant.** -/
theorem DdTestInv.post {w : DdTestWorld ι} (h : DdTestInv cfg w) (r : DdResult) :
    DdTestInv cfg (ddTestPost cfg w r) := by
  cases hp : w.poster with
  | idle =>
    cases hidx : w.testIdx with
    | none =>
      have hpending : w.pending = none := by
        rw [eq_none_iff_forall_ne_some]
        intro c hc
        obtain ⟨q, _, hq⟩ := h.posted c hc
        rw [hidx] at hq
        cases hq
      simp only [ddTestPost, hp, hidx]
      refine h.works rfl rfl rfl (List.Subset.refl _) (fun _ _ _ => trivial) ?_ ?_ ?_ ?_ h.done
      · intro hne
        exact absurd rfl hne
      · intro hbusy
        exact h.early (.inr (hbusy.resolve_left fun hne => hne rfl))
      · intro c hc
        rw [show (_ : Option ι) = some c from hc] at hpending
        cases hpending
      · intro _ _
        rfl
    | some i =>
      -- a test that is posted is read
      have hsome : w.pending ≠ none := by
        intro hnone
        rw [h.erased hnone (.inl hp)] at hidx
        cases hidx
      obtain ⟨c, hc⟩ := ne_none_iff_exists'.1 hsome
      obtain ⟨q, hq, hqi⟩ := h.posted c hc
      obtain ⟨hoff, hnone⟩ := h.early (.inr hsome)
      simp only [ddTestPost, hp, hidx]
      refine h.works rfl rfl rfl (List.Subset.refl _) ?_ (fun _ => rfl) (fun _ => ⟨hoff, hnone⟩)
        ?_ ?_ h.done
      · intro c' q' hq'
        obtain rfl := h.one c' c q' q hq' hq
        rw [hq'] at hq
        obtain rfl := some.inj hq
        rw [hidx] at hqi
        exact (some.inj hqi).symm
      · intro c' hc'
        cases hc'
      · intro _ hplace
        rcases hplace with hplace | hplace <;> cases hplace
  | read i =>
    obtain ⟨hbusy, howed⟩ := h.inHands hp DdTestPoster.noConfusion
    cases hd : cfg.dest[i]? with
    | none =>
      -- an index that was posted is of the table
      have hnone : ∀ c q, (w.caller c).posted ≠ some q := by
        intro c q hq
        obtain ⟨d, hd', _⟩ := (h.named c q (DdCaller.request_of_posted hq)).1
        rw [howed c q hq, hd] at hd'
        cases hd'
      simp only [ddTestPost, hp, hd]
      refine h.carries hbusy rfl rfl rfl (List.Subset.refl _) ?_ DdTestPoster.noConfusion
        (h.busy hbusy).1 rfl DdTestPoster.noConfusion
      intro c q hq
      exact absurd hq (hnone c q)
    | some d =>
      simp only [ddTestPost, hp, hd]
      refine h.carries hbusy rfl rfl rfl (List.Subset.refl _) ?_ DdTestPoster.noConfusion
        (h.busy hbusy).1 rfl DdTestPoster.noConfusion
      intro c q hq
      obtain ⟨⟨d', hd', hname⟩, hsince⟩ := h.named c q (DdCaller.request_of_posted hq)
      rw [howed c q hq, hd] at hd'
      obtain rfl := some.inj hd'
      exact ⟨hname, lt_succ_of_lt hsince⟩
  | delivering d started =>
    obtain ⟨hbusy, howed⟩ := h.inHands hp DdTestPoster.noConfusion
    simp only [ddTestPost, hp]
    refine h.carries hbusy rfl rfl rfl (subset_append_left _ _) ?_ DdTestPoster.noConfusion
      (h.busy hbusy).1 rfl DdTestPoster.noConfusion
    intro c q hq
    obtain ⟨hname, hsince⟩ := howed c q hq
    exact ⟨⟨d, started, r⟩, mem_append_right _ mem_cons_self, hname, hsince, rfl⟩
  | storing r' =>
    obtain ⟨hbusy, howed⟩ := h.inHands hp DdTestPoster.noConfusion
    simp only [ddTestPost, hp]
    exact h.carries hbusy rfl rfl rfl (List.Subset.refl _) howed DdTestPoster.noConfusion
      (h.busy hbusy).1 rfl DdTestPoster.noConfusion
  | clearing =>
    obtain ⟨hbusy, howed⟩ := h.inHands hp DdTestPoster.noConfusion
    simp only [ddTestPost, hp]
    refine h.carries hbusy rfl rfl ?_ (List.Subset.refl _) howed DdTestPoster.noConfusion
      rfl rfl (fun _ => rfl)
    rw [(h.busy hbusy).1]
    exact append_nil _
  | giving =>
    obtain ⟨hbusy, howed⟩ := h.inHands hp DdTestPoster.noConfusion
    have hpending := (h.busy hbusy).1
    simp only [ddTestPost, hp]
    refine h.works rfl rfl rfl (List.Subset.refl _) (fun _ _ _ => trivial) (fun _ => hpending)
      ?_ ?_ (fun _ _ => h.erased hpending (.inr hp)) (fun c q hq _ => howed c q hq)
    · intro hne
      rcases hne with hne | hne
      · exact absurd rfl hne
      · exact absurd hpending hne
    · intro c hc
      rw [hpending] at hc
      cases hc

/-! ## Calm runs -/

theorem DdTestInv.call {w w' : DdTestWorld ι} (h : DdTestInv cfg w) {c : ι}
    (hstep : ddTestCall cfg ready w c name = some w') : DdTestInv cfg w' := by
  have hnew : (w.caller c).posted = none ∧ w' = w.goes c
      (if ! ready then .returned name w.time (.error .invalidState)
      else
        match ddConfigFind cfg name with
        | none => .returned name w.time (.error .notFound)
        | some i => .found ⟨name, i, w.time⟩) := by
    unfold ddTestCall at hstep
    cases hc : w.caller c with
    | idle =>
      rw [hc] at hstep
      exact ⟨rfl, (some.inj hstep).symm⟩
    | returned =>
      rw [hc] at hstep
      exact ⟨rfl, (some.inj hstep).symm⟩
    | _ =>
      rw [hc] at hstep
      cases hstep
  obtain ⟨hposted, rfl⟩ := hnew
  cases ready with
  | false =>
    refine h.moves id hposted.symm (fun _ hq => ?_) (fun _ hq => ?_) (fun _ _ _ hr => ?_)
    · cases hq
    · cases hq
    · cases hr
  | true =>
    cases hfind : ddConfigFind cfg name with
    | none =>
      refine h.moves id hposted.symm (fun _ hq => ?_) (fun _ hq => ?_) (fun _ _ _ hr => ?_)
      · cases hq
      · cases hq
      · cases hr
    | some i =>
      refine h.moves id hposted.symm (fun _ hq => ?_) (fun _ hq => ?_) (fun _ _ _ hr => ?_)
      · cases hq
      · obtain rfl := some.inj hq
        exact ⟨ddConfigFind_name hfind, Nat.le_refl _⟩
      · cases hr

theorem DdTestInv.next {w w' : DdTestWorld ι} (h : DdTestInv cfg w) {c : ι}
    (hcalm : DdTestCalm w (.step c)) (hstep : ddTestNext w c = some w') : DdTestInv cfg w' := by
  unfold ddTestNext at hstep
  have hnamed := h.named c
  cases hc : w.caller c with
  | found q =>
    rw [hc] at hstep hnamed
    obtain rfl := some.inj hstep
    have hposted : (none : Option DdRequest) = (w.caller c).posted := by
      rw [hc]
      rfl
    by_cases hidx : w.testIdx.isSome = true
    · rw [if_pos hidx]
      refine h.moves id hposted (fun _ hq => ?_) (fun _ hq => ?_) (fun _ _ _ hr => ?_)
      · cases hq
      · cases hq
      · cases hr
    · rw [if_neg hidx]
      refine h.moves id hposted (fun _ hq => ?_) (fun q' hq => ?_) (fun _ _ _ hr => ?_)
      · cases hq
      · exact ⟨(hnamed q' hq).1, (hnamed q' hq).2.le⟩
      · cases hr
  | checked q =>
    rw [hc] at hstep hnamed
    obtain rfl := some.inj hstep
    refine h.moves (fun hoff => ?_) ?_ (fun _ hq => ?_) (fun q' hq => ?_) (fun _ _ _ hr => ?_)
    · cases hoff
    · rw [hc]
      rfl
    · cases hq
    · exact ⟨(hnamed q' hq).1, (hnamed q' hq).2.le⟩
    · cases hr
  | drained q =>
    rw [hc] at hstep
    obtain rfl := some.inj hstep
    obtain ⟨hidle, hoff, hquiet⟩ := hcalm q hc
    exact h.posts hc hidle hoff hquiet
  | waiting q =>
    rw [hc] at hstep
    cases hon : w.testDone with
    | false =>
      simp only [hon] at hstep
      cases hstep
    | true =>
      simp only [hon] at hstep
      obtain rfl := some.inj hstep
      exact h.takes hc hon
  | completed q =>
    rw [hc] at hstep
    obtain rfl := some.inj hstep
    have hposted : (w.caller c).posted = some q := by
      rw [hc]
      rfl
    have hpending : w.pending = none := by
      by_contra hsome
      exact (h.early (.inr hsome)).2 c q hc
    have hsame : { w with testIdx := w.testIdx, pending := none } = w := by
      rw [← hpending]
    have hleft := h.leaves hposted (.inr ⟨rfl, hpending⟩)
      (fun r (hr : Except.ok w.testResult = .ok r) => by
        obtain rfl := Except.ok.inj hr
        exact h.done c q hposted (.inr hc))
    rw [hsame] at hleft
    exact hleft
  | timedOut q =>
    rw [hc] at hstep
    obtain rfl := some.inj hstep
    have hposted : (w.caller c).posted = some q := by
      rw [hc]
      rfl
    -- what is posted is its own test
    have hown : w.dropped ++ w.pending.toList.filter (· ≠ c) = w.dropped := by
      cases hpending : w.pending with
      | none => exact append_nil _
      | some c' =>
        obtain ⟨q', hq', _⟩ := h.posted c' hpending
        obtain rfl := h.one c' c q' q hq' hposted
        simp
    rw [hown]
    exact h.leaves hposted (.inl rfl) fun r hr => by cases hr
  | idle =>
    rw [hc] at hstep
    cases hstep
  | returned =>
    rw [hc] at hstep
    cases hstep

theorem DdTestInv.timeout {w w' : DdTestWorld ι} (h : DdTestInv cfg w) {c : ι}
    (hstep : ddTestTimeout w c = some w') : DdTestInv cfg w' := by
  unfold ddTestTimeout at hstep
  have hnamed := h.named c
  cases hc : w.caller c with
  | waiting q =>
    rw [hc] at hstep hnamed
    cases hon : w.testDone with
    | true =>
      simp only [hon] at hstep
      cases hstep
    | false =>
      simp only [hon] at hstep
      obtain rfl := some.inj hstep
      refine h.moves id ?_ (fun _ hq => ?_) (fun q' hq => ?_) (fun _ _ _ hr => ?_)
      · rw [hc]
        rfl
      · cases hq
      · exact ⟨(hnamed q' hq).1, (hnamed q' hq).2.le⟩
      · cases hr
  | _ =>
    rw [hc] at hstep
    cases hstep

/-- **Every calm step keeps the invariant.** -/
theorem DdTestInv.step {w w' : DdTestWorld ι} {act : DdTestAct ι} (h : DdTestInv cfg w)
    (hcalm : DdTestCalm w act) (hstep : ddTestStep cfg ready w act = some w') :
    DdTestInv cfg w' := by
  cases act with
  | call c name => exact h.call hstep
  | step c => exact h.next hcalm hstep
  | timeout c => exact h.timeout hstep
  | poster r =>
    obtain rfl := some.inj hstep
    exact h.post r

omit [DecidableEq ι] in
theorem DdTestInv.init (cfg : DdConfig) : DdTestInv cfg (DdTestWorld.init : DdTestWorld ι) where
  good := ⟨fun _ _ _ _ hr => (by cases hr), rfl⟩
  one _ _ _ _ hq := by cases hq
  named _ _ hq := by cases hq
  owed _ _ hq := by cases hq
  read hne := absurd rfl hne
  early _ := ⟨rfl, fun _ _ => DdCaller.noConfusion⟩
  posted _ hc := by cases hc
  erased _ _ := rfl
  done _ _ hq := by cases hq

/-- A run whose posts are made in the quiet. -/
def DdCalmRun (cfg : DdConfig) (ready : Bool) :
    DdTestWorld ι → List (DdTestAct ι) → DdTestWorld ι → Prop :=
  Run fun w act w' => ddTestStep cfg ready w act = some w' ∧ DdTestCalm w act

/-- **In a calm run every test that returns a result returns one of a delivery to the
destination it named that began after the call, and no posted test is dropped.** -/
theorem ddTest_calm (cfg : DdConfig) (ready : Bool) (acts : List (DdTestAct ι)) (w : DdTestWorld ι)
    (hrun : DdCalmRun cfg ready .init acts w) : DdTestGood w :=
  (Run.inv (I := DdTestInv cfg) (fun _ _ _ hs hw => hw.step hs.2 hs.1) hrun
    (DdTestInv.init cfg)).good

/-! ### A test that outlives its caller -/

/-- Two destinations. -/
def twoWebhooks : DdConfig :=
  ⟨true, [webhook "a" "https://a/", webhook "b" "https://b/"], Nat.le_of_ble_eq_true rfl⟩

/-- A call begins, looks, drains and posts. -/
def postTest (c : Fin 2) (name : String) : List (DdTestAct (Fin 2)) :=
  [.call c name, .step c, .step c, .step c]

/-- The first call times out, and its delivery ends before the second call posts. -/
theorem ddTest_calm_sample :
    ∃ w, DdCalmRun twoWebhooks true .init
        (postTest 0 "a" ++ [.poster delivered, .poster delivered, .timeout 0, .step 0] ++
          List.replicate 4 (.poster delivered) ++ postTest 1 "b" ++
          List.replicate 6 (.poster delivered) ++ [.step 1, .step 1]) w ∧
      w.caller 1 = .returned "b" 12 (.ok delivered) ∧ DdTestGood w := by
  have hrun : ∃ w, DdCalmRun twoWebhooks true .init
        (postTest 0 "a" ++ [.poster delivered, .poster delivered, .timeout 0, .step 0] ++
          List.replicate 4 (.poster delivered) ++ postTest 1 "b" ++
          List.replicate 6 (.poster delivered) ++ [.step 1, .step 1]) w ∧
      w.caller 1 = .returned "b" 12 (.ok delivered) := by
    refine ⟨_, .cons ⟨rfl, trivial⟩ (.cons ⟨rfl, ?_⟩ (.cons ⟨rfl, ?_⟩ (.cons ⟨rfl, ?_⟩
      (.cons ⟨rfl, trivial⟩ (.cons ⟨rfl, trivial⟩ (.cons ⟨rfl, trivial⟩ (.cons ⟨rfl, ?_⟩
      (.cons ⟨rfl, trivial⟩ (.cons ⟨rfl, trivial⟩ (.cons ⟨rfl, trivial⟩ (.cons ⟨rfl, trivial⟩
      (.cons ⟨rfl, trivial⟩ (.cons ⟨rfl, ?_⟩ (.cons ⟨rfl, ?_⟩ (.cons ⟨rfl, ?_⟩
      (.cons ⟨rfl, trivial⟩ (.cons ⟨rfl, trivial⟩ (.cons ⟨rfl, trivial⟩ (.cons ⟨rfl, trivial⟩
      (.cons ⟨rfl, trivial⟩ (.cons ⟨rfl, trivial⟩ (.cons ⟨rfl, ?_⟩ (.cons ⟨rfl, ?_⟩ (.nil _)))))))
      ))))))))))))))))), rfl⟩
    all_goals intro q hq
    -- only the two posts are made by a call that drained
    all_goals first | (cases hq; done) | exact ⟨rfl, rfl, by decide⟩
  obtain ⟨w, hw, hret⟩ := hrun
  exact ⟨w, hw, hret, ddTest_calm twoWebhooks true _ w hw⟩

/-- A delivery for a call that timed out erases the next test, and its result is taken for
the other destination's. -/
theorem ddTest_outlived :
    ∃ w, Run (fun w act w' => ddTestStep twoWebhooks true w act = some w') .init
        (postTest 0 "a" ++ [.poster delivered, .poster delivered, .timeout 0, .step 0] ++
          postTest 1 "b" ++ List.replicate 4 (.poster delivered) ++ [.step 1, .step 1]) w ∧
      w.caller 1 = .returned "b" 8 (.ok delivered) ∧ ¬ w.Answered "b" 8 delivered ∧
      w.dropped = [1] ∧ ¬ DdTestGood w := by
  have hrun : ∃ w, Run (fun w act w' => ddTestStep twoWebhooks true w act = some w') .init
        (postTest 0 "a" ++ [.poster delivered, .poster delivered, .timeout 0, .step 0] ++
          postTest 1 "b" ++ List.replicate 4 (.poster delivered) ++ [.step 1, .step 1]) w ∧
      w.caller 1 = .returned "b" 8 (.ok delivered) ∧
      w.deliveries = [⟨webhook "a" "https://a/", 6, delivered⟩] ∧ w.dropped = [1] := by
    refine ⟨_, .cons rfl (.cons rfl (.cons rfl (.cons rfl (.cons rfl (.cons rfl (.cons rfl
      (.cons rfl (.cons rfl (.cons rfl (.cons rfl (.cons rfl (.cons rfl (.cons rfl (.cons rfl
      (.cons rfl (.cons rfl (.cons rfl (.nil _)))))))))))))))))), rfl, rfl, rfl⟩
  obtain ⟨w, hw, hret, hdel, hdropped⟩ := hrun
  refine ⟨w, hw, hret, ?_, hdropped, ?_⟩
  · rintro ⟨e, he, hname, _⟩
    rw [hdel, mem_singleton] at he
    subst he
    exact absurd hname (by decide)
  · intro hgood
    rw [hgood.kept] at hdropped
    cases hdropped

end Meatpi
