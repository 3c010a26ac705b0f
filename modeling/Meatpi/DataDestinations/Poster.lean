import Mathlib.Data.UInt
import Meatpi.Library.Run

/-!
# Delivering to the destinations (`data_destinations.c`)

One poster task delivers to the destinations of a table. It copies a destination,
reads the state kept at its index, delivers without the lock, which may take
seconds, and writes the state back. The settings may apply another table in
between; the write-back does not look whether the index still is the destination's.
-/

namespace Meatpi

open Function List

variable {i : ℕ}

/-! ## The table and the state -/

inductive DdType where
  | mqtt
  | http
  | https
  | abrp
  deriving DecidableEq

inductive DdAuth where
  | none
  | bearer
  | apiKeyHeader
  | apiKeyQuery
  | basic
  deriving DecidableEq

structure DdDest where
  name : String
  type : DdType
  enabled : Bool
  url : String
  periodS : UInt32
  auth : DdAuth
  authToken : String
  authName : String
  basicUsername : String
  basicPassword : String
  apiKey : String
  query : String
  certSet : String
  carModel : String
  retain : Bool
  fullFirst : Bool
  deriving DecidableEq

def ddMax : ℕ := 8

structure DdConfig where
  enabled : Bool
  dest : List DdDest
  count_le : dest.length ≤ ddMax

structure DdState where
  success : UInt32
  fail : UInt32
  skippedOffline : UInt32
  consecFailures : UInt32
  backoffMs : UInt32
  nextDueUs : ℤ
  settingsSent : Bool
  wasOk : Bool
  everTried : Bool
  lastStatus : ℤ
  lastError : String
  lastErrorTime : String
  lastOkTime : String

/-- All zero. -/
def DdState.zero : DdState := ⟨0, 0, 0, 0, 0, 0, false, false, false, 0, "", "", ""⟩

/-! ## The schedule -/

def ddBackoffAfter : UInt32 := 3

def ddSchedDue (st : DdState) (nowUs : ℤ) : Bool :=
  decide (st.nextDueUs = 0) || decide (st.nextDueUs ≤ nowUs)

def backoffCapMs (periodMs : UInt32) : UInt32 :=
  UInt32.ofNat (min 600000 (max 60000 (periodMs.toNat * 8)))

def ddBackoffNext (prevMs periodMs : UInt32) : UInt32 :=
  UInt32.ofNat (min (backoffCapMs periodMs).toNat
    (max 10000 (if prevMs ≠ 0 then prevMs.toNat * 2 else periodMs.toNat * 2)))

def ddSchedRateLimited (st : DdState) (periodS : UInt32) (nowUs : ℤ) : DdState :=
  let cap := backoffCapMs (periodS * 1000)
  { st with
    everTried := true
    wasOk := false
    fail := st.fail + 1
    consecFailures :=
      if st.consecFailures + 1 < ddBackoffAfter then ddBackoffAfter else st.consecFailures + 1
    backoffMs := cap
    nextDueUs := nowUs + cap.toNat * 1000 }

def ddSchedAfter (st : DdState) (periodS : UInt32) (ok : Bool) (nowUs : ℤ) : DdState :=
  let periodMs := periodS * 1000
  if ok then
    { st with
      everTried := true
      wasOk := true
      success := st.success + 1
      consecFailures := 0
      backoffMs := 0
      nextDueUs := nowUs + periodMs.toNat * 1000 }
  else
    let backoffMs :=
      if ddBackoffAfter ≤ st.consecFailures + 1 then ddBackoffNext st.backoffMs periodMs
      else st.backoffMs
    { st with
      everTried := true
      wasOk := false
      fail := st.fail + 1
      consecFailures := st.consecFailures + 1
      backoffMs := backoffMs
      nextDueUs := nowUs + (if periodMs < backoffMs then backoffMs else periodMs).toNat * 1000 }

def ddSchedSkip (st : DdState) (periodS : UInt32) (nowUs : ℤ) : DdState :=
  { st with
    skippedOffline := st.skippedOffline + 1
    nextDueUs := nowUs + periodS.toNat * 1000000 }

/-! ## A delivery -/

/-- What a delivery gave: `data_destinations_result_t`. -/
structure DdResult where
  ok : Bool
  status : ℤ
  error : String

/-- The type whose body may carry the config and status block. -/
def DdDest.isHttp (d : DdDest) : Bool := decide (d.type = .http) || decide (d.type = .https)

/-- `post_http` sends the config and status block along. -/
def sendsFull (d : DdDest) (st : DdState) : Bool := d.isHttp && d.fullFirst && !st.settingsSent

/-- `dd_post_one`: what it does to the state. -/
def ddPostOne (d : DdDest) (st : DdState) (r : DdResult) : DdState :=
  if r.ok ∧ sendsFull d st then { st with settingsSent := true } else st

/-- The second half of `run_one`: a delivery that started at `nowUs` is booked. -/
def bookDelivery (d : DdDest) (st : DdState) (r : DdResult) (nowUs : ℤ) (utc : String) :
    DdState :=
  let st := { ddPostOne d st r with lastStatus := r.status }
  let st :=
    if r.ok then { st with lastOkTime := utc, lastError := "" }
    else { st with lastError := r.error, lastErrorTime := utc }
  if ¬r.ok ∧ r.status = 429 then
    ddSchedRateLimited st d.periodS nowUs
  else
    ddSchedAfter st d.periodS r.ok nowUs

/-! ## The poster and the settings -/

/-- Where the poster is. -/
inductive Poster where
  | idle
  /-- `take_dest` copied the destination. -/
  | taken (i : ℕ) (d : DdDest) (forced : Bool)
  /-- `run_one` read the state; the delivery is on its way. -/
  | delivering (i : ℕ) (d : DdDest) (st : DdState)
  /-- The state is booked and not written back. -/
  | writing (i : ℕ) (d : DdDest) (st : DdState)

/-- The table, the state kept at each index, and the poster. -/
structure DdWorld where
  cfg : DdConfig
  state : ℕ → DdState
  poster : Poster

/-- Before the first table. -/
def DdWorld.init : DdWorld := ⟨⟨false, [], Nat.zero_le _⟩, fun _ => .zero, .idle⟩

/-- A step of the settings or of the poster. -/
inductive DdStep where
  /-- `dd_config_store` -/
  | store (cfg : DdConfig)
  /-- `take_dest`, on the poster's round or for a test -/
  | take (i : ℕ) (forced : Bool)
  /-- `dd_state_get`, and what `run_one` decides from it -/
  | read (nowUs : ℤ) (linkUp : Bool)
  /-- `dd_post_one` returns -/
  | deliver (r : DdResult) (startUs : ℤ) (utc : String)
  /-- `s_state[i] = st` -/
  | write

def ddConfigStore (w : DdWorld) (cfg : DdConfig) : DdWorld :=
  { w with cfg := cfg, state := fun _ => .zero }

def takeDest (w : DdWorld) (i : ℕ) (forced : Bool) : Poster :=
  match w.cfg.dest[i]? with
  | some d => if forced ∨ d.enabled then .taken i d forced else .idle
  | none => .idle

/-- The first half of `run_one`. -/
def runOneStart (w : DdWorld) (i : ℕ) (d : DdDest) (forced : Bool) (nowUs : ℤ) (linkUp : Bool) :
    Poster :=
  let st := w.state i
  if ¬forced ∧ ¬ddSchedDue st nowUs then .idle
  else if ¬linkUp then .writing i d (ddSchedSkip st d.periodS nowUs)
  else .delivering i d st

/-- A step, where it can be taken. -/
def ddStep (w : DdWorld) : DdStep → Option DdWorld
  | .store cfg => some (ddConfigStore w cfg)
  | .take i forced =>
    match w.poster with
    | .idle => some { w with poster := takeDest w i forced }
    | _ => none
  | .read nowUs linkUp =>
    match w.poster with
    | .taken i d forced => some { w with poster := runOneStart w i d forced nowUs linkUp }
    | _ => none
  | .deliver r startUs utc =>
    match w.poster with
    | .delivering i d st =>
      some { w with poster := .writing i d (bookDelivery d st r startUs utc) }
    | _ => none
  | .write =>
    match w.poster with
    | .writing i _ st => some { w with state := update w.state i st, poster := .idle }
    | _ => none

/-! ## Whose state it is -/

/-- The world, with the destinations whose laps made each kept state and the state in
flight, and, for each index, which of the successful deliveries of the destination
that the table holds there sent the block along since the table was stored. -/
structure DdWatch where
  world : DdWorld
  makers : ℕ → List DdDest
  flight : List DdDest
  blocks : ℕ → List Bool

/-- Before the first table. -/
def DdWatch.init : DdWatch := ⟨.init, fun _ => [], [], fun _ => []⟩

/-- What a step that leads to `w'` adds. -/
def DdWatch.after (s : DdWatch) (w' : DdWorld) : DdStep → DdWatch
  | .store _ => { s with world := w', makers := fun _ => [], blocks := fun _ => [] }
  | .take _ _ => { s with world := w' }
  | .read _ linkUp =>
    match s.world.poster with
    | .taken i d _ =>
      { s with world := w', flight := if linkUp then s.makers i else d :: s.makers i }
    | _ => { s with world := w' }
  | .deliver r _ _ =>
    match s.world.poster with
    | .delivering i d st =>
      { s with
        world := w'
        flight := d :: s.flight
        blocks :=
          if r.ok ∧ s.world.cfg.dest[i]? = some d then
            update s.blocks i (s.blocks i ++ [sendsFull d st])
          else s.blocks }
    | _ => { s with world := w' }
  | .write =>
    match s.world.poster with
    | .writing i _ _ => { s with world := w', makers := update s.makers i s.flight }
    | _ => { s with world := w' }

/-- The destination is to get the block with its first delivery. -/
def DdDest.wantsBlock (d : DdDest) : Bool := d.isHttp && d.fullFirst

/-- **Delivery state belongs to its destination**: what is kept at an index comes from
laps of the destination that the table holds there, and the first successful delivery
of one that wants the block sends it. -/
def Belongs (s : DdWatch) : Prop :=
  ∀ i d, s.world.cfg.dest[i]? = some d →
    (∀ maker ∈ s.makers i, maker = d) ∧
      (d.wantsBlock = true → (s.blocks i).head? ≠ some false)

/-- A table that is stored while the poster is on its way leaves the destination where
it is, or takes its index away; if the state in flight says that the block was sent,
the destination is none that wants it. -/
def StoreCalm (w : DdWorld) (cfg : DdConfig) : Prop :=
  match w.poster with
  | .idle => True
  | .taken i d _ => ∀ d', cfg.dest[i]? = some d' → d' = d
  | .delivering i d st | .writing i d st =>
    ∀ d', cfg.dest[i]? = some d' →
      d' = d ∧ (d.wantsBlock = true → st.settingsSent = false)

/-- The settings are applied at a calm moment. -/
def Calm (w : DdWorld) : DdStep → Prop
  | .store cfg => StoreCalm w cfg
  | _ => True

/-- The steps of the watched world. -/
def watchStep (s : DdWatch) (step : DdStep) (s' : DdWatch) : Prop :=
  ∃ w', ddStep s.world step = some w' ∧ s' = s.after w' step

/-! ## The invariant -/

/-- A state that says that the block was sent follows a successful delivery. -/
def BlockKnown (s : DdWatch) (i : ℕ) (d : DdDest) (st : DdState) : Prop :=
  d.wantsBlock = true → st.settingsSent = true → s.blocks i ≠ []

/-- What holds of the state the poster has in its hands. -/
def FlightBelongs (s : DdWatch) : Prop :=
  match s.world.poster with
  | .idle => True
  | .taken i d _ =>
    (∀ maker ∈ s.makers i, maker = d) ∧ ∀ d', s.world.cfg.dest[i]? = some d' → d' = d
  | .delivering i d st | .writing i d st =>
    (∀ maker ∈ s.flight, maker = d) ∧
      ∀ d', s.world.cfg.dest[i]? = some d' → d' = d ∧ BlockKnown s i d st

/-- What is kept, and what is in flight, belongs. -/
structure DdInv (s : DdWatch) : Prop where
  belongs : Belongs s
  known : ∀ i d, s.world.cfg.dest[i]? = some d → BlockKnown s i d (s.world.state i)
  inFlight : FlightBelongs s

theorem ddInv_init : DdInv .init where
  belongs := fun i d h => by
    cases h
  known := fun i d h => by
    cases h
  inFlight := trivial

theorem bookDelivery_settingsSent (d : DdDest) (st : DdState) (r : DdResult) (nowUs : ℤ)
    (utc : String) : (bookDelivery d st r nowUs utc).settingsSent =
      (st.settingsSent || (r.ok && sendsFull d st)) := by
  obtain ⟨ok, status, error⟩ := r
  have hpost : (ddPostOne d st ⟨ok, status, error⟩).settingsSent =
      (st.settingsSent || (ok && sendsFull d st)) := by
    rw [ddPostOne]
    cases ok <;> cases sendsFull d st <;> simp
  rw [← hpost, bookDelivery]
  cases ok with
  | true => rfl
  | false =>
    by_cases hlimited : status = 429
    · simp [hlimited, ddSchedRateLimited]
    · simp [hlimited, ddSchedAfter]

section

variable {s : DdWatch} {w' : DdWorld}

theorem DdInv.store (h : DdInv s) {cfg : DdConfig} (hcalm : StoreCalm s.world cfg) :
    DdInv (s.after (ddConfigStore s.world cfg) (.store cfg)) where
  belongs := fun i d _ => ⟨fun m hm => absurd hm not_mem_nil, fun _ => by
    simp [DdWatch.after]⟩
  known := fun i d _ _ hsent => by
    simp [DdWatch.after, ddConfigStore, DdState.zero] at hsent
  inFlight := by
    have hflight := h.inFlight
    rw [FlightBelongs] at hflight ⊢
    rw [StoreCalm] at hcalm
    simp only [DdWatch.after, ddConfigStore]
    cases hposter : s.world.poster with
    | idle => exact trivial
    | taken i d forced =>
      rw [hposter] at hcalm
      exact ⟨fun m hm => absurd hm not_mem_nil, hcalm⟩
    | delivering i d st =>
      rw [hposter] at hcalm hflight
      refine ⟨hflight.1, fun d' hd' => ⟨(hcalm d' hd').1, fun hwants hsent => ?_⟩⟩
      rw [(hcalm d' hd').2 hwants] at hsent
      cases hsent
    | writing i d st =>
      rw [hposter] at hcalm hflight
      refine ⟨hflight.1, fun d' hd' => ⟨(hcalm d' hd').1, fun hwants hsent => ?_⟩⟩
      rw [(hcalm d' hd').2 hwants] at hsent
      cases hsent

theorem DdInv.take (h : DdInv s) (i : ℕ) (forced : Bool) :
    DdInv (s.after { s.world with poster := takeDest s.world i forced } (.take i forced)) where
  belongs := h.belongs
  known := h.known
  inFlight := by
    simp only [FlightBelongs, DdWatch.after, takeDest]
    cases hd : s.world.cfg.dest[i]? with
    | none => exact trivial
    | some d =>
      by_cases htakes : forced = true ∨ d.enabled = true
      · simp only [if_pos htakes]
        refine ⟨(h.belongs i d hd).1, fun d' hd' => ?_⟩
        rw [hd] at hd'
        exact (Option.some.inj hd').symm
      · simp only [if_neg htakes]

theorem DdInv.read (h : DdInv s) {d : DdDest} {forced : Bool}
    (hposter : s.world.poster = .taken i d forced) (nowUs : ℤ) (linkUp : Bool) :
    DdInv (s.after { s.world with poster := runOneStart s.world i d forced nowUs linkUp }
      (.read nowUs linkUp)) := by
  have hflight := h.inFlight
  rw [FlightBelongs, hposter] at hflight
  have hknown : ∀ d', s.world.cfg.dest[i]? = some d' →
      d' = d ∧ BlockKnown s i d (s.world.state i) := by
    intro d' hd'
    have hsame := hflight.2 d' hd'
    rw [hsame] at hd'
    exact ⟨hsame, h.known i d hd'⟩
  simp only [DdWatch.after, hposter]
  refine ⟨h.belongs, h.known, ?_⟩
  simp only [FlightBelongs, runOneStart]
  by_cases hdue : ¬forced = true ∧ ¬ddSchedDue (s.world.state i) nowUs = true
  · simp only [if_pos hdue]
  · simp only [if_neg hdue]
    cases linkUp with
    | true =>
      exact ⟨hflight.1, hknown⟩
    | false =>
      refine ⟨fun m hm => ?_, hknown⟩
      rcases mem_cons.mp hm with hd | hold
      · exact hd
      · exact hflight.1 m hold

theorem head?_append_sendsFull {blocks : List Bool} {d : DdDest} {st : DdState}
    (hwants : d.wantsBlock = true) (hhead : blocks.head? ≠ some false)
    (hknown : st.settingsSent = true → blocks ≠ []) :
    (blocks ++ [sendsFull d st]).head? ≠ some false := by
  cases blocks with
  | nil =>
    have hunsent : st.settingsSent = false := by
      rw [← Bool.not_eq_true]
      exact fun hsent => hknown hsent rfl
    have hfull : sendsFull d st = true := by
      rw [DdDest.wantsBlock] at hwants
      rw [sendsFull, hwants, hunsent]
      rfl
    rw [hfull]
    decide
  | cons b rest => exact hhead

theorem DdInv.deliver (h : DdInv s) {d : DdDest} {st : DdState}
    (hposter : s.world.poster = .delivering i d st) (r : DdResult) (startUs : ℤ) (utc : String) :
    DdInv (s.after { s.world with poster := .writing i d (bookDelivery d st r startUs utc) }
      (.deliver r startUs utc)) := by
  have hflight := h.inFlight
  rw [FlightBelongs, hposter] at hflight
  have hmakers : ∀ m ∈ d :: s.flight, m = d := by
    intro m hm
    rcases mem_cons.mp hm with hd | hold
    · exact hd
    · exact hflight.1 m hold
  simp only [DdWatch.after, hposter]
  by_cases hcounts : r.ok = true ∧ s.world.cfg.dest[i]? = some d
  · rw [if_pos hcounts]
    refine ⟨fun j d' hd' => ⟨(h.belongs j d' hd').1, fun hwants => ?_⟩, fun j d' hd' => ?_, ?_⟩
    · rcases eq_or_ne j i with rfl | hne
      · have hsame := (hflight.2 d' hd').1
        rw [hsame] at hd' hwants
        simp only [update_self]
        exact head?_append_sendsFull hwants ((h.belongs j d hd').2 hwants)
          ((hflight.2 d hd').2 hwants)
      · simp only [update_of_ne hne]
        exact (h.belongs j d' hd').2 hwants
    · intro hwants hsent
      rcases eq_or_ne j i with rfl | hne
      · simp only [update_self]
        exact append_ne_nil_of_right_ne_nil _ (cons_ne_nil _ _)
      · simp only [update_of_ne hne]
        exact h.known j d' hd' hwants hsent
    · refine ⟨hmakers, fun d' hd' => ⟨(hflight.2 d' hd').1, fun _ _ => ?_⟩⟩
      simp only [update_self]
      exact append_ne_nil_of_right_ne_nil _ (cons_ne_nil _ _)
  · rw [if_neg hcounts]
    refine ⟨h.belongs, h.known, hmakers, fun d' hd' => ?_⟩
    obtain ⟨hsame, hknown⟩ := hflight.2 d' hd'
    refine ⟨hsame, fun hwants hsent => hknown hwants ?_⟩
    -- a delivery that does not count was no success, or the table has no such index
    have hfailed : r.ok = false := by
      rw [← Bool.not_eq_true]
      rw [hsame] at hd'
      exact fun hok => hcounts ⟨hok, hd'⟩
    rw [bookDelivery_settingsSent, hfailed, Bool.false_and, Bool.or_false] at hsent
    exact hsent

theorem DdInv.write (h : DdInv s) {d : DdDest} {st : DdState}
    (hposter : s.world.poster = .writing i d st) :
    DdInv (s.after
      { s.world with state := update s.world.state i st, poster := .idle } .write) := by
  have hflight := h.inFlight
  rw [FlightBelongs, hposter] at hflight
  simp only [DdWatch.after, hposter]
  refine ⟨fun j d' hd' => ⟨?_, (h.belongs j d' hd').2⟩, fun j d' hd' => ?_, trivial⟩
  · rcases eq_or_ne j i with rfl | hne
    · simp only [update_self, (hflight.2 d' hd').1]
      exact hflight.1
    · simp only [update_of_ne hne]
      exact (h.belongs j d' hd').1
  · rcases eq_or_ne j i with rfl | hne
    · obtain ⟨hsame, hknown⟩ := hflight.2 d' hd'
      rw [hsame]
      simp only [update_self]
      exact hknown
    · simp only [update_of_ne hne]
      exact h.known j d' hd'

/-- **One step more**, with the settings applied at a calm moment. -/
theorem DdInv.next (h : DdInv s) {step : DdStep} {s' : DdWatch} (hstep : watchStep s step s')
    (hcalm : Calm s.world step) : DdInv s' := by
  obtain ⟨w', hnext, rfl⟩ := hstep
  cases step with
  | store cfg =>
    cases hnext
    exact h.store hcalm
  | take i forced =>
    cases hposter : s.world.poster <;> simp only [ddStep, hposter] at hnext <;> cases hnext
    exact h.take i forced
  | read nowUs linkUp =>
    cases hposter : s.world.poster <;> simp only [ddStep, hposter] at hnext <;> cases hnext
    exact h.read hposter nowUs linkUp
  | deliver r startUs utc =>
    cases hposter : s.world.poster <;> simp only [ddStep, hposter] at hnext <;> cases hnext
    exact h.deliver hposter r startUs utc
  | write =>
    cases hposter : s.world.poster <;> simp only [ddStep, hposter] at hnext <;> cases hnext
    exact h.write hposter

end

/-- **Over every interleaving** of settings applies and steps of the poster whose
applies are calm, delivery state belongs to its destination. -/
theorem delivery_state_belongs {steps : List DdStep} {s : DdWatch}
    (hrun : Run (fun s step s' => watchStep s step s' ∧ Calm s.world step) .init steps s) :
    Belongs s := by
  have hinv : DdInv s :=
    Run.inv (I := DdInv) (fun _ _ _ hstep h => h.next hstep.1 hstep.2) hrun ddInv_init
  exact hinv.belongs

/-- A webhook that wants the block. -/
def webhook (name url : String) : DdDest :=
  ⟨name, .https, true, url, 10, .none, "", "", "", "", "", "", "", "", true, true⟩

/-- A table with one webhook. -/
def oneWebhook (name url : String) : DdConfig :=
  ⟨true, [webhook name url], Nat.le_of_ble_eq_true rfl⟩

/-- A delivery that the endpoint took. -/
def delivered : DdResult := ⟨true, 200, ""⟩

/-- One table, two deliveries. -/
theorem delivery_state_belongs_twice :
    ∃ s, Run (fun s step s' => watchStep s step s' ∧ Calm s.world step) .init
        [.store (oneWebhook "a" "https://a/"), .take 0 false, .read 0 true,
          .deliver delivered 0 "", .write, .take 0 false, .read 20000000 true,
          .deliver delivered 20000000 "", .write] s ∧
      Belongs s ∧ s.blocks 0 = [true, false] := by
  have hrun : Run (fun s step s' => watchStep s step s' ∧ Calm s.world step) .init
      [.store (oneWebhook "a" "https://a/"), .take 0 false, .read 0 true,
        .deliver delivered 0 "", .write, .take 0 false, .read 20000000 true,
        .deliver delivered 20000000 "", .write] _ :=
    .cons ⟨⟨_, rfl, rfl⟩, trivial⟩ <| .cons ⟨⟨_, rfl, rfl⟩, trivial⟩ <|
      .cons ⟨⟨_, rfl, rfl⟩, trivial⟩ <| .cons ⟨⟨_, rfl, rfl⟩, trivial⟩ <|
      .cons ⟨⟨_, rfl, rfl⟩, trivial⟩ <| .cons ⟨⟨_, rfl, rfl⟩, trivial⟩ <|
      .cons ⟨⟨_, rfl, rfl⟩, trivial⟩ <| .cons ⟨⟨_, rfl, rfl⟩, trivial⟩ <|
      .cons ⟨⟨_, rfl, rfl⟩, trivial⟩ (.nil _)
  exact ⟨_, hrun, delivery_state_belongs hrun, rfl⟩

/-- **Somebody else's state.** While the first delivery to `a` is on its way the table
is replaced by one that holds `b` at the index. The state of `a` is written back
there, and the first successful delivery of `b` comes without the block. -/
theorem state_of_another :
    ∃ s, Run watchStep .init
        [.store (oneWebhook "a" "https://a/"), .take 0 false, .read 0 true,
          .deliver delivered 0 "", .store (oneWebhook "b" "https://b/"), .write,
          .take 0 false, .read 20000000 true, .deliver delivered 20000000 ""] s ∧
      s.world.cfg.dest[0]? = some (webhook "b" "https://b/") ∧
      s.makers 0 = [webhook "a" "https://a/"] ∧ s.blocks 0 = [false] ∧ ¬Belongs s := by
  have hrun : Run watchStep .init
      [.store (oneWebhook "a" "https://a/"), .take 0 false, .read 0 true,
        .deliver delivered 0 "", .store (oneWebhook "b" "https://b/"), .write,
        .take 0 false, .read 20000000 true, .deliver delivered 20000000 ""] _ :=
    .cons ⟨_, rfl, rfl⟩ <| .cons ⟨_, rfl, rfl⟩ <| .cons ⟨_, rfl, rfl⟩ <|
      .cons ⟨_, rfl, rfl⟩ <| .cons ⟨_, rfl, rfl⟩ <| .cons ⟨_, rfl, rfl⟩ <|
      .cons ⟨_, rfl, rfl⟩ <| .cons ⟨_, rfl, rfl⟩ <| .cons ⟨_, rfl, rfl⟩ (.nil _)
  refine ⟨_, hrun, rfl, rfl, rfl, fun h => ?_⟩
  exact (h 0 (webhook "b" "https://b/") rfl).2 rfl rfl

end Meatpi
