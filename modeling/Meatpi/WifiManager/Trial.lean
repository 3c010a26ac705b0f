import Meatpi.Library.WrapClock

/-!
# The connection trial (`wifi_manager_trial.c`)

A trial joins a network with credentials that are not stored, and reports how that
went. The machine takes the driver's events and a clock. A connected station must let
go first; the events carry no attempt, so that what the trial goes by is when they
come.
-/

namespace Meatpi

open List

def wmSsidLen : ℕ := 33
def wmPassLen : ℕ := 65
def wmTrialTotalMs : UInt32 := 20000
def wmTrialIpMs : UInt32 := 8000
def wmTrialLeaveMs : UInt32 := 3000

inductive WmTrialState
  | idle | leaving | connecting | associated | done
  deriving DecidableEq

inductive WmTrialResult
  | none | connected | password | notFound | refused | noIp | timeout
  deriving DecidableEq

inductive WmTrialAction
  | none | connect | finish
  deriving DecidableEq

/-- `wm_trial_t`; the times wrap. -/
structure WmTrial where
  state : WmTrialState
  result : WmTrialResult
  ssid : List UInt8
  password : List UInt8
  reason : UInt8
  ip : List UInt8
  rssi : Int8
  channel : UInt8
  hint : UInt8
  tStart : UInt32
  tAssoc : UInt32
  tDone : UInt32

def WmTrial.init : WmTrial := ⟨.idle, .none, [], [], 0, [], 0, 0, 0, 0, 0, 0⟩

def WmTrial.active (t : WmTrial) : Bool :=
  t.state = .leaving || t.state = .connecting || t.state = .associated

def wmTrialClassify (reason : UInt8) : WmTrialResult :=
  if reason = 2 ∨ reason = 15 ∨ reason = 202 ∨ reason = 204 then .password
  else if reason = 201 then .notFound
  else .refused

def WmTrial.finish (t : WmTrial) (r : WmTrialResult) (nowMs : UInt32) : WmTrial × WmTrialAction :=
  ({ t with state := .done, result := r, tDone := nowMs }, .finish)

/-- The step to `WM_TRIAL_CONNECTING` from a leaving trial: the budget counts from it. -/
def WmTrial.connectAt (t : WmTrial) (nowMs : UInt32) : WmTrial :=
  { t with state := .connecting, tStart := nowMs }

/-- `wm_trial_begin`; the texts are without their terminators. -/
def wmTrialBegin (t : WmTrial) (ssid password : List UInt8) (hint : UInt8) (staBusy : Bool)
    (nowMs : UInt32) : WmTrial × WmTrialAction :=
  if t.active then (t, .none)
  else if ssid.length = 0 ∨ wmSsidLen ≤ ssid.length ∨ wmPassLen ≤ password.length ∨
      (password.length ≠ 0 ∧ password.length < 8) then (t, .none)
  else
    let t := { WmTrial.init with
      ssid := ssid, password := password, hint := if 1 ≤ hint ∧ hint ≤ 13 then hint else 0
      tStart := nowMs }
    -- a station that is connected, or mid-attempt, must let go first
    if staBusy then ({ t with state := .leaving }, .none)
    else ({ t with state := .connecting }, .connect)

def WmTrial.onDisconnect (t : WmTrial) (reason : UInt8) (nowMs : UInt32) :
    WmTrial × WmTrialAction :=
  match t.state with
  | .leaving => (t.connectAt nowMs, .connect)
  | .connecting | .associated =>
    { t with reason := reason }.finish (wmTrialClassify reason) nowMs
  | _ => (t, .none)

def WmTrial.onAssociated (t : WmTrial) (channel : UInt8) (nowMs : UInt32) : WmTrial :=
  if t.state = .connecting then
    { t with state := .associated, channel := channel, tAssoc := nowMs }
  else t

def WmTrial.onGotIp (t : WmTrial) (ip : List UInt8) (rssi : Int8) (nowMs : UInt32) :
    WmTrial × WmTrialAction :=
  if t.state ≠ .connecting ∧ t.state ≠ .associated then (t, .none)
  else { t with ip := ip.take 15, rssi := rssi }.finish .connected nowMs

def WmTrial.tick (t : WmTrial) (nowMs : UInt32) : WmTrial × WmTrialAction :=
  match t.state with
  | .leaving =>
    -- a disconnect event that never came: go anyway
    if wmTrialLeaveMs ≤ nowMs - t.tStart then (t.connectAt nowMs, .connect) else (t, .none)
  | .associated | .connecting =>
    if wmTrialTotalMs ≤ nowMs - t.tStart then t.finish .timeout nowMs
    else if t.state = .associated ∧ wmTrialIpMs ≤ nowMs - t.tAssoc then t.finish .noIp nowMs
    else (t, .none)
  | _ => (t, .none)

/-! ## A run -/

/-- What reaches the machine. -/
inductive WmTrialEvent
  | disconnect (reason : UInt8)
  | associated (channel : UInt8)
  | gotIp (ip : List UInt8) (rssi : Int8)
  | tick
  deriving DecidableEq

/-- An event at its true time; `old` is one of the connection that the station was told
to leave, which the machine is not told. -/
structure WmTrialInput where
  ev : WmTrialEvent
  time : ℕ
  old : Bool
  deriving DecidableEq

/-- A step at the wrapping time. -/
def WmTrial.input (t : WmTrial) (i : WmTrialInput) : WmTrial × WmTrialAction :=
  match i.ev with
  | .disconnect reason => t.onDisconnect reason (UInt32.ofNat i.time)
  | .associated channel => (t.onAssociated channel (UInt32.ofNat i.time), .none)
  | .gotIp ip rssi => t.onGotIp ip rssi (UInt32.ofNat i.time)
  | .tick => t.tick (UInt32.ofNat i.time)

/-- The inputs of a run with the actions, and where it ends. -/
def wmTrialMoves (t : WmTrial) : List WmTrialInput → List (WmTrialInput × WmTrialAction)
  | [] => []
  | i :: rest => (i, (t.input i).2) :: wmTrialMoves (t.input i).1 rest

def wmTrialEnd (t : WmTrial) (inputs : List WmTrialInput) : WmTrial :=
  inputs.foldl (fun t i => (t.input i).1) t

/-- Nothing is asked for. -/
def WmQuiet (t : WmTrial) (inputs : List WmTrialInput) : Prop :=
  ∀ m ∈ wmTrialMoves t inputs, m.2 = .none

/-- The budget from `start` has run out, and the clock has not come round. -/
def WmOver (start : ℕ) (budget : UInt32) (now : ℕ) : Prop :=
  start + budget.toNat ≤ now ∧ now < start + 2 ^ 32

/-- Waiting for the station to let go: nothing changes, there is no disconnect, and no
tick after `WM_TRIAL_LEAVE_MS`. -/
structure WmLeaving (t : WmTrial) (start : ℕ) (inputs : List WmTrialInput) : Prop where
  quiet : WmQuiet t inputs
  same : wmTrialEnd t inputs = t
  calm : ∀ i ∈ inputs, ∀ reason, i.ev ≠ .disconnect reason
  intime : ∀ i ∈ inputs, i.ev = .tick → ¬ WmOver start wmTrialLeaveMs i.time

/-- On the way since its `CONNECT` at `start`: there is neither a disconnect nor an
address, and no tick after `WM_TRIAL_TOTAL_MS`. -/
structure WmTrying (t : WmTrial) (start : ℕ) (inputs : List WmTrialInput) : Prop where
  quiet : WmQuiet t inputs
  onway : (wmTrialEnd t inputs).state = .connecting ∨ (wmTrialEnd t inputs).state = .associated
  calm : ∀ i ∈ inputs, (∀ reason, i.ev ≠ .disconnect reason) ∧ ∀ ip rssi, i.ev ≠ .gotIp ip rssi
  intime : ∀ i ∈ inputs, i.ev = .tick → ¬ WmOver start wmTrialTotalMs i.time

/-- A trial from its `CONNECT` on: it tries, or it has finished, once, and does nothing
more. -/
def WmReports (t : WmTrial) (start : ℕ) (inputs : List WmTrialInput) : Prop :=
  WmTrying t start inputs ∨
    ∃ tried i rest, inputs = tried ++ i :: rest ∧ WmTrying t start tried ∧
      ((wmTrialEnd t tried).input i).2 = .finish ∧
      (wmTrialEnd t inputs) = ((wmTrialEnd t tried).input i).1 ∧
      (wmTrialEnd t inputs).state = .done ∧ WmQuiet ((wmTrialEnd t tried).input i).1 rest

/-! ## One step -/

variable {t : WmTrial} {i : WmTrialInput} {start : ℕ}

theorem not_over {budget : UInt32} (hb : t.tStart = UInt32.ofNat start) (hle : start ≤ i.time)
    (h : ¬ budget ≤ UInt32.ofNat i.time - t.tStart) : ¬ WmOver start budget i.time := by
  rw [UInt32.le_iff_toNat_le, hb, stamp_sub] at h
  rintro ⟨hover, hwrap⟩
  omega

theorem input_leaving (hs : t.state = .leaving) (hstart : t.tStart = UInt32.ofNat start)
    (hle : start ≤ i.time) :
    t.input i = (t, .none) ∧ (∀ reason, i.ev ≠ .disconnect reason) ∧
        (i.ev = .tick → ¬ WmOver start wmTrialLeaveMs i.time) ∨
      t.input i = (t.connectAt (UInt32.ofNat i.time), .connect) := by
  cases hev : i.ev with
  | disconnect reason => exact .inr (by simp [WmTrial.input, hev, WmTrial.onDisconnect, hs])
  | associated channel =>
    exact .inl ⟨by simp [WmTrial.input, hev, WmTrial.onAssociated, hs], nofun, nofun⟩
  | gotIp ip rssi =>
    exact .inl ⟨by simp [WmTrial.input, hev, WmTrial.onGotIp, hs], nofun, nofun⟩
  | tick =>
    simp only [WmTrial.input, hev, WmTrial.tick, hs]
    split_ifs with hleave
    · exact .inr rfl
    · exact .inl ⟨rfl, nofun, fun _ => not_over hstart hle hleave⟩

theorem input_trying (hs : t.state = .connecting ∨ t.state = .associated)
    (hstart : t.tStart = UInt32.ofNat start) (hle : start ≤ i.time) :
    ((t.input i).2 = .none ∧
        ((t.input i).1.state = .connecting ∨ (t.input i).1.state = .associated) ∧
        (t.input i).1.tStart = t.tStart ∧
        ((∀ reason, i.ev ≠ .disconnect reason) ∧ ∀ ip rssi, i.ev ≠ .gotIp ip rssi) ∧
        (i.ev = .tick → ¬ WmOver start wmTrialTotalMs i.time)) ∨
      ((t.input i).2 = .finish ∧ (t.input i).1.state = .done) := by
  cases hev : i.ev with
  | disconnect reason =>
    rcases hs with hs | hs <;>
      exact .inr (by simp [WmTrial.input, hev, WmTrial.onDisconnect, hs, WmTrial.finish])
  | gotIp ip rssi =>
    rcases hs with hs | hs <;>
      exact .inr (by simp [WmTrial.input, hev, WmTrial.onGotIp, hs, WmTrial.finish])
  | associated channel =>
    rcases hs with hs | hs <;>
      exact .inl (by simp [WmTrial.input, hev, WmTrial.onAssociated, hs])
  | tick =>
    have hlate : ¬ wmTrialTotalMs ≤ UInt32.ofNat i.time - t.tStart →
        ¬ WmOver start wmTrialTotalMs i.time := not_over hstart hle
    rcases hs with hs | hs <;> simp only [WmTrial.input, hev, WmTrial.tick, hs] <;>
      split_ifs with htotal hip <;>
      first
        | exact .inr ⟨rfl, rfl⟩
        | exact .inl ⟨rfl, by simp [hs], rfl, ⟨nofun, nofun⟩, fun _ => hlate htotal⟩

theorem input_done (hs : t.state = .done) : t.input i = (t, .none) := by
  cases hev : i.ev <;>
    simp [WmTrial.input, hev, WmTrial.onDisconnect, WmTrial.onAssociated, WmTrial.onGotIp,
      WmTrial.tick, hs]

/-! ## A trial from its start to its end -/

theorem wmQuiet_cons {rest : List WmTrialInput} (h : (t.input i).2 = .none)
    (hrest : WmQuiet (t.input i).1 rest) : WmQuiet t (i :: rest) := by
  intro m hm
  rw [wmTrialMoves, mem_cons] at hm
  rcases hm with rfl | hm
  · exact h
  · exact hrest m hm

theorem wmQuiet_done (hs : t.state = .done) : ∀ inputs : List WmTrialInput,
    WmQuiet t inputs ∧ wmTrialEnd t inputs = t := by
  intro inputs
  induction inputs with
  | nil => exact ⟨nofun, rfl⟩
  | cons i rest ih =>
    have hi := input_done hs (i := i)
    refine ⟨wmQuiet_cons (by rw [hi]) (by rw [hi]; exact ih.1), ?_⟩
    rw [wmTrialEnd, foldl_cons, hi]
    exact ih.2

/-- **While the station lets go** nothing happens, up to the `CONNECT`, which is there
whatever came before it. -/
theorem leaving_or_connects (hs : t.state = .leaving) (hstart : t.tStart = UInt32.ofNat start)
    {inputs : List WmTrialInput} (hle : ∀ i ∈ inputs, start ≤ i.time) :
    WmLeaving t start inputs ∨ ∃ left i rest, inputs = left ++ i :: rest ∧ WmLeaving t start left ∧
        t.input i = (t.connectAt (UInt32.ofNat i.time), .connect) := by
  have hnil : WmLeaving t start [] := ⟨nofun, rfl, nofun, nofun⟩
  have hcons : ∀ {i : WmTrialInput} {rest : List WmTrialInput}, t.input i = (t, .none) →
      (∀ reason, i.ev ≠ .disconnect reason) →
      (i.ev = .tick → ¬ WmOver start wmTrialLeaveMs i.time) → WmLeaving t start rest →
      WmLeaving t start (i :: rest) := by
    intro i rest hi hcalm hover h
    refine ⟨wmQuiet_cons (by rw [hi]) (by rw [hi]; exact h.quiet), ?_, ?_, ?_⟩
    · rw [wmTrialEnd, foldl_cons, hi]
      exact h.same
    · exact forall_mem_cons.2 ⟨hcalm, h.calm⟩
    · exact forall_mem_cons.2 ⟨hover, h.intime⟩
  induction inputs with
  | nil => exact .inl hnil
  | cons i rest ih =>
    rw [forall_mem_cons] at hle
    rcases input_leaving hs hstart hle.1 with ⟨hi, hcalm, hover⟩ | hi
    · rcases ih hle.2 with h | ⟨left, j, more, rfl, hleft, hj⟩
      · exact .inl (hcons hi hcalm hover h)
      · exact .inr ⟨i :: left, j, more, rfl, hcons hi hcalm hover hleft, hj⟩
    · exact .inr ⟨[], i, rest, rfl, hnil, hi⟩

/-- **From its `CONNECT` on** a trial tries, and then it has finished. -/
theorem reports_of_trying {inputs : List WmTrialInput} :
    ∀ {t : WmTrial}, t.state = .connecting ∨ t.state = .associated →
      t.tStart = UInt32.ofNat start → (∀ i ∈ inputs, start ≤ i.time) →
      WmReports t start inputs := by
  induction inputs with
  | nil => exact fun hs _ _ => .inl ⟨nofun, hs, nofun, nofun⟩
  | cons i rest ih =>
    intro t hs hstart hle
    rw [forall_mem_cons] at hle
    rcases input_trying hs hstart hle.1 with ⟨hi, hs', hstart', hcalm, hover⟩ | ⟨hi, hdone⟩
    · have hcons : ∀ {rest : List WmTrialInput}, WmTrying (t.input i).1 start rest →
          WmTrying t start (i :: rest) := fun h =>
        ⟨wmQuiet_cons hi h.quiet, h.onway, forall_mem_cons.2 ⟨hcalm, h.calm⟩,
          forall_mem_cons.2 ⟨hover, h.intime⟩⟩
      rcases ih hs' (hstart'.trans hstart) hle.2 with h | ⟨tried, j, more, rfl, htried, hrest⟩
      · exact .inl (hcons h)
      · exact .inr ⟨i :: tried, j, more, rfl, hcons htried, hrest⟩
    · obtain ⟨hquiet, hend⟩ := wmQuiet_done hdone rest
      exact .inr ⟨[], i, rest, rfl, ⟨nofun, hs, nofun, nofun⟩, hi, hend,
        (congrArg WmTrial.state hend).trans hdone, hquiet⟩

/-- **A trial reports its own attempt**, as far as the order of the events tells: whatever
comes, a trial that begins connects once, at once or when the station has let go or
`WM_TRIAL_LEAVE_MS` are over; it finishes once, by the first tick that is
`WM_TRIAL_TOTAL_MS` after that; it does nothing then. What it is from its `CONNECT` on, and
so its result, it is by what comes after that. -/
theorem wmTrial_reports {t₀ : WmTrial} {ssid password : List UInt8} {hint : UInt8} {busy : Bool}
    {start : ℕ} {inputs : List WmTrialInput} {t : WmTrial} {act : WmTrialAction}
    (hbegin : wmTrialBegin t₀ ssid password hint busy (UInt32.ofNat start) = (t, act))
    (hidle : t₀.active = false) (hactive : t.active = true)
    (htimes : (start :: inputs.map WmTrialInput.time).Pairwise (· ≤ ·)) :
    (busy = false ∧ act = .connect ∧ WmReports t start inputs) ∨ (busy = true ∧ act = .none ∧
        (WmLeaving t start inputs ∨
          ∃ left i rest, inputs = left ++ i :: rest ∧ WmLeaving t start left ∧
            t.input i = (t.connectAt (UInt32.ofNat i.time), .connect) ∧
            WmReports (t.connectAt (UInt32.ofNat i.time)) i.time rest)) := by
  rw [pairwise_cons, forall_mem_map] at htimes
  rw [wmTrialBegin, hidle, if_neg Bool.false_ne_true] at hbegin
  split at hbegin
  · cases hbegin
    rw [hidle] at hactive
    cases hactive
  · cases busy with
    | false =>
      obtain ⟨rfl, rfl⟩ := Prod.mk.inj hbegin
      exact .inl ⟨rfl, rfl, reports_of_trying (.inl rfl) rfl htimes.1⟩
    | true =>
      obtain ⟨ht, rfl⟩ := Prod.mk.inj hbegin
      have hs : t.state = .leaving := by rw [← ht]
      have hstart : t.tStart = UInt32.ofNat start := by rw [← ht]
      refine .inr ⟨rfl, rfl, (leaving_or_connects hs hstart htimes.1).imp_right ?_⟩
      rintro ⟨left, i, rest, rfl, hleft, hi⟩
      refine ⟨left, i, rest, rfl, hleft, hi, reports_of_trying (.inl rfl) rfl ?_⟩
      have hrest := htimes.2
      rw [map_append, pairwise_append, map_cons, pairwise_cons, forall_mem_map] at hrest
      exact hrest.2.1.1

/-- A station that is connected, told to leave for a trial. -/
def wmBusyTrial : WmTrial := (wmTrialBegin .init [65] [] 0 true (UInt32.ofNat 0)).1

/-- It lets go, with a late address before it does, and joins the network of the trial. -/
def wmJoins : List WmTrialInput :=
  [⟨.tick, 1000, false⟩, ⟨.gotIp [49] 0, 1500, true⟩, ⟨.disconnect 8, 1800, true⟩,
    ⟨.associated 6, 2500, false⟩, ⟨.gotIp [50] (-60), 4000, false⟩, ⟨.disconnect 8, 5000, false⟩]

theorem wmTrial_reports_busy :
    (∃ left i rest, wmJoins = left ++ i :: rest ∧ WmLeaving wmBusyTrial 0 left ∧
      wmBusyTrial.input i = (wmBusyTrial.connectAt (UInt32.ofNat i.time), .connect) ∧
      ∃ tried j after, rest = tried ++ j :: after ∧
        WmTrying (wmBusyTrial.connectAt (UInt32.ofNat i.time)) i.time tried ∧
        ((wmTrialEnd (wmBusyTrial.connectAt (UInt32.ofNat i.time)) tried).input j).2 = .finish) ∧
      (wmTrialMoves wmBusyTrial wmJoins).map Prod.snd =
        [.none, .none, .connect, .none, .finish, .none] ∧
      (wmTrialEnd wmBusyTrial wmJoins).result = .connected := by
  have hbegin : wmTrialBegin .init [65] [] 0 true (UInt32.ofNat 0) = (wmBusyTrial, .none) := rfl
  have htimes : (0 :: wmJoins.map WmTrialInput.time).Pairwise (· ≤ ·) := by decide
  have hdone : (wmTrialEnd wmBusyTrial wmJoins).state = .done := by decide
  refine ⟨?_, by decide, by decide⟩
  rcases wmTrial_reports hbegin rfl rfl htimes with
    ⟨h, -⟩ | ⟨-, -, h | ⟨left, i, rest, hjoins, hleft, hi, h⟩⟩
  · cases h
  · exact absurd rfl (h.calm ⟨.disconnect 8, 1800, true⟩ (by decide) 8)
  · refine ⟨left, i, rest, hjoins, hleft, hi, ?_⟩
    have hend : wmTrialEnd wmBusyTrial wmJoins =
        wmTrialEnd (wmBusyTrial.connectAt (UInt32.ofNat i.time)) rest := by
      have hsame := hleft.same
      rw [wmTrialEnd] at hsame
      rw [hjoins, wmTrialEnd, foldl_append, hsame, foldl_cons, hi]
      rfl
    rw [hend] at hdone
    rcases h with h | ⟨tried, j, after, hrest, htried, hfinish, -⟩
    · have hway := h.onway
      rw [hdone] at hway
      rcases hway with hway | hway <;> cases hway
    · exact ⟨tried, j, after, hrest, htried, hfinish⟩

/-- **The leaving step ends by its timeout too**: the disconnect of the old connection, which
comes after it, is then the verdict. And when the first tick comes late, the `CONNECT` does,
and the trial goes on past the sum of both budgets. -/
theorem not_wmTrial_reports :
    wmTrialMoves wmBusyTrial [⟨.tick, 3000, false⟩, ⟨.disconnect 8, 3001, true⟩] =
        [(⟨.tick, 3000, false⟩, .connect), (⟨.disconnect 8, 3001, true⟩, .finish)] ∧
      (wmTrialEnd wmBusyTrial [⟨.tick, 3000, false⟩, ⟨.disconnect 8, 3001, true⟩]).result =
        .refused ∧
      (wmTrialEnd wmBusyTrial [⟨.tick, 23000, false⟩]).state = .connecting := by
  decide

end Meatpi
