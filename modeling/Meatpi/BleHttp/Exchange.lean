import Meatpi.Library.Exchange
import Meatpi.Library.Run
import Meatpi.BleHttp.Backend

/-!
# One answer for each request

The tunnel seen as a server of one request at a time (`Bleh.Views`): every call
of the core is a number of `Exchange` steps, as long as the link takes the
frames. What holds of the exchange then holds of the frames.
-/

namespace Meatpi

open List

variable {inputs : List Input}

/-! ## The view -/

/-- What a frame of the device says. -/
def BlehFrame.Says (f : BlehFrame) : ExMark → Prop
  | .credit => f.type = blehTCredit ∧ f.flags = 0
  | .head => f.type = blehTRsp ∧ f.flags = 0
  | .data ctr => f.type = blehTRspBody ∧ f.flags = blehCtrFlags (UInt8.ofNat ctr) false
  | .last ctr => f.type = blehTRspBody ∧ f.flags = blehCtrFlags (UInt8.ofNat ctr) true

/-- It says it of that request. -/
def BlehFrame.Tells (f : BlehFrame) (s : UInt16 × ExMark) : Prop :=
  f.seq = s.1 ∧ f.Says s.2

namespace Bleh

variable {β : Type} {env : BlehEnv β} {w w' : Bleh β} {e : Exchange UInt16}

def At (w : Bleh β) : ExPhase → Prop
  | .idle => w.state = .idle
  | .upload => w.state = .body
  | .stream n => w.state = .responding ∧ w.rspCtr = UInt8.ofNat (n % 16)

/-- The tunnel as a server of one request at a time. -/
structure Views (w : Bleh β) (e : Exchange UInt16) : Prop where
  phase : w.At e.phase
  seq : e.phase ≠ .idle → e.seq = w.seq
  sent : List.Forall₂ BlehFrame.Tells w.log.sent e.sent
  handled : e.handled = w.log.handled
  dropped : e.dropped = w.log.dropped
  frame : w.outFrame.toNat ≤ blehFrameMax

/-- The step from `w` to `w'` is a number of steps of the server. -/
def Simulates (w w' : Bleh β) : Prop :=
  ∀ e, w.Views e → ∃ e', Exchange.Steps 16 e e' ∧ w'.Views e'

theorem Simulates.trans {w₁ w₂ w₃ : Bleh β} (h : w₁.Simulates w₂) (h' : w₂.Simulates w₃) :
    w₁.Simulates w₃ := by
  intro e hviews
  obtain ⟨e₂, hsteps, hviews₂⟩ := h e hviews
  obtain ⟨e₃, hsteps₃, hviews₃⟩ := h' e₂ hviews₂
  exact ⟨e₃, hsteps.trans hsteps₃, hviews₃⟩

theorem Simulates.quiet (hstate : w'.state = w.state) (hseq : w.state ≠ .idle → w'.seq = w.seq)
    (hctr : w'.rspCtr = w.rspCtr) (hframe : w'.outFrame = w.outFrame)
    (hsent : w'.log.sent = w.log.sent) (hhandled : w'.log.handled = w.log.handled)
    (hdropped : w'.log.dropped = w.log.dropped) : w.Simulates w' := by
  intro e hviews
  have hphase : ∀ p, w.At p → w'.At p := by
    intro p hp
    cases p with
    | idle => exact hstate.trans hp
    | upload => exact hstate.trans hp
    | stream n => exact ⟨hstate.trans hp.1, hctr.trans hp.2⟩
  refine ⟨e, .refl e, hphase _ hviews.phase, ?_, ?_, ?_, ?_, ?_⟩
  · intro hne
    rw [hviews.seq hne, hseq]
    intro hidle
    have hp := hviews.phase
    cases hcase : e.phase with
    | idle => exact hne hcase
    | upload =>
      rw [hcase] at hp
      exact absurd (hidle.symm.trans hp) (by decide)
    | stream n =>
      rw [hcase] at hp
      exact absurd (hidle.symm.trans hp.1) (by decide)
  · rw [hsent]
    exact hviews.sent
  · rw [hhandled]
    exact hviews.handled
  · rw [hdropped]
    exact hviews.dropped
  · rw [hframe]
    exact hviews.frame

theorem Simulates.behind {w₂ : Bleh β} (h : w₂.Simulates w') (hstate : w₂.state = w.state)
    (hseq : w.state ≠ .idle → w₂.seq = w.seq) (hctr : w₂.rspCtr = w.rspCtr)
    (hframe : w₂.outFrame = w.outFrame) (hsent : w₂.log.sent = w.log.sent)
    (hhandled : w₂.log.handled = w.log.handled) (hdropped : w₂.log.dropped = w.log.dropped) :
    w.Simulates w' :=
  (Simulates.quiet hstate hseq hctr hframe hsent hhandled hdropped).trans h

theorem Simulates.refl (w : Bleh β) : w.Simulates w := .quiet rfl (fun _ => rfl) rfl rfl rfl rfl rfl

/-! ## The steps -/

theorem says_errFrame (seq : UInt16) (status : ℤ) (err : String) :
    (errFrame seq status err).Tells (seq, .head) :=
  ⟨rfl, rfl, rfl⟩

theorem says_lastFrame (n : ℕ) (seq : UInt16) :
    (lastFrame (UInt8.ofNat n) seq).Tells (seq, .last n) :=
  ⟨rfl, rfl, rfl⟩

theorem Views.tell (h : w.Views e) {frames : List BlehFrame} {marks : List (UInt16 × ExMark)}
    (htells : List.Forall₂ BlehFrame.Tells frames marks) :
    List.Forall₂ BlehFrame.Tells (w.log.sent ++ frames) (e.sent ++ marks) :=
  rel_append h.sent htells

theorem Views.upload (h : w.Views e) (hstate : w.state = .body) : e.phase = .upload := by
  have hp := h.phase
  cases hcase : e.phase with
  | idle =>
    rw [hcase] at hp
    exact absurd (hp.symm.trans hstate) (by decide)
  | upload => rfl
  | stream n =>
    rw [hcase] at hp
    exact absurd (hp.1.symm.trans hstate) (by decide)

theorem Views.stream (h : w.Views e) (hstate : w.state = .responding) :
    ∃ n, e.phase = .stream n ∧ w.rspCtr = UInt8.ofNat (n % 16) := by
  have hp := h.phase
  cases hcase : e.phase with
  | idle =>
    rw [hcase] at hp
    exact absurd (hp.symm.trans hstate) (by decide)
  | upload =>
    rw [hcase] at hp
    exact absurd (hp.symm.trans hstate) (by decide)
  | stream n =>
    rw [hcase] at hp
    exact ⟨n, rfl, hp.2⟩

theorem Views.idle (h : w.Views e) (hstate : w.state = .idle) : e.phase = .idle := by
  have hp := h.phase
  cases hcase : e.phase with
  | idle => rfl
  | upload =>
    rw [hcase] at hp
    exact absurd (hp.symm.trans hstate) (by decide)
  | stream n =>
    rw [hcase] at hp
    exact absurd (hp.1.symm.trans hstate) (by decide)

theorem Views.idle_iff (h : w.Views e) : e.phase = .idle ↔ w.state = .idle := by
  refine ⟨fun hphase => ?_, h.idle⟩
  have hat := h.phase
  rw [hphase] at hat
  exact hat

theorem simulates_refuse (hdelivers : env.Delivers) (w : Bleh β) (q : UInt16) (status : ℤ)
    (err : String) : w.Simulates (emitError env (w.handle q) q status err) := by
  intro e hviews
  obtain ⟨ctx, ctr, more, refused, heq, -, hmore, hrefused⟩ :=
    emitError_eq env (w.handle q) q status err
  rw [heq, hmore (hrefused hdelivers)]
  refine ⟨_, (Exchange.Step.refuse e q).steps, ?_⟩
  constructor
  · exact hviews.phase
  · exact hviews.seq
  · exact hviews.tell (.cons (says_errFrame q status err) (.cons (says_lastFrame 0 q) .nil))
  · rw [hviews.handled]
    rfl
  · exact hviews.dropped
  · exact hviews.frame

theorem simulates_fail (hstate : w.state = .body) (ctx : β) (ctr : BlehCounters) (status : ℤ)
    (err : String) (refused : List BlehFrame) (calls : List BlehCall) :
    w.Simulates (w.idled ctx ctr [errFrame w.seq status err, lastFrame 0 w.seq] refused calls) := by
  intro e hviews
  have hphase := hviews.upload hstate
  have hseq : e.seq = w.seq := hviews.seq (by simp [hphase])
  refine ⟨_, Exchange.steps_fail e hphase, ?_⟩
  constructor
  · rfl
  · exact fun hne => absurd rfl hne
  · rw [hseq]
    exact hviews.tell (.cons (says_errFrame _ _ _) (.cons (says_lastFrame 0 _) .nil))
  · exact hviews.handled
  · exact hviews.dropped
  · exact hviews.frame

theorem simulates_end (hstate : w.state = .responding) (ctx : β) (ctr : BlehCounters)
    (refused : List BlehFrame) (calls : List BlehCall) :
    w.Simulates (w.idled ctx ctr [lastFrame w.rspCtr w.seq] refused calls) := by
  intro e hviews
  obtain ⟨n, hphase, hctr⟩ := hviews.stream hstate
  have hseq : e.seq = w.seq := hviews.seq (by simp [hphase])
  refine ⟨_, (Exchange.Step.last e n hphase).steps, ?_⟩
  constructor
  · rfl
  · exact fun hne => absurd rfl hne
  · rw [hseq, hctr]
    exact hviews.tell (.cons (says_lastFrame _ _) .nil)
  · exact hviews.handled
  · exact hviews.dropped
  · exact hviews.frame

theorem toNat_min_le (a b : UInt16) : (min a b).toNat ≤ b.toNat := by
  change (ite (a ≤ b) a b).toNat ≤ b.toNat
  split
  · rename_i hle
    exact UInt16.le_iff_toNat_le.mp hle
  · exact le_refl _

theorem frameCap_le (linkNotify : Bool) (linkPdu : UInt16) :
    (frameCap linkNotify linkPdu).toNat ≤ blehFrameMax := by
  rw [frameCap]
  cases linkNotify with
  | false => exact le_refl 4096
  | true =>
    rw [if_pos rfl]
    exact toNat_min_le _ 4096

theorem simulates_finish (hdelivers : env.Delivers) {nowMs : UInt32}
    (hfinished : Finished env w nowMs w') : ({ w with state := .body }).Simulates w' := by
  cases hfinished with
  | failed ctx ctr more refused hmore hended hrefused =>
    rw [hended (hrefused hdelivers)]
    exact simulates_fail (w := { w with state := .body }) rfl ctx ctr 502 "upstream" refused _
  | refused ctx ctr head hrefused => exact absurd hdelivers hrefused
  | streams ctx ctr head =>
    intro e hviews
    have hphase := hviews.upload rfl
    have hseq : e.seq = w.seq := hviews.seq (by simp [hphase])
    refine ⟨_, (Exchange.Step.head e hphase).steps, ?_⟩
    constructor
    · exact ⟨rfl, rfl⟩
    · exact fun _ => hseq
    · rw [hseq]
      exact hviews.tell (.cons ⟨rfl, rfl, rfl⟩ .nil)
    · exact hviews.handled
    · exact hviews.dropped
    · exact frameCap_le _ _

theorem nextCtr (n : ℕ) : (UInt8.ofNat (n % 16) + 1) &&& 0x0F = UInt8.ofNat ((n + 1) % 16) := by
  have hall : ∀ r < 16, (UInt8.ofNat r + 1) &&& 0x0F = UInt8.ofNat ((r + 1) % 16) := by decide
  have hr := hall (n % 16) (Nat.mod_lt n (by omega))
  rwa [Nat.mod_add_mod] at hr

theorem simulates_pumpFrame (hdelivers : env.Delivers) (hstate : w.state = .responding)
    (nowMs : UInt32) {r : Bleh β × Bool} (hpumped : Pumped env w nowMs r) : w.Simulates r.1 := by
  cases hpumped with
  | stalled hblocked ctr => exact .quiet rfl (fun _ => rfl) rfl rfl rfl rfl rfl
  | ended hfree ctx ctr refused => exact simulates_end hstate ctx ctr refused _
  | refused hfree ctx ctr data hrefused => exact absurd hdelivers hrefused
  | sent hfree ctx ctr data hne hlen =>
    intro e hviews
    obtain ⟨n, hphase, hctr⟩ := hviews.stream hstate
    have hseq : e.seq = w.seq := hviews.seq (by simp [hphase])
    refine ⟨_, (Exchange.Step.data e n hphase).steps, ?_⟩
    constructor
    · exact ⟨hstate, by rw [← nextCtr, hctr]⟩
    · exact fun _ => hseq
    · rw [hseq, hctr]
      exact hviews.tell (.cons ⟨rfl, rfl, rfl⟩ .nil)
    · exact hviews.handled
    · exact hviews.dropped
    · exact hviews.frame

theorem simulates_pump (hdelivers : env.Delivers) (w : Bleh β) (nowMs : UInt32) :
    w.Simulates (pump env w nowMs).1 := by
  apply pump_inv env nowMs (I := w.Simulates) _ w (.refl w)
  intro w₁ hstate hsim e hviews
  obtain ⟨e₁, hsteps, hviews₁⟩ := hsim e hviews
  have hpumped := pumpFrame_pumped env w₁ nowMs hviews₁.frame
  obtain ⟨e₂, hsteps₂, hviews₂⟩ := simulates_pumpFrame hdelivers hstate nowMs hpumped e₁ hviews₁
  exact ⟨e₂, hsteps.trans hsteps₂, hviews₂⟩

/-! ## The calls -/

theorem simulates_onReq (hdelivers : env.Delivers) (w : Bleh β) (h : BlehHdr) (payload : List UInt8)
    (nowMs : UInt32) : w.Simulates (onReq env w h payload nowMs) := by
  rw [onReq]
  by_cases hstate : w.state = .idle
  · rw [if_neg (not_not.mpr hstate)]
    cases hparse : blehReqParse (env.cjsonParse payload) with
    | error r => exact simulates_refuse hdelivers w h.seq r.1 r.2
    | ok req =>
      dsimp only
      rcases hopen : env.openReq ((w.handle h.seq).accept h req nowMs).ctx req with ⟨ctx, ok⟩
      cases ok with
      | false =>
        -- what the refused open leaves behind is looked at by nobody
        intro e hviews
        have hidle := hviews.idle hstate
        obtain ⟨ctx', ctr, more, refused, heq, -, hmore, hrefused⟩ := emitError_eq env
          (((w.handle h.seq).accept h req nowMs).call ctx (.openReq false)) h.seq 502 "upstream"
        dsimp only
        rw [heq, hmore (hrefused hdelivers)]
        refine ⟨_, (Exchange.Step.refuse e h.seq).steps, ?_⟩
        constructor
        · exact hviews.phase
        · exact fun hne => absurd hidle hne
        · exact hviews.tell (.cons (says_errFrame h.seq 502 "upstream")
            (.cons (says_lastFrame 0 h.seq) .nil))
        · rw [hviews.handled]
          rfl
        · exact hviews.dropped
        · exact hviews.frame
      | true =>
        have haccept : w.Simulates { ((w.handle h.seq).accept h req nowMs).call ctx
            (.openReq true) with
          upstreamOpen := true
          state := .body } := by
          intro e hviews
          refine ⟨_, (Exchange.Step.accept e h.seq (hviews.idle hstate)).steps, ?_⟩
          constructor
          · rfl
          · exact fun _ => rfl
          · exact hviews.sent
          · rw [hviews.handled]
            rfl
          · exact hviews.dropped
          · exact hviews.frame
        dsimp only
        by_cases hlen : req.len = 0
        · rw [if_pos hlen]
          have hfinished := finishRequest_finished env
            { ((w.handle h.seq).accept h req nowMs).call ctx (.openReq true) with
              upstreamOpen := true } nowMs
          exact haccept.trans (simulates_finish hdelivers hfinished)
        · rw [if_neg hlen]
          exact haccept
  · rw [if_pos hstate]
    exact simulates_refuse hdelivers w h.seq 429 "busy"

theorem simulates_failBody (hdelivers : env.Delivers) (hstate : w.state = .body) (status : ℤ)
    (err : String) : w.Simulates (failBody env w status err) := by
  obtain ⟨ctx, ctr, more, refused, heq, -, hmore, hrefused⟩ := failBody_eq env w status err
  rw [heq, hmore (hrefused hdelivers)]
  exact simulates_fail hstate ctx ctr status err refused _

theorem simulates_endAnswer (hstate : w.state = .responding) :
    w.Simulates (goIdle env (emitLast env w)) := by
  obtain ⟨ctx, ctr, refused, heq⟩ := endAnswer_eq env w
  rw [heq]
  exact simulates_end hstate ctx ctr refused _

theorem simulates_finishRequest (hdelivers : env.Delivers) (hstate : w.state = .body)
    (nowMs : UInt32) : w.Simulates (finishRequest env w nowMs) := by
  have hsim := simulates_finish hdelivers (finishRequest_finished env w nowMs)
  rwa [← hstate] at hsim

theorem simulates_tookBody (hdelivers : env.Delivers) (hstate : w.state = .body) (h : BlehHdr)
    (nowMs : UInt32) : w.Simulates (tookBody env w h nowMs) := by
  have htook := tookBody_took env w h nowMs
  generalize tookBody env w h nowMs = w' at htook
  cases htook with
  | short => exact simulates_failBody hdelivers hstate 400 "short"
  | whole => exact simulates_finishRequest hdelivers hstate nowMs
  | credit hpart hstep ctx ctr =>
    intro e hviews
    have hphase := hviews.upload hstate
    have hseq : e.seq = w.seq := hviews.seq (by simp [hphase])
    refine ⟨_, (Exchange.Step.credit e hphase).steps, ?_⟩
    constructor
    · exact hviews.phase
    · exact hviews.seq
    · rw [hseq]
      exact hviews.tell (.cons ⟨rfl, rfl, rfl⟩ .nil)
    · exact hviews.handled
    · exact hviews.dropped
    · exact hviews.frame
  | refused hstep ctx ctr hrefused => exact absurd hdelivers hrefused
  | waits => exact .refl w

theorem simulates_onReqBody (hdelivers : env.Delivers) (w : Bleh β) (h : BlehHdr)
    (payload : List UInt8) (nowMs : UInt32) : w.Simulates (onReqBody env w h payload nowMs) := by
  rw [onReqBody]
  split
  · exact .refl w
  rename_i hown
  have hstate : w.state = .body := by
    rw [not_or] at hown
    exact not_not.mp hown.1
  split
  · exact .behind (simulates_failBody hdelivers (by exact hstate) 400 "hole")
      rfl (fun _ => rfl) rfl rfl rfl rfl rfl
  split
  · exact .behind (simulates_failBody hdelivers (by exact hstate) 400 "len")
      rfl (fun _ => rfl) rfl rfl rfl rfl rfl
  obtain ⟨ctx, calls, ok, heq, -⟩ := writeBody_eq env { w with
    lastActivityMs := nowMs
    reqCtr := (w.reqCtr + 1) &&& 0x0F } payload
  rw [heq]
  cases ok with
  | false =>
    exact .behind (simulates_failBody hdelivers (by exact hstate) 502 "upstream")
      rfl (fun _ => rfl) rfl rfl rfl rfl rfl
  | true =>
    exact .behind (simulates_tookBody hdelivers (by exact hstate) h nowMs)
      rfl (fun _ => rfl) rfl rfl rfl rfl rfl

theorem simulates_close {w₂ : Bleh β} (ctr : BlehCounters)
    (h : (upstreamClose env { w with ctr := ctr }).Simulates w₂) : w.Simulates w₂ := by
  obtain ⟨ctx, heq⟩ := upstreamClose_eq env { w with ctr := ctr }
  rw [heq] at h
  exact .behind h rfl (fun _ => rfl) rfl rfl rfl rfl rfl

theorem upstreamClose_state (w : Bleh β) : (upstreamClose env w).state = w.state := by
  obtain ⟨ctx, heq⟩ := upstreamClose_eq env w
  rw [heq]

theorem simulates_onAbort (hdelivers : env.Delivers) (w : Bleh β) (h : BlehHdr) :
    w.Simulates (onAbort env w h) := by
  rw [onAbort]
  split
  · exact .quiet rfl (fun _ => rfl) rfl rfl rfl rfl rfl
  split
  · rename_i hstate
    refine simulates_close _ (simulates_failBody hdelivers ?_ 499 "aborted")
    rw [upstreamClose_state, hstate]
  · rename_i hstate
    refine simulates_close _ (simulates_endAnswer ?_)
    rw [upstreamClose_state, hstate]
  · exact .quiet rfl (fun _ => rfl) rfl rfl rfl rfl rfl

theorem simulates_onCredit (w : Bleh β) (h : BlehHdr) (payload : List UInt8) (nowMs : UInt32) :
    w.Simulates (onCredit w h payload nowMs) := by
  rw [onCredit]
  split
  · exact .refl w
  · exact .quiet rfl (fun _ => rfl) rfl rfl rfl rfl rfl

theorem simulates_handleFrame (hdelivers : env.Delivers) (w : Bleh β) (h : BlehHdr)
    (payload : List UInt8) (nowMs : UInt32) : w.Simulates (handleFrame env w h payload nowMs) := by
  have hcounted : w.Simulates { w with ctr := { w.ctr with framesRx := w.ctr.framesRx + 1 } } :=
    .quiet rfl (fun _ => rfl) rfl rfl rfl rfl rfl
  refine hcounted.trans ?_
  rw [handleFrame]
  split
  · exact simulates_onReq hdelivers _ h payload nowMs
  split
  · exact simulates_onReqBody hdelivers _ h payload nowMs
  split
  · exact simulates_onAbort hdelivers _ h
  split
  · exact simulates_onCredit _ h payload nowMs
  · exact .refl _

theorem simulates_rxData (hdelivers : env.Delivers) (w : Bleh β) (data : List UInt8)
    (nowMs : UInt32) : w.Simulates (rxData env w data nowMs) := by
  apply rxData_inv env (I := w.Simulates) _ _ w data nowMs (.refl w)
  · intro w₁ rx ctr hsim
    exact hsim.trans (.quiet rfl (fun _ => rfl) rfl rfl rfl rfl rfl)
  · intro w₁ h payload nowMs hsim
    exact hsim.trans (simulates_handleFrame hdelivers w₁ h payload nowMs)

theorem simulates_tick (hdelivers : env.Delivers) (w : Bleh β) (nowMs : UInt32) :
    w.Simulates (tick env w nowMs) := by
  rw [tick]
  split
  · exact .refl w
  split
  · rename_i hstate
    refine simulates_close _ (simulates_failBody hdelivers ?_ 504 "timeout")
    rw [upstreamClose_state, hstate]
  · rename_i hstate
    refine simulates_close _ (simulates_endAnswer ?_)
    rw [upstreamClose_state, hstate]
  · exact .refl w

theorem simulates_linkDown (w : Bleh β) : w.Simulates (linkDown env w) := by
  obtain ⟨ctx, heq⟩ := goIdle_eq env w
  rw [linkDown, heq]
  by_cases hstate : w.state = .idle
  · rw [if_pos hstate]
    exact .quiet hstate.symm (fun _ => rfl) rfl rfl rfl rfl rfl
  rw [if_neg hstate]
  intro e hviews
  have hphase : e.phase ≠ .idle := fun hidle => hstate (hviews.idle_iff.mp hidle)
  refine ⟨_, (Exchange.Step.drop e hphase).steps, ?_⟩
  constructor
  · rfl
  · exact fun hne => absurd rfl hne
  · exact hviews.sent
  · exact hviews.handled
  · rw [hviews.dropped, hviews.seq hphase]
  · exact hviews.frame

theorem simulates_take (hdelivers : env.Delivers) (w : Bleh β) (i : Input) :
    w.Simulates (w.take env i) := by
  cases i with
  | rx data nowMs => exact simulates_rxData hdelivers w data nowMs
  | pump nowMs => exact simulates_pump hdelivers w nowMs
  | tick nowMs => exact simulates_tick hdelivers w nowMs
  | setLink notify pduPayload => exact .quiet rfl (fun _ => rfl) rfl rfl rfl rfl rfl
  | linkDown => exact simulates_linkDown w

/-! ## Runs -/

/-- What was sent of a request. -/
def sentFor (q : UInt16) (w : Bleh β) : List BlehFrame :=
  w.log.sent.filter fun f => f.seq = q

/-- The request is the one the tunnel is at. -/
def Serves (w : Bleh β) (q : UInt16) : Prop :=
  w.state ≠ .idle ∧ w.seq = q

/-- The frames of a whole answer: one head, body frames counted from zero modulo
16 and one last frame that counts on, behind the CREDITs of the upload. -/
def Answered (frames : List BlehFrame) : Prop :=
  ∃ marks, List.Forall₂ BlehFrame.Says frames marks ∧ Exchange.Answered 16 marks

/-- The frames of a beginning of one, with no last frame. -/
def Begun (frames : List BlehFrame) : Prop :=
  ∃ marks, List.Forall₂ BlehFrame.Says frames marks ∧
    (Exchange.Uploading marks ∨ ∃ n, Exchange.Streaming 16 n marks)

theorem views_init (ctx : β) : (init ctx).Views ⟨.idle, 0, [], [], []⟩ :=
  ⟨rfl, fun h => absurd rfl h, .nil, rfl, rfl, Nat.zero_le _⟩

theorem views_of_run (hdelivers : env.Delivers) {ctx : β}
    (hrun : Run (Takes env) (init ctx) inputs w) :
    ∃ e, Exchange.Steps 16 ⟨.idle, 0, [], [], []⟩ e ∧ w.Views e := by
  have hsim : (init ctx).Simulates w := by
    apply hrun.inv (I := (init ctx).Simulates) _ (.refl _)
    rintro w₁ i _ rfl hsim
    exact hsim.trans (simulates_take hdelivers w₁ i)
  exact hsim _ (views_init ctx)

theorem paired_of_run {ctx : β} (hrun : Run (Takes env) (init ctx) inputs w) : w.Paired := by
  apply hrun.inv (I := Paired) _ (paired_init ctx)
  rintro w₁ i _ rfl h₁
  exact h₁.take i

theorem Views.says (h : w.Views e) (q : UInt16) :
    List.Forall₂ BlehFrame.Says (w.sentFor q) (e.marks q) := by
  rw [sentFor, Exchange.marks]
  have hall := h.sent
  generalize w.log.sent = frames at hall ⊢
  generalize e.sent = marks at hall ⊢
  induction hall with
  | nil => exact .nil
  | @cons f s frames marks htells _ ih =>
    by_cases hq : f.seq = q
    · rw [filter_cons_of_pos (by simpa using hq),
        filter_cons_of_pos (by simpa using htells.1.symm.trans hq)]
      exact .cons htells.2 ih
    · rw [filter_cons_of_neg (by simpa using hq),
        filter_cons_of_neg (by simpa [← htells.1] using hq)]
      exact ih

theorem Views.serves_iff (h : w.Views e) (q : UInt16) : w.Serves q ↔ e.standing q ≠ .idle := by
  rw [Exchange.standing]
  by_cases hidle : w.state = .idle
  · rw [h.idle hidle, ite_self]
    exact ⟨fun hserves => absurd hidle hserves.1, fun hne => absurd rfl hne⟩
  · have hphase : e.phase ≠ .idle := fun hcase => hidle (h.idle_iff.mp hcase)
    rw [h.seq hphase]
    by_cases hq : w.seq = q
    · rw [if_pos hq]
      exact ⟨fun _ => hphase, fun _ => ⟨hidle, hq⟩⟩
    · rw [if_neg hq]
      exact ⟨fun hserves => absurd hserves.2 hq, fun hne => absurd rfl hne⟩

theorem told_of_run (hdelivers : env.Delivers) {ctx : β}
    (hrun : Run (Takes env) (init ctx) inputs w) {q : UInt16} (hcount : w.log.handled.count q = 1) :
    (w.Serves q → q ∉ w.log.dropped ∧ Begun (w.sentFor q)) ∧
    (¬ w.Serves q → q ∈ w.log.dropped → Begun (w.sentFor q)) ∧
    (¬ w.Serves q → q ∉ w.log.dropped → Answered (w.sentFor q)) := by
  obtain ⟨e, hsteps, hviews⟩ := views_of_run hdelivers hrun
  have hinit : Exchange.Kept 16 q ⟨.idle, 0, [], [], []⟩ :=
    ⟨fun _ => ⟨rfl, ite_self _, not_mem_nil⟩, fun h => absurd h (by simp)⟩
  have htold := (hinit.steps hsteps).seen (hviews.handled ▸ hcount)
  rw [hviews.dropped] at htold
  have hsays := hviews.says q
  rw [hviews.serves_iff q]
  cases hstanding : e.standing q with
  | idle =>
    rw [hstanding] at htold
    refine ⟨fun hne => absurd rfl hne, fun _ hin => ?_, fun _ hout => ?_⟩
    · obtain ⟨-, hbegun⟩ | ⟨hout, -⟩ := htold
      · exact ⟨_, hsays, hbegun⟩
      · exact absurd hin hout
    · obtain ⟨hin, -⟩ | ⟨-, hanswered⟩ := htold
      · exact absurd hin hout
      · exact ⟨_, hsays, hanswered⟩
  | upload =>
    rw [hstanding] at htold
    exact ⟨fun _ => ⟨htold.1, _, hsays, .inl htold.2⟩,
      fun hserves => absurd ExPhase.noConfusion hserves,
      fun hserves => absurd ExPhase.noConfusion hserves⟩
  | stream n =>
    rw [hstanding] at htold
    exact ⟨fun _ => ⟨htold.1, _, hsays, .inr ⟨n, htold.2⟩⟩,
      fun hserves => absurd ExPhase.noConfusion hserves,
      fun hserves => absurd ExPhase.noConfusion hserves⟩

theorem tick_idle (w : Bleh β) (nowMs : UInt32)
    (hover : blehIdleTimeoutMs < nowMs - w.lastActivityMs) : (tick env w nowMs).state = .idle := by
  rw [tick, if_neg (UInt32.not_le.mpr hover)]
  split
  · rfl
  · rfl
  · assumption

/-- **One answer for each request**: while the link takes the frames, a request
with a number of its own is answered once, whole and with nothing behind the last
frame, unless the link goes down under it; then it has the beginning of an
answer. No request stays open for ever, and every open of the upstream has its
close. -/
theorem blehRequest_answered (env : BlehEnv β) (hdelivers : env.Delivers) (ctx : β)
    (inputs : List Input) (w : Bleh β) (hrun : Run (Takes env) (init ctx) inputs w) :
    (∀ q, w.log.handled.count q = 1 → (w.Serves q → q ∉ w.log.dropped ∧ Begun (w.sentFor q)) ∧
      (¬ w.Serves q → q ∈ w.log.dropped → Begun (w.sentFor q)) ∧
      (¬ w.Serves q → q ∉ w.log.dropped → Answered (w.sentFor q))) ∧
    (∀ nowMs, blehIdleTimeoutMs < nowMs - w.lastActivityMs →
      (w.take env (.tick nowMs)).state = .idle) ∧
    upstreamAfter w.log.calls = some (decide (w.state ≠ .idle)) ∧
    w.log.calls.count (.openReq true) =
      w.log.calls.count .close + if w.state = .idle then 0 else 1 := by
  have hpaired := paired_of_run hrun
  have hopen : w.upstreamOpen = decide (w.state ≠ .idle) := by
    rw [Bool.eq_iff_iff, hpaired.isOpen, decide_eq_true_iff]
  refine ⟨fun q hcount => told_of_run hdelivers hrun hcount, fun nowMs => tick_idle w nowMs, ?_, ?_⟩
  · rw [← hopen]
    exact hpaired.used
  · rw [count_close_of_upstreamAfter _ _ hpaired.used, hopen]
    by_cases hidle : w.state = .idle <;> simp [hidle]

/-- A server that answers everything with an empty 200. -/
def sampleEnv (head : Json) : BlehEnv Unit where
  cjsonParse := fun _ => some head
  openReq := fun _ _ => ((), true)
  write := fun _ _ => ((), true)
  fetch := fun _ => ((), some ⟨200, [], -1⟩)
  read := fun _ _ => ((), [])
  read_le := fun _ _ => Nat.zero_le _
  close := fun _ => ()
  emit := fun _ _ => ((), true)

/-- `{"m":"POST","p":"/api/x","len":1}` -/
def samplePost : Json :=
  .obj [("m".toList, .str "POST".toList), ("p".toList, .str "/api/x".toList), ("len".toList, .num 1)]

def samplePostFrame : BlehFrame :=
  ⟨blehTReq, 0, 1,
    textBytes "\x7b\"m\":\"POST\",\"p\":\"/api/x\",\"len\":1\x7d".toList⟩

/-- A POST whose body never comes is answered when its time is over. -/
theorem blehRequest_answered_post :
    Answered (((((init ()).take (sampleEnv samplePost) (.rx samplePostFrame.bytes 0)).take
      (sampleEnv samplePost) (.tick 30001)).sentFor 1)) := by
  have hrun : Run (Takes (sampleEnv samplePost)) (init ())
      [.rx samplePostFrame.bytes 0, .tick 30001] _ := .cons rfl (.cons rfl (.nil _))
  have hall := blehRequest_answered (sampleEnv samplePost) (fun _ _ => rfl) () _ _ hrun
  exact (hall.1 1 (by decide)).2.2 (by rw [Serves]; decide) (by decide)

/-- Under a link that goes down a request that was taken has no answer. -/
theorem blehRequest_linkDown :
    ¬ ∀ (β : Type) (env : BlehEnv β) (ctx : β) (inputs : List Input) (w : Bleh β),
      env.Delivers → Run (Takes env) (init ctx) inputs w →
      ∀ q, w.log.handled.count q = 1 → ¬ w.Serves q → Answered (w.sentFor q) := by
  intro hclaim
  have hrun : Run (Takes (sampleEnv samplePost)) (init ())
      [.rx samplePostFrame.bytes 0, .linkDown] _ := .cons rfl (.cons rfl (.nil _))
  obtain ⟨marks, hsays, k, n, hmarks⟩ := hclaim Unit (sampleEnv samplePost) () _ _
    (fun _ _ => rfl) hrun 1 (by decide) (by rw [Serves]; decide)
  rw [forall₂_nil_left_iff.mp hsays] at hmarks
  exact absurd hmarks (by simp)

end Bleh

end Meatpi
