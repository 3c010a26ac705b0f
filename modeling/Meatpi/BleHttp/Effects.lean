import Meatpi.BleHttp.Core

/-!
# What the helpers of the tunnel change

Each helper hands frames to the link, calls the HTTP side or turns idle; its
equation here names the fields it changes and leaves the states of the two sides
and the counters open.
-/

namespace Meatpi

open List

/-- The link takes every frame. -/
def BlehEnv.Delivers {β : Type} (env : BlehEnv β) : Prop :=
  ∀ ctx bytes, (env.emit ctx bytes).2 = true

namespace Bleh

variable {β : Type} (env : BlehEnv β)

/-! ## Sending -/

theorem emitFrame_eq (w : Bleh β) (type flags : UInt8) (seq : UInt16) (payload : List UInt8)
    (hlen : payload.length ≤ blehFrameMax) :
    ∃ ctx ctr ok, emitFrame env w type flags seq payload = ({ w with
        ctx := ctx
        ctr := ctr
        log := { w.log with
          sent := w.log.sent ++ [⟨type, flags, seq, payload⟩]
          refused := if ok then w.log.refused
            else w.log.refused ++ [⟨type, flags, seq, payload⟩] } }, ok) ∧
      (env.Delivers → ok = true) := by
  rw [emitFrame, if_neg (not_lt.mpr hlen)]
  exact ⟨_, _, _, rfl, fun hdelivers => hdelivers _ _⟩

theorem length_blehErrHead (status : ℤ) (err : String) :
    (blehErrHead 64 status err).length ≤ blehFrameMax := by
  rw [blehErrHead, length_take]
  exact (min_le_left _ _).trans (by decide)

theorem length_blehRspHead (head : BlehHead) :
    (blehRspHead 112 head).length ≤ blehFrameMax := by
  rw [blehRspHead, length_take]
  exact (min_le_left _ _).trans (by decide)

/-- The head of an answer of the tunnel's own. -/
def errFrame (seq : UInt16) (status : ℤ) (err : String) : BlehFrame :=
  ⟨blehTRsp, 0, seq, blehErrHead 64 status err⟩

/-- The frame that ends an answer. -/
def lastFrame (ctr : UInt8) (seq : UInt16) : BlehFrame :=
  ⟨blehTRspBody, blehCtrFlags ctr true, seq, []⟩

theorem emitError_eq (w : Bleh β) (seq : UInt16) (status : ℤ) (err : String) :
    ∃ ctx ctr more refused, emitError env w seq status err = { w with
        ctx := ctx
        ctr := ctr
        log := { w.log with
          sent := w.log.sent ++ errFrame seq status err :: more
          refused := w.log.refused ++ refused } } ∧
      (more = [] ∨ more = [lastFrame 0 seq]) ∧
      (refused = [] → more = [lastFrame 0 seq]) ∧ (env.Delivers → refused = []) := by
  obtain ⟨ctx, ctr, ok, heq, hok⟩ := emitFrame_eq env { w with ctr := { w.ctr with
      errors := w.ctr.errors + 1
      responses := w.ctr.responses + 1
      lastStatus := status } } blehTRsp 0 seq (blehErrHead 64 status err)
    (length_blehErrHead status err)
  cases ok with
  | false =>
    refine ⟨ctx, ctr, [], [errFrame seq status err], ?_, .inl rfl, by simp, ?_⟩
    · rw [emitError, heq]
      rfl
    · intro hdelivers
      exact absurd (hok hdelivers) Bool.false_ne_true
  | true =>
    obtain ⟨ctx', ctr', ok', heq', hok'⟩ := emitFrame_eq env { w with
        ctx := ctx
        ctr := ctr
        log := { w.log with sent := w.log.sent ++ [errFrame seq status err] } }
      blehTRspBody (blehCtrFlags 0 true) seq [] (by decide)
    refine ⟨ctx', ctr', [lastFrame 0 seq], if ok' then [] else [lastFrame 0 seq], ?_, .inr rfl,
      fun _ => rfl, fun hdelivers => by rw [hok' hdelivers]; rfl⟩
    rw [if_pos rfl] at heq
    rw [emitError, heq]
    dsimp only
    rw [← errFrame, heq']
    cases ok' with
    | false => simp [lastFrame]
    | true => simp [lastFrame]

theorem emitLast_eq (w : Bleh β) :
    ∃ ctx ctr refused, emitLast env w = { w with
        ctx := ctx
        ctr := ctr
        log := { w.log with
          sent := w.log.sent ++ [lastFrame w.rspCtr w.seq]
          refused := w.log.refused ++ refused } } := by
  obtain ⟨ctx, ctr, ok, heq, -⟩ := emitFrame_eq env w blehTRspBody (blehCtrFlags w.rspCtr true)
    w.seq [] (by decide)
  refine ⟨ctx, ctr, if ok then [] else [lastFrame w.rspCtr w.seq], ?_⟩
  rw [emitLast, heq]
  cases ok with
  | false => rfl
  | true => simp [lastFrame]

/-! ## Closing -/

/-- What `upstream_close` calls. -/
def closeCalls (w : Bleh β) : List BlehCall :=
  if w.upstreamOpen then [.close] else []

theorem upstreamClose_eq (w : Bleh β) :
    ∃ ctx, upstreamClose env w = { w with
        ctx := ctx
        upstreamOpen := false
        log := { w.log with calls := w.log.calls ++ w.closeCalls } } := by
  cases hopen : w.upstreamOpen with
  | true =>
    rw [upstreamClose, closeCalls, if_pos hopen, if_pos hopen]
    exact ⟨_, rfl⟩
  | false =>
    refine ⟨w.ctx, ?_⟩
    rw [upstreamClose, closeCalls, hopen, if_neg Bool.false_ne_true, if_neg Bool.false_ne_true,
      append_nil, ← hopen]

theorem goIdle_eq (w : Bleh β) :
    ∃ ctx, goIdle env w = { w with
        ctx := ctx
        state := .idle
        received := 0
        lastCredit := 0
        outSent := 0
        outAcked := 0
        upstreamOpen := false
        log := { w.log with calls := w.log.calls ++ w.closeCalls } } := by
  obtain ⟨ctx, heq⟩ := upstreamClose_eq env w
  refine ⟨ctx, ?_⟩
  rw [goIdle, heq]

/-- Idle, with these frames and these calls behind it. -/
def idled (w : Bleh β) (ctx : β) (ctr : BlehCounters) (sent refused : List BlehFrame)
    (calls : List BlehCall) : Bleh β :=
  { w with
    ctx := ctx
    ctr := ctr
    state := .idle
    received := 0
    lastCredit := 0
    outSent := 0
    outAcked := 0
    upstreamOpen := false
    log := { w.log with
      sent := w.log.sent ++ sent
      refused := w.log.refused ++ refused
      calls := w.log.calls ++ calls } }

theorem goIdle_idled (w : Bleh β) (ctx : β) (ctr : BlehCounters) (sent refused : List BlehFrame)
    (calls : List BlehCall) :
    ∃ ctx', goIdle env { w with
        ctx := ctx
        ctr := ctr
        log := { w.log with
          sent := w.log.sent ++ sent
          refused := w.log.refused ++ refused
          calls := w.log.calls ++ calls } } =
      w.idled ctx' ctr sent refused (calls ++ w.closeCalls) := by
  obtain ⟨ctx', heq⟩ := goIdle_eq env { w with
    ctx := ctx
    ctr := ctr
    log := { w.log with
      sent := w.log.sent ++ sent
      refused := w.log.refused ++ refused
      calls := w.log.calls ++ calls } }
  refine ⟨ctx', ?_⟩
  rw [heq, idled, ← append_assoc]
  rfl

theorem failBody_eq (w : Bleh β) (status : ℤ) (err : String) :
    ∃ ctx ctr more refused, failBody env w status err =
      w.idled ctx ctr (errFrame w.seq status err :: more) refused w.closeCalls ∧
      (more = [] ∨ more = [lastFrame 0 w.seq]) ∧
      (refused = [] → more = [lastFrame 0 w.seq]) ∧ (env.Delivers → refused = []) := by
  obtain ⟨ctx, ctr, more, refused, heq, hmore⟩ := emitError_eq env w w.seq status err
  obtain ⟨ctx', heq'⟩ := goIdle_eq env (emitError env w w.seq status err)
  refine ⟨ctx', ctr, more, refused, ?_, hmore⟩
  rw [failBody, heq', heq]
  rfl

theorem endAnswer_eq (w : Bleh β) :
    ∃ ctx ctr refused, goIdle env (emitLast env w) =
      w.idled ctx ctr [lastFrame w.rspCtr w.seq] refused w.closeCalls := by
  obtain ⟨ctx, ctr, refused, heq⟩ := emitLast_eq env w
  obtain ⟨ctx', heq'⟩ := goIdle_eq env (emitLast env w)
  refine ⟨ctx', ctr, refused, ?_⟩
  rw [heq', heq]
  rfl

theorem writeBody_eq (w : Bleh β) (payload : List UInt8) :
    ∃ ctx calls ok, writeBody env w payload = ({ w with
        ctx := ctx
        log := { w.log with calls := w.log.calls ++ calls } }, ok) ∧
      calls = if payload = [] then [] else [.write payload ok] := by
  rw [writeBody]
  by_cases hnil : payload = []
  · rw [if_pos hnil]
    refine ⟨w.ctx, [], true, ?_, (if_pos hnil).symm⟩
    rw [append_nil]
  · rw [if_neg hnil]
    exact ⟨_, _, _, rfl, (if_neg hnil).symm⟩

/-! ## The answer -/

/-- The head of an answer of the upstream's. -/
def rspFrame (seq : UInt16) (head : BlehHead) : BlehFrame :=
  ⟨blehTRsp, 0, seq, blehRspHead 112 head⟩

/-- A frame of its body. -/
def dataFrame (ctr : UInt8) (seq : UInt16) (data : List UInt8) : BlehFrame :=
  ⟨blehTRspBody, blehCtrFlags ctr false, seq, data⟩

/-- How `finish_request` ends: the upstream gives nothing, the link does not take
the head, or the answer streams. -/
inductive Finished (w : Bleh β) (nowMs : UInt32) : Bleh β → Prop
  | failed (ctx : β) (ctr : BlehCounters) (more refused : List BlehFrame)
      (hmore : more = [] ∨ more = [lastFrame 0 w.seq])
      (hended : refused = [] → more = [lastFrame 0 w.seq])
      (hrefused : env.Delivers → refused = []) :
      Finished w nowMs (w.idled ctx ctr (errFrame w.seq 502 "upstream" :: more) refused
        (.fetch false :: w.closeCalls))
  | refused (ctx : β) (ctr : BlehCounters) (head : BlehHead) (hrefused : ¬ env.Delivers) :
      Finished w nowMs (w.idled ctx ctr [rspFrame w.seq head] [rspFrame w.seq head]
        (.fetch true :: w.closeCalls))
  | streams (ctx : β) (ctr : BlehCounters) (head : BlehHead) :
      Finished w nowMs (respond { w with
        ctx := ctx
        ctr := ctr
        log := { w.log with
          sent := w.log.sent ++ [rspFrame w.seq head]
          calls := w.log.calls ++ [.fetch true] } } nowMs)

theorem idled_call (w : Bleh β) (ctx ctx' : β) (c : BlehCall) (ctr : BlehCounters)
    (sent refused : List BlehFrame) (calls : List BlehCall) :
    (w.call ctx c).idled ctx' ctr sent refused calls =
      w.idled ctx' ctr sent refused (c :: calls) := by
  rw [idled, call, append_assoc]
  rfl

theorem finishRequest_finished (w : Bleh β) (nowMs : UInt32) :
    Finished env w nowMs (finishRequest env w nowMs) := by
  rw [finishRequest]
  rcases env.fetch w.ctx with ⟨ctx, head⟩
  cases head with
  | none =>
    obtain ⟨ctx', ctr, more, refused, heq, hmore, hended, hrefused⟩ :=
      failBody_eq env (w.call ctx (.fetch false)) 502 "upstream"
    rw [failBody, idled_call] at heq
    dsimp only [call] at heq ⊢
    rw [heq]
    exact .failed ctx' ctr more refused hmore hended hrefused
  | some head =>
    obtain ⟨ctx', ctr, ok, heq, hok⟩ := emitFrame_eq env
      { w.call ctx (.fetch true) with ctr := { (w.call ctx (.fetch true)).ctr with
        responses := (w.call ctx (.fetch true)).ctr.responses + 1
        lastStatus := head.status } }
      blehTRsp 0 w.seq (blehRspHead 112 head) (length_blehRspHead head)
    dsimp only [call] at heq ⊢
    rw [heq]
    cases ok with
    | false =>
      obtain ⟨ctx₂, hidle⟩ := goIdle_idled env w ctx' ctr [rspFrame w.seq head]
        [rspFrame w.seq head] [.fetch true]
      have hrefused : ¬ env.Delivers := fun hdelivers =>
        absurd (hok hdelivers) Bool.false_ne_true
      have hall : Finished env w nowMs _ := .refused ctx₂ ctr head hrefused
      rw [singleton_append] at hidle
      rw [← hidle] at hall
      exact hall
    | true => exact .streams ctx' ctr head

/-! ## The body of a request -/

/-- A CREDIT of the device's. -/
def creditFrame (seq : UInt16) (received : UInt32) : BlehFrame :=
  ⟨blehTCredit, 0, seq, creditBytes received⟩

/-- How a body frame that was taken ends. -/
inductive Took (w : Bleh β) (h : BlehHdr) (nowMs : UInt32) : Bleh β → Prop
  | short (hlast : h.flags &&& blehFLast ≠ 0) (hshort : w.received ≠ w.req.len) :
      Took w h nowMs (failBody env w 400 "short")
  | whole (hwhole : w.received = w.req.len) : Took w h nowMs (finishRequest env w nowMs)
  | credit (hpart : w.received ≠ w.req.len) (hstep : blehCreditStep ≤ w.received - w.lastCredit)
      (ctx : β) (ctr : BlehCounters) :
      Took w h nowMs { w with
        ctx := ctx
        ctr := ctr
        lastCredit := w.received
        log := { w.log with sent := w.log.sent ++ [creditFrame w.seq w.received] } }
  | refused (hstep : blehCreditStep ≤ w.received - w.lastCredit) (ctx : β) (ctr : BlehCounters)
      (hrefused : ¬ env.Delivers) :
      Took w h nowMs (w.idled ctx ctr [creditFrame w.seq w.received]
        [creditFrame w.seq w.received] w.closeCalls)
  | waits (hpart : w.received ≠ w.req.len) (hstep : ¬ blehCreditStep ≤ w.received - w.lastCredit) :
      Took w h nowMs w

theorem tookBody_took (w : Bleh β) (h : BlehHdr) (nowMs : UInt32) :
    Took env w h nowMs (tookBody env w h nowMs) := by
  rw [tookBody]
  by_cases hshort : h.flags &&& blehFLast ≠ 0 ∧ w.received ≠ w.req.len
  · rw [if_pos hshort]
    exact .short hshort.1 hshort.2
  rw [if_neg hshort]
  by_cases hwhole : w.received = w.req.len
  · rw [if_pos hwhole]
    exact .whole hwhole
  rw [if_neg hwhole]
  by_cases hstep : blehCreditStep ≤ w.received - w.lastCredit
  · rw [if_pos hstep]
    obtain ⟨ctx, ctr, ok, heq, hok⟩ := emitFrame_eq env { w with lastCredit := w.received }
      blehTCredit 0 w.seq (creditBytes w.received) (show 4 ≤ 4096 by decide)
    rw [heq]
    cases ok with
    | false =>
      obtain ⟨ctx', hidle⟩ := goIdle_idled env { w with lastCredit := w.received } ctx ctr
        [creditFrame w.seq w.received] [creditFrame w.seq w.received] []
      have hrefused : ¬ env.Delivers := fun hdelivers =>
        absurd (hok hdelivers) Bool.false_ne_true
      have hall : Took env w h nowMs _ := .refused hstep ctx' ctr hrefused
      rw [append_nil] at hidle
      change goIdle env _ = w.idled ctx' ctr _ _ w.closeCalls at hidle
      rw [← hidle] at hall
      exact hall
    | true => exact .credit hwhole hstep ctx ctr
  · rw [if_neg hstep]
    exact .waits hwhole hstep

/-! ## The pump -/

/-- How a round of the pump ends. -/
inductive Pumped (w : Bleh β) (nowMs : UInt32) : Bleh β × Bool → Prop
  | stalled (hblocked : w.Blocked) (ctr : BlehCounters) :
      Pumped w nowMs ({ w with
        outStalled := true
        ctr := ctr }, false)
  | ended (hfree : ¬ w.Blocked) (ctx : β) (ctr : BlehCounters) (refused : List BlehFrame) :
      Pumped w nowMs (w.idled ctx ctr [lastFrame w.rspCtr w.seq] refused
        (.read [] :: w.closeCalls), false)
  | refused (hfree : ¬ w.Blocked) (ctx : β) (ctr : BlehCounters) (data : List UInt8)
      (hrefused : ¬ env.Delivers) :
      Pumped w nowMs (w.idled ctx ctr [dataFrame w.rspCtr w.seq data]
        [dataFrame w.rspCtr w.seq data] (.read data :: w.closeCalls), false)
  | sent (hfree : ¬ w.Blocked) (ctx : β) (ctr : BlehCounters) (data : List UInt8)
      (hne : data ≠ []) (hlen : data.length ≤ w.outFrame.toNat) :
      Pumped w nowMs ({ w with
        ctx := ctx
        ctr := ctr
        rspCtr := (w.rspCtr + 1) &&& 0x0F
        outSent := w.outSent + UInt32.ofNat data.length
        lastActivityMs := nowMs
        log := { w.log with
          sent := w.log.sent ++ [dataFrame w.rspCtr w.seq data]
          calls := w.log.calls ++ [.read data]
          streamed := w.log.streamed + data.length } }, true)

theorem pumpFrame_pumped (w : Bleh β) (nowMs : UInt32)
    (hframe : w.outFrame.toNat ≤ blehFrameMax) :
    Pumped env w nowMs (pumpFrame env w nowMs) := by
  rw [pumpFrame]
  by_cases hblocked : w.Blocked
  · rw [if_pos hblocked]
    exact .stalled hblocked _
  rw [if_neg hblocked]
  have hle := env.read_le w.ctx w.outFrame.toNat
  obtain ⟨⟨ctx, data⟩, hread⟩ : ∃ r, env.read w.ctx w.outFrame.toNat = r := ⟨_, rfl⟩
  rw [hread] at hle ⊢
  cases data with
  | nil =>
    obtain ⟨ctx', ctr, refused, heq⟩ := endAnswer_eq env (w.call ctx (.read []))
    dsimp only
    rw [heq, idled_call]
    exact .ended hblocked ctx' ctr refused
  | cons b data =>
    obtain ⟨ctx', ctr, ok, heq, hok⟩ := emitFrame_eq env (w.call ctx (.read (b :: data)))
      blehTRspBody (blehCtrFlags w.rspCtr false) w.seq (b :: data) (hle.trans hframe)
    dsimp only
    rw [heq]
    cases ok with
    | false =>
      obtain ⟨ctx₂, hidle⟩ := goIdle_idled env w ctx' ctr [dataFrame w.rspCtr w.seq (b :: data)]
        [dataFrame w.rspCtr w.seq (b :: data)] [.read (b :: data)]
      have hrefused : ¬ env.Delivers := fun hdelivers =>
        absurd (hok hdelivers) Bool.false_ne_true
      have hall : Pumped env w nowMs (_, false) := .refused hblocked ctx₂ ctr (b :: data) hrefused
      rw [singleton_append] at hidle
      rw [← hidle] at hall
      exact hall
    | true => exact .sent hblocked ctx' ctr (b :: data) (cons_ne_nil _ _) hle

theorem emitFrame_state (w : Bleh β) (type flags : UInt8) (seq : UInt16) (payload : List UInt8) :
    (emitFrame env w type flags seq payload).1.state = w.state := by
  rw [emitFrame]
  split <;> rfl

theorem pumpFrame_state (w : Bleh β) (nowMs : UInt32) (hon : (pumpFrame env w nowMs).2 = true) :
    (pumpFrame env w nowMs).1.state = w.state := by
  rw [pumpFrame] at hon ⊢
  split at hon
  · exact absurd hon Bool.false_ne_true
  rename_i hfree
  rw [if_neg hfree]
  split at hon
  · exact absurd hon Bool.false_ne_true
  rename_i ctx b data hread
  split at hon
  · exact absurd hon Bool.false_ne_true
  rename_i w' hemit
  have hstate := emitFrame_state env (w.call ctx (.read (b :: data))) blehTRspBody
    (blehCtrFlags w.rspCtr false) w.seq (b :: data)
  rw [hemit] at hstate
  exact hstate

/-! ## What every call keeps -/

theorem rxData_inv {I : Bleh β → Prop}
    (hrx : ∀ w rx ctr, I w → I { w with
      rx := rx
      ctr := ctr })
    (hframe : ∀ w h payload nowMs, I w → I (handleFrame env w h payload nowMs))
    (w : Bleh β) (data : List UInt8) (nowMs : UInt32) (hw : I w) : I (rxData env w data nowMs) := by
  have hframes : ∀ n w, I w → I (rxFrames env nowMs n w) := by
    intro n
    induction n with
    | zero => exact fun w hw => hw
    | succ n ih =>
      intro w hw
      rw [rxFrames]
      split
      · exact hw
      split
      · exact ih _ (hrx w _ _ hw)
      split
      · exact hw
      · exact ih _ (hrx _ _ _ (hframe w _ _ nowMs hw))
  have hbytes : ∀ n w data, I w → I (rxBytes env nowMs n w data) := by
    intro n
    induction n with
    | zero => exact fun w data hw => hw
    | succ n ih =>
      intro w data hw
      rw [rxBytes]
      split
      · exact hw
      · exact ih _ _ (hframes _ _ (hrx w _ w.ctr hw))
  exact hbytes data.length w data hw

theorem pump_inv {I : Bleh β → Prop} (nowMs : UInt32)
    (hpump : ∀ w, w.state = .responding → I w → I (pumpFrame env w nowMs).1)
    (w : Bleh β) (hw : I w) : I (pump env w nowMs).1 := by
  have hframes : ∀ n w, w.state = .responding → I w → I (pumpFrames env nowMs n w).1 := by
    intro n
    induction n with
    | zero => exact fun w _ hw => hw
    | succ n ih =>
      intro w hstate hw
      have hkept := hpump w hstate hw
      have hon := pumpFrame_state env w nowMs
      rw [pumpFrames]
      generalize pumpFrame env w nowMs = r at hkept hon ⊢
      obtain ⟨w', on⟩ := r
      cases on with
      | false => exact hkept
      | true => exact ih w' ((hon rfl).trans hstate) hkept
  rw [pump]
  split
  · exact hw
  · rename_i hstate
    exact hframes _ w (not_not.mp hstate) hw

end Bleh

end Meatpi
