import Meatpi.BleHttp.Effects

/-!
# One close for each open

The HTTP side is opened for a request, used while it is open and closed once,
whichever way the request ends and whether or not the link takes the frames.
-/

namespace Meatpi

open List Option

/-- Whether the upstream is open behind a call; a call out of place has no
answer. -/
def BlehCall.after : Bool → BlehCall → Option Bool
  | false, .openReq ok => some ok
  | true, .write _ _ => some true
  | true, .fetch _ => some true
  | true, .read _ => some true
  | true, .close => some false
  | _, _ => none

/-- The calls, from a closed upstream on. -/
def upstreamAfter (calls : List BlehCall) : Option Bool :=
  calls.foldlM BlehCall.after false

theorem upstreamAfter_append (calls more : List BlehCall) (isOpen : Bool)
    (h : upstreamAfter calls = some isOpen) :
    upstreamAfter (calls ++ more) = more.foldlM BlehCall.after isOpen := by
  rw [upstreamAfter] at h ⊢
  rw [foldlM_append, h]
  rfl

theorem count_close_of_upstreamAfter (calls : List BlehCall) :
    ∀ isOpen, upstreamAfter calls = some isOpen →
      calls.count (.openReq true) = calls.count .close + isOpen.toNat := by
  induction calls using List.reverseRecOn with
  | nil =>
    intro isOpen h
    obtain rfl := some.inj h
    rfl
  | append_singleton calls c ih =>
    intro isOpen h
    rw [upstreamAfter, foldlM_append] at h
    rcases hb : upstreamAfter calls with _ | before
    · rw [upstreamAfter] at hb
      rw [hb] at h
      exact absurd h (by simp)
    have hcount := ih before hb
    rw [upstreamAfter] at hb
    rw [hb] at h
    replace h : BlehCall.after before c = some isOpen := by simpa using h
    cases before with
    | false =>
      cases c with
      | openReq ok =>
        obtain rfl := some.inj h
        cases ok <;> simpa using hcount
      | write data ok => exact absurd h (by simp [BlehCall.after])
      | fetch ok => exact absurd h (by simp [BlehCall.after])
      | read data => exact absurd h (by simp [BlehCall.after])
      | close => exact absurd h (by simp [BlehCall.after])
    | true =>
      cases c with
      | openReq ok => exact absurd h (by simp [BlehCall.after])
      | write data ok =>
        obtain rfl := some.inj h
        simpa using hcount
      | fetch ok =>
        obtain rfl := some.inj h
        simpa using hcount
      | read data =>
        obtain rfl := some.inj h
        simpa using hcount
      | close =>
        obtain rfl := some.inj h
        simpa using hcount

namespace Bleh

variable {β : Type} {env : BlehEnv β} {w w' : Bleh β}

/-- The calls are in place so far. -/
def Used (w : Bleh β) : Prop :=
  upstreamAfter w.log.calls = some w.upstreamOpen

/-- And the upstream is open exactly under a request. -/
structure Paired (w : Bleh β) : Prop where
  used : w.Used
  isOpen : w.upstreamOpen = true ↔ w.state ≠ .idle

theorem Used.frame (h : w.Used) (hcalls : w'.log.calls = w.log.calls)
    (hopen : w'.upstreamOpen = w.upstreamOpen) : w'.Used := by
  rw [Used, hcalls, hopen]
  exact h

theorem Paired.frame (h : w.Paired) (hcalls : w'.log.calls = w.log.calls)
    (hopen : w'.upstreamOpen = w.upstreamOpen) (hstate : w'.state = w.state) : w'.Paired :=
  ⟨h.used.frame hcalls hopen, by rw [hopen, hstate]; exact h.isOpen⟩

theorem Used.close (h : w.Used) : (upstreamClose env w).Used := by
  obtain ⟨ctx, heq⟩ := upstreamClose_eq env w
  rw [heq, Used]
  rw [upstreamAfter_append _ _ _ h, closeCalls]
  cases w.upstreamOpen with
  | true => rfl
  | false => rfl

theorem Used.idled (h : w.Used) (ctx : β) (ctr : BlehCounters) (sent refused : List BlehFrame) :
    (w.idled ctx ctr sent refused w.closeCalls).Paired := by
  constructor
  · rw [Used, Bleh.idled]
    rw [upstreamAfter_append _ _ _ h, closeCalls]
    cases w.upstreamOpen with
    | true => rfl
    | false => rfl
  · exact ⟨fun hopen => absurd hopen Bool.false_ne_true, fun hstate => absurd rfl hstate⟩

theorem Used.call (h : w.Used) (hopen : w.upstreamOpen = true) (ctx : β) (c : BlehCall)
    (hc : c.after true = some true) : (w.call ctx c).Used := by
  rw [Used, Bleh.call]
  rw [upstreamAfter_append _ _ _ h, hopen]
  simpa using hc

theorem Used.goIdle (h : w.Used) : (goIdle env w).Paired := by
  obtain ⟨ctx, heq⟩ := goIdle_eq env w
  rw [heq]
  exact (h.idled ctx w.ctr [] []).frame rfl rfl rfl

theorem Paired.emitError (h : w.Paired) (seq : UInt16) (status : ℤ) (err : String) :
    (emitError env w seq status err).Paired := by
  obtain ⟨ctx, ctr, more, refused, heq, -⟩ := emitError_eq env w seq status err
  rw [heq]
  exact h.frame rfl rfl rfl

theorem Used.failBody (h : w.Used) (status : ℤ) (err : String) :
    (failBody env w status err).Paired := by
  obtain ⟨ctx, ctr, more, refused, heq, -⟩ := failBody_eq env w status err
  rw [heq]
  exact h.idled ctx ctr _ refused

theorem Used.endAnswer (h : w.Used) : (Bleh.goIdle env (emitLast env w)).Paired := by
  obtain ⟨ctx, ctr, refused, heq⟩ := endAnswer_eq env w
  rw [heq]
  exact h.idled ctx ctr _ refused

theorem Used.finished (h : w.Used) (hopen : w.upstreamOpen = true) {nowMs : UInt32}
    (hfinished : Finished env w nowMs w') : w'.Paired := by
  cases hfinished with
  | failed ctx ctr more refused hmore hended hrefused =>
    rw [← idled_call w ctx ctx]
    exact (h.call hopen ctx (.fetch false) rfl).idled ctx ctr _ refused
  | refused ctx ctr head hrefused =>
    rw [← idled_call w ctx ctx]
    exact (h.call hopen ctx (.fetch true) rfl).idled ctx ctr _ _
  | streams ctx ctr head =>
    constructor
    · exact (h.call hopen ctx (.fetch true) rfl).frame rfl rfl
    · exact ⟨fun _ => BlehState.noConfusion, fun _ => hopen⟩

theorem Used.emitFrame (h : w.Used) (type flags : UInt8) (seq : UInt16) (payload : List UInt8) :
    (emitFrame env w type flags seq payload).1.Used := by
  rw [Bleh.emitFrame]
  split
  · exact h
  · exact h.frame rfl rfl

theorem Paired.pumpFrame (h : w.Paired) (hstate : w.state = .responding) (nowMs : UInt32) :
    (pumpFrame env w nowMs).1.Paired := by
  have hopen : w.upstreamOpen = true := by
    rw [h.isOpen, hstate]
    exact BlehState.noConfusion
  rw [Bleh.pumpFrame]
  split
  · exact h.frame rfl rfl rfl
  split
  · rename_i ctx hread
    exact (h.used.call hopen ctx (.read []) rfl).endAnswer
  rename_i ctx b data hread
  have hcall := h.used.call hopen ctx (.read (b :: data)) rfl
  have hemit : (Bleh.emitFrame env (w.call ctx (.read (b :: data))) blehTRspBody
      (blehCtrFlags w.rspCtr false) w.seq (b :: data)).1.Used := hcall.emitFrame _ _ _ _
  have hemitted : (Bleh.emitFrame env (w.call ctx (.read (b :: data))) blehTRspBody
      (blehCtrFlags w.rspCtr false) w.seq (b :: data)).1.Paired := by
    refine ⟨hemit, ?_⟩
    rw [Bleh.emitFrame]
    split
    · exact h.isOpen
    · exact h.isOpen
  split
  · rename_i w' hfail
    rw [hfail] at hemit
    exact hemit.goIdle
  · rename_i w' hsent
    rw [hsent] at hemitted
    exact hemitted.frame rfl rfl rfl

theorem Paired.onReq (h : w.Paired) (hdr : BlehHdr) (payload : List UInt8) (nowMs : UInt32) :
    (onReq env w hdr payload nowMs).Paired := by
  have hhandle : (w.handle hdr.seq).Paired := h.frame rfl rfl rfl
  rw [Bleh.onReq]
  split
  · exact hhandle.emitError hdr.seq 429 "busy"
  rename_i hidle
  have hclosed : w.upstreamOpen = false := by
    rw [← Bool.not_eq_true, h.isOpen]
    exact hidle
  split
  · exact hhandle.emitError hdr.seq _ _
  rename_i req hparse
  dsimp only
  have hcall : ∀ ctx ok, upstreamAfter (((w.handle hdr.seq).accept hdr req nowMs).call ctx
      (.openReq ok)).log.calls = some ok := by
    intro ctx ok
    rw [call]
    have hused : upstreamAfter ((w.handle hdr.seq).accept hdr req nowMs).log.calls =
      some w.upstreamOpen := h.used
    rw [upstreamAfter_append _ _ _ hused, hclosed]
    rfl
  split
  · rename_i ctx hopen
    apply Paired.emitError
    refine ⟨?_, h.isOpen⟩
    rw [Used, hcall]
    exact (congrArg some hclosed).symm
  rename_i ctx hopen
  have hused : Used { ((w.handle hdr.seq).accept hdr req nowMs).call ctx (.openReq true) with
      upstreamOpen := true } := hcall ctx true
  split
  · exact hused.finished rfl (finishRequest_finished env _ nowMs)
  · exact ⟨hused, fun _ => BlehState.noConfusion, fun _ => rfl⟩

theorem Paired.tookBody (h : w.Paired) (hstate : w.state = .body) (hdr : BlehHdr) (nowMs : UInt32) :
    (tookBody env w hdr nowMs).Paired := by
  have hopen : w.upstreamOpen = true := by
    rw [h.isOpen, hstate]
    exact BlehState.noConfusion
  have htook := tookBody_took env w hdr nowMs
  generalize Bleh.tookBody env w hdr nowMs = w' at htook
  cases htook with
  | short => exact h.used.failBody 400 "short"
  | whole => exact h.used.finished hopen (finishRequest_finished env w nowMs)
  | credit hpart hstep ctx ctr => exact h.frame rfl rfl rfl
  | refused hstep ctx ctr hrefused => exact h.used.idled ctx ctr _ _
  | waits => exact h

theorem Paired.onReqBody (h : w.Paired) (hdr : BlehHdr) (payload : List UInt8) (nowMs : UInt32) :
    (onReqBody env w hdr payload nowMs).Paired := by
  rw [Bleh.onReqBody]
  split
  · exact h
  rename_i hown
  have hstate : w.state = .body := by
    rw [not_or] at hown
    exact not_not.mp hown.1
  have hopen : w.upstreamOpen = true := by
    rw [h.isOpen, hstate]
    exact BlehState.noConfusion
  split
  · apply Used.failBody
    exact h.used.frame rfl rfl
  split
  · apply Used.failBody
    exact h.used.frame rfl rfl
  obtain ⟨ctx, calls, ok, heq, hcalls⟩ := writeBody_eq env { w with
    lastActivityMs := nowMs
    reqCtr := (w.reqCtr + 1) &&& 0x0F } payload
  rw [heq]
  have hused : upstreamAfter (w.log.calls ++ calls) = some w.upstreamOpen := by
    rw [upstreamAfter_append _ _ _ h.used, hcalls, hopen]
    split
    · rfl
    · rfl
  cases ok with
  | false =>
    apply Used.failBody
    exact hused
  | true =>
    apply Paired.tookBody
    · exact ⟨hused, h.isOpen⟩
    · exact hstate

theorem Paired.onAbort (h : w.Paired) (hdr : BlehHdr) : (onAbort env w hdr).Paired := by
  rw [Bleh.onAbort]
  split
  · exact h.frame rfl rfl rfl
  split
  · apply Used.failBody
    apply Used.close
    exact h.used.frame rfl rfl
  · apply Used.endAnswer
    apply Used.close
    exact h.used.frame rfl rfl
  · exact h.frame rfl rfl rfl

theorem Paired.handleFrame (h : w.Paired) (hdr : BlehHdr) (payload : List UInt8) (nowMs : UInt32) :
    (handleFrame env w hdr payload nowMs).Paired := by
  have hcounted : Paired { w with ctr := { w.ctr with framesRx := w.ctr.framesRx + 1 } } :=
    h.frame rfl rfl rfl
  rw [Bleh.handleFrame]
  split
  · exact hcounted.onReq hdr payload nowMs
  split
  · exact hcounted.onReqBody hdr payload nowMs
  split
  · exact hcounted.onAbort hdr
  split
  · rw [onCredit]
    split
    · exact hcounted
    · exact hcounted.frame rfl rfl rfl
  · exact hcounted

theorem Paired.tick (h : w.Paired) (nowMs : UInt32) : (tick env w nowMs).Paired := by
  rw [Bleh.tick]
  split
  · exact h
  split
  · apply Used.failBody
    apply Used.close
    exact h.used.frame rfl rfl
  · apply Used.endAnswer
    apply Used.close
    exact h.used.frame rfl rfl
  · exact h

theorem Paired.take (h : w.Paired) (i : Input) : (w.take env i).Paired := by
  cases i with
  | rx data nowMs =>
    apply rxData_inv env (I := Paired) _ _ w data nowMs h
    · exact fun w₁ rx ctr h₁ => h₁.frame rfl rfl rfl
    · exact fun w₁ hdr payload nowMs h₁ => h₁.handleFrame hdr payload nowMs
  | pump nowMs => exact pump_inv env nowMs (fun w₁ hstate h₁ => h₁.pumpFrame hstate nowMs) w h
  | tick nowMs => exact h.tick nowMs
  | setLink notify pduPayload => exact h.frame rfl rfl rfl
  | linkDown => exact h.used.goIdle.frame rfl rfl rfl

theorem paired_init (ctx : β) : (init ctx).Paired :=
  ⟨rfl, fun h => absurd h Bool.false_ne_true, fun h => absurd rfl h⟩

end Bleh

end Meatpi
