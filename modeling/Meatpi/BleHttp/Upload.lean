import Mathlib.Data.List.Flatten
import Meatpi.BleHttp.Exchange
import Meatpi.BleHttp.Stream

/-!
# An upload over a link that loses frames

The frames of one request's body arrive in order, some of them lost. A frame is
taken only while everything before it was taken, and the request is executed only
when the declared length is there: then nothing that carries a byte was lost.
Everything else ends in an answer of the tunnel's own and a closed upstream.
-/

namespace Meatpi

open List

variable {arrived done frames : List BlehFrame} {f head : BlehFrame} {req : BlehReq}

/-! ## The frames and the calls -/

/-- The frames an app sends a body in. -/
def bodyFrames (seq : UInt16) (chunks : List (List UInt8)) : List BlehFrame :=
  chunks.mapIdx fun i chunk =>
    ⟨blehTReqBody, blehCtrFlags (UInt8.ofNat (i % 16)) (decide (i + 1 = chunks.length)), seq, chunk⟩

/-- The bytes the upstream was given. -/
def forwarded (calls : List BlehCall) : List UInt8 :=
  calls.flatMap fun
    | .write data _ => data
    | _ => []

/-- The upstream was told to go ahead. -/
def Executed (calls : List BlehCall) : Prop :=
  ∃ ok, .fetch ok ∈ calls

/-- The writes of some frames. -/
def writes (frames : List BlehFrame) : List BlehCall :=
  frames.flatMap fun f => if f.payload = [] then [] else [.write f.payload true]

/-- The bytes of some frames. -/
def payloads (frames : List BlehFrame) : List UInt8 :=
  frames.flatMap BlehFrame.payload

theorem payloads_bodyFrames (seq : UInt16) (chunks : List (List UInt8)) :
    payloads (bodyFrames seq chunks) = chunks.flatten := by
  have hpayload : (bodyFrames seq chunks).map BlehFrame.payload = chunks := by
    apply ext_getElem?
    intro i
    rw [bodyFrames, List.getElem?_map, List.getElem?_mapIdx]
    cases chunks[i]? with
    | none => rfl
    | some chunk => rfl
  rw [payloads, flatMap_def, hpayload]

theorem forwarded_append (calls more : List BlehCall) :
    forwarded (calls ++ more) = forwarded calls ++ forwarded more :=
  flatMap_append

theorem forwarded_writes (frames : List BlehFrame) :
    forwarded (writes frames) = payloads frames := by
  induction frames with
  | nil => rfl
  | cons f frames ih =>
    rw [writes, flatMap_cons, forwarded_append, payloads, flatMap_cons, ← payloads, ← ih, ← writes]
    by_cases hnil : f.payload = []
    · rw [hnil]
      rfl
    · rw [if_neg hnil, forwarded]
      simp

theorem not_executed_writes (frames : List BlehFrame) : ¬ Executed (writes frames) := by
  rintro ⟨ok, hmem⟩
  obtain ⟨f, -, hf⟩ := mem_flatMap.mp hmem
  split at hf
  · exact absurd hf (by simp)
  · exact absurd hf (by simp)

/-- **What is lost is missed**: frames that arrive in order with all the bytes
carry all of them in order. -/
theorem payloads_eq_of_sublist (h : arrived.Sublist frames)
    (hlen : (payloads arrived).length = (payloads frames).length) :
    payloads arrived = payloads frames :=
  (h.flatMap BlehFrame.payload).eq_of_length hlen

namespace Bleh

variable {β : Type} {env : BlehEnv β} {w₀ w w' : Bleh β} {seq : UInt16} {len : UInt32}
  {body : List BlehFrame} {calls : List BlehCall} {sent refused : List BlehFrame}

/-! ## How far the upload is

`w₀` is the state the request comes in. -/

/-- What has been called, sent and refused since. -/
structure Since (w₀ w : Bleh β) (calls : List BlehCall) (sent refused : List BlehFrame) : Prop where
  calls : w.log.calls = w₀.log.calls ++ calls
  sent : w.log.sent = w₀.log.sent ++ sent
  refused : w.log.refused = w₀.log.refused ++ refused

/-- These frames of the body are taken, and more are to come. -/
structure Taking (w₀ : Bleh β) (seq : UInt16) (len : UInt32) (body : List BlehFrame)
    (w : Bleh β) : Prop where
  state : w.state = .body
  seq : w.seq = seq
  len : w.req.len = len
  isOpen : w.upstreamOpen = true
  received : w.received.toNat = (payloads body).length
  since : ∃ sent refused, Since w₀ w (.openReq true :: writes body) sent refused

/-- These frames were the body, and the upstream was told to go ahead. -/
structure Ran (w₀ : Bleh β) (len : UInt32) (body : List BlehFrame) (w : Bleh β) : Prop where
  state : w.state ≠ .body
  whole : (payloads body).length = len.toNat
  since : ∃ ok rest, forwarded rest = [] ∧
    w.log.calls = w₀.log.calls ++ .openReq true :: (writes body ++ .fetch ok :: rest)

/-- The tunnel answered itself, if the link took it, and the upstream was closed
unfinished. -/
structure Failed (w₀ : Bleh β) (seq : UInt16) (w : Bleh β) : Prop where
  state : w.state = .idle
  since : ∃ calls sent refused, ¬ Executed calls ∧
    Since w₀ w (calls ++ [.close]) sent refused ∧
    (refused = [] → ∃ before status err, sent = before ++ [errFrame seq status err, lastFrame 0 seq])

/-- What is known of the upload when `done` has been handled of its frames. -/
inductive Upload (w₀ : Bleh β) (head : BlehFrame) (len : UInt32) :
    List BlehFrame → Bleh β → Prop
  | waits {w : Bleh β} (hstate : w.state = .idle) (hctx : w.ctx = w₀.ctx)
      (hlog : w.log = w₀.log) : Upload w₀ head len [] w
  | takes {w : Bleh β} {body : List BlehFrame} (h : Taking w₀ head.seq len body w) :
      Upload w₀ head len (head :: body) w
  | ran {w : Bleh β} {body more : List BlehFrame} (h : Ran w₀ len body w) :
      Upload w₀ head len (head :: (body ++ more)) w
  | failed {w : Bleh β} {body : List BlehFrame} (h : Failed w₀ head.seq w) :
      Upload w₀ head len (head :: body) w

theorem forwarded_closeCalls (w : Bleh β) : forwarded w.closeCalls = [] := by
  rw [closeCalls]
  split <;> rfl

theorem Since.frame (h : Since w₀ w calls sent refused) (hcalls : w'.log.calls = w.log.calls)
    (hsent : w'.log.sent = w.log.sent) (hrefused : w'.log.refused = w.log.refused) :
    Since w₀ w' calls sent refused :=
  ⟨hcalls.trans h.calls, hsent.trans h.sent, hrefused.trans h.refused⟩

theorem Since.idled (h : Since w₀ w calls sent refused) (ctx : β) (ctr : BlehCounters)
    (sent' refused' : List BlehFrame) (calls' : List BlehCall) :
    Since w₀ (w.idled ctx ctr sent' refused' calls') (calls ++ calls') (sent ++ sent')
      (refused ++ refused') := by
  constructor
  · rw [Bleh.idled, h.calls, append_assoc]
  · rw [Bleh.idled, h.sent, append_assoc]
  · rw [Bleh.idled, h.refused, append_assoc]

theorem Taking.same (h : Taking w₀ seq len body w) (hstate : w'.state = w.state)
    (hseq : w'.seq = w.seq) (hreq : w'.req = w.req) (hopen : w'.upstreamOpen = w.upstreamOpen)
    (hreceived : w'.received = w.received) (hlog : w'.log = w.log) : Taking w₀ seq len body w' := by
  obtain ⟨sent, refused, hsince⟩ := h.since
  refine ⟨hstate.trans h.state, hseq.trans h.seq, hreq ▸ h.len, hopen.trans h.isOpen,
    hreceived ▸ h.received, sent, refused, ?_⟩
  exact hsince.frame (by rw [hlog]) (by rw [hlog]) (by rw [hlog])

theorem Failed.same (h : Failed w₀ seq w) (hstate : w'.state = w.state) (hlog : w'.log = w.log) :
    Failed w₀ seq w' := by
  obtain ⟨calls, sent, refused, hcalls, hsince, htold⟩ := h.since
  refine ⟨hstate.trans h.state, calls, sent, refused, hcalls, ?_, htold⟩
  exact hsince.frame (by rw [hlog]) (by rw [hlog]) (by rw [hlog])

theorem failed_failBody (h : Since w₀ w calls sent refused) (hseq : w.seq = seq)
    {before : List BlehCall} (hclose : calls ++ w.closeCalls = before ++ [.close])
    (hbefore : ¬ Executed before) (status : ℤ) (err : String) :
    Failed w₀ seq (failBody env w status err) := by
  obtain ⟨ctx, ctr, more, refused', heq, -, hmore, -⟩ := failBody_eq env w status err
  rw [heq]
  refine ⟨rfl, before, _, _, hbefore, hclose ▸ h.idled ctx ctr _ refused' w.closeCalls, ?_⟩
  intro hnone
  refine ⟨sent, status, err, ?_⟩
  rw [hmore (append_eq_nil_iff.mp hnone).2, hseq]

theorem not_executed_open (body : List BlehFrame) : ¬ Executed (.openReq true :: writes body) := by
  rintro ⟨ok, hmem⟩
  rcases mem_cons.mp hmem with hopen | hwrite
  · exact BlehCall.noConfusion hopen
  · exact not_executed_writes body ⟨ok, hwrite⟩

theorem Taking.fail (h : Taking w₀ seq len body w) (hseq : w'.seq = w.seq)
    (hopen : w'.upstreamOpen = w.upstreamOpen) (hlog : w'.log = w.log) (status : ℤ) (err : String) :
    Failed w₀ seq (failBody env w' status err) := by
  obtain ⟨sent, refused, hsince⟩ := h.since
  apply failed_failBody (hsince.frame (by rw [hlog]) (by rw [hlog]) (by rw [hlog]))
    (hseq.trans h.seq) _ (not_executed_open body)
  rw [closeCalls, hopen, h.isOpen]
  rfl

theorem ran_finish (hcalls : w.log.calls = w₀.log.calls ++ .openReq true :: writes body)
    (hlength : (payloads body).length = len.toNat) (nowMs : UInt32) :
    Ran w₀ len body (finishRequest env w nowMs) := by
  have hfetch : ∀ ok rest, w.log.calls ++ .fetch ok :: rest =
      w₀.log.calls ++ .openReq true :: (writes body ++ .fetch ok :: rest) := by
    intro ok rest
    rw [hcalls, append_assoc]
    rfl
  have hclosed := forwarded_closeCalls w
  have hfinished := finishRequest_finished env w nowMs
  generalize finishRequest env w nowMs = w' at hfinished
  cases hfinished with
  | failed ctx ctr more refused' hmore hended hrefused =>
    exact ⟨BlehState.noConfusion, hlength, false, _, hclosed, hfetch false _⟩
  | refused ctx ctr head hrefused =>
    exact ⟨BlehState.noConfusion, hlength, true, _, hclosed, hfetch true _⟩
  | streams ctx ctr head =>
    exact ⟨BlehState.noConfusion, hlength, true, [], rfl, hfetch true []⟩

theorem Taking.finish (h : Taking w₀ seq len body w) (hwhole : w.received = len) (nowMs : UInt32) :
    Ran w₀ len body (finishRequest env w nowMs) := by
  obtain ⟨sent, refused, hsince⟩ := h.since
  exact ran_finish hsince.calls (by rw [← h.received, hwhole]) nowMs

/-! ## The frames of the body -/

/-- A frame of the upload's body. -/
structure IsBody (seq : UInt16) (f : BlehFrame) : Prop where
  type : f.type = blehTReqBody
  seq : f.seq = seq
  length_le : f.payload.length ≤ blehFrameMax

theorem IsBody.formed (hf : IsBody seq f) : f.Formed :=
  ⟨by rw [hf.type]; decide, by rw [hf.type]; decide, hf.length_le⟩

theorem handleFrame_body (hf : IsBody seq f) (w : Bleh β) (nowMs : UInt32) :
    handleFrame env w f.hdr f.payload nowMs =
      onReqBody env { w with ctr := { w.ctr with framesRx := w.ctr.framesRx + 1 } } f.hdr f.payload
        nowMs := by
  rw [handleFrame]
  have htype : f.hdr.type = blehTReqBody := hf.type
  rw [htype, if_neg (by decide), if_pos rfl]

theorem handleFrame_stray (hf : IsBody seq f) (hstate : w.state ≠ .body) (nowMs : UInt32) :
    handleFrame env w f.hdr f.payload nowMs =
      { w with ctr := { w.ctr with framesRx := w.ctr.framesRx + 1 } } := by
  rw [handleFrame_body hf, onReqBody, if_pos (.inl hstate)]

theorem Taking.took (h : Taking w₀ seq len body w) (f : BlehFrame) (nowMs : UInt32) :
    Taking w₀ seq len body (tookBody env w f.hdr nowMs) ∨
      Ran w₀ len body (tookBody env w f.hdr nowMs) ∨
      Failed w₀ seq (tookBody env w f.hdr nowMs) := by
  obtain ⟨sent, refused, hsince⟩ := h.since
  have htook := tookBody_took env w f.hdr nowMs
  generalize tookBody env w f.hdr nowMs = w' at htook
  cases htook with
  | short => exact .inr (.inr (h.fail rfl rfl rfl 400 "short"))
  | whole hwhole => exact .inr (.inl (h.finish (hwhole.trans h.len) nowMs))
  | credit hpart hstep ctx ctr =>
    have hsent : Since w₀ { w with
        ctx := ctx
        ctr := ctr
        lastCredit := w.received
        log := { w.log with sent := w.log.sent ++ [creditFrame w.seq w.received] } }
        (.openReq true :: writes body) (sent ++ [creditFrame w.seq w.received]) refused := by
      refine ⟨hsince.calls, ?_, hsince.refused⟩
      rw [hsince.sent, append_assoc]
    exact .inl ⟨h.state, h.seq, h.len, h.isOpen, h.received, _, _, hsent⟩
  | refused hstep ctx ctr hrefused =>
    -- the link is gone: nobody is left to be answered
    have hclose : w.closeCalls = [.close] := by rw [closeCalls, if_pos h.isOpen]
    have hidled := hsince.idled ctx ctr [creditFrame w.seq w.received]
      [creditFrame w.seq w.received] w.closeCalls
    rw [hclose] at hidled ⊢
    refine .inr (.inr ⟨rfl, _, _, _, not_executed_open body, hidled, fun hnone => ?_⟩)
    exact absurd hnone (by simp)
  | waits => exact .inl h

theorem payloads_append (frames more : List BlehFrame) :
    payloads (frames ++ more) = payloads frames ++ payloads more :=
  flatMap_append

theorem writes_singleton (f : BlehFrame) :
    writes [f] = if f.payload = [] then [] else [.write f.payload true] := by
  rw [writes, flatMap_singleton]

theorem writes_append (frames more : List BlehFrame) :
    writes (frames ++ more) = writes frames ++ writes more :=
  flatMap_append

theorem Taking.next (h : Taking w₀ seq len body w) (hf : IsBody seq f) (nowMs : UInt32) :
    Taking w₀ seq len (body ++ [f]) (handleFrame env w f.hdr f.payload nowMs) ∨
      Ran w₀ len (body ++ [f]) (handleFrame env w f.hdr f.payload nowMs) ∨
      Failed w₀ seq (handleFrame env w f.hdr f.payload nowMs) := by
  rw [handleFrame_body hf, onReqBody, if_neg]
  swap
  · rw [not_or]
    exact ⟨not_not.mpr h.state, not_not.mpr (hf.seq.trans h.seq.symm)⟩
  split
  · exact .inr (.inr (h.fail (by rfl) (by rfl) (by rfl) 400 "hole"))
  split
  · exact .inr (.inr (h.fail (by rfl) (by rfl) (by rfl) 400 "len"))
  rename_i hfits
  obtain ⟨sent, refused, hsince⟩ := h.since
  obtain ⟨ctx, calls, ok, heq, hcalls⟩ := writeBody_eq env { w with
    lastActivityMs := nowMs
    reqCtr := (w.reqCtr + 1) &&& 0x0F
    ctr := { w.ctr with framesRx := w.ctr.framesRx + 1 } } f.payload
  rw [heq]
  have hcalled : ∀ w', w'.log = { w.log with calls := w.log.calls ++ calls } →
      Since w₀ w' (.openReq true :: writes body ++ calls) sent refused := by
    intro w' hlog
    constructor
    · rw [hlog, hsince.calls, append_assoc]
    · rw [hlog, hsince.sent]
    · rw [hlog, hsince.refused]
  cases ok with
  | false =>
    right; right
    apply failed_failBody (hcalled _ rfl)
    · exact h.seq
    · rw [h.isOpen]
      rfl
    · rintro ⟨ok, hmem⟩
      rcases mem_append.mp hmem with hbefore | hwrite
      · exact not_executed_open body ⟨ok, hbefore⟩
      · rw [hcalls] at hwrite
        split at hwrite
        · exact absurd hwrite (by simp)
        · exact absurd hwrite (by simp)
  | true =>
    dsimp only
    apply Taking.took
    refine ⟨h.state, h.seq, h.len, h.isOpen, ?_, sent, refused, ?_⟩
    · have hlt := w.req.len.toNat_lt
      have hlen := BlehFrame.toNat_hdr_len hf.formed
      dsimp only at hfits ⊢
      rw [UInt32.toNat_add, UInt16.toNat_toUInt32, payloads_append, length_append,
        ← h.received, payloads, flatMap_singleton]
      omega
    · rw [writes_append, writes_singleton, ← hcalls]
      exact hcalled _ rfl

theorem Ran.more (h : Ran w₀ len body w) {more : List BlehCall}
    (hcalls : w'.log.calls = w.log.calls ++ more) (hmore : forwarded more = [])
    (hstate : w'.state ≠ .body) : Ran w₀ len body w' := by
  obtain ⟨ok, rest, hrest, hsince⟩ := h.since
  refine ⟨hstate, h.whole, ok, rest ++ more, ?_, ?_⟩
  · rw [forwarded_append, hrest, hmore]
    rfl
  · rw [hcalls, hsince, append_assoc, cons_append, append_assoc]
    rfl

theorem Ran.same (h : Ran w₀ len body w) (hcalls : w'.log.calls = w.log.calls)
    (hstate : w'.state = w.state) : Ran w₀ len body w' := by
  have hnone : w'.log.calls = w.log.calls ++ [] := by rw [hcalls, append_nil]
  exact h.more hnone rfl (hstate ▸ h.state)

theorem Ran.goIdle (h : Ran w₀ len body w) : Ran w₀ len body (goIdle env w) := by
  obtain ⟨ctx, heq⟩ := goIdle_eq env w
  rw [heq]
  exact h.more rfl (forwarded_closeCalls w) BlehState.noConfusion

theorem Ran.close (h : Ran w₀ len body w) : Ran w₀ len body (upstreamClose env w) := by
  obtain ⟨ctx, heq⟩ := upstreamClose_eq env w
  rw [heq]
  exact h.more rfl (forwarded_closeCalls w) h.state

theorem Ran.emitLast (h : Ran w₀ len body w) : Ran w₀ len body (emitLast env w) := by
  exact h.same rfl rfl

theorem Ran.emitFrame (h : Ran w₀ len body w) (type flags : UInt8) (q : UInt16)
    (payload : List UInt8) : Ran w₀ len body (emitFrame env w type flags q payload).1 := by
  rw [Bleh.emitFrame]
  split
  · exact h
  · exact h.same rfl rfl

theorem Ran.read (h : Ran w₀ len body w) (ctx : β) (data : List UInt8) :
    Ran w₀ len body (w.call ctx (.read data)) :=
  h.more rfl rfl h.state

theorem Ran.pump (h : Ran w₀ len body w) (nowMs : UInt32) :
    Ran w₀ len body (pump env w nowMs).1 := by
  apply pump_inv env nowMs (I := Ran w₀ len body) _ w h
  intro w hstate h
  rw [pumpFrame]
  split
  · exact h.same rfl rfl
  split
  · rename_i ctx hread
    exact (h.read ctx []).emitLast.goIdle
  rename_i ctx b data hread
  have hemit : Ran w₀ len body (Bleh.emitFrame env (w.call ctx (.read (b :: data))) blehTRspBody
      (blehCtrFlags w.rspCtr false) w.seq (b :: data)).1 :=
    (h.read ctx (b :: data)).emitFrame _ _ _ _
  split
  · rename_i w' hfail
    rw [hfail] at hemit
    exact hemit.goIdle
  · rename_i w' hsent
    rw [hsent] at hemit
    exact hemit.same rfl rfl

/-! ## The calls of an upload -/

theorem taking_head (htype : head.type = blehTReq)
    (hparse : blehReqParse (env.cjsonParse head.payload) = .ok req)
    (hopen : (env.openReq w₀.ctx req).2 = true) (hstate : w.state = .idle) (hctx : w.ctx = w₀.ctx)
    (hlog : w.log = w₀.log) (nowMs : UInt32) :
    Taking w₀ head.seq req.len [] (handleFrame env w head.hdr head.payload nowMs) ∨
      Ran w₀ req.len [] (handleFrame env w head.hdr head.payload nowMs) := by
  have htype' : head.hdr.type = blehTReq := htype
  rw [handleFrame]
  rw [if_pos htype', onReq, if_neg (not_not.mpr hstate), hparse]
  dsimp only
  obtain ⟨⟨ctx, ok⟩, hopened⟩ : ∃ r, env.openReq w₀.ctx req = r := ⟨_, rfl⟩
  rw [hopened] at hopen
  have hctx' : (((({ w with ctr := { w.ctr with framesRx := w.ctr.framesRx + 1 } } :
      Bleh β).handle head.hdr.seq).accept head.hdr req nowMs).ctx) = w₀.ctx := hctx
  rw [hctx', hopened, show ok = true from hopen]
  dsimp only
  have hcalls : w.log.calls ++ [.openReq true] = w₀.log.calls ++ .openReq true :: writes [] := by
    rw [hlog]
    rfl
  by_cases hlen : req.len = 0
  · rw [if_pos hlen]
    right
    apply ran_finish hcalls
    rw [hlen]
    rfl
  · rw [if_neg hlen]
    refine .inl ⟨rfl, rfl, rfl, rfl, rfl, [], [], hcalls, ?_, ?_⟩
    · dsimp only [call, accept, handle]
      rw [hlog, append_nil]
    · dsimp only [call, accept, handle]
      rw [hlog, append_nil]

theorem upload_reads (htype : head.type = blehTReq) (hlength : head.payload.length ≤ blehFrameMax)
    (hparse : blehReqParse (env.cjsonParse head.payload) = .ok req)
    (hopen : (env.openReq w₀.ctx req).2 = true) (hbody : ∀ f ∈ arrived, IsBody head.seq f) :
    Reads env (head :: arrived) (Upload w₀ head req.len) := by
  constructor
  · intro f hf
    rcases mem_cons.mp hf with rfl | hf
    · exact ⟨by rw [htype]; decide, by rw [htype]; decide, hlength⟩
    · exact (hbody f hf).formed
  · intro done w rx ctr h
    cases h with
    | waits hstate hctx hlog => exact .waits hstate hctx hlog
    | takes h => exact .takes (h.same rfl rfl rfl rfl rfl rfl)
    | ran h => exact .ran (h.same rfl rfl)
    | failed h => exact .failed (h.same rfl rfl)
  · intro done f later w nowMs hframes h
    have hnext : ∀ body, done = head :: body → IsBody head.seq f := by
      rintro body rfl
      apply hbody
      rw [(cons.inj hframes).2]
      simp
    cases h with
    | waits hstate hctx hlog =>
      obtain rfl := (cons.inj hframes).1
      rcases taking_head htype hparse hopen hstate hctx hlog nowMs with h | h
      · exact .takes h
      · exact .ran h
    | @takes _ body h =>
      rcases h.next (hnext body rfl) nowMs with h | h | h
      · exact .takes h
      · have hran : Upload w₀ head req.len (head :: (body ++ [f] ++ [])) _ := .ran h
        rw [append_nil] at hran
        exact hran
      · exact .failed h
    | @ran _ body more h =>
      rw [handleFrame_stray (hnext _ rfl) h.state, cons_append, append_assoc]
      exact .ran (h.same rfl rfl)
    | @failed _ body h =>
      rw [handleFrame_stray (hnext body rfl) (by rw [h.state]; exact BlehState.noConfusion)]
      exact .failed (h.same rfl rfl)

theorem Taking.timeout (h : Taking w₀ seq len body w) {nowMs : UInt32}
    (hover : blehIdleTimeoutMs < nowMs - w.lastActivityMs) : Failed w₀ seq (tick env w nowMs) := by
  obtain ⟨sent, refused, hsince⟩ := h.since
  obtain ⟨ctx, heq⟩ := upstreamClose_eq env
    { w with ctr := { w.ctr with timeouts := w.ctr.timeouts + 1 } }
  rw [tick, if_neg (UInt32.not_le.mpr hover), h.state]
  dsimp only
  rw [← h.state, heq]
  have hcalls : w.log.calls ++ w.closeCalls =
      w₀.log.calls ++ (.openReq true :: writes body ++ [.close]) := by
    rw [closeCalls, if_pos h.isOpen, hsince.calls, append_assoc]
  have hclosed : ∀ w', w'.log = { w.log with calls := w.log.calls ++ w.closeCalls } →
      Since w₀ w' (.openReq true :: writes body ++ [.close]) sent refused := by
    intro w' hlog
    rw [hcalls] at hlog
    exact ⟨by rw [hlog], by rw [hlog, hsince.sent], by rw [hlog, hsince.refused]⟩
  apply failed_failBody (hclosed _ rfl)
  · exact h.seq
  · rw [closeCalls, if_neg Bool.false_ne_true, append_nil]
  · exact not_executed_open body

theorem tick_of_idle (hstate : w.state = .idle) (nowMs : UInt32) : tick env w nowMs = w := by
  rw [tick]
  split
  · rfl
  · rw [hstate]

theorem Upload.tick (h : Upload w₀ head len done w) (nowMs : UInt32) :
    Upload w₀ head len done (tick env w nowMs) := by
  by_cases hover : blehIdleTimeoutMs < nowMs - w.lastActivityMs
  · cases h with
    | waits hstate hctx hlog =>
      rw [tick_of_idle hstate]
      exact .waits hstate hctx hlog
    | takes h => exact .failed (h.timeout hover)
    | ran h =>
      rw [Bleh.tick, if_neg (UInt32.not_le.mpr hover)]
      split
      · rename_i hstate
        exact absurd hstate h.state
      · exact .ran (Ran.goIdle (Ran.emitLast (Ran.close (h.same rfl rfl))))
      · exact .ran h
    | failed h =>
      rw [tick_of_idle h.state]
      exact .failed h
  · rw [Bleh.tick, if_pos (UInt32.not_lt.mp hover)]
    exact h

theorem Upload.pump (h : Upload w₀ head len done w) (nowMs : UInt32) :
    Upload w₀ head len done (pump env w nowMs).1 := by
  have hquiet : w.state ≠ .responding → (Bleh.pump env w nowMs).1 = w := by
    intro hstate
    rw [Bleh.pump, if_pos hstate]
  cases h with
  | waits hstate hctx hlog =>
    rw [hquiet (by rw [hstate]; exact BlehState.noConfusion)]
    exact .waits hstate hctx hlog
  | takes h =>
    rw [hquiet (by rw [h.state]; exact BlehState.noConfusion)]
    exact .takes h
  | ran h => exact .ran (h.pump nowMs)
  | failed h =>
    rw [hquiet (by rw [h.state]; exact BlehState.noConfusion)]
    exact .failed h

/-! ## Runs -/

theorem tick_rx (w : Bleh β) (nowMs : UInt32) : (tick env w nowMs).rx = w.rx := by
  rw [tick]
  split
  · rfl
  split
  · rw [failBody_rx, upstreamClose_rx]
  · rw [goIdle_rx, emitLast_rx, upstreamClose_rx]
  · rfl

theorem pump_rx (w : Bleh β) (nowMs : UInt32) : (pump env w nowMs).1.rx = w.rx := by
  apply pump_inv env nowMs (I := fun w' => w'.rx = w.rx) _ w rfl
  intro w₁ _ h₁
  rw [← h₁, pumpFrame]
  split
  · rfl
  split
  · rw [goIdle_rx]
    rfl
  rename_i ctx b data hread
  have hemit : ∀ payload, (emitFrame env (w₁.call ctx (.read (b :: data))) blehTRspBody
      (blehCtrFlags w₁.rspCtr false) w₁.seq payload).1.rx = w₁.rx := by
    intro payload
    rw [emitFrame]
    split <;> rfl
  have hsent := hemit (b :: data)
  split
  · rename_i w' hfail
    rw [hfail] at hsent
    rw [goIdle_rx]
    exact hsent
  · rename_i w' hfail
    rw [hfail] at hsent
    exact hsent

/-- The bytes a call brings. -/
def Input.bytes : Input → List UInt8
  | .rx data _ => data
  | _ => []

theorem Reading.run (hreads : Reads env frames (Upload w₀ head req.len)) {inputs : List Input}
    {w w' : Bleh β} (hrun : Run (Takes env) w inputs w') (hup : ∀ i ∈ inputs, i ≠ .linkDown)
    (h : Reading frames (Upload w₀ head req.len) w (inputs.flatMap Input.bytes)) :
    Reading frames (Upload w₀ head req.len) w' [] := by
  induction hrun with
  | nil w => exact h
  | @cons w w₁ w₂ i inputs hstep _ ih =>
    obtain rfl := hstep
    apply ih (fun j hj => hup j (mem_cons_of_mem _ hj))
    cases i with
    | rx data nowMs => exact h.rxData hreads nowMs
    | pump nowMs => exact h.same (fun done hI => hI.pump nowMs) (pump_rx w nowMs)
    | tick nowMs => exact h.same (fun done hI => hI.tick nowMs) (tick_rx w nowMs)
    | setLink notify pduPayload =>
      refine h.same (fun done hI => ?_) rfl
      cases hI with
      | waits hstate hctx hlog => exact .waits hstate hctx hlog
      | takes h => exact .takes (h.same rfl rfl rfl rfl rfl rfl)
      | ran h => exact .ran (h.same rfl rfl)
      | failed h => exact .failed (h.same rfl rfl)
    | linkDown => exact absurd rfl (hup .linkDown mem_cons_self)

theorem isBody_of_mem {chunks : List (List UInt8)}
    (hchunks : ∀ c ∈ chunks, c.length ≤ blehFrameMax) (hf : f ∈ bodyFrames seq chunks) :
    IsBody seq f := by
  obtain ⟨i, hi, rfl⟩ := mem_mapIdx.mp hf
  exact ⟨rfl, rfl, hchunks _ (getElem_mem hi)⟩

/-- **Whole or not at all**: whichever frames of the body arrive, in whichever
pieces and with whatever between them, a request that is executed was given
exactly its body. One that is not is over with the next late tick at the latest,
its upstream closed unfinished and the app told, if the link takes the frames. -/
theorem blehUpload_whole (env : BlehEnv β) (w₀ : Bleh β) (hidle : w₀.state = .idle)
    (hrx : w₀.rx = []) (head : BlehFrame) (htype : head.type = blehTReq)
    (hlength : head.payload.length ≤ blehFrameMax) (req : BlehReq)
    (hparse : blehReqParse (env.cjsonParse head.payload) = .ok req)
    (hopen : (env.openReq w₀.ctx req).2 = true) (chunks : List (List UInt8))
    (hchunks : ∀ c ∈ chunks, c.length ≤ blehFrameMax) (hlen : req.len.toNat = chunks.flatten.length)
    (arrived : List BlehFrame) (harrived : arrived.Sublist (bodyFrames head.seq chunks))
    (inputs : List Input) (hup : ∀ i ∈ inputs, i ≠ .linkDown)
    (hbytes : inputs.flatMap Input.bytes = (head :: arrived).flatMap BlehFrame.bytes) (w : Bleh β)
    (hrun : Run (Takes env) w₀ inputs w) :
    ∃ calls, w.log.calls = w₀.log.calls ++ calls ∧
      (Executed calls → forwarded calls = chunks.flatten) ∧
      (¬ Executed calls → ∀ nowMs, blehIdleTimeoutMs < nowMs - w.lastActivityMs →
        Failed w₀ head.seq (w.take env (.tick nowMs))) := by
  have hbody : ∀ f ∈ arrived, IsBody head.seq f :=
    fun f hf => isBody_of_mem hchunks (harrived.mem hf)
  have hreads := upload_reads htype hlength hparse hopen hbody
  have hstart : Reading (head :: arrived) (Upload w₀ head req.len) w₀
      (inputs.flatMap Input.bytes) := by
    refine ⟨[], head :: arrived, rfl, .waits hidle rfl rfl, ?_, ?_⟩
    · rw [hrx, hbytes]
      rfl
    · intro f rest _
      rw [hrx, BlehFrame.length_bytes]
      exact Nat.add_pos_left (by decide) _
  obtain ⟨done, later, hframes, hupload, hstream, hshort⟩ := hstart.run hreads hrun hup
  -- nothing is on its way any more, so all that arrived has been handled
  have hdone : done = head :: arrived := by
    cases later with
    | nil => rw [hframes, append_nil]
    | cons f rest =>
      have hlt := hshort f rest rfl
      rw [append_nil] at hstream
      rw [hstream, flatMap_cons, length_append] at hlt
      omega
  cases hupload with
  | waits => exact absurd hdone (cons_ne_nil _ _).symm
  | takes h =>
    obtain ⟨sent, refused, hsince⟩ := h.since
    exact ⟨_, hsince.calls, fun hran => absurd hran (not_executed_open _),
      fun _ nowMs hover => h.timeout hover⟩
  | @ran _ body more h =>
    obtain ⟨ok, rest, hrest, hcalls⟩ := h.since
    have hsub : body.Sublist (bodyFrames head.seq chunks) := by
      rw [← (cons.inj hdone).2] at harrived
      exact (sublist_append_left body more).trans harrived
    have hwhole : payloads body = payloads (bodyFrames head.seq chunks) := by
      apply payloads_eq_of_sublist hsub
      rw [h.whole, payloads_bodyFrames, hlen]
    refine ⟨_, hcalls, fun _ => ?_, fun hnot => absurd ⟨ok, by simp⟩ hnot⟩
    rw [← payloads_bodyFrames head.seq chunks, ← hwhole, ← forwarded_writes]
    have hfetch : forwarded (.fetch ok :: rest) = [] := hrest
    have hfirst : forwarded (.openReq true :: (writes body ++ .fetch ok :: rest)) =
      forwarded (writes body ++ .fetch ok :: rest) := rfl
    rw [hfirst, forwarded_append, hfetch, append_nil]
  | failed h =>
    obtain ⟨calls, sent, refused, hnot, hsince, -⟩ := h.since
    refine ⟨_, hsince.calls, fun hran => ?_, fun _ nowMs _ => ?_⟩
    · obtain ⟨ok, hmem⟩ := hran
      rcases mem_append.mp hmem with hbefore | hclose
      · exact absurd ⟨ok, hbefore⟩ hnot
      · exact absurd hclose (by simp)
    · rw [Bleh.take, tick_of_idle h.state]
      exact h

/-- `{"m":"POST","p":"/api/x","len":2}` -/
def postTwo : Json :=
  .obj [("m".toList, .str "POST".toList), ("p".toList, .str "/api/x".toList), ("len".toList, .num 2)]

def postTwoFrame : BlehFrame :=
  ⟨blehTReq, 0, 1, textBytes "\x7b\"m\":\"POST\",\"p\":\"/api/x\",\"len\":2\x7d".toList⟩

/-- Behind the head, when some frames of the body arrived. -/
def afterTwo (arrived : List BlehFrame) : Bleh Unit :=
  ((init ()).take (sampleEnv postTwo) (.rx postTwoFrame.bytes 0)).take (sampleEnv postTwo)
    (.rx (arrived.flatMap BlehFrame.bytes) 1)

/-- Two frames make the body whole; when the first of them is lost, the request fails. -/
theorem blehUpload_whole_two :
    (Executed (afterTwo (bodyFrames 1 [[7], [8]])).log.calls ∧
        forwarded (afterTwo (bodyFrames 1 [[7], [8]])).log.calls = [7, 8]) ∧
      Failed (init ()) 1 ((afterTwo (bodyFrames 1 [[7], [8]]).tail).take (sampleEnv postTwo)
        (.tick 30002)) := by
  have hupload := fun arrived hsub => blehUpload_whole (sampleEnv postTwo) (init ()) rfl rfl
    postTwoFrame rfl (by decide) ⟨"POST".toList, "/api/x".toList, [], 2⟩ (by decide) rfl [[7], [8]]
    (by decide) rfl arrived hsub
    [.rx postTwoFrame.bytes 0, .rx (arrived.flatMap BlehFrame.bytes) 1] (by simp)
    (by simp [Input.bytes]) (afterTwo arrived) (.cons rfl (.cons rfl (.nil _)))
  constructor
  · obtain ⟨calls, hcalls, hwhole, -⟩ := hupload _ (.refl _)
    have hran : Executed (afterTwo (bodyFrames 1 [[7], [8]])).log.calls := ⟨true, by decide⟩
    obtain rfl : _ = calls := hcalls
    exact ⟨hran, hwhole hran⟩
  · obtain ⟨calls, hcalls, -, hfails⟩ := hupload _ (tail_sublist _)
    obtain rfl : _ = calls := hcalls
    refine hfails ?_ 30002 (by decide)
    rintro ⟨ok, hmem⟩
    cases ok with
    | false => exact absurd hmem (by decide)
    | true => exact absurd hmem (by decide)

/-- The same server behind a link that is gone. -/
def deafEnv (head : Json) : BlehEnv Unit :=
  { sampleEnv head with emit := fun _ _ => ((), false) }

/-- Over a link that takes nothing nobody is answered. -/
theorem blehUpload_deaf :
    ¬ ∀ (β : Type) (env : BlehEnv β) (w₀ : Bleh β) (head : BlehFrame) (req : BlehReq)
      (chunks : List (List UInt8)) (arrived : List BlehFrame) (inputs : List Input) (w : Bleh β)
      (nowMs : UInt32),
      w₀.state = .idle → w₀.rx = [] → head.type = blehTReq →
      head.payload.length ≤ blehFrameMax →
      blehReqParse (env.cjsonParse head.payload) = .ok req → (env.openReq w₀.ctx req).2 = true →
      (∀ c ∈ chunks, c.length ≤ blehFrameMax) → req.len.toNat = chunks.flatten.length →
      arrived.Sublist (bodyFrames head.seq chunks) → (∀ i ∈ inputs, i ≠ .linkDown) →
      inputs.flatMap Input.bytes = (head :: arrived).flatMap BlehFrame.bytes →
      Run (Takes env) w₀ inputs w → blehIdleTimeoutMs < nowMs - w.lastActivityMs →
      ∃ calls, w.log.calls = w₀.log.calls ++ calls ∧
        (Executed calls → forwarded calls = chunks.flatten) ∧
        (¬ Executed calls → ∃ status err,
          errFrame head.seq status err ∈ (w.take env (.tick nowMs)).log.sent ∧
          errFrame head.seq status err ∉ (w.take env (.tick nowMs)).log.refused) := by
  intro hclaim
  have hrun : Run (Takes (deafEnv samplePost)) (init ()) [.rx samplePostFrame.bytes 0] _ :=
    .cons rfl (.nil _)
  obtain ⟨calls, hcalls, -, htold⟩ := hclaim Unit (deafEnv samplePost) (init ()) samplePostFrame
    ⟨"POST".toList, "/api/x".toList, [], 1⟩ [[7]] [] _ _ 30001 rfl rfl rfl (by decide) (by decide)
    rfl (by decide) rfl (nil_sublist _) (by simp) (by simp [Input.bytes]) hrun (by decide)
  have hnot : ¬ Executed calls := by
    rw [show calls = [] ++ calls from rfl, show ([] : List BlehCall) = (init ()).log.calls from rfl,
      ← hcalls]
    rintro ⟨ok, hmem⟩
    cases ok with
    | false => exact absurd hmem (by decide)
    | true => exact absurd hmem (by decide)
  obtain ⟨status, err, hsent, hrefused⟩ := htold hnot
  exact hrefused hsent

end Bleh

end Meatpi
