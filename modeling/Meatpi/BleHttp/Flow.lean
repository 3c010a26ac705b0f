import Meatpi.BleHttp.Upload

/-!
# The two windows

An upload is credited every 8 KB, a download to a notified app may be 16 KB
ahead of the app's own credits. `Flow` is what every call keeps of the two
counts of each direction; from it the app may always send or owes a credit, and
a credit for all it got lets the pump go on.

The counts of a download are 32 bits wide and are compared as they stand, so the
download half holds of answers of less than 2³² bytes, and of no others
(`blehFlow_wraps`).
-/

namespace Meatpi

open List Nat

/-! ## The payload of a CREDIT -/

theorem toNat_byte (v s : UInt32) (k : ℕ) (hs : s.toNat = k) (hk : k < 32) :
    (v >>> s).toUInt8.toNat = v.toNat / 2 ^ k % 256 := by
  rw [UInt32.toNat_toUInt8, UInt32.toNat_shiftRight, hs, Nat.mod_eq_of_lt hk,
    Nat.shiftRight_eq_div_pow]

theorem creditValue_creditBytes (v : UInt32) : Bleh.creditValue (Bleh.creditBytes v) = v := by
  have hv := v.toNat_lt
  have hbyte : ∀ (s : UInt32) (k : ℕ), s.toNat = k → k + 8 ≤ 32 →
      ((v >>> s).toUInt8.toUInt32 <<< s).toNat = 2 ^ k * (v.toNat / 2 ^ k % 256) := by
    intro s k hs hk
    rw [UInt32.toNat_shiftLeft, UInt8.toNat_toUInt32, toNat_byte v s k hs (by omega), hs,
      Nat.mod_eq_of_lt (by omega : k < 32), shiftLeft_eq, Nat.mul_comm]
    apply Nat.mod_eq_of_lt
    have hlt : v.toNat / 2 ^ k % 256 < 2 ^ 8 := mod_lt _ (by omega)
    calc 2 ^ k * (v.toNat / 2 ^ k % 256) < 2 ^ k * 2 ^ 8 :=
          Nat.mul_lt_mul_of_pos_left hlt (Nat.pow_pos (by omega))
      _ = 2 ^ (k + 8) := (pow_add 2 k 8).symm
      _ ≤ 2 ^ 32 := Nat.pow_le_pow_right (by omega) hk
  have hfirst : v.toUInt8.toUInt32.toNat = v.toNat % 256 := by
    rw [UInt8.toNat_toUInt32, UInt32.toNat_toUInt8]
  apply UInt32.toNat_inj.mp
  rw [Bleh.creditBytes, Bleh.creditValue, UInt32.toNat_or, UInt32.toNat_or, UInt32.toNat_or,
    hfirst, hbyte 8 8 rfl (by omega), hbyte 16 16 rfl (by omega), hbyte 24 24 rfl (by omega),
    lor_comm (v.toNat % 256), ← two_pow_add_eq_or_of_lt (by omega),
    lor_comm _ (2 ^ 16 * _), ← two_pow_add_eq_or_of_lt (by omega),
    lor_comm _ (2 ^ 24 * _), ← two_pow_add_eq_or_of_lt (by omega)]
  omega

namespace Bleh

variable {β : Type} {env : BlehEnv β} {w w' : Bleh β}

/-! ## The counts -/

/-- The CREDITs the device sent for the request it took last. -/
def credits (w : Bleh β) : List UInt32 :=
  ((w.log.sent.drop w.log.mark).filter fun f => f.type = blehTCredit).map fun f =>
    creditValue f.payload

/-- What holds of the counts whatever the core is at. -/
structure Framed (w : Bleh β) : Prop where
  window : w.outWindow = 0 ∨ w.outWindow = blehOutWindow
  frame_le : w.outFrame.toNat ≤ blehFrameMax
  mark : w.log.mark ≤ w.log.sent.length
  rising : w.credits.Pairwise (· < ·)

/-- What every call keeps of the counts. -/
structure Flow (w : Bleh β) : Prop extends Framed w where
  /-- nothing is counted but of an answer that streams -/
  rest : w.state ≠ .responding → w.outSent = 0 ∧ w.outAcked = 0
  sent : w.state = .responding → w.outSent = UInt32.ofNat w.log.streamed
  frame_pos : w.state = .responding → 0 < w.outFrame.toNat
  unacked : w.outWindow ≠ 0 → (w.outSent - w.outAcked).toNat ≤ blehOutWindow.toNat
  acked : w.log.streamed < 2 ^ 32 → w.outAcked ≤ w.outSent
  /-- the last CREDIT, and not as far as the next -/
  credited : w.state = .body → w.credits.getLast?.getD 0 = w.lastCredit
  below : w.state = .body → ∀ v ∈ w.credits, v ≤ w.lastCredit
  step : w.state = .body → w.lastCredit ≤ w.received ∧
    w.received.toNat < w.lastCredit.toNat + blehCreditStep.toNat
  part : w.state = .body → w.received < w.req.len

theorem flow_init (ctx : β) : (init ctx).Flow where
  rest _ := ⟨rfl, rfl⟩
  sent h := absurd h BlehState.noConfusion
  window := .inl rfl
  frame_le := Nat.zero_le _
  frame_pos h := absurd h BlehState.noConfusion
  unacked h := absurd rfl h
  acked _ := UInt32.le_refl 0
  mark := Nat.le_refl _
  rising := .nil
  credited h := absurd h BlehState.noConfusion
  below h := absurd h BlehState.noConfusion
  step h := absurd h BlehState.noConfusion
  part h := absurd h BlehState.noConfusion

theorem credits_append (hmark : w.log.mark ≤ w.log.sent.length) (hmark' : w'.log.mark = w.log.mark)
    {more : List BlehFrame} (hsent : w'.log.sent = w.log.sent ++ more) :
    w'.credits = w.credits ++ (more.filter fun f => f.type = blehTCredit).map fun f =>
      creditValue f.payload := by
  rw [credits, hsent, hmark', drop_append_of_le_length hmark, filter_append, map_append, credits]

theorem credits_same (hmark : w.log.mark ≤ w.log.sent.length) (hmark' : w'.log.mark = w.log.mark)
    {more : List BlehFrame} (hsent : w'.log.sent = w.log.sent ++ more)
    (hmore : ∀ f ∈ more, f.type ≠ blehTCredit) : w'.credits = w.credits := by
  have hnone : more.filter (fun f => f.type = blehTCredit) = [] := by
    rw [filter_eq_nil_iff]
    intro f hf
    simpa using hmore f hf
  rw [credits_append hmark hmark' hsent, hnone, map_nil, append_nil]

theorem Framed.idled_of (h : w.Framed) (ctx : β) (ctr : BlehCounters) (sent refused : List BlehFrame)
    (calls : List BlehCall)
    (hrising : (w.idled ctx ctr sent refused calls).credits.Pairwise (· < ·)) :
    (w.idled ctx ctr sent refused calls).Flow where
  window := h.window
  frame_le := h.frame_le
  mark := by
    rw [Bleh.idled]
    rw [length_append]
    exact h.mark.trans (Nat.le_add_right _ _)
  rising := hrising
  rest _ := ⟨rfl, rfl⟩
  sent h := absurd h BlehState.noConfusion
  frame_pos h := absurd h BlehState.noConfusion
  unacked _ := show (0 - 0 : UInt32).toNat ≤ blehOutWindow.toNat by decide
  acked _ := UInt32.le_refl 0
  credited h := absurd h BlehState.noConfusion
  below h := absurd h BlehState.noConfusion
  step h := absurd h BlehState.noConfusion
  part h := absurd h BlehState.noConfusion

theorem Framed.idled (h : w.Framed) (ctx : β) (ctr : BlehCounters) {sent : List BlehFrame}
    (hsent : ∀ f ∈ sent, f.type ≠ blehTCredit) (refused : List BlehFrame)
    (calls : List BlehCall) : (w.idled ctx ctr sent refused calls).Flow := by
  apply h.idled_of
  rw [credits_same h.mark (by rfl) (by rfl) hsent]
  exact h.rising

theorem Framed.quiet (h : w.Framed) (hwindow : w'.outWindow = w.outWindow)
    (hframe : w'.outFrame = w.outFrame) (hmark : w'.log.mark = w.log.mark)
    {more : List BlehFrame} (hlog : w'.log.sent = w.log.sent ++ more)
    (hmore : ∀ f ∈ more, f.type ≠ blehTCredit) : w'.Framed := by
  constructor
  · rw [hwindow]
    exact h.window
  · rw [hframe]
    exact h.frame_le
  · rw [hmark, hlog, length_append]
    exact h.mark.trans (Nat.le_add_right _ _)
  · rw [credits_same h.mark hmark hlog hmore]
    exact h.rising

theorem Flow.quiet (h : w.Flow) (hstate : w'.state = w.state) (hreq : w'.req = w.req)
    (hreceived : w'.received = w.received) (hcredit : w'.lastCredit = w.lastCredit)
    (hsent : w'.outSent = w.outSent) (hacked : w'.outAcked = w.outAcked)
    (hwindow : w'.outWindow = w.outWindow) (hframe : w'.outFrame = w.outFrame)
    (hmark : w'.log.mark = w.log.mark) (hstreamed : w'.log.streamed = w.log.streamed)
    {more : List BlehFrame} (hlog : w'.log.sent = w.log.sent ++ more)
    (hmore : ∀ f ∈ more, f.type ≠ blehTCredit) : w'.Flow := by
  have hcredits : w'.credits = w.credits := credits_same h.mark hmark hlog hmore
  refine ⟨h.toFramed.quiet hwindow hframe hmark hlog hmore, ?_, ?_, ?_, ?_, ?_, ?_, ?_, ?_, ?_⟩
  · rw [hstate, hsent, hacked]
    exact h.rest
  · rw [hstate, hsent, hstreamed]
    exact h.sent
  · rw [hstate, hframe]
    exact h.frame_pos
  · rw [hwindow, hsent, hacked]
    exact h.unacked
  · rw [hstreamed, hsent, hacked]
    exact h.acked
  · rw [hstate, hcredits, hcredit]
    exact h.credited
  · rw [hstate, hcredits, hcredit]
    exact h.below
  · rw [hstate, hreceived, hcredit]
    exact h.step
  · rw [hstate, hreceived, hreq]
    exact h.part

theorem errFrame_type (seq : UInt16) (status : ℤ) (err : String) {more : List BlehFrame}
    (hmore : more = [] ∨ more = [lastFrame 0 seq]) :
    ∀ f ∈ errFrame seq status err :: more, f.type ≠ blehTCredit := by
  have hhead : blehTRsp ≠ blehTCredit := by decide
  have hbody : blehTRspBody ≠ blehTCredit := by decide
  intro f hf
  rcases mem_cons.mp hf with rfl | hf
  · exact hhead
  · rcases hmore with rfl | rfl
    · exact absurd hf not_mem_nil
    · obtain rfl := mem_singleton.mp hf
      exact hbody

theorem type_of_mem_singleton {f : BlehFrame} (hf : f.type ≠ blehTCredit) :
    ∀ g ∈ [f], g.type ≠ blehTCredit := by
  intro g hg
  obtain rfl := mem_singleton.mp hg
  exact hf

theorem rspType_ne : blehTRsp ≠ blehTCredit := by decide

theorem bodyType_ne : blehTRspBody ≠ blehTCredit := by decide

theorem Flow.emitError (h : w.Flow) (seq : UInt16) (status : ℤ) (err : String) :
    (emitError env w seq status err).Flow := by
  obtain ⟨ctx, ctr, more, refused, heq, hmore, -⟩ := emitError_eq env w seq status err
  rw [heq]
  exact h.quiet rfl rfl rfl rfl rfl rfl rfl rfl rfl rfl rfl (errFrame_type seq status err hmore)

theorem Framed.failBody (h : w.Framed) (status : ℤ) (err : String) :
    (failBody env w status err).Flow := by
  obtain ⟨ctx, ctr, more, refused, heq, hmore, -⟩ := failBody_eq env w status err
  rw [heq]
  exact h.idled ctx ctr (errFrame_type w.seq status err hmore) refused _

theorem Framed.endAnswer (h : w.Framed) : (goIdle env (emitLast env w)).Flow := by
  obtain ⟨ctx, ctr, refused, heq⟩ := endAnswer_eq env w
  rw [heq]
  exact h.idled ctx ctr (type_of_mem_singleton bodyType_ne) refused _

theorem Framed.close (h : w.Framed) : (upstreamClose env w).Framed := by
  obtain ⟨ctx, heq⟩ := upstreamClose_eq env w
  rw [heq]
  exact h.quiet rfl rfl rfl (append_nil _).symm (by simp)

theorem frameCap_pos (linkNotify : Bool) (linkPdu : UInt16) :
    0 < (frameCap linkNotify linkPdu).toNat := by
  have hroom : ∀ pdu : UInt16, blehHdrSize < pdu.toNat → 0 < (min (pdu - 8) 4096).toNat := by
    intro pdu hpdu
    have hle : (8 : UInt16) ≤ pdu := UInt16.le_iff_toNat_le.mpr (Nat.le_of_lt hpdu)
    change 0 < (ite (pdu - 8 ≤ 4096) (pdu - 8) 4096 : UInt16).toNat
    split
    · rw [UInt16.toNat_sub_of_le _ _ hle]
      exact Nat.sub_pos_of_lt hpdu
    · decide
  rw [frameCap]
  cases linkNotify with
  | false => exact (by decide : 0 < (4096 : UInt16).toNat)
  | true =>
    rw [if_pos rfl]
    split
    · rename_i hpdu
      exact hroom _ hpdu
    · decide

theorem Framed.finished (h : w.Framed) {nowMs : UInt32} (hfinished : Finished env w nowMs w') :
    w'.Flow := by
  cases hfinished with
  | failed ctx ctr more refused hmore hended hrefused =>
    exact h.idled ctx ctr (errFrame_type w.seq 502 "upstream" hmore) refused _
  | refused ctx ctr head hrefused =>
    exact h.idled ctx ctr (type_of_mem_singleton rspType_ne) _ _
  | streams ctx ctr head =>
    have hnone : ∀ f ∈ [rspFrame w.seq head], f.type ≠ blehTCredit :=
      type_of_mem_singleton rspType_ne
    refine ⟨⟨?_, frameCap_le _ _, ?_, ?_⟩, ?_, ?_, ?_, ?_, ?_, ?_, ?_, ?_, ?_⟩
    · cases w.linkNotify with
      | false => exact .inl rfl
      | true => exact .inr rfl
    · dsimp only [respond]
      rw [length_append]
      exact h.mark.trans (Nat.le_add_right _ _)
    · rw [credits_same h.mark (by rfl) (by rfl) hnone]
      exact h.rising
    · exact fun hstate => absurd rfl hstate
    · exact fun _ => rfl
    · exact fun _ => frameCap_pos _ _
    · exact fun _ => show (0 - 0 : UInt32).toNat ≤ blehOutWindow.toNat by decide
    · exact fun _ => UInt32.le_refl 0
    · exact fun hstate => absurd hstate BlehState.noConfusion
    · exact fun hstate => absurd hstate BlehState.noConfusion
    · exact fun hstate => absurd hstate BlehState.noConfusion
    · exact fun hstate => absurd hstate BlehState.noConfusion

theorem unacked_add {sent acked : UInt32} {frame : UInt16} {n : ℕ}
    (hunacked : (sent - acked).toNat ≤ blehOutWindow.toNat) (hframe : frame.toNat ≤ blehFrameMax)
    (hn : n ≤ frame.toNat) (hroom : sent - acked + frame.toUInt32 ≤ blehOutWindow) :
    (sent + UInt32.ofNat n - acked).toNat ≤ blehOutWindow.toNat := by
  have hwindow : blehOutWindow.toNat = 16384 := rfl
  rw [blehFrameMax] at hframe
  rw [UInt32.le_iff_toNat_le, UInt32.toNat_add, UInt16.toNat_toUInt32] at hroom
  rw [UInt32.toNat_sub] at hunacked
  rw [UInt32.toNat_sub] at hroom
  rw [UInt32.toNat_sub, UInt32.toNat_add, UInt32.toNat_ofNat']
  omega

theorem Flow.pumped (h : w.Flow) (hstate : w.state = .responding) {nowMs : UInt32}
    {r : Bleh β × Bool} (hpumped : Pumped env w nowMs r) : r.1.Flow := by
  cases hpumped with
  | stalled hblocked ctr =>
    exact h.quiet rfl rfl rfl rfl rfl rfl rfl rfl rfl rfl (append_nil _).symm (by simp)
  | ended hfree ctx ctr refused =>
    exact h.toFramed.idled ctx ctr (type_of_mem_singleton bodyType_ne) refused _
  | refused hfree ctx ctr data hrefused =>
    exact h.toFramed.idled ctx ctr (type_of_mem_singleton bodyType_ne) _ _
  | sent hfree ctx ctr data hne hlen =>
    have hnone : ∀ f ∈ [dataFrame w.rspCtr w.seq data], f.type ≠ blehTCredit :=
      type_of_mem_singleton bodyType_ne
    have hframe := h.frame_le
    have hsent := h.sent hstate
    refine ⟨h.toFramed.quiet rfl rfl rfl rfl hnone, ?_, ?_, ?_, ?_, ?_, ?_, ?_, ?_, ?_⟩
    · exact fun hne => absurd hstate hne
    · intro _
      rw [hsent, UInt32.ofNat_add]
    · exact fun _ => h.frame_pos hstate
    · intro hnotify
      have hfits := not_and.mp hfree hnotify
      exact unacked_add (h.unacked hnotify) hframe hlen
        (h.window.resolve_left hnotify ▸ UInt32.not_lt.mp hfits)
    · intro hlt
      have hacked := UInt32.le_iff_toNat_le.mp (h.acked (by dsimp only at hlt; omega))
      rw [hsent, UInt32.toNat_ofNat'] at hacked
      dsimp only at hlt ⊢
      rw [UInt32.le_iff_toNat_le, UInt32.toNat_add, hsent, UInt32.toNat_ofNat', UInt32.toNat_ofNat']
      omega
    · exact fun hbody => absurd (hstate.symm.trans hbody) BlehState.noConfusion
    · exact fun hbody => absurd (hstate.symm.trans hbody) BlehState.noConfusion
    · exact fun hbody => absurd (hstate.symm.trans hbody) BlehState.noConfusion
    · exact fun hbody => absurd (hstate.symm.trans hbody) BlehState.noConfusion

theorem credits_credit (hmark : w.log.mark ≤ w.log.sent.length) (hmark' : w'.log.mark = w.log.mark)
    {received : UInt32} (hsent : w'.log.sent = w.log.sent ++ [creditFrame w.seq received]) :
    w'.credits = w.credits ++ [received] := by
  have hone : [creditFrame w.seq received].filter (fun f => f.type = blehTCredit) =
      [creditFrame w.seq received] := rfl
  rw [credits_append hmark hmark' hsent, hone, map_singleton, creditFrame, creditValue_creditBytes]

theorem toNat_creditStep : blehCreditStep.toNat = 8192 := rfl

theorem Flow.took (h : w.Flow) (hstate : w.state = .body) {hdr : BlehHdr} {nowMs : UInt32}
    {ctr : BlehCounters}
    (hfits : w.received.toNat + hdr.len.toNat ≤ w.req.len.toNat)
    (htook : Took env { w with
      received := w.received + hdr.len.toUInt32
      ctr := ctr } hdr nowMs w') : w'.Flow := by
  have hframed : Framed { w with
      received := w.received + hdr.len.toUInt32
      ctr := ctr } :=
    h.toFramed.quiet rfl rfl rfl (append_nil _).symm (by simp)
  obtain ⟨hcredit, hstep⟩ := h.step hstate
  have hlt := w.req.len.toNat_lt
  have hreceived : (w.received + hdr.len.toUInt32).toNat = w.received.toNat + hdr.len.toNat := by
    rw [UInt32.toNat_add, UInt16.toNat_toUInt32]
    omega
  rw [UInt32.le_iff_toNat_le] at hcredit
  have hpassed : (w.received + hdr.len.toUInt32 - w.lastCredit).toNat =
      w.received.toNat + hdr.len.toNat - w.lastCredit.toNat := by
    rw [UInt32.toNat_sub_of_le _ _ (UInt32.le_iff_toNat_le.mpr (by omega)), hreceived]
  -- a CREDIT lies at least a step above the one before
  have hrising : blehCreditStep ≤ w.received + hdr.len.toUInt32 - w.lastCredit →
      (w.credits ++ [w.received + hdr.len.toUInt32]).Pairwise (· < ·) := by
    intro hover
    rw [UInt32.le_iff_toNat_le] at hover
    refine pairwise_append.mpr ⟨h.rising, pairwise_singleton _ _, ?_⟩
    intro v hv x hx
    obtain rfl := mem_singleton.mp hx
    have hbelow := UInt32.le_iff_toNat_le.mp (h.below hstate v hv)
    rw [UInt32.lt_iff_toNat_lt]
    omega
  have hpartial : w.received + hdr.len.toUInt32 ≠ w.req.len →
      w.received + hdr.len.toUInt32 < w.req.len := by
    intro hpart
    have hne : (w.received + hdr.len.toUInt32).toNat ≠ w.req.len.toNat :=
      fun heq => hpart (UInt32.toNat_inj.mp heq)
    rw [UInt32.lt_iff_toNat_lt]
    omega
  cases htook with
  | short => exact hframed.failBody 400 "short"
  | whole => exact hframed.finished (finishRequest_finished env _ nowMs)
  | credit hpart hover ctx ctr' =>
    have hcredits : ∀ w' : Bleh β, w'.log.mark = w.log.mark →
        w'.log.sent = w.log.sent ++ [creditFrame w.seq (w.received + hdr.len.toUInt32)] →
        w'.credits = w.credits ++ [w.received + hdr.len.toUInt32] :=
      fun w' hmark hsent => credits_credit h.mark hmark hsent
    refine ⟨⟨h.window, h.frame_le, ?_, ?_⟩, ?_, ?_, ?_, ?_, ?_, ?_, ?_, ?_, ?_⟩
    · rw [length_append]
      exact h.mark.trans (Nat.le_add_right _ _)
    · rw [hcredits _ (by rfl) (by rfl)]
      exact hrising hover
    · exact h.rest
    · exact h.sent
    · exact h.frame_pos
    · exact h.unacked
    · exact h.acked
    · intro _
      rw [hcredits _ (by rfl) (by rfl), List.getLast?_concat]
      rfl
    · intro _ v hv
      rw [hcredits _ (by rfl) (by rfl)] at hv
      rcases mem_append.mp hv with hv | hv
      · have hbelow := UInt32.le_iff_toNat_le.mp (h.below hstate v hv)
        rw [UInt32.le_iff_toNat_le]
        dsimp only
        omega
      · obtain rfl := mem_singleton.mp hv
        exact UInt32.le_refl _
    · intro _
      refine ⟨UInt32.le_refl _, ?_⟩
      dsimp only
      omega
    · exact fun _ => hpartial hpart
  | refused hover ctx ctr' hrefused =>
    apply hframed.idled_of
    rw [credits_credit h.mark (by rfl) (by rfl)]
    exact hrising hover
  | waits hpart hover =>
    rw [UInt32.le_iff_toNat_le, hpassed, toNat_creditStep] at hover
    refine ⟨hframed, h.rest, h.sent, h.frame_pos, h.unacked, h.acked, h.credited, h.below,
      fun _ => ⟨?_, ?_⟩, fun _ => hpartial hpart⟩
    · rw [UInt32.le_iff_toNat_le]
      dsimp only
      omega
    · rw [toNat_creditStep]
      dsimp only
      omega

/-! ## The calls -/

theorem Flow.accepted (h : w.Flow) (hidle : w.state = .idle) (hstate : w'.state ≠ .responding)
    (hreceived : w'.received = 0) (hcredit : w'.lastCredit = 0)
    (hlen : w'.state = .body → w'.req.len ≠ 0) (hsent : w'.outSent = w.outSent)
    (hacked : w'.outAcked = w.outAcked) (hwindow : w'.outWindow = w.outWindow)
    (hframe : w'.outFrame = w.outFrame) (hlog : w'.log.sent = w.log.sent)
    (hmark : w'.log.mark = w.log.sent.length) : w'.Flow := by
  obtain ⟨hsent₀, hacked₀⟩ := h.rest (by rw [hidle]; exact BlehState.noConfusion)
  have hcredits : w'.credits = [] := by
    rw [credits, hlog, hmark, drop_length]
    rfl
  constructor
  · constructor
    · rw [hwindow]
      exact h.window
    · rw [hframe]
      exact h.frame_le
    · rw [hmark, hlog]
    · rw [hcredits]
      exact .nil
  · rw [hsent, hacked]
    exact fun _ => ⟨hsent₀, hacked₀⟩
  · exact fun hne => absurd hne hstate
  · exact fun hne => absurd hne hstate
  · rw [hwindow, hsent, hacked]
    exact h.unacked
  · rw [hsent, hacked, hsent₀, hacked₀]
    exact fun _ => UInt32.le_refl 0
  · rw [hcredits, hcredit]
    exact fun _ => rfl
  · rw [hcredits]
    exact fun _ v hv => absurd hv not_mem_nil
  · rw [hreceived, hcredit]
    exact fun _ => ⟨UInt32.le_refl 0, by decide⟩
  · intro hbody
    have hne : w'.req.len.toNat ≠ 0 := fun hzero => hlen hbody (UInt32.toNat_inj.mp hzero)
    rw [hreceived]
    exact Nat.pos_of_ne_zero hne

theorem Flow.onReq (h : w.Flow) (hdr : BlehHdr) (payload : List UInt8) (nowMs : UInt32) :
    (onReq env w hdr payload nowMs).Flow := by
  have hhandle : (w.handle hdr.seq).Flow :=
    h.quiet rfl rfl rfl rfl rfl rfl rfl rfl rfl rfl (append_nil _).symm (by simp)
  rw [Bleh.onReq]
  split
  · exact hhandle.emitError hdr.seq 429 "busy"
  rename_i hbusy
  have hidle := not_not.mp hbusy
  have hresponding : w.state ≠ .responding := by
    rw [hidle]
    exact BlehState.noConfusion
  have hbody : w.state = .body → ∀ req : BlehReq, req.len ≠ 0 := by
    rw [hidle]
    exact fun hne => BlehState.noConfusion hne
  split
  · exact hhandle.emitError hdr.seq _ _
  rename_i req hparse
  dsimp only
  split
  · apply Flow.emitError
    exact h.accepted hidle hresponding rfl rfl (fun hne => hbody hne req) rfl rfl rfl rfl rfl rfl
  rename_i ctx hopen
  split
  · have hflow : Flow { ((w.handle hdr.seq).accept hdr req nowMs).call ctx (.openReq true) with
        upstreamOpen := true } :=
      h.accepted hidle hresponding rfl rfl (fun hne => hbody hne req) rfl rfl rfl rfl rfl rfl
    exact hflow.toFramed.finished (finishRequest_finished env _ nowMs)
  · rename_i hlen
    exact h.accepted hidle BlehState.noConfusion rfl rfl (fun _ => hlen) rfl rfl rfl rfl rfl rfl

theorem Flow.onReqBody (h : w.Flow) (hdr : BlehHdr) (payload : List UInt8) (nowMs : UInt32) :
    (onReqBody env w hdr payload nowMs).Flow := by
  rw [Bleh.onReqBody]
  split
  · exact h
  rename_i hown
  have hstate : w.state = .body := by
    rw [not_or] at hown
    exact not_not.mp hown.1
  split
  · apply Framed.failBody
    exact h.toFramed.quiet rfl rfl rfl (append_nil _).symm (by simp)
  split
  · apply Framed.failBody
    exact h.toFramed.quiet rfl rfl rfl (append_nil _).symm (by simp)
  rename_i hfits
  obtain ⟨ctx, calls, ok, heq, -⟩ := writeBody_eq env { w with
    lastActivityMs := nowMs
    reqCtr := (w.reqCtr + 1) &&& 0x0F } payload
  rw [heq]
  have hwritten : Flow { w with
      ctx := ctx
      lastActivityMs := nowMs
      reqCtr := (w.reqCtr + 1) &&& 0x0F
      log := { w.log with calls := w.log.calls ++ calls } } :=
    h.quiet rfl rfl rfl rfl rfl rfl rfl rfl rfl rfl (append_nil _).symm (by simp)
  cases ok with
  | false => exact hwritten.toFramed.failBody 502 "upstream"
  | true => exact hwritten.took hstate (not_lt.mp hfits) (tookBody_took env _ hdr nowMs)

theorem Flow.onAbort (h : w.Flow) (hdr : BlehHdr) : (onAbort env w hdr).Flow := by
  have hcounted : Flow { w with ctr := { w.ctr with aborts := w.ctr.aborts + 1 } } :=
    h.quiet rfl rfl rfl rfl rfl rfl rfl rfl rfl rfl (append_nil _).symm (by simp)
  rw [Bleh.onAbort]
  split
  · exact hcounted
  split
  · exact Framed.failBody (Framed.close hcounted.toFramed) 499 "aborted"
  · exact Framed.endAnswer (Framed.close hcounted.toFramed)
  · exact hcounted

theorem acked_moves (sent acked v : UInt32) :
    (sent - if decide (acked < v ∧ v ≤ sent) then v else acked).toNat ≤ (sent - acked).toNat ∧
      (acked ≤ sent → (if decide (acked < v ∧ v ≤ sent) then v else acked) ≤ sent) := by
  by_cases hfresh : acked < v ∧ v ≤ sent
  · rw [if_pos (decide_eq_true hfresh)]
    obtain ⟨hlt, hle⟩ := hfresh
    refine ⟨?_, fun _ => hle⟩
    have hlt' := UInt32.lt_iff_toNat_lt.mp hlt
    have hle' := UInt32.le_iff_toNat_le.mp hle
    rw [UInt32.toNat_sub_of_le _ _ hle,
      UInt32.toNat_sub_of_le _ _ (UInt32.le_iff_toNat_le.mpr (by omega))]
    omega
  · rw [if_neg (by simpa using hfresh)]
    exact ⟨Nat.le_refl _, id⟩

theorem Flow.onCredit (h : w.Flow) (hdr : BlehHdr) (payload : List UInt8) (nowMs : UInt32) :
    (onCredit w hdr payload nowMs).Flow := by
  rw [Bleh.onCredit]
  split
  · exact h
  rename_i hown
  rw [not_or] at hown
  have hstate := not_not.mp hown.1
  obtain ⟨hdown, hbelow⟩ := acked_moves w.outSent w.outAcked (creditValue payload)
  have hbody : w.state ≠ .body := by
    rw [hstate]
    exact BlehState.noConfusion
  refine ⟨h.toFramed.quiet rfl rfl rfl (append_nil _).symm (by simp), ?_, h.sent, h.frame_pos,
    fun hnotify => hdown.trans (h.unacked hnotify), fun hlt => hbelow (h.acked hlt), ?_, ?_, ?_, ?_⟩
  · exact fun hne => absurd hstate hne
  · exact fun hne => absurd hne hbody
  · exact fun hne => absurd hne hbody
  · exact fun hne => absurd hne hbody
  · exact fun hne => absurd hne hbody

theorem Flow.handleFrame (h : w.Flow) (hdr : BlehHdr) (payload : List UInt8) (nowMs : UInt32) :
    (handleFrame env w hdr payload nowMs).Flow := by
  have hcounted : Flow { w with ctr := { w.ctr with framesRx := w.ctr.framesRx + 1 } } :=
    h.quiet rfl rfl rfl rfl rfl rfl rfl rfl rfl rfl (append_nil _).symm (by simp)
  rw [Bleh.handleFrame]
  split
  · exact hcounted.onReq hdr payload nowMs
  split
  · exact hcounted.onReqBody hdr payload nowMs
  split
  · exact hcounted.onAbort hdr
  split
  · exact hcounted.onCredit hdr payload nowMs
  · exact hcounted

theorem Flow.tick (h : w.Flow) (nowMs : UInt32) : (tick env w nowMs).Flow := by
  have hcounted : Framed { w with ctr := { w.ctr with timeouts := w.ctr.timeouts + 1 } } :=
    h.toFramed.quiet rfl rfl rfl (append_nil _).symm (by simp)
  rw [Bleh.tick]
  split
  · exact h
  split
  · exact Framed.failBody hcounted.close 504 "timeout"
  · exact Framed.endAnswer hcounted.close
  · exact h

theorem Flow.take (h : w.Flow) (i : Input) : (w.take env i).Flow := by
  cases i with
  | rx data nowMs =>
    apply rxData_inv env (I := Flow) _ _ w data nowMs h
    · intro w₁ rx ctr h₁
      exact h₁.quiet rfl rfl rfl rfl rfl rfl rfl rfl rfl rfl (append_nil _).symm (by simp)
    · exact fun w₁ hdr payload nowMs h₁ => h₁.handleFrame hdr payload nowMs
  | pump nowMs =>
    apply pump_inv env nowMs (I := Flow) _ w h
    exact fun w₁ hstate h₁ => h₁.pumped hstate (pumpFrame_pumped env w₁ nowMs h₁.frame_le)
  | tick nowMs => exact h.tick nowMs
  | setLink notify pduPayload =>
    exact h.quiet rfl rfl rfl rfl rfl rfl rfl rfl rfl rfl (append_nil _).symm (by simp)
  | linkDown =>
    obtain ⟨ctx, heq⟩ := goIdle_eq env w
    have hidled : (w.idled ctx w.ctr [] [] w.closeCalls).Flow :=
      h.toFramed.idled ctx w.ctr (by simp) [] _
    rw [Bleh.take, linkDown, heq]
    exact hidled.quiet rfl rfl rfl rfl rfl rfl rfl rfl rfl rfl
      (by simp [Bleh.idled] : _ = _ ++ []) (by simp)

theorem flow_of_run {ctx : β} {inputs : List Input}
    (hrun : Run (Takes env) (init ctx) inputs w) : w.Flow := by
  apply hrun.inv (I := Flow) _ (flow_init ctx)
  rintro w₁ i _ rfl h₁
  exact h₁.take i

/-! ## What the windows are for -/

/-- Neither side is overrun and neither waits for nothing. -/
structure Flows (env : BlehEnv β) (w : Bleh β) : Prop where
  /-- a notified app has a window at most ahead of it -/
  window : w.outWindow ≠ 0 → (w.outSent - w.outAcked).toNat ≤ blehOutWindow.toNat
  acked : w.outAcked ≤ w.outSent
  /-- the CREDITs of an upload count up -/
  credits : w.credits.Pairwise (· < ·)
  /-- an app whose frames have all come has room for the next, whatever its size -/
  room : w.state = .body → w.received < w.req.len ∧
    w.received.toNat + blehFrameMax ≤ (w.credits.getLast?.getD 0).toNat + blehCreditWindow.toNat
  /-- and the next frame is taken, or makes the body whole -/
  uploads : w.state = .body → env.Delivers → (∀ ctx data, (env.write ctx data).2 = true) →
    ∀ f nowMs, IsBody w.seq f → f.payload ≠ [] → blehCtr f.flags = w.reqCtr →
      w.received.toNat + f.payload.length ≤ w.req.len.toNat →
      (f.flags &&& blehFLast ≠ 0 → w.received.toNat + f.payload.length = w.req.len.toNat) →
      ((handleFrame env w f.hdr f.payload nowMs).state = .body ∧
        (handleFrame env w f.hdr f.payload nowMs).received.toNat =
          w.received.toNat + f.payload.length) ∨
      (w.received.toNat + f.payload.length = w.req.len.toNat ∧
        (handleFrame env w f.hdr f.payload nowMs).state ≠ .body)
  /-- where the pump waits, the app owes a CREDIT -/
  owed : w.state = .responding → w.Blocked → blehCreditStep ≤ w.outSent - w.outAcked
  /-- a CREDIT for bytes the app got is taken -/
  taken : w.state = .responding → ∀ hdr nowMs, hdr.seq = w.seq → hdr.len = 4 →
    ∀ got, w.outAcked.toNat < got → got ≤ w.log.streamed →
      (onCredit w hdr (creditBytes (UInt32.ofNat got)) nowMs).outAcked.toNat = got
  /-- and one for all of them lets the pump go on -/
  freed : w.state = .responding → ∀ hdr nowMs, hdr.seq = w.seq → hdr.len = 4 →
    ¬ (onCredit w hdr (creditBytes (UInt32.ofNat w.log.streamed)) nowMs).Blocked
  /-- a pump that goes on sends something or ends the answer -/
  pumps : w.state = .responding → ¬ w.Blocked → ∀ nowMs,
    (pumpFrame env w nowMs).1.state = .idle ∨
      w.log.streamed < (pumpFrame env w nowMs).1.log.streamed

theorem Flow.room (h : w.Flow) (hstate : w.state = .body) : w.received < w.req.len ∧
    w.received.toNat + blehFrameMax ≤
      (w.credits.getLast?.getD 0).toNat + blehCreditWindow.toNat := by
  obtain ⟨-, hstep⟩ := h.step hstate
  rw [toNat_creditStep] at hstep
  refine ⟨h.part hstate, ?_⟩
  rw [h.credited hstate, blehFrameMax, show blehCreditWindow.toNat = 16384 from rfl]
  omega

theorem writeBody_ok (hwrite : ∀ ctx data, (env.write ctx data).2 = true) (w : Bleh β)
    (payload : List UInt8) : (writeBody env w payload).2 = true := by
  rw [writeBody]
  split
  · rfl
  · exact hwrite w.ctx payload

theorem uploads_next (hstate : w.state = .body) (hdelivers : env.Delivers)
    (hwrite : ∀ ctx data, (env.write ctx data).2 = true) {f : BlehFrame} (nowMs : UInt32)
    (hf : IsBody w.seq f) (hctr : blehCtr f.flags = w.reqCtr)
    (hfits : w.received.toNat + f.payload.length ≤ w.req.len.toNat)
    (hlast : f.flags &&& blehFLast ≠ 0 → w.received.toNat + f.payload.length = w.req.len.toNat) :
    ((handleFrame env w f.hdr f.payload nowMs).state = .body ∧
      (handleFrame env w f.hdr f.payload nowMs).received.toNat =
        w.received.toNat + f.payload.length) ∨
    (w.received.toNat + f.payload.length = w.req.len.toNat ∧
      (handleFrame env w f.hdr f.payload nowMs).state ≠ .body) := by
  have hlt := w.req.len.toNat_lt
  have hlen := BlehFrame.toNat_hdr_len hf.formed
  have hreceived : (w.received + f.hdr.len.toUInt32).toNat =
      w.received.toNat + f.payload.length := by
    rw [UInt32.toNat_add, UInt16.toNat_toUInt32]
    omega
  rw [handleFrame_body hf, onReqBody, if_neg, if_neg, if_neg]
  · obtain ⟨ctx, calls, ok, heq, hcalls⟩ := writeBody_eq env { w with
      lastActivityMs := nowMs
      reqCtr := (w.reqCtr + 1) &&& 0x0F
      ctr := { w.ctr with framesRx := w.ctr.framesRx + 1 } } f.payload
    have hok := writeBody_ok hwrite { w with
      lastActivityMs := nowMs
      reqCtr := (w.reqCtr + 1) &&& 0x0F
      ctr := { w.ctr with framesRx := w.ctr.framesRx + 1 } } f.payload
    rw [heq] at hok
    rw [heq, show ok = true from hok]
    dsimp only
    have htook := tookBody_took env { w with
      ctx := ctx
      received := w.received + f.hdr.len.toUInt32
      lastActivityMs := nowMs
      reqCtr := (w.reqCtr + 1) &&& 0x0F
      ctr := { w.ctr with
        framesRx := w.ctr.framesRx + 1
        bytesIn := w.ctr.bytesIn + f.hdr.len.toUInt32 }
      log := { w.log with calls := w.log.calls ++ calls } } f.hdr nowMs
    generalize tookBody env _ f.hdr nowMs = w' at htook ⊢
    cases htook with
    | short hflag hshort =>
      have hwhole : w.received + f.hdr.len.toUInt32 = w.req.len := by
        apply UInt32.toNat_inj.mp
        rw [hreceived, hlast hflag]
      exact absurd hwhole hshort
    | whole hwhole =>
      right
      refine ⟨by rw [← hreceived]; exact congrArg UInt32.toNat hwhole, ?_⟩
      have hfinished := finishRequest_finished env { w with
        ctx := ctx
        received := w.received + f.hdr.len.toUInt32
        lastActivityMs := nowMs
        reqCtr := (w.reqCtr + 1) &&& 0x0F
        ctr := { w.ctr with
          framesRx := w.ctr.framesRx + 1
          bytesIn := w.ctr.bytesIn + f.hdr.len.toUInt32 }
        log := { w.log with calls := w.log.calls ++ calls } } nowMs
      generalize finishRequest env _ nowMs = w' at hfinished ⊢
      cases hfinished with
      | failed => exact BlehState.noConfusion
      | refused => exact BlehState.noConfusion
      | streams => exact BlehState.noConfusion
    | credit => exact .inl ⟨hstate, hreceived⟩
    | refused hstep ctx' ctr' hrefused => exact absurd hdelivers hrefused
    | waits => exact .inl ⟨hstate, hreceived⟩
  · rw [hlen]
    exact not_lt.mpr hfits
  · exact not_not.mpr hctr
  · rw [not_or]
    exact ⟨not_not.mpr hstate, not_not.mpr hf.seq⟩

theorem Flow.owed (h : w.Flow) (hblocked : w.Blocked) :
    blehCreditStep ≤ w.outSent - w.outAcked := by
  obtain ⟨hnotify, hfull⟩ := hblocked
  have hframe := h.frame_le
  rw [h.window.resolve_left hnotify] at hfull
  rw [UInt32.lt_iff_toNat_lt, UInt32.toNat_add, UInt16.toNat_toUInt32,
    show blehOutWindow.toNat = 16384 from rfl] at hfull
  rw [blehFrameMax] at hframe
  rw [UInt32.le_iff_toNat_le, toNat_creditStep]
  omega

theorem Flow.taken (h : w.Flow) (hstate : w.state = .responding) (hlt : w.log.streamed < 2 ^ 32)
    {hdr : BlehHdr} (nowMs : UInt32) (hseq : hdr.seq = w.seq) (hlen : hdr.len = 4) {got : ℕ}
    (hnew : w.outAcked.toNat < got) (hgot : got ≤ w.log.streamed) :
    (Bleh.onCredit w hdr (creditBytes (UInt32.ofNat got)) nowMs).outAcked = UInt32.ofNat got := by
  have hvalue : (UInt32.ofNat got).toNat = got := by
    rw [UInt32.toNat_ofNat']
    omega
  have hsent : w.outSent.toNat = w.log.streamed := by
    rw [h.sent hstate, UInt32.toNat_ofNat']
    omega
  have hfresh : w.outAcked < UInt32.ofNat got ∧ UInt32.ofNat got ≤ w.outSent := by
    rw [UInt32.lt_iff_toNat_lt, UInt32.le_iff_toNat_le, hvalue, hsent]
    exact ⟨hnew, hgot⟩
  rw [Bleh.onCredit, if_neg]
  · dsimp only
    rw [creditValue_creditBytes, if_pos (decide_eq_true hfresh)]
  · rw [not_or, not_or]
    exact ⟨not_not.mpr hstate, not_not.mpr hseq, not_not.mpr hlen⟩

theorem onCredit_out (w : Bleh β) (hdr : BlehHdr) (payload : List UInt8) (nowMs : UInt32) :
    (onCredit w hdr payload nowMs).outSent = w.outSent ∧
      (onCredit w hdr payload nowMs).outWindow = w.outWindow ∧
      (onCredit w hdr payload nowMs).outFrame = w.outFrame := by
  rw [onCredit]
  split
  · exact ⟨rfl, rfl, rfl⟩
  · exact ⟨rfl, rfl, rfl⟩

theorem Flow.freed (h : w.Flow) (hstate : w.state = .responding) (hlt : w.log.streamed < 2 ^ 32)
    {hdr : BlehHdr} (nowMs : UInt32) (hseq : hdr.seq = w.seq) (hlen : hdr.len = 4) :
    ¬ (Bleh.onCredit w hdr (creditBytes (UInt32.ofNat w.log.streamed)) nowMs).Blocked := by
  obtain ⟨hsent, hwindow, hframe⟩ := onCredit_out w hdr
    (creditBytes (UInt32.ofNat w.log.streamed)) nowMs
  have hall : (Bleh.onCredit w hdr (creditBytes (UInt32.ofNat w.log.streamed)) nowMs).outAcked =
      w.outSent := by
    have hcount : w.outSent.toNat = w.log.streamed := by
      rw [h.sent hstate, UInt32.toNat_ofNat']
      omega
    rcases Nat.lt_or_ge w.outAcked.toNat w.log.streamed with hnew | hold
    · rw [h.taken hstate hlt nowMs hseq hlen hnew (Nat.le_refl _), h.sent hstate]
    · -- all of it was acknowledged before
      have hacked := UInt32.le_iff_toNat_le.mp (h.acked hlt)
      have hsame : w.outAcked = w.outSent := UInt32.toNat_inj.mp (by omega)
      rw [Bleh.onCredit, if_neg]
      · dsimp only
        rw [creditValue_creditBytes, ← h.sent hstate, hsame, ite_self]
      · rw [not_or, not_or]
        exact ⟨not_not.mpr hstate, not_not.mpr hseq, not_not.mpr hlen⟩
  rintro ⟨hnotify, hfull⟩
  rw [hwindow] at hnotify
  rw [hsent, hall, hwindow, hframe, h.window.resolve_left hnotify, UInt32.sub_self] at hfull
  have hle := h.frame_le
  rw [blehFrameMax] at hle
  rw [UInt32.lt_iff_toNat_lt, UInt32.toNat_add, UInt16.toNat_toUInt32,
    show blehOutWindow.toNat = 16384 from rfl, UInt32.toNat_zero] at hfull
  omega

theorem Flow.pumps (h : w.Flow) (hfree : ¬ w.Blocked) (nowMs : UInt32) :
    (pumpFrame env w nowMs).1.state = .idle ∨
      w.log.streamed < (pumpFrame env w nowMs).1.log.streamed := by
  have hpumped := pumpFrame_pumped env w nowMs h.frame_le
  generalize pumpFrame env w nowMs = r at hpumped
  cases hpumped with
  | stalled hblocked ctr => exact absurd hblocked hfree
  | ended => exact .inl rfl
  | refused => exact .inl rfl
  | sent hfree ctx ctr data hne hlen =>
    exact .inr (Nat.lt_add_of_pos_right (length_pos_iff.mpr hne))

/-- **Both windows flow**: in every state a run reaches with less than 2³² bytes of
the present answer out, nobody is overrun and nobody waits for nothing. -/
theorem blehFlow_flows (env : BlehEnv β) (ctx : β) (inputs : List Input) (w : Bleh β)
    (hrun : Run (Takes env) (init ctx) inputs w) (hlt : w.log.streamed < 2 ^ 32) : Flows env w := by
  have h := flow_of_run hrun
  refine ⟨h.unacked, h.acked hlt, h.rising, h.room, ?_, fun _ => h.owed, ?_, ?_, ?_⟩
  · intro hstate hdelivers hwrite f nowMs hf _ hctr hfits hlast
    exact uploads_next hstate hdelivers hwrite nowMs hf hctr hfits hlast
  · intro hstate hdr nowMs hseq hlen got hnew hgot
    rw [h.taken hstate hlt nowMs hseq hlen hnew hgot, UInt32.toNat_ofNat']
    omega
  · exact fun hstate hdr nowMs hseq hlen => h.freed hstate hlt nowMs hseq hlen
  · exact fun _ hfree nowMs => h.pumps hfree nowMs

/-- `{"m":"GET","p":"/api/x"}` -/
def sampleGet : Json :=
  .obj [("m".toList, .str "GET".toList), ("p".toList, .str "/api/x".toList)]

def sampleGetFrame : BlehFrame :=
  ⟨blehTReq, 0, 1, textBytes "\x7b\"m\":\"GET\",\"p\":\"/api/x\"\x7d".toList⟩

/-- A server that hands its answer over byte by byte. -/
def drippingEnv : BlehEnv Unit :=
  { sampleEnv sampleGet with
    read := fun _ cap => ((), [7].take cap)
    read_le := fun _ _ => length_take_le _ _ }

/-- A notified app has asked, and one pump is over. -/
def afterPump : Bleh Unit :=
  (((init ()).take drippingEnv (.setLink true 65535)).take drippingEnv
    (.rx sampleGetFrame.bytes 0)).take drippingEnv (.pump 1)

/-- Sixteen bytes of the answer are out, and more are to come. -/
theorem blehFlow_flows_get : afterPump.state = .responding ∧ afterPump.log.streamed = 16 ∧
    Flows drippingEnv afterPump :=
  ⟨by decide, by decide, blehFlow_flows drippingEnv ()
    [.setLink true 65535, .rx sampleGetFrame.bytes 0, .pump 1] _
    (.cons rfl (.cons rfl (.cons rfl (.nil _)))) (by decide)⟩

/-! ## An answer too long to be counted -/

/-- A server whose answer has no end. -/
def endlessEnv : BlehEnv Unit :=
  { sampleEnv sampleGet with
    read := fun _ cap => ((), List.replicate cap 0)
    read_le := fun _ _ => Nat.le_of_eq List.length_replicate }

/-- The answer streams to a notified app, with `d` bytes behind the `acked` ones. -/
structure Streams (w : Bleh Unit) (acked : UInt32) (d : ℕ) : Prop where
  state : w.state = .responding
  seq : w.seq = 1
  sent : w.outSent = acked + UInt32.ofNat d
  acked : w.outAcked = acked
  window : w.outWindow = blehOutWindow
  frame : w.outFrame = 4096

theorem streams_start :
    Streams (((init ()).take endlessEnv (.setLink true 65535)).take endlessEnv
      (.rx sampleGetFrame.bytes 0)) 0 0 := by
  constructor <;> decide

theorem Streams.ahead {w : Bleh Unit} {acked : UInt32} {d : ℕ} (h : Streams w acked d)
    (hd : d ≤ 16384) : (w.outSent - w.outAcked).toNat = d := by
  have hacked := acked.toNat_lt
  rw [h.sent, h.acked, UInt32.toNat_sub, UInt32.toNat_add, UInt32.toNat_ofNat']
  omega

theorem Streams.pumpFrame {w : Bleh Unit} {acked : UInt32} {d : ℕ} (h : Streams w acked d)
    (hroom : d + 4096 ≤ 16384) (nowMs : UInt32) :
    ∃ w', pumpFrame endlessEnv w nowMs = (w', true) ∧ Streams w' acked (d + 4096) := by
  have hahead := h.ahead (by omega)
  have hfree : ¬ w.Blocked := by
    rintro ⟨-, hfull⟩
    rw [h.window, h.frame, UInt32.lt_iff_toNat_lt, UInt32.toNat_add,
      show blehOutWindow.toNat = 16384 from rfl,
      show ((4096 : UInt16).toUInt32).toNat = 4096 from rfl] at hfull
    omega
  have hread : endlessEnv.read w.ctx w.outFrame.toNat = ((), 0 :: List.replicate 4095 0) := by
    rw [h.frame]
    rfl
  have hlength : (0 :: List.replicate 4095 0 : List UInt8).length = 4096 := by
    rw [length_cons, length_replicate]
  obtain ⟨ctx, ctr, ok, heq, hok⟩ := emitFrame_eq endlessEnv
    (w.call () (.read (0 :: List.replicate 4095 0))) blehTRspBody (blehCtrFlags w.rspCtr false)
    w.seq (0 :: List.replicate 4095 0) (Nat.le_of_eq hlength)
  rw [Bleh.pumpFrame, if_neg hfree, hread]
  dsimp only
  rw [heq, hok fun _ _ => rfl]
  refine ⟨_, rfl, h.state, h.seq, ?_, h.acked, h.window, h.frame⟩
  dsimp only [call]
  rw [hlength, h.sent, UInt32.add_assoc, UInt32.ofNat_add]

theorem Streams.pump {w : Bleh Unit} {acked : UInt32} (h : Streams w acked 0) (nowMs : UInt32) :
    Streams (w.take endlessEnv (.pump nowMs)) acked 16384 := by
  have hstate : ¬ w.state ≠ .responding := not_not.mpr h.state
  obtain ⟨w₁, heq₁, h₁⟩ := h.pumpFrame (by omega) nowMs
  obtain ⟨w₂, heq₂, h₂⟩ := h₁.pumpFrame (by omega) nowMs
  obtain ⟨w₃, heq₃, h₃⟩ := h₂.pumpFrame (by omega) nowMs
  obtain ⟨w₄, heq₄, h₄⟩ := h₃.pumpFrame (by omega) nowMs
  have hfull : w₄.Blocked := by
    refine ⟨by rw [h₄.window]; decide, ?_⟩
    rw [h₄.window, h₄.frame, UInt32.lt_iff_toNat_lt, UInt32.toNat_add, h₄.ahead (by omega)]
    decide
  rw [take, Bleh.pump, if_neg hstate, blehPumpFrames, pumpFrames, heq₁]
  dsimp only
  rw [pumpFrames, heq₂]
  dsimp only
  rw [pumpFrames, heq₃]
  dsimp only
  rw [pumpFrames, heq₄]
  dsimp only
  rw [pumpFrames, Bleh.pumpFrame, if_pos hfull]
  exact ⟨h₄.state, h₄.seq, h₄.sent, h₄.acked, h₄.window, h₄.frame⟩

theorem credit_formed : blehTReq ≤ blehTCredit ∧ blehTCredit ≤ blehTCredit := by decide

def ackFrame (v : UInt32) : BlehFrame :=
  ⟨blehTCredit, 0, 1, creditBytes v⟩

theorem Streams.onCredit {w : Bleh Unit} {acked : UInt32} (h : Streams w acked 16384)
    (hlt : acked.toNat + 16384 < 2 ^ 32) (nowMs : UInt32) :
    Streams (handleFrame endlessEnv w (ackFrame (acked + 16384)).hdr
      (ackFrame (acked + 16384)).payload nowMs) (acked + 16384) 0 := by
  have hfresh : w.outAcked < acked + 16384 ∧ acked + 16384 ≤ w.outSent := by
    rw [h.acked, h.sent]
    refine ⟨?_, UInt32.le_refl _⟩
    rw [UInt32.lt_iff_toNat_lt, UInt32.toNat_add, show (16384 : UInt32).toNat = 16384 from rfl]
    omega
  have hown : ¬ (w.state ≠ .responding ∨ (ackFrame (acked + 16384)).hdr.seq ≠ w.seq ∨
      (ackFrame (acked + 16384)).hdr.len ≠ 4) := by
    rw [not_or, not_or]
    exact ⟨not_not.mpr h.state, not_not.mpr h.seq.symm, not_not.mpr rfl⟩
  have htype : (ackFrame (acked + 16384)).hdr.type = blehTCredit := rfl
  have hpayload : (ackFrame (acked + 16384)).payload = creditBytes (acked + 16384) := rfl
  rw [handleFrame]
  rw [htype, Bleh.onCredit, if_neg hown, hpayload, creditValue_creditBytes]
  dsimp only
  rw [decide_eq_true hfresh]
  refine ⟨h.state, h.seq, ?_, rfl, h.window, h.frame⟩
  rw [h.sent, show UInt32.ofNat 0 = 0 from rfl, UInt32.add_zero]
  rfl

/-- Around the handling of the credit. -/
def Acks (acked : UInt32) (done : List BlehFrame) (w : Bleh Unit) : Prop :=
  done = [] ∧ Streams w acked 16384 ∨
    done = [ackFrame (acked + 16384)] ∧ Streams w (acked + 16384) 0

theorem Streams.ack {w : Bleh Unit} {acked : UInt32} (h : Streams w acked 16384)
    (hrx : w.rx = []) (hlt : acked.toNat + 16384 < 2 ^ 32) (nowMs : UInt32) :
    Streams (w.take endlessEnv (.rx (ackFrame (acked + 16384)).bytes nowMs)) (acked + 16384) 0 ∧
      (w.take endlessEnv (.rx (ackFrame (acked + 16384)).bytes nowMs)).rx = [] := by
  have hreads : Reads endlessEnv [ackFrame (acked + 16384)] (Acks acked) := by
    constructor
    · intro f hf
      obtain rfl := mem_singleton.mp hf
      exact ⟨credit_formed.1, credit_formed.2, show 4 ≤ 4096 by decide⟩
    · rintro done w rx ctr (⟨hdone, h⟩ | ⟨hdone, h⟩)
      · exact .inl ⟨hdone, h.state, h.seq, h.sent, h.acked, h.window, h.frame⟩
      · exact .inr ⟨hdone, h.state, h.seq, h.sent, h.acked, h.window, h.frame⟩
    · rintro done f later w nowMs hframes (⟨rfl, h⟩ | ⟨rfl, h⟩)
      · obtain ⟨rfl, -⟩ := cons.inj hframes
        exact .inr ⟨rfl, h.onCredit hlt nowMs⟩
      · exact absurd hframes (by simp)
  have hstart : Reading [ackFrame (acked + 16384)] (Acks acked) w
      ((ackFrame (acked + 16384)).bytes ++ []) := by
    refine ⟨[], _, rfl, .inl ⟨rfl, h⟩, ?_, fun f rest _ => ?_⟩
    · rw [hrx]
      simp
    · rw [hrx, BlehFrame.length_bytes]
      exact Nat.add_pos_left (by decide) _
  obtain ⟨done, later, hframes, hI, hstream, hshort⟩ := hstart.rxData hreads nowMs
  cases later with
  | nil =>
    rw [append_nil] at hstream
    obtain ⟨rfl, -⟩ | ⟨-, hacked⟩ := hI
    · exact absurd hframes (by simp)
    · exact ⟨hacked, hstream⟩
  | cons f rest =>
    have hlt := hshort f rest rfl
    rw [append_nil] at hstream
    rw [hstream, flatMap_cons, length_append] at hlt
    omega

theorem streams_rounds (k : ℕ) (hk : 16384 * k < 2 ^ 32) :
    ∃ inputs w, Run (Takes endlessEnv) (init ()) inputs w ∧
      Streams w (UInt32.ofNat (16384 * k)) 0 ∧ w.rx = [] := by
  induction k with
  | zero => exact ⟨_, _, .cons rfl (.cons rfl (.nil _)), streams_start, by decide⟩
  | succ k ih =>
    obtain ⟨inputs, w, hrun, h, hrx⟩ := ih (by omega)
    have hrx' : (w.take endlessEnv (.pump 0)).rx = [] := by rw [take, pump_rx, hrx]
    have hacked : (UInt32.ofNat (16384 * k)).toNat + 16384 < 2 ^ 32 := by
      rw [UInt32.toNat_ofNat']
      omega
    obtain ⟨hack, hrx''⟩ := (h.pump 0).ack hrx' hacked 0
    refine ⟨_, _, (hrun.snoc rfl).snoc rfl, ?_, hrx''⟩
    have hsum : UInt32.ofNat (16384 * k) + 16384 = UInt32.ofNat (16384 * (k + 1)) := by
      rw [Nat.mul_succ, UInt32.ofNat_add]
      rfl
    rw [← hsum]
    exact hack

/-- At 4 GB the count of what went out is back at zero, below what the app has
acknowledged. -/
theorem blehFlow_wraps :
    ¬ ∀ (β : Type) (env : BlehEnv β) (ctx : β) (inputs : List Input) (w : Bleh β),
      Run (Takes env) (init ctx) inputs w → Flows env w := by
  intro hclaim
  obtain ⟨inputs, w, hrun, h, -⟩ := streams_rounds (2 ^ 18 - 1) (by decide)
  have hpump : Takes endlessEnv w (.pump 0) _ := rfl
  have hflows := hclaim Unit endlessEnv () _ _ (hrun.snoc hpump)
  have hover := hflows.acked
  rw [(h.pump 0).acked, (h.pump 0).sent] at hover
  exact absurd hover (by decide)

end Bleh

end Meatpi
