import Meatpi.Library.Framing
import Meatpi.BleHttp.Upload

/-!
# Reassembly of any bytes

What the tunnel takes off its receive buffer is a frame or, where no header
starts, a single byte (`blehPeel`). Whatever the bytes and however they are cut
into calls, the tokens are those of the stream read at once
(`Bleh.foldl_rxData`); every call takes all of its bytes, in rounds that never
find the buffer full.
-/

namespace Meatpi

open BlehFrame Framer Function List

variable {f : BlehFrame}

variable {s : List UInt8} {n : ℕ}

/-! ## Tokens -/

/-- What the loop takes off the front of the buffer. -/
inductive BlehToken where
  | skip
  | frame (h : BlehHdr) (payload : List UInt8)

/-- What a round of the loop of `bleh_core_rx` sees at the front of the buffer. -/
def blehPeel (rx : List UInt8) : Option (BlehToken × ℕ) :=
  if rx.length < blehHdrSize then none
  else
    match blehHdrParse rx with
    | none => some (.skip, 1)
    | some h =>
      if rx.length < blehHdrSize + h.len.toNat then none
      else some (.frame h ((rx.drop blehHdrSize).take h.len.toNat), blehHdrSize + h.len.toNat)

theorem blehHdrParse_append (h : blehHdrSize ≤ s.length) (t : List UInt8) :
    blehHdrParse (s ++ t) = blehHdrParse s := by
  obtain ⟨b₀, s, rfl⟩ := exists_cons_of_length_pos (Nat.lt_of_lt_of_le (by decide) h)
  rcases s with _ | ⟨b₁, _ | ⟨b₂, _ | ⟨b₃, _ | ⟨b₄, _ | ⟨b₅, _ | ⟨b₆, _ | ⟨b₇, s⟩⟩⟩⟩⟩⟩⟩
  case cons.cons.cons.cons.cons.cons.cons => rfl
  all_goals exact absurd h (by simp [blehHdrSize])

theorem len_of_blehHdrParse {h : BlehHdr} (hparse : blehHdrParse s = some h) :
    h.len.toNat ≤ blehFrameMax := by
  unfold blehHdrParse at hparse
  split at hparse
  · split_ifs at hparse with hmagic htype hlen
    obtain rfl := Option.some.inj hparse
    exact not_lt.mp hlen
  · cases hparse

theorem blehPeel_cases (rx : List UInt8) :
    blehPeel rx = none ∧ (rx.length < blehHdrSize ∨ blehHdrSize ≤ rx.length ∧
          ∃ h, blehHdrParse rx = some h ∧ rx.length < blehHdrSize + h.len.toNat) ∨
      blehPeel rx = some (.skip, 1) ∧ blehHdrSize ≤ rx.length ∧ blehHdrParse rx = none ∨
      ∃ h, blehPeel rx =
          some (.frame h ((rx.drop blehHdrSize).take h.len.toNat), blehHdrSize + h.len.toNat) ∧
        blehHdrParse rx = some h ∧ blehHdrSize + h.len.toNat ≤ rx.length := by
  unfold blehPeel
  by_cases hshort : rx.length < blehHdrSize
  · exact Or.inl ⟨if_pos hshort, Or.inl hshort⟩
  rw [if_neg hshort]
  cases hparse : blehHdrParse rx with
  | none => exact Or.inr (Or.inl ⟨rfl, not_lt.mp hshort, rfl⟩)
  | some h =>
    dsimp only
    by_cases hpart : rx.length < blehHdrSize + h.len.toNat
    · rw [if_pos hpart]
      exact Or.inl ⟨rfl, Or.inr ⟨not_lt.mp hshort, h, rfl, hpart⟩⟩
    · rw [if_neg hpart]
      exact Or.inr (Or.inr ⟨h, rfl, rfl, not_lt.mp hpart⟩)

theorem blehPeel_pos {e : BlehToken} (h : blehPeel s = some (e, n)) : 0 < n := by
  rcases blehPeel_cases s with ⟨hpeel, -⟩ | ⟨hpeel, -⟩ | ⟨hd, hpeel, -⟩ <;> rw [hpeel] at h <;>
    cases h
  · exact Nat.one_pos
  · rw [blehHdrSize]
    omega

theorem blehPeel_le_length {e : BlehToken} (h : blehPeel s = some (e, n)) : n ≤ s.length := by
  rcases blehPeel_cases s with ⟨hpeel, -⟩ | ⟨hpeel, hle, -⟩ | ⟨hd, hpeel, -, hle⟩ <;>
    rw [hpeel] at h <;> cases h
  · rw [blehHdrSize] at hle
    omega
  · exact hle

theorem blehPeel_append {e : BlehToken} (t : List UInt8) (h : blehPeel s = some (e, n)) :
    blehPeel (s ++ t) = some (e, n) := by
  rcases blehPeel_cases s with ⟨hpeel, -⟩ | ⟨hpeel, hle, hparse⟩ | ⟨hd, hpeel, hparse, hle⟩ <;>
    rw [hpeel] at h <;> cases h
  · have hlong : ¬ (s ++ t).length < blehHdrSize := by
      rw [length_append]
      omega
    rw [blehPeel, if_neg hlong, blehHdrParse_append hle, hparse]
  · have hhdr : blehHdrSize ≤ s.length := by omega
    have hlong : ¬ (s ++ t).length < blehHdrSize := by
      rw [length_append]
      omega
    have hwhole : ¬ (s ++ t).length < blehHdrSize + hd.len.toNat := by
      rw [length_append]
      omega
    have hpayload : hd.len.toNat ≤ (s.drop blehHdrSize).length := by
      rw [length_drop]
      omega
    rw [blehPeel, if_neg hlong, blehHdrParse_append hhdr, hparse]
    dsimp only
    rw [if_neg hwhole, drop_append_of_le_length hhdr, take_append_of_le_length hpayload]

/-- The tunnel's reader. -/
def blehFramer : Framer UInt8 BlehToken where
  peel := blehPeel
  pos := blehPeel_pos
  le_length := blehPeel_le_length
  append := blehPeel_append

theorem length_of_blehPeel_none {rx : List UInt8} (h : blehPeel rx = none) :
    rx.length < blehFrameBuf := by
  rw [blehFrameBuf]
  rcases blehPeel_cases rx with ⟨-, hwait⟩ | ⟨hpeel, -⟩ | ⟨hd, hpeel, -⟩
  · rcases hwait with hshort | ⟨-, hd, hparse, hpart⟩
    · omega
    · have hlen := len_of_blehHdrParse hparse
      omega
  · rw [hpeel] at h
    cases h
  · rw [hpeel] at h
    cases h

theorem blehPeel_frame (hf : f.Formed) (more : List UInt8) :
    blehPeel (f.bytes ++ more) = some (.frame f.hdr f.payload, f.bytes.length) := by
  have hparse : blehHdrParse (f.bytes ++ more) = some f.hdr := by
    exact blehHdrParse_hdr hf _
  have hlen := toNat_hdr_len hf
  have hlength := length_bytes f
  have hlong : ¬ (f.bytes ++ more).length < blehHdrSize + f.hdr.len.toNat := by
    rw [length_append]
    omega
  have hhdr : ¬ (f.bytes ++ more).length < blehHdrSize := by omega
  rw [blehPeel, if_neg hhdr, hparse]
  dsimp only
  rw [if_neg hlong, hlen, ← hlength]
  have hpayload : ((f.bytes ++ more).drop blehHdrSize).take f.payload.length = f.payload := by
    exact take_left
  rw [hpayload]

/-- **Resynchronisation**: bytes at none of which a header starts are skipped, and
the frame behind them is read. -/
theorem tokens_garbage (hf : f.Formed) (more : List UInt8) (g : List UInt8)
    (hclean : (∀ k < g.length, blehHdrParse ((g ++ f.bytes).drop k) = none)) :
    blehFramer.tokens (g ++ f.bytes ++ more) =
      List.replicate g.length .skip ++ .frame f.hdr f.payload :: blehFramer.tokens more := by
  induction g with
  | nil =>
    rw [nil_append, tokens_of_peel (blehPeel_frame hf more), drop_left]
    rfl
  | cons b g ih =>
    have hlength := length_bytes f
    have hhdr : blehHdrSize ≤ (b :: g ++ f.bytes).length := by
      rw [length_append]
      omega
    have hpeel : blehPeel (b :: g ++ f.bytes ++ more) = some (.skip, 1) := by
      have hparse := hclean 0 (by simp)
      rw [drop_zero] at hparse
      have hlong : ¬ (b :: g ++ f.bytes ++ more).length < blehHdrSize := by
        rw [length_append]
        omega
      rw [blehPeel, if_neg hlong, blehHdrParse_append hhdr, hparse]
    rw [tokens_of_peel hpeel]
    congr 1
    exact ih fun k hk => hclean (k + 1) (by rw [length_cons]; omega)

namespace Bleh

variable {β : Type} (env : BlehEnv β)

/-! ## A frame does not depend on what waits behind it -/

/-- Other bytes in the receive buffer. -/
def setRx (w : Bleh β) (rx : List UInt8) : Bleh β := { w with rx := rx }

theorem emitFrame_setRx (w : Bleh β) (rx : List UInt8) (type flags : UInt8) (seq : UInt16)
    (payload : List UInt8) : emitFrame env (w.setRx rx) type flags seq payload =
      ((emitFrame env w type flags seq payload).1.setRx rx,
        (emitFrame env w type flags seq payload).2) := by
  rw [emitFrame, emitFrame]
  split <;> rfl

theorem emitError_setRx (w : Bleh β) (rx : List UInt8) (seq : UInt16) (status : ℤ) (err : String) :
    emitError env (w.setRx rx) seq status err = (emitError env w seq status err).setRx rx := by
  have hemit := emitFrame_setRx env { w with ctr := { w.ctr with
    errors := w.ctr.errors + 1
    responses := w.ctr.responses + 1
    lastStatus := status } } rx blehTRsp 0 seq (blehErrHead 64 status err)
  unfold emitError
  dsimp only [setRx] at hemit ⊢
  rw [hemit]
  generalize emitFrame env _ _ _ _ _ = p
  obtain ⟨w'', ok⟩ := p
  cases ok with
  | false => rfl
  | true =>
    exact congrArg Prod.fst (emitFrame_setRx env w'' rx blehTRspBody _ seq [])

theorem upstreamClose_setRx (w : Bleh β) (rx : List UInt8) :
    upstreamClose env (w.setRx rx) = (upstreamClose env w).setRx rx := by
  rw [upstreamClose, upstreamClose, show (w.setRx rx).upstreamOpen = w.upstreamOpen from rfl]
  split <;> rfl

theorem goIdle_setRx (w : Bleh β) (rx : List UInt8) :
    goIdle env (w.setRx rx) = (goIdle env w).setRx rx := by
  rw [goIdle, upstreamClose_setRx]
  rfl

theorem emitLast_setRx (w : Bleh β) (rx : List UInt8) :
    emitLast env (w.setRx rx) = (emitLast env w).setRx rx := by
  rfl

theorem failBody_setRx (w : Bleh β) (rx : List UInt8) (status : ℤ) (err : String) :
    failBody env (w.setRx rx) status err = (failBody env w status err).setRx rx := by
  rw [failBody, failBody, ← goIdle_setRx, ← emitError_setRx]
  rfl

theorem finishRequest_setRx (w : Bleh β) (rx : List UInt8) (nowMs : UInt32) :
    finishRequest env (w.setRx rx) nowMs = (finishRequest env w nowMs).setRx rx := by
  rw [finishRequest, finishRequest, show (w.setRx rx).ctx = w.ctx from rfl]
  generalize env.fetch w.ctx = p
  obtain ⟨ctx, head⟩ := p
  cases head with
  | none =>
    rw [← goIdle_setRx, ← emitError_setRx]
    rfl
  | some head =>
    have hemit := emitFrame_setRx env { w.call ctx (.fetch true) with
      ctr := { (w.call ctx (.fetch true)).ctr with
        responses := (w.call ctx (.fetch true)).ctr.responses + 1
        lastStatus := head.status } } rx blehTRsp 0 w.seq (blehRspHead 112 head)
    dsimp only [setRx, call] at hemit ⊢
    rw [hemit]
    generalize emitFrame env _ _ _ _ _ = p
    obtain ⟨w', ok⟩ := p
    cases ok with
    | false => exact goIdle_setRx env w' rx
    | true => rfl

theorem tookBody_setRx (w : Bleh β) (rx : List UInt8) (h : BlehHdr) (nowMs : UInt32) :
    tookBody env (w.setRx rx) h nowMs = (tookBody env w h nowMs).setRx rx := by
  rw [tookBody, tookBody]
  by_cases hshort : h.flags &&& blehFLast ≠ 0 ∧ w.received ≠ w.req.len
  · rw [if_pos hshort]
    exact (if_pos hshort).trans (failBody_setRx env w rx 400 "short")
  rw [if_neg hshort]
  refine (if_neg hshort).trans ?_
  by_cases hwhole : w.received = w.req.len
  · rw [if_pos hwhole]
    exact (if_pos hwhole).trans (finishRequest_setRx env w rx nowMs)
  rw [if_neg hwhole]
  refine (if_neg hwhole).trans ?_
  by_cases hcredit : blehCreditStep ≤ w.received - w.lastCredit
  · rw [if_pos hcredit]
    refine (if_pos hcredit).trans ?_
    have hemit := emitFrame_setRx env { w with lastCredit := w.received } rx blehTCredit 0 w.seq
      (creditBytes w.received)
    dsimp only [setRx] at hemit ⊢
    rw [hemit]
    generalize emitFrame env _ _ _ _ _ = p
    obtain ⟨w', ok⟩ := p
    cases ok with
    | false => exact goIdle_setRx env w' rx
    | true => rfl
  · rw [if_neg hcredit]
    exact if_neg hcredit

theorem onReq_setRx (w : Bleh β) (rx : List UInt8) (h : BlehHdr) (payload : List UInt8)
    (nowMs : UInt32) :
    onReq env (w.setRx rx) h payload nowMs = (onReq env w h payload nowMs).setRx rx := by
  rw [onReq, onReq, show (w.setRx rx).state = w.state from rfl]
  split
  · exact emitError_setRx env (w.handle h.seq) rx h.seq 429 "busy"
  generalize blehReqParse (env.cjsonParse payload) = parsed
  cases parsed with
  | error e => exact emitError_setRx env (w.handle h.seq) rx h.seq e.1 e.2
  | ok req =>
    dsimp only
    rw [show ((w.setRx rx).handle h.seq |>.accept h req nowMs).ctx =
      ((w.handle h.seq).accept h req nowMs).ctx from rfl]
    generalize env.openReq _ req = p
    obtain ⟨ctx, ok⟩ := p
    cases ok with
    | false => exact emitError_setRx env (((w.handle h.seq).accept h req nowMs).call ctx
        (.openReq false)) rx h.seq 502 "upstream"
    | true =>
      dsimp only
      split
      · exact finishRequest_setRx env
          { ((w.handle h.seq).accept h req nowMs).call ctx (.openReq true) with
            upstreamOpen := true } rx nowMs
      · rfl

theorem writeBody_setRx (w : Bleh β) (rx payload : List UInt8) :
    writeBody env (w.setRx rx) payload =
      ((writeBody env w payload).1.setRx rx, (writeBody env w payload).2) := by
  rw [writeBody, writeBody]
  split <;> rfl

theorem onReqBody_setRx (w : Bleh β) (rx : List UInt8) (h : BlehHdr) (payload : List UInt8)
    (nowMs : UInt32) :
    onReqBody env (w.setRx rx) h payload nowMs = (onReqBody env w h payload nowMs).setRx rx := by
  rw [onReqBody, onReqBody]
  by_cases hstray : w.state ≠ .body ∨ h.seq ≠ w.seq
  · rw [if_pos hstray]
    exact if_pos hstray
  rw [if_neg hstray]
  refine (if_neg hstray).trans ?_
  by_cases hhole : blehCtr h.flags ≠ w.reqCtr
  · rw [if_pos hhole]
    exact (if_pos hhole).trans (failBody_setRx env { w with
      lastActivityMs := nowMs
      ctr := { w.ctr with holes := w.ctr.holes + 1 } } rx 400 "hole")
  rw [if_neg hhole]
  refine (if_neg hhole).trans ?_
  by_cases hlong : w.req.len.toNat < w.received.toNat + h.len.toNat
  · rw [if_pos hlong]
    exact (if_pos hlong).trans (failBody_setRx env { w with
      lastActivityMs := nowMs
      reqCtr := (w.reqCtr + 1) &&& 0x0F } rx 400 "len")
  rw [if_neg hlong]
  refine (if_neg hlong).trans ?_
  have hwrite := writeBody_setRx env { w with
    lastActivityMs := nowMs
    reqCtr := (w.reqCtr + 1) &&& 0x0F } rx payload
  dsimp only [setRx] at hwrite ⊢
  rw [hwrite]
  generalize writeBody env _ _ = p
  obtain ⟨w', ok⟩ := p
  cases ok with
  | false => exact failBody_setRx env w' rx 502 "upstream"
  | true =>
    exact tookBody_setRx env { w' with
      received := w'.received + h.len.toUInt32
      ctr := { w'.ctr with bytesIn := w'.ctr.bytesIn + h.len.toUInt32 } } rx h nowMs

theorem onAbort_setRx (w : Bleh β) (rx : List UInt8) (h : BlehHdr) :
    onAbort env (w.setRx rx) h = (onAbort env w h).setRx rx := by
  rw [onAbort, onAbort]
  have hclose : upstreamClose env
      { w.setRx rx with ctr := { w.ctr with aborts := w.ctr.aborts + 1 } } =
      (upstreamClose env { w with ctr := { w.ctr with aborts := w.ctr.aborts + 1 } }).setRx rx :=
    upstreamClose_setRx env { w with ctr := { w.ctr with aborts := w.ctr.aborts + 1 } } rx
  by_cases hseq : h.seq ≠ w.seq
  · rw [if_pos hseq]
    exact if_pos hseq
  rw [if_neg hseq]
  refine (if_neg hseq).trans ?_
  rw [show (w.setRx rx).ctr = w.ctr from rfl, hclose, show (w.setRx rx).state = w.state from rfl]
  generalize upstreamClose env { w with ctr := _ } = w'
  cases w.state with
  | body => exact failBody_setRx env w' rx 499 "aborted"
  | responding =>
    rw [emitLast_setRx, goIdle_setRx]
  | idle => rfl

theorem onCredit_setRx (w : Bleh β) (rx : List UInt8) (h : BlehHdr) (payload : List UInt8)
    (nowMs : UInt32) :
    onCredit (w.setRx rx) h payload nowMs = (onCredit w h payload nowMs).setRx rx := by
  rw [onCredit, onCredit]
  by_cases hlate : w.state ≠ .responding ∨ h.seq ≠ w.seq ∨ h.len ≠ 4
  · rw [if_pos hlate]
    exact if_pos hlate
  · rw [if_neg hlate]
    exact if_neg hlate

theorem handleFrame_setRx (w : Bleh β) (rx : List UInt8) (h : BlehHdr) (payload : List UInt8)
    (nowMs : UInt32) : handleFrame env (w.setRx rx) h payload nowMs =
      (handleFrame env w h payload nowMs).setRx rx := by
  rw [handleFrame, handleFrame]
  have hset : ({ w.setRx rx with ctr := { w.ctr with framesRx := w.ctr.framesRx + 1 } } : Bleh β) =
      setRx { w with ctr := { w.ctr with framesRx := w.ctr.framesRx + 1 } } rx := rfl
  rw [show (w.setRx rx).ctr = w.ctr from rfl, hset]
  generalize ({ w with ctr := _ } : Bleh β) = w'
  split
  · exact onReq_setRx env w' rx h payload nowMs
  split
  · exact onReqBody_setRx env w' rx h payload nowMs
  split
  · exact onAbort_setRx env w' rx h
  split
  · exact onCredit_setRx w' rx h payload nowMs
  · rfl

/-! ## The loops -/

/-- What a token does, the buffer apart. -/
def takeToken (w : Bleh β) (t : BlehToken × UInt32) : Bleh β :=
  match t.1 with
  | .skip => { w with ctr := { w.ctr with resync := w.ctr.resync + 1 } }
  | .frame h payload => handleFrame env w h payload t.2

/-- Tokens taken in a row, with the time each is taken at. -/
def takeTokens (w : Bleh β) (ts : List (BlehToken × UInt32)) : Bleh β := ts.foldl (takeToken env) w

theorem takeToken_setRx (w : Bleh β) (rx : List UInt8) (t : BlehToken × UInt32) :
    takeToken env (w.setRx rx) t = (takeToken env w t).setRx rx := by
  obtain ⟨token, nowMs⟩ := t
  cases token with
  | skip => rfl
  | frame h payload => exact handleFrame_setRx env w rx h payload nowMs

theorem takeTokens_setRx (rx : List UInt8) : ∀ (ts : List (BlehToken × UInt32)) (w : Bleh β),
    takeTokens env (w.setRx rx) ts = (takeTokens env w ts).setRx rx := by
  intro ts
  induction ts with
  | nil => exact fun w => rfl
  | cons t ts ih =>
    intro w
    rw [takeTokens, foldl_cons, takeToken_setRx]
    exact ih (takeToken env w t)

theorem takeTokens_setRx_setRx (w : Bleh β) (rx rx' : List UInt8) (ts : List (BlehToken × UInt32)) :
    (takeTokens env (w.setRx rx) ts).setRx rx' = (takeTokens env w ts).setRx rx' := by
  rw [takeTokens_setRx]
  rfl

theorem takeTokens_append (w : Bleh β) (ts ts' : List (BlehToken × UInt32)) :
    takeTokens env w (ts ++ ts') = takeTokens env (takeTokens env w ts) ts' :=
  foldl_append

/-- The buffer is waiting for more. -/
def Settled (w : Bleh β) : Prop := blehPeel w.rx = none

/-- The tokens of the bytes, taken at one time. -/
def tokensAt (nowMs : UInt32) (s : List UInt8) : List (BlehToken × UInt32) :=
  (blehFramer.tokens s).map fun t => (t, nowMs)

theorem tokensAt_of_peel (nowMs : UInt32) {t : BlehToken} (h : blehFramer.peel s = some (t, n)) :
    tokensAt nowMs s = (t, nowMs) :: tokensAt nowMs (s.drop n) := by
  rw [tokensAt, tokens_of_peel h]
  rfl

theorem tokensAt_append (nowMs : UInt32) (s t : List UInt8) :
    tokensAt nowMs (s ++ t) = tokensAt nowMs s ++ tokensAt nowMs (blehFramer.rest s ++ t) := by
  rw [tokensAt, tokens_append, map_append]
  rfl

/-- **The inner loop** takes the tokens of the buffer, in as many rounds as the
buffer is long at most. -/
theorem rxFrames_eq (nowMs : UInt32) : ∀ (n : ℕ) (w : Bleh β), w.rx.length ≤ n →
    rxFrames env nowMs n w =
      (takeTokens env w (tokensAt nowMs w.rx)).setRx (blehFramer.rest w.rx) := by
  have hwaits : ∀ w : Bleh β, blehPeel w.rx = none →
      (takeTokens env w (tokensAt nowMs w.rx)).setRx (blehFramer.rest w.rx) = w := by
    intro w hpeel
    rw [tokensAt, tokens_of_none hpeel, rest_of_none hpeel]
    rfl
  intro n
  induction n with
  | zero =>
    intro w hn
    have hnil : w.rx = [] := length_eq_zero_iff.mp (Nat.le_zero.mp hn)
    exact (hwaits w (by rw [hnil]; rfl)).symm
  | succ n ih =>
    intro w hn
    rw [rxFrames]
    rcases blehPeel_cases w.rx with ⟨hpeel, hwait⟩ | ⟨hpeel, hle, hparse⟩ | ⟨h, hpeel, hparse, hle⟩
    · rcases hwait with hshort | ⟨hle, h, hparse, hpart⟩
      · rw [if_pos hshort]
        exact (hwaits w hpeel).symm
      · rw [if_neg (not_lt.mpr hle), hparse]
        dsimp only
        rw [if_pos hpart]
        exact (hwaits w hpeel).symm
    · have htokens := tokensAt_of_peel nowMs hpeel
      have hrest := rest_of_peel (F := blehFramer) hpeel
      rw [drop_one] at htokens hrest
      rw [if_neg (not_lt.mpr hle), hparse]
      refine (ih _ (by rw [length_tail]; omega)).trans ?_
      rw [htokens, hrest]
      exact takeTokens_setRx_setRx env { w with ctr := { w.ctr with resync := w.ctr.resync + 1 } }
        w.rx.tail _ _
    · have hhdr : ¬ w.rx.length < blehHdrSize := by omega
      have htokens := tokensAt_of_peel nowMs hpeel
      have hrest := rest_of_peel (F := blehFramer) hpeel
      rw [if_neg hhdr, hparse]
      dsimp only
      rw [if_neg (not_lt.mpr hle), handleFrame_rx]
      generalize hmore : w.rx.drop (blehHdrSize + h.len.toNat) = more at htokens hrest ⊢
      have hshorter : more.length ≤ n := by
        rw [← hmore, length_drop, blehHdrSize]
        omega
      refine (ih _ hshorter).trans ?_
      rw [htokens, hrest]
      exact takeTokens_setRx_setRx env
        (handleFrame env w h ((w.rx.drop blehHdrSize).take h.len.toNat) nowMs) more _ _

/-- A round of the outer loop: what fits is taken into the buffer and read. -/
def rxRound (nowMs : UInt32) (s : Bleh β × List UInt8) : Bleh β × List UInt8 :=
  (rxFrames env nowMs (s.1.rx ++ s.2.take (blehFrameBuf - s.1.rx.length)).length
      { s.1 with rx := s.1.rx ++ s.2.take (blehFrameBuf - s.1.rx.length) },
    s.2.drop (blehFrameBuf - s.1.rx.length))

theorem rxRound_eq (nowMs : UInt32) (w : Bleh β) (data : List UInt8) :
    rxRound env nowMs (w, data) =
      ((takeTokens env w (tokensAt nowMs (w.rx ++ data.take (blehFrameBuf - w.rx.length)))).setRx
          (blehFramer.rest (w.rx ++ data.take (blehFrameBuf - w.rx.length))),
        data.drop (blehFrameBuf - w.rx.length)) := by
  rw [rxRound]
  generalize w.rx ++ data.take (blehFrameBuf - w.rx.length) = rx
  exact congrArg (fun w' => (w', _)) ((rxFrames_eq env nowMs rx.length (w.setRx rx)
    (le_refl _)).trans (takeTokens_setRx_setRx env w rx _ _))

variable {env}

variable (env) in
theorem settled_rxRound (nowMs : UInt32) (s : Bleh β × List UInt8) :
    (rxRound env nowMs s).1.Settled := by
  rw [rxRound_eq]
  exact peel_rest (F := blehFramer) _

theorem rxRound_nil (nowMs : UInt32) {w : Bleh β} (hw : w.Settled) :
    rxRound env nowMs (w, []) = (w, []) := by
  rw [rxRound_eq, take_nil, append_nil, drop_nil, tokensAt,
    tokens_of_none (F := blehFramer) hw, rest_of_none (F := blehFramer) hw]
  rfl

theorem rxRounds_nil (nowMs : UInt32) {w : Bleh β} (hw : w.Settled) (k : ℕ) :
    (rxRound env nowMs)^[k] (w, []) = (w, []) :=
  iterate_fixed (rxRound_nil nowMs hw) k

variable (env) in
theorem settled_rxRounds (nowMs : UInt32) {w : Bleh β} (hw : w.Settled) (data : List UInt8)
    (k : ℕ) : ((rxRound env nowMs)^[k] (w, data)).1.Settled := by
  cases k with
  | zero => exact hw
  | succ k =>
    rw [iterate_succ_apply']
    exact settled_rxRound env nowMs _

/-- **The outer loop** is that many rounds, and they use up the bytes. -/
theorem rxRounds_eq (nowMs : UInt32) (n : ℕ) {w : Bleh β} {data : List UInt8} (hw : w.Settled)
    (hn : data.length ≤ n) :
    (rxRound env nowMs)^[n] (w, data) = (rxBytes env nowMs n w data, []) := by
  induction n generalizing w data with
  | zero =>
    obtain rfl := length_eq_zero_iff.mp (Nat.le_zero.mp hn)
    rfl
  | succ n ih =>
    rw [iterate_succ_apply, rxBytes]
    by_cases hdata : data = []
    · rw [if_pos hdata, hdata, rxRound_nil nowMs hw, rxRounds_nil nowMs hw]
    · rw [if_neg hdata]
      have hroom := length_of_blehPeel_none hw
      have hshorter : (rxRound env nowMs (w, data)).2.length ≤ n := by
        rw [rxRound, length_drop]
        dsimp only
        omega
      exact ih (settled_rxRound env nowMs (w, data)) hshorter

variable (env) in
theorem rxData_eq (nowMs : UInt32) {w : Bleh β} (hw : w.Settled) (data : List UInt8) :
    rxData env w data nowMs = (takeTokens env w (tokensAt nowMs (w.rx ++ data))).setRx
        (blehFramer.rest (w.rx ++ data)) := by
  have hrounds : ∀ (n : ℕ) {w : Bleh β} {data : List UInt8}, w.Settled → data.length ≤ n →
      rxBytes env nowMs n w data = (takeTokens env w (tokensAt nowMs (w.rx ++ data))).setRx
        (blehFramer.rest (w.rx ++ data)) := by
    intro n
    induction n with
    | zero =>
      intro w data hw hn
      obtain rfl := length_eq_zero_iff.mp (Nat.le_zero.mp hn)
      rw [append_nil, tokensAt, tokens_of_none (F := blehFramer) hw,
        rest_of_none (F := blehFramer) hw]
      rfl
    | succ n ih =>
      intro w data hw hn
      by_cases hdata : data = []
      · rw [rxBytes, if_pos hdata, hdata, append_nil, tokensAt,
          tokens_of_none (F := blehFramer) hw, rest_of_none (F := blehFramer) hw]
        rfl
      · rw [rxBytes, if_neg hdata]
        have hroom := length_of_blehPeel_none hw
        have hround := rxRound_eq env nowMs w data
        have hsettled := settled_rxRound env nowMs (w, data)
        rw [rxRound] at hround hsettled
        have hstate := congrArg Prod.fst hround
        dsimp only at hstate hsettled ⊢
        rw [ih hsettled (by rw [length_drop]; omega), hstate]
        have hwhole : w.rx ++ data = w.rx ++ data.take (blehFrameBuf - w.rx.length) ++
            data.drop (blehFrameBuf - w.rx.length) := by
          rw [append_assoc, take_append_drop]
        rw [hwhole]
        generalize w.rx ++ data.take (blehFrameBuf - w.rx.length) = rx
        generalize data.drop (blehFrameBuf - w.rx.length) = more
        rw [tokensAt_append nowMs rx more, rest_append rx more, takeTokens_append]
        exact takeTokens_setRx_setRx env (takeTokens env w (tokensAt nowMs rx))
          (blehFramer.rest rx) _ _
  exact hrounds data.length hw (le_refl _)

/-! ## Any split into calls -/

theorem settled_run (ctx : β) {inputs : List Input} {w : Bleh β}
    (hrun : Run (Takes env) (init ctx) inputs w) : w.Settled := by
  apply hrun.inv (I := Settled) _ (show (init ctx).Settled from rfl)
  intro s i s' hstep hs
  obtain rfl := hstep
  cases i with
  | rx data nowMs =>
    rw [take, rxData_eq env nowMs hs]
    exact peel_rest (F := blehFramer) _
  | pump nowMs =>
    rw [take, Settled, pump_rx]
    exact hs
  | tick nowMs =>
    rw [take, Settled, tick_rx]
    exact hs
  | setLink notify pduPayload => exact hs
  | linkDown => rfl

variable (env)

/-- Calls of `bleh_core_rx` in a row. -/
def rxCalls (w : Bleh β) (calls : List (List UInt8 × UInt32)) : Bleh β :=
  calls.foldl (fun w c => rxData env w c.1 c.2) w

/-- The bytes the calls bring. -/
def stream (calls : List (List UInt8 × UInt32)) : List UInt8 := calls.flatMap Prod.fst

variable {env}

variable (env) in
/-- **Any split**: the calls take the tokens of the whole stream, in order. -/
theorem foldl_rxData (calls : List (List UInt8 × UInt32)) {w : Bleh β} (hw : w.Settled) :
    ∃ ts : List (BlehToken × UInt32), ts.map Prod.fst = blehFramer.tokens (w.rx ++ stream calls) ∧
      (∀ t ∈ ts, t.2 ∈ calls.map Prod.snd) ∧
      rxCalls env w calls =
        (takeTokens env w ts).setRx (blehFramer.rest (w.rx ++ stream calls)) := by
  induction calls generalizing w with
  | nil =>
    refine ⟨[], ?_, fun t ht => absurd ht not_mem_nil, ?_⟩
    · rw [stream, flatMap_nil, append_nil, tokens_of_none (F := blehFramer) hw]
      rfl
    · rw [stream, flatMap_nil, append_nil, rest_of_none (F := blehFramer) hw]
      rfl
  | cons c calls ih =>
    have hcall := rxData_eq env c.2 hw c.1
    have hrx : (rxData env w c.1 c.2).rx = blehFramer.rest (w.rx ++ c.1) := by
      rw [hcall]
      rfl
    have hsettled : (rxData env w c.1 c.2).Settled := by
      rw [Settled, hrx]
      exact peel_rest (F := blehFramer) _
    have hstream : w.rx ++ stream (c :: calls) = w.rx ++ c.1 ++ stream calls := by
      rw [stream, flatMap_cons, append_assoc]
      rfl
    obtain ⟨ts, htokens, htimes, hstate⟩ := ih hsettled
    rw [hrx] at htokens hstate
    refine ⟨tokensAt c.2 (w.rx ++ c.1) ++ ts, ?_, ?_, ?_⟩
    · rw [hstream, tokens_append, map_append, htokens, tokensAt, map_map]
      exact congrArg (· ++ _) (map_id _)
    · intro t ht
      rcases mem_append.mp ht with hnow | hlater
      · obtain ⟨_, -, rfl⟩ := mem_map.mp hnow
        exact mem_cons_self
      · exact mem_cons_of_mem _ (htimes t hlater)
    · rw [rxCalls, foldl_cons, ← rxCalls, hstate, hcall, hstream,
        rest_append (w.rx ++ c.1) (stream calls), takeTokens_append]
      exact takeTokens_setRx_setRx env _ _ _ _

/-- **Reassembly of any bytes**: however a stream is cut into calls, the tokens of
the whole are taken in order, and at one time it makes no difference at all; bytes
at none of which a header starts, with the frame behind them to complete it, are
skipped and the frame is read; a call uses up its bytes in as many rounds as it
brings bytes at most, each with room in the buffer and each ending with a buffer
that waits. -/
theorem blehRx_reassembles (env : BlehEnv β) (ctx : β) (inputs : List Input) (w : Bleh β)
    (hrun : Run (Takes env) (init ctx) inputs w) :
    (∀ calls, ∃ ts : List (BlehToken × UInt32),
      ts.map Prod.fst = blehFramer.tokens (w.rx ++ stream calls) ∧ rxCalls env w calls =
          (takeTokens env w ts).setRx (blehFramer.rest (w.rx ++ stream calls))) ∧
      (∀ calls nowMs, (∀ c ∈ calls, c.2 = nowMs) →
        rxCalls env w calls = rxData env w (stream calls) nowMs) ∧
      (∀ g (f : BlehFrame) more, f.Formed →
        (∀ k < (w.rx ++ g).length, blehHdrParse ((w.rx ++ g ++ f.bytes).drop k) = none) →
        blehFramer.tokens (w.rx ++ g ++ f.bytes ++ more) =
          List.replicate (w.rx ++ g).length .skip ++
            .frame f.hdr f.payload :: blehFramer.tokens more) ∧
      ∀ data nowMs, (∀ k, ((rxRound env nowMs)^[k] (w, data)).1.rx.length < blehFrameBuf ∧
          blehPeel ((rxRound env nowMs)^[k] (w, data)).1.rx = none) ∧
          (rxRound env nowMs)^[data.length] (w, data) = (rxData env w data nowMs, []) := by
  have hw := settled_run ctx hrun
  refine ⟨fun calls => ?_, fun calls nowMs hnow => ?_, fun g f more hf hclean => ?_,
    fun data nowMs => ⟨fun k => ?_, ?_⟩⟩
  · obtain ⟨ts, htokens, -, hstate⟩ := foldl_rxData env calls hw
    exact ⟨ts, htokens, hstate⟩
  · obtain ⟨ts, htokens, htimes, hstate⟩ := foldl_rxData env calls hw
    have hts : ts = tokensAt nowMs (w.rx ++ stream calls) := by
      rw [tokensAt, ← htokens, map_map]
      refine (map_id ts).symm.trans (map_congr_left fun t ht => ?_)
      obtain ⟨c, hc, htime⟩ := mem_map.mp (htimes t ht)
      exact Prod.ext rfl (htime.symm.trans (hnow c hc))
    rw [hstate, hts, rxData_eq env nowMs hw]
  · exact tokens_garbage hf more (w.rx ++ g) hclean
  · have hsettled := settled_rxRounds env nowMs hw data k
    exact ⟨length_of_blehPeel_none hsettled, hsettled⟩
  · exact rxRounds_eq nowMs data.length hw (le_refl _)

/-- A stray byte before an ABORT, cut in two. -/
theorem blehRx_reassembles_stray :
    rxCalls (sampleEnv samplePost) (init ()) [([0x58, 0x57, 2, 5], 3), ([0, 1, 0, 0, 0], 3)] =
      rxData (sampleEnv samplePost) (init ()) [0x58, 0x57, 2, 5, 0, 1, 0, 0, 0] 3 :=
  (blehRx_reassembles (sampleEnv samplePost) () [] (init ()) (.nil _)).2.1 _ 3 (by simp)

/-- Six bytes that hold no header, and an ABORT whose first two complete one: the
frame is taken for the payload of a frame of 599 bytes. -/
theorem blehRx_straddled :
    ¬ ∀ (β : Type) (env : BlehEnv β) (ctx : β) (g : List UInt8) (f : BlehFrame),
      f.Formed → (∀ k, blehHdrParse (g.drop k) = none) →
      .frame f.hdr f.payload ∈ blehFramer.tokens (g ++ f.bytes) ∧
        (rxData env (init ctx) (g ++ f.bytes) 0).ctr.framesRx = 1 := by
  intro hclaim
  have hread := (hclaim Unit (sampleEnv samplePost) () [0x57, 2, 1, 0, 0, 0] ⟨blehTAbort, 0, 1, []⟩
    ⟨by decide, by decide, by decide⟩ (fun k => ?_)).2
  · exact absurd hread (by decide)
  · match k with
    | 0 | 1 | 2 | 3 | 4 | 5 => rfl
    | k + 6 =>
      rw [drop_of_length_le (Nat.le_add_left 6 k)]
      rfl

end Bleh

end Meatpi
