import Meatpi.J1939.TpBooks

/-!
# One sender's session

What the receiver knows of one sender and destination is the session found for
them and its buffer (`tpView`). A call works on the slot of one such pair
(`SlotStep`), so the others do not notice it (`tpView_call`); what it does to
its own pair is said here call by call, for the announce and the data packet.
-/

namespace Meatpi

open Function Option

/-- The session of a sender and a destination, with its buffer. -/
def tpView (tp : J1939Tp) (sa da : UInt8) : Option (TpSession × (ℕ → UInt8)) :=
  (sessionFind tp sa da).map fun i => (tp.s i, tp.buf i)

/-- Does the call look for the session of that sender and destination? -/
def TpCall.touches (sa da : UInt8) : TpCall → Bool
  | .cm sa' da' d _ _ =>
    if d 0 = tpCtrlBam ∨ d 0 = tpCtrlRts then sa' == sa && da' == da
    else if d 0 = tpCtrlCts ∨ d 0 = tpCtrlEoma then da' == sa && sa' == da
    else d 0 == tpCtrlAbort && (sa' == sa && da' == da || da' == sa && sa' == da)
  | .dt sa' da' _ _ _ => sa' == sa && da' == da
  | .expire _ => false
  | .setAddress _ => false
  | .replyTake => false

variable {tp tp' : J1939Tp} {sa da : UInt8} {i : Fin tpSessions}

/-! ## The view -/

theorem sessionFind_eq_some (h : TpInv tp) :
    sessionFind tp sa da = some i ↔ (tp.s i).isOf sa da = true := by
  constructor
  · intro hfind
    exact isOf_iff.mpr (sessionFind_some hfind)
  · intro hi
    rcases hfind : sessionFind tp sa da with _ | j
    · exact absurd (isOf_iff.mp hi) (sessionFind_none.mp hfind i)
    · obtain ⟨hj, hjsa, hjda⟩ := sessionFind_some hfind
      obtain ⟨hi, hisa, hida⟩ := isOf_iff.mp hi
      rw [h.unique j i hj hi (hjsa.trans hisa.symm) (hjda.trans hida.symm)]

theorem tpView_eq_some {s : TpSession} {b : ℕ → UInt8} :
    tpView tp sa da = some (s, b) ↔ ∃ i, sessionFind tp sa da = some i ∧ tp.s i = s ∧ tp.buf i = b := by
  simp [tpView]

theorem tpView_eq_none : tpView tp sa da = none ↔ sessionFind tp sa da = none := by
  simp [tpView]

theorem tpView_of_isOf (h : TpInv tp) (hi : (tp.s i).isOf sa da = true) :
    tpView tp sa da = some (tp.s i, tp.buf i) :=
  tpView_eq_some.mpr ⟨i, (sessionFind_eq_some h).mpr hi, rfl, rfl⟩

theorem tpView_of_slot {s : TpSession} (h : TpInv tp) (hs : tp.s i = s)
    (hof : s.isOf sa da = true) : tpView tp sa da = some (s, tp.buf i) := by
  subst hs
  exact tpView_of_isOf h hof

theorem tpView_congr (hof : ∀ j, (tp'.s j).isOf sa da = (tp.s j).isOf sa da)
    (hsame : ∀ j, (tp.s j).isOf sa da = true → tp'.s j = tp.s j ∧ tp'.buf j = tp.buf j) :
    tpView tp' sa da = tpView tp sa da := by
  have hfind : sessionFind tp' sa da = sessionFind tp sa da := by
    exact congrArg (fun p => List.find? p _) (funext hof)
  rcases htp : sessionFind tp sa da with _ | i
  · rw [tpView_eq_none.mpr htp, tpView_eq_none.mpr (hfind.trans htp)]
  · obtain ⟨hs, hbuf⟩ := hsame i (isOf_iff.mpr (sessionFind_some htp))
    rw [tpView, tpView, hfind, htp, map_some, map_some, hs, hbuf]

/-! ## A call works on one pair -/

/-- The step is one on the slot of that sender and destination. -/
def SlotStep (tp tp' : J1939Tp) (sa da : UInt8) : Prop :=
  ∃ i s b, ((tp.s i).isOpen = true → (tp.s i).sa = sa ∧ (tp.s i).da = da) ∧
    (s.isOpen = true → s.sa = sa ∧ s.da = da) ∧
    tp'.s = update tp.s i s ∧ tp'.buf = update tp.buf i b

/-- **Other pairs do not notice.** -/
theorem SlotStep.view {sa' da' : UInt8} (h : SlotStep tp tp' sa' da')
    (hne : ¬ (sa' = sa ∧ da' = da)) : tpView tp' sa da = tpView tp sa da := by
  obtain ⟨i, s, b, hold, hnew, hs, hbuf⟩ := h
  have hfalse : ∀ {s : TpSession}, (s.isOpen = true → s.sa = sa' ∧ s.da = da') →
      ¬ s.isOf sa da = true := by
    intro s hs hof
    obtain ⟨hopen, hsa, hda⟩ := isOf_iff.mp hof
    obtain ⟨hsa', hda'⟩ := hs hopen
    exact hne ⟨hsa'.symm.trans hsa, hda'.symm.trans hda⟩
  apply tpView_congr
  · intro j
    by_cases hj : j = i
    · rw [hj, hs, update_self, Bool.eq_false_iff.mpr (hfalse hold),
        Bool.eq_false_iff.mpr (hfalse hnew)]
    · rw [hs, update_of_ne hj]
  · intro j hof
    have hj : j ≠ i := by
      rintro rfl
      exact hfalse hold hof
    rw [hs, hbuf, update_of_ne hj, update_of_ne hj]
    exact ⟨rfl, rfl⟩

theorem setSession_buf (s : TpSession) : (tp.setSession i s).buf = tp.buf := rfl

theorem close_buf (why : TpEnd) : (tp.close i why).buf = tp.buf := rfl

theorem replyCts_s (tp : J1939Tp) (i : Fin tpSessions) :
    ∃ n, (replyCts tp i).s = update tp.s i { tp.s i with ctsLeft := n } := by
  obtain ⟨n, hs, -⟩ := replyCts_spec tp i
  exact ⟨n, hs⟩

theorem replyCts_buf (tp : J1939Tp) (i : Fin tpSessions) : (replyCts tp i).buf = tp.buf := by
  obtain ⟨n, -, -, -, hbuf⟩ := replyCts_spec tp i
  exact hbuf

theorem startSession_s (tp : J1939Tp) (i : Fin tpSessions) (s : TpSession) :
    ∃ n, (startSession tp i s).s = update tp.s i { s with ctsLeft := n } := by
  rw [startSession]
  split_ifs
  · obtain ⟨n, hs⟩ := replyCts_s { tp with
      s := update tp.s i s
      stats := { tp.stats with started := tp.stats.started + 1, toMe := tp.stats.toMe + 1 } } i
    refine ⟨n, hs.trans ?_⟩
    simp only [update_self, update_idem]
  · exact ⟨s.ctsLeft, rfl⟩

theorem startSession_buf (tp : J1939Tp) (i : Fin tpSessions) (s : TpSession) :
    (startSession tp i s).buf = tp.buf := by
  rw [startSession]
  split_ifs
  · exact replyCts_buf ..
  · rfl

theorem SlotStep.start {s : TpSession} (hs : tp'.s = tp.s) (hbuf : tp'.buf = tp.buf)
    (hslot : (tp.s i).isOpen = true → (tp.s i).sa = s.sa ∧ (tp.s i).da = s.da) :
    SlotStep tp (startSession tp' i s) s.sa s.da := by
  obtain ⟨n, hstart⟩ := startSession_s tp' i s
  refine ⟨i, { s with ctsLeft := n }, tp.buf i, hslot, fun _ => ⟨rfl, rfl⟩, ?_, ?_⟩
  · rw [hstart, hs]
  · rw [startSession_buf, hbuf, update_eq_self]

theorem announce_slotStep (tp : J1939Tp) (sa da : UInt8) (d : TpFrame) (now : ℤ) :
    (announce tp sa da d now).s = tp.s ∧ (announce tp sa da d now).buf = tp.buf ∨
      SlotStep tp (announce tp sa da d now) sa da := by
  rw [announce]
  by_cases hbad : cmSize d < tpMinBytes ∨ j1939MsgMax < cmSize d ∨
      cmPackets d ≠ (cmSize d + tpPacketBytes - 1) / tpPacketBytes
  · rw [if_pos hbad]
    exact .inl ⟨rfl, rfl⟩
  · rw [if_neg hbad]
    rcases hfind : sessionFind tp sa da with _ | i
    · rcases hfree : sessionFree tp with _ | i
      · left
        split_ifs
        · exact ⟨replyAbort_s .., replyAbort_buf ..⟩
        · exact ⟨rfl, rfl⟩
      · refine .inr (SlotStep.start (s := announced _ sa da d now) rfl rfl fun hopen => ?_)
        rw [sessionFree_some hfree] at hopen
        cases hopen
    · exact .inr (SlotStep.start (s := announced _ sa da d now) rfl rfl
        fun _ => (sessionFind_some hfind).2)

theorem close_slotStep (why : TpEnd) (hfind : sessionFind tp sa da = some i) :
    SlotStep tp (tp.close i why) sa da := by
  refine ⟨i, { tp.s i with isOpen := false }, tp.buf i, fun _ => (sessionFind_some hfind).2,
    fun hopen => absurd hopen Bool.false_ne_true, rfl, ?_⟩
  rw [update_eq_self]
  rfl

theorem cmCts_slotStep (d : TpFrame) (now : ℤ) (hfind : sessionFind tp sa da = some i) :
    SlotStep tp (cmCts tp i d now) sa da := by
  obtain ⟨-, hof⟩ := sessionFind_some hfind
  have hbuf : tp.buf = update tp.buf i (tp.buf i) := by rw [update_eq_self]
  rw [cmCts]
  split_ifs
  · exact ⟨i, { tp.s i with lastUs := now }, tp.buf i, fun _ => hof, fun _ => hof, rfl, hbuf⟩
  · refine ⟨i, { tp.s i with lastUs := now, next := (d 2).toNat }, tp.buf i, fun _ => hof,
      fun _ => hof, ?_, hbuf⟩
    simp only [J1939Tp.setSession, update_self, update_idem]
  · refine ⟨i, { tp.s i with lastUs := now, isOpen := false }, tp.buf i, fun _ => hof,
      fun hopen => absurd hopen Bool.false_ne_true, ?_, hbuf⟩
    simp only [J1939Tp.setSession, J1939Tp.close, update_self, update_idem]

theorem dt_slotStep (d : TpFrame) (dlc : ℕ) (now : ℤ) (hfind : sessionFind tp sa da = some i) :
    SlotStep tp (j1939TpDt tp sa da d dlc now).1 sa da := by
  obtain ⟨-, hof⟩ := sessionFind_some hfind
  have hbuf : tp.buf = update tp.buf i (tp.buf i) := by rw [update_eq_self]
  rw [j1939TpDt, hfind]
  dsimp only
  split_ifs
  · refine ⟨i, { tp.s i with isOpen := false }, tp.buf i, fun _ => hof,
      fun hopen => absurd hopen Bool.false_ne_true,
      replyAbort_s .., (replyAbort_buf ..).trans hbuf⟩
  · exact ⟨i, { tp.s i with isOpen := false }, tp.buf i, fun _ => hof,
      fun hopen => absurd hopen Bool.false_ne_true, rfl, hbuf⟩
  · -- the window is used up
    obtain ⟨n, hs⟩ := replyCts_s (J1939Tp.setSession { tp with
      buf := update tp.buf i
        (copyPacket (tp.buf i) (dtCopy (tp.s i)).1 (dtCopy (tp.s i)).2 d) } i
      { tp.s i with
        lastUs := now
        next := (tp.s i).next + 1
        ctsLeft := (tp.s i).ctsLeft - 1 }) i
    refine ⟨i, { tp.s i with lastUs := now, next := (tp.s i).next + 1, ctsLeft := n }, _,
      fun _ => hof, fun _ => hof, hs.trans ?_, replyCts_buf ..⟩
    simp only [J1939Tp.setSession, update_self, update_idem]
  · exact ⟨i, { tp.s i with
        lastUs := now
        next := (tp.s i).next + 1
        ctsLeft := (tp.s i).ctsLeft - 1 }, _, fun _ => hof, fun _ => hof, rfl, rfl⟩
  · exact ⟨i, { tp.s i with lastUs := now, next := (tp.s i).next + 1 }, _, fun _ => hof,
      fun _ => hof, rfl, rfl⟩
  · refine ⟨i, { tp.s i with lastUs := now, isOpen := false }, _, fun _ => hof,
      fun hopen => absurd hopen Bool.false_ne_true, (replyEoma_s ..).trans ?_, replyEoma_buf ..⟩
    simp only [J1939Tp.setSession, J1939Tp.close, update_self, update_idem]
  · refine ⟨i, { tp.s i with lastUs := now, isOpen := false }, _, fun _ => hof,
      fun hopen => absurd hopen Bool.false_ne_true, ?_, rfl⟩
    simp only [J1939Tp.setSession, J1939Tp.close, update_self, update_idem]

/-- **What a call can do**: it leaves the sessions alone, or it works on the
slot of a pair it touches. -/
theorem tpCall_slotStep (tp : J1939Tp) (call : TpCall) (hexpire : ∀ now, call ≠ .expire now) :
    (tpCall tp call).1.s = tp.s ∧ (tpCall tp call).1.buf = tp.buf ∨
      ∃ sa da, call.touches sa da = true ∧ SlotStep tp (tpCall tp call).1 sa da := by
  cases call with
  | cm sa da d dlc now =>
    rw [tpCall, j1939TpCm]
    split_ifs with hdlc hbam hall hrts hall' hcts heoma habort
    · exact .inl ⟨rfl, rfl⟩
    · exact .inl ⟨rfl, rfl⟩
    · exact (announce_slotStep tp sa da d now).imp_right fun h =>
        ⟨sa, da, by simp [TpCall.touches, hbam], h⟩
    · exact .inl ⟨rfl, rfl⟩
    · exact (announce_slotStep tp sa da d now).imp_right fun h =>
        ⟨sa, da, by simp [TpCall.touches, hrts], h⟩
    · have htouch : (TpCall.cm sa da d dlc now).touches da sa = true := by
        rw [TpCall.touches, if_neg (not_or.mpr ⟨hbam, hrts⟩), if_pos (.inl hcts)]
        simp
      rcases hfind : sessionFind tp da sa with _ | i
      · exact .inl ⟨rfl, rfl⟩
      · dsimp only
        split_ifs
        · exact .inl ⟨rfl, rfl⟩
        · exact .inr ⟨da, sa, htouch, cmCts_slotStep d now hfind⟩
    · have htouch : (TpCall.cm sa da d dlc now).touches da sa = true := by
        rw [TpCall.touches, if_neg (not_or.mpr ⟨hbam, hrts⟩), if_pos (.inr heoma)]
        simp
      rcases hfind : sessionFind tp da sa with _ | i
      · exact .inl ⟨rfl, rfl⟩
      · dsimp only
        split_ifs
        · exact .inr ⟨da, sa, htouch, close_slotStep .seqErrors hfind⟩
        · exact .inl ⟨rfl, rfl⟩
    · have htouch : (TpCall.cm sa da d dlc now).touches sa da = true ∧
          (TpCall.cm sa da d dlc now).touches da sa = true := by
        simp only [TpCall.touches, if_neg (not_or.mpr ⟨hbam, hrts⟩),
          if_neg (not_or.mpr ⟨hcts, heoma⟩)]
        simp [habort]
      rcases hfind : (sessionFind tp sa da).or (sessionFind tp da sa) with _ | i
      · exact .inl ⟨rfl, rfl⟩
      · dsimp only
        split_ifs
        · rcases or_eq_some_iff.mp hfind with hi | ⟨-, hi⟩
          · exact .inr ⟨sa, da, htouch.1, close_slotStep .aborted hi⟩
          · exact .inr ⟨da, sa, htouch.2, close_slotStep .aborted hi⟩
        · exact .inl ⟨rfl, rfl⟩
    · exact .inl ⟨rfl, rfl⟩
  | dt sa da d dlc now =>
    rcases hfind : sessionFind tp sa da with _ | i
    · left
      rw [tpCall, j1939TpDt, hfind]
      exact ⟨rfl, rfl⟩
    · exact .inr ⟨sa, da, by simp [TpCall.touches], dt_slotStep d dlc now hfind⟩
  | expire now => exact absurd rfl (hexpire now)
  | setAddress mySa => exact .inl ⟨rfl, rfl⟩
  | replyTake =>
    left
    rw [tpCall, j1939TpReplyTake]
    split
    · exact ⟨rfl, rfl⟩
    · exact ⟨rfl, rfl⟩

theorem tpView_expire {now : ℤ} (h : TpInv tp)
    (hlive : ∀ s b, tpView tp sa da = some (s, b) → now - s.lastUs ≤ tpTimeoutUs) :
    tpView (j1939TpExpire tp now) sa da = tpView tp sa da := by
  have hone : ∀ (tp : J1939Tp) (i : Fin tpSessions), TpInv tp →
      (∀ s b, tpView tp sa da = some (s, b) → now - s.lastUs ≤ tpTimeoutUs) →
      tpView (expireOne now tp i) sa da = tpView tp sa da := by
    intro tp i h hlive
    by_cases hquiet : (tp.s i).isOpen = true ∧ tpTimeoutUs < now - (tp.s i).lastUs
    · have hne : ¬ ((tp.s i).sa = sa ∧ (tp.s i).da = da) := by
        intro hof
        have hview := tpView_of_isOf h (isOf_iff.mpr ⟨hquiet.1, hof⟩)
        exact absurd (hlive _ _ hview) (not_le.mpr hquiet.2)
      have hfind : sessionFind tp (tp.s i).sa (tp.s i).da = some i :=
        (sessionFind_eq_some h).mpr (isOf_iff.mpr ⟨hquiet.1, rfl, rfl⟩)
      have hclose := (close_slotStep .timeouts hfind).view hne
      rw [expireOne, if_pos hquiet, ← hclose]
      dsimp only
      split_ifs
      · exact tpView_congr (fun j => by rw [replyAbort_s])
          fun j _ => ⟨by rw [replyAbort_s], by rw [replyAbort_buf]⟩
      · rfl
    · rw [expireOne, if_neg hquiet]
  have hinv : ∀ (tp : J1939Tp) (i : Fin tpSessions), TpInv tp → TpInv (expireOne now tp i) :=
    fun _ i h => h.expireOne now i
  rw [j1939TpExpire]
  induction List.finRange tpSessions generalizing tp with
  | nil => rfl
  | cons i slots ih =>
    have hview := hone tp i h hlive
    refine (ih (hinv tp i h) fun s b => ?_).trans hview
    rw [hview]
    exact hlive s b

/-- **The frame of a call**: a pair it does not touch, and whose session it does
not find quiet for too long, keeps its session and its bytes. -/
theorem tpView_call (h : TpInv tp) {call : TpCall} (htouch : call.touches sa da = false)
    (hlive : ∀ now, call = .expire now → ∀ s b, tpView tp sa da = some (s, b) →
      now - s.lastUs ≤ tpTimeoutUs) :
    tpView (tpCall tp call).1 sa da = tpView tp sa da := by
  by_cases hexpire : ∃ now, call = .expire now
  · obtain ⟨now, rfl⟩ := hexpire
    exact tpView_expire h (hlive now rfl)
  · rcases tpCall_slotStep tp call fun now heq => hexpire ⟨now, heq⟩ with
      ⟨hs, hbuf⟩ | ⟨sa', da', ht, hstep⟩
    · exact tpView_congr (fun j => by rw [hs]) fun j _ => ⟨by rw [hs], by rw [hbuf]⟩
    · apply hstep.view
      rintro ⟨rfl, rfl⟩
      rw [htouch] at ht
      cases ht

/-! ## What a call does to its own pair -/

/-- The packets the next clear-to-send grants. -/
def ctsWindow (s : TpSession) : ℕ :=
  let left := (u32Sub s.packets s.next + 1) % 2 ^ 32
  if left < s.ctsMax then left else s.ctsMax

/-- The clear-to-send of a session. -/
def ctsReply (s : TpSession) : TpReply :=
  ⟨s.sa, ![tpCtrlCts, UInt8.ofNat (ctsWindow s), UInt8.ofNat s.next, 0xFF, 0xFF, (pgnPut s.pgn).1,
    (pgnPut s.pgn).2.1, (pgnPut s.pgn).2.2]⟩

/-- The end-of-message acknowledge of a session. -/
def eomaReply (s : TpSession) : TpReply :=
  ⟨s.sa, ![tpCtrlEoma, UInt8.ofNat s.size, UInt8.ofNat (s.size / 256), UInt8.ofNat s.packets, 0xFF,
    (pgnPut s.pgn).1, (pgnPut s.pgn).2.1, (pgnPut s.pgn).2.2]⟩

/-- Is the packet the last one of a window of this node? -/
def TpSession.windowDone (s : TpSession) : Bool := s.mine && s.ctsLeft == 1

/-- The session after a packet that is not the last one. -/
def TpSession.afterPacket (s : TpSession) (now : ℤ) : TpSession :=
  let s' := { s with lastUs := now, next := s.next + 1 }
  if s.windowDone then { s' with ctsLeft := ctsWindow s' }
  else if s.mine ∧ 0 < s.ctsLeft then { s' with ctsLeft := s.ctsLeft - 1 }
  else s'

variable {s' : TpSession}

theorem ctsWindow_congr {s : TpSession} (hpackets : s.packets = s'.packets)
    (hnext : s.next = s'.next) (hmax : s.ctsMax = s'.ctsMax) : ctsWindow s = ctsWindow s' := by
  rw [ctsWindow, ctsWindow, hpackets, hnext, hmax]

theorem ctsReply_congr {s : TpSession} (hsa : s.sa = s'.sa) (hpackets : s.packets = s'.packets)
    (hnext : s.next = s'.next) (hmax : s.ctsMax = s'.ctsMax) (hpgn : s.pgn = s'.pgn) :
    ctsReply s = ctsReply s' := by
  rw [ctsReply, ctsReply, ctsWindow_congr hpackets hnext hmax, hsa, hnext, hpgn]

theorem replyQueue_reply {da : UInt8} {data : TpFrame} (h : tp.reply = []) :
    (replyQueue tp da data).reply = [⟨da, data⟩] := by
  rw [replyQueue, h]
  rfl

theorem replyCts_eq (tp : J1939Tp) (i : Fin tpSessions) :
    (replyCts tp i).s = update tp.s i { tp.s i with ctsLeft := ctsWindow (tp.s i) } := by
  exact replyQueue_s ..

theorem replyCts_reply (h : tp.reply = []) : (replyCts tp i).reply = [ctsReply (tp.s i)] := by
  exact replyQueue_reply h

theorem announce_eq (sa da : UInt8) {d : TpFrame} (now : ℤ) (hmin : tpMinBytes ≤ cmSize d)
    (hmax : cmSize d ≤ j1939MsgMax)
    (hpackets : cmPackets d = (cmSize d + tpPacketBytes - 1) / tpPacketBytes)
    (hroom : sessionFind tp sa da ≠ none ∨ sessionFree tp ≠ none) :
    ∃ i st, announce tp sa da d now = startSession { tp with stats := st } i
      (announced (d 0 == tpCtrlRts && forMe tp da) sa da d now) := by
  have hok : ¬ (cmSize d < tpMinBytes ∨ j1939MsgMax < cmSize d ∨
      cmPackets d ≠ (cmSize d + tpPacketBytes - 1) / tpPacketBytes) := by
    rw [not_or, not_or, not_not]
    exact ⟨not_lt.mpr hmin, not_lt.mpr hmax, hpackets⟩
  rw [announce, if_neg hok]
  rcases hfind : sessionFind tp sa da with _ | i
  · rcases hfree : sessionFree tp with _ | i
    · rw [hfind, hfree] at hroom
      exact absurd hroom (by simp)
    · exact ⟨i, tp.stats, rfl⟩
  · exact ⟨i, { tp.stats with replaced := tp.stats.replaced + 1 }, rfl⟩

theorem startSession_view {s : TpSession} (hinv : TpInv (startSession tp i s))
    (hopen : s.isOpen = true) :
    ∃ n, tpView (startSession tp i s) s.sa s.da = some ({ s with ctsLeft := n }, tp.buf i) := by
  obtain ⟨n, hs⟩ := startSession_s tp i s
  refine ⟨n, ?_⟩
  have hself : (startSession tp i s).s i = { s with ctsLeft := n } := by
    rw [hs, update_self]
  rw [tpView_of_slot hinv hself (isOf_iff.mpr ⟨hopen, rfl, rfl⟩), startSession_buf]

theorem startSession_mine (tp : J1939Tp) (i : Fin tpSessions) {s : TpSession} (hmine : s.mine = true) :
    (startSession tp i s).s = update tp.s i { s with ctsLeft := ctsWindow s } ∧
      (tp.reply = [] → (startSession tp i s).reply = [ctsReply s]) := by
  rw [startSession]
  rw [if_pos hmine]
  constructor
  · rw [replyCts_eq, setSession_s]
    rw [update_self, update_idem]
  · intro hreply
    refine (replyCts_reply ?_).trans ?_
    · exact hreply
    · rw [setSession_s, update_self]

section Packet

variable {s : TpSession} {b : ℕ → UInt8} {d : TpFrame} (now : ℤ)

theorem dt_more_slot (hfind : sessionFind tp sa da = some i) (hnum : (d 0).toNat = (tp.s i).next)
    (hmore : (tp.s i).next < (tp.s i).packets) :
    (j1939TpDt tp sa da d 8 now).1.s = update tp.s i ((tp.s i).afterPacket now) ∧
      (j1939TpDt tp sa da d 8 now).1.buf = update tp.buf i
        (copyPacket (tp.buf i) (dtCopy (tp.s i)).1 (dtCopy (tp.s i)).2 d) ∧
      (j1939TpDt tp sa da d 8 now).2 = none ∧
      (tp.reply = [] → (j1939TpDt tp sa da d 8 now).1.reply =
        if (tp.s i).windowDone then [ctsReply ((tp.s i).afterPacket now)] else []) := by
  have hdue : ¬ (8 ≠ 8 ∨ (d 0).toNat ≠ (tp.s i).next) := by simp [hnum]
  rw [j1939TpDt, hfind]
  dsimp only
  rw [if_neg hdue, if_pos hmore]
  by_cases hmine : (tp.s i).mine = true ∧ 0 < (tp.s i).ctsLeft
  · rw [if_pos hmine]
    by_cases hlast : (tp.s i).ctsLeft - 1 = 0
    · have hone : (tp.s i).ctsLeft = 1 := by omega
      have hdone : (tp.s i).windowDone = true := by simp [TpSession.windowDone, hmine.1, hone]
      rw [if_pos hlast, if_pos hdone, TpSession.afterPacket, if_pos hdone]
      refine ⟨?_, replyCts_buf .., rfl, fun hreply => ?_⟩
      · rw [replyCts_eq, setSession_self, setSession_s, update_idem]
        exact congrArg (fun n => update tp.s i { tp.s i with
          lastUs := now
          next := (tp.s i).next + 1
          ctsLeft := n }) (ctsWindow_congr rfl rfl rfl)
      · refine (replyCts_reply ?_).trans ?_
        · exact hreply
        · rw [setSession_self]
          exact congrArg (fun r => [r]) (ctsReply_congr rfl rfl rfl rfl rfl)
    · have hdone : ¬ (tp.s i).windowDone = true := by
        intro hdone
        simp only [TpSession.windowDone, Bool.and_eq_true, beq_iff_eq] at hdone
        rw [hdone.2] at hlast
        exact hlast rfl
      rw [if_neg hlast, if_neg hdone, TpSession.afterPacket, if_neg hdone, if_pos hmine]
      exact ⟨rfl, rfl, rfl, id⟩
  · have hdone : ¬ (tp.s i).windowDone = true := by
      intro hdone
      simp only [TpSession.windowDone, Bool.and_eq_true, beq_iff_eq] at hdone
      exact hmine ⟨hdone.1, by rw [hdone.2]; exact Nat.one_pos⟩
    rw [if_neg hmine, if_neg hdone, TpSession.afterPacket, if_neg hdone, if_neg hmine]
    exact ⟨rfl, rfl, rfl, id⟩

theorem afterPacket_of (s : TpSession) (now : ℤ) :
    (s.afterPacket now).isOpen = s.isOpen ∧ (s.afterPacket now).sa = s.sa ∧
      (s.afterPacket now).da = s.da := by
  rw [TpSession.afterPacket]
  split_ifs <;> exact ⟨rfl, rfl, rfl⟩

theorem dt_more (h : TpInv tp) (hview : tpView tp sa da = some (s, b)) (hnum : (d 0).toNat = s.next)
    (hmore : s.next < s.packets) :
    tpView (j1939TpDt tp sa da d 8 now).1 sa da =
        some (s.afterPacket now, copyPacket b (dtCopy s).1 (dtCopy s).2 d) ∧
      (j1939TpDt tp sa da d 8 now).2 = none ∧
      (tp.reply = [] → (j1939TpDt tp sa da d 8 now).1.reply =
        if s.windowDone then [ctsReply (s.afterPacket now)] else []) := by
  obtain ⟨i, hfind, rfl, rfl⟩ := tpView_eq_some.mp hview
  obtain ⟨hs, hbuf, hout, hreply⟩ := dt_more_slot now hfind hnum hmore
  refine ⟨?_, hout, hreply⟩
  have hself : (j1939TpDt tp sa da d 8 now).1.s i = (tp.s i).afterPacket now := by
    rw [hs, update_self]
  have hof : ((tp.s i).afterPacket now).isOf sa da = true := by
    obtain ⟨hopen, hsa, hda⟩ := afterPacket_of (tp.s i) now
    rw [isOf_iff, hopen, hsa, hda]
    exact sessionFind_some hfind
  rw [tpView_of_slot (h.dt sa da d 8 now) hself hof, hbuf, update_self]

theorem dt_last (h : TpInv tp) (hview : tpView tp sa da = some (s, b)) (hnum : (d 0).toNat = s.next)
    (hlast : ¬ s.next < s.packets) :
    tpView (j1939TpDt tp sa da d 8 now).1 sa da = none ∧
      (j1939TpDt tp sa da d 8 now).2 = some ⟨s.pgn, sa, da,
        (List.range s.size).map (copyPacket b (dtCopy s).1 (dtCopy s).2 d)⟩ ∧
      (tp.reply = [] → (j1939TpDt tp sa da d 8 now).1.reply =
        if s.mine then [eomaReply s] else []) := by
  obtain ⟨i, hfind, rfl, rfl⟩ := tpView_eq_some.mp hview
  obtain ⟨hopen, hsa, hda⟩ := sessionFind_some hfind
  have hdue : ¬ (8 ≠ 8 ∨ (d 0).toNat ≠ (tp.s i).next) := by simp [hnum]
  have hs : (j1939TpDt tp sa da d 8 now).1.s =
      update tp.s i { tp.s i with lastUs := now, isOpen := false } := by
    rw [j1939TpDt, hfind]
    dsimp only
    rw [if_neg hlast]
    split_ifs
    · rw [replyEoma_s, close_s, setSession_self, setSession_s, update_idem]
    · rw [close_s, setSession_self, setSession_s, update_idem]
  refine ⟨?_, ?_, ?_⟩
  · rw [tpView_eq_none, sessionFind_none]
    rintro j ⟨hj, hjsa, hjda⟩
    by_cases hji : j = i
    · rw [hji, hs, update_self] at hj
      cases hj
    · rw [hs, update_of_ne hji] at hj hjsa hjda
      exact hji (h.unique j i hj hopen (hjsa.trans hsa.symm) (hjda.trans hda.symm))
  · rw [j1939TpDt, hfind]
    dsimp only
    rw [if_neg hdue, if_neg hlast]
    have hbuf : ∀ tp' : J1939Tp, (if (tp.s i).mine = true then replyEoma tp'
        { tp.s i with lastUs := now } else tp').buf = tp'.buf := by
      intro tp'
      split_ifs
      · exact replyEoma_buf ..
      · rfl
    rw [hbuf, close_buf, setSession_buf, hsa, hda]
    dsimp only
    rw [update_self]
  · intro hreply
    rw [j1939TpDt, hfind]
    dsimp only
    rw [if_neg hlast]
    split_ifs
    · refine replyQueue_reply ?_
      exact hreply
    · exact hreply

end Packet

end Meatpi
