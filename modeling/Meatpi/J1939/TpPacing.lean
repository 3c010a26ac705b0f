import Meatpi.J1939.TpView

/-!
# Pacing a sender

This node is the destination of a request to send: it grants the packets window
by window. The peer sends what it was granted, packet by packet, and takes the
replies after each call; between its packets other calls may come that leave
its session alone. The windows granted so far are the packets sent so far and
those still due (`Paced`), which every turn of the peer keeps.
-/

namespace Meatpi

open List

variable {ws : List (ℕ × ℕ)} {k : ℕ} {tp : J1939Tp} {m n : ℕ} {last : ℤ}

/-! ## The peer -/

/-- `j1939_tp_reply_take`, at most `n` times. -/
def takeReplies : ℕ → J1939Tp → J1939Tp × List TpReply
  | 0, tp => (tp, [])
  | n + 1, tp =>
    match j1939TpReplyTake tp with
    | (tp, none) => (tp, [])
    | (tp, some r) => ((takeReplies n tp).1, r :: (takeReplies n tp).2)

/-- A call, and every reply taken after it. -/
def callTake (tp : J1939Tp) (call : TpCall) : J1939Tp × List TpReply :=
  takeReplies (tpCall tp call).1.reply.length (tpCall tp call).1

/-- The peer: the packets it was granted and has not sent, and its replies. -/
structure TpPeer where
  due : List ℕ
  log : List TpReply

/-- The peer takes a reply. -/
def TpPeer.read (p : TpPeer) (r : TpReply) : TpPeer :=
  { due := if r.data 0 = tpCtrlCts then
        p.due ++ List.range' (r.data 2).toNat (r.data 1).toNat
      else p.due
    log := p.log ++ [r] }

/-- A turn: other calls, then the packet that is due, at the given time. -/
def peerTurn (sa da : UInt8) (packet : ℕ → TpFrame) (x : J1939Tp × TpPeer)
    (turn : List TpCall × ℤ) : J1939Tp × TpPeer :=
  let tp := turn.1.foldl (fun tp call => (callTake tp call).1) x.1
  match x.2.due with
  | [] => (tp, x.2)
  | k :: due =>
    let (tp, replies) := callTake tp (.dt sa da (packet k) 8 turn.2)
    (tp, replies.foldl TpPeer.read { x.2 with due := due })

/-- The request to send, then the turns. -/
def peerRun (tp : J1939Tp) (sa da : UInt8) (rts : TpFrame) (packet : ℕ → TpFrame) (now : ℤ)
    (turns : List (List TpCall × ℤ)) : J1939Tp × TpPeer :=
  let (tp, replies) := callTake tp (.cm sa da rts 8 now)
  turns.foldl (peerTurn sa da packet) (tp, replies.foldl TpPeer.read ⟨[], []⟩)

/-- The other calls leave the session alone: they are not about its pair, and no
expiry finds it quiet for too long. -/
def Spares (sa da : UInt8) : ℤ → List (List TpCall × ℤ) → Prop
  | _, [] => True
  | last, turn :: turns =>
    (∀ call ∈ turn.1, call.touches sa da = false ∧
      ∀ now, call = .expire now → now - last ≤ tpTimeoutUs) ∧ Spares sa da turn.2 turns

/-- The clear-to-send for a window: its first packet and how many. -/
def grant (sa : UInt8) (rts : TpFrame) (w : ℕ × ℕ) : TpReply :=
  ⟨sa, ![tpCtrlCts, UInt8.ofNat w.2, UInt8.ofNat w.1, 0xFF, 0xFF, (pgnPut (cmPgn rts)).1,
    (pgnPut (cmPgn rts)).2.1, (pgnPut (cmPgn rts)).2.2]⟩

/-- The end-of-message acknowledge: the size and the packets announced. -/
def acknowledge (sa : UInt8) (rts : TpFrame) : TpReply :=
  ⟨sa, ![tpCtrlEoma, UInt8.ofNat (cmSize rts), UInt8.ofNat (cmSize rts / 256),
    UInt8.ofNat (cmPackets rts), 0xFF, (pgnPut (cmPgn rts)).1, (pgnPut (cmPgn rts)).2.1,
    (pgnPut (cmPgn rts)).2.2]⟩

/-- The packets of a list of windows. -/
def windowPackets (ws : List (ℕ × ℕ)) : List ℕ := ws.flatMap fun w => List.range' w.1 w.2

/-! ## Taking replies -/

theorem takeReplies_eq (tp : J1939Tp) :
    takeReplies tp.reply.length tp = ({ tp with reply := [] }, tp.reply) := by
  obtain ⟨s, buf, stats, mySa, reply⟩ := tp
  induction reply with
  | nil => rfl
  | cons r reply ih =>
    simp only [length_cons, takeReplies, j1939TpReplyTake]
    rw [ih]

theorem callTake_eq (tp : J1939Tp) (call : TpCall) :
    callTake tp call = ({ (tpCall tp call).1 with reply := [] }, (tpCall tp call).1.reply) :=
  takeReplies_eq _

theorem TpInv.callTake (h : TpInv tp) (call : TpCall) : TpInv (callTake tp call).1 := by
  rw [callTake_eq]
  exact (h.call call).congr rfl rfl rfl

theorem tpView_callTake (tp : J1939Tp) (call : TpCall) (sa da : UInt8) :
    tpView (callTake tp call).1 sa da = tpView (tpCall tp call).1 sa da := by
  rw [callTake_eq]
  exact tpView_congr (fun _ => rfl) fun _ _ => ⟨rfl, rfl⟩

theorem others_spare {sa da : UInt8} {s : TpSession} {b : ℕ → UInt8} (calls : List TpCall) :
    ∀ {tp : J1939Tp}, TpInv tp → tp.reply = [] → tpView tp sa da = some (s, b) →
      (∀ call ∈ calls, call.touches sa da = false ∧
        ∀ now, call = .expire now → now - s.lastUs ≤ tpTimeoutUs) →
      TpInv (calls.foldl (fun tp call => (callTake tp call).1) tp) ∧
        (calls.foldl (fun tp call => (callTake tp call).1) tp).reply = [] ∧
        tpView (calls.foldl (fun tp call => (callTake tp call).1) tp) sa da = some (s, b) := by
  induction calls with
  | nil =>
    intro tp hinv hreply hview _
    exact ⟨hinv, hreply, hview⟩
  | cons call calls ih =>
    intro tp hinv hreply hview hspare
    obtain ⟨htouch, hlive⟩ := hspare call mem_cons_self
    have hsame : tpView (callTake tp call).1 sa da = some (s, b) := by
      rw [tpView_callTake, ← hview]
      apply tpView_call hinv htouch
      intro now hnow s' b' hview'
      rw [hview, Option.some.injEq, Prod.mk.injEq] at hview'
      rw [← hview'.1]
      exact hlive now hnow
    have htaken : (callTake tp call).1.reply = [] := by rw [callTake_eq]
    exact ih (hinv.callTake call) htaken hsame fun c hc => hspare c (mem_cons_of_mem _ hc)

/-! ## The windows -/

section Window

variable {sa da : UInt8} {rts : TpFrame}

theorem cmPackets_lt (d : TpFrame) : cmPackets d < 256 := (d 3).toNat_lt

/-- The session of the request, after `m` packets and with `n` still granted. -/
def pacedSession (sa da : UInt8) (rts : TpFrame) (last : ℤ) (m n : ℕ) : TpSession :=
  { announced true sa da rts last with next := m + 1, ctsLeft := n }

theorem ctsWindow_paced (hm : m < cmPackets rts) :
    ctsWindow (pacedSession sa da rts last m n) =
      min (cmPackets rts - m) (if rts 4 = 0 then 255 else (rts 4).toNat) := by
  have hlt := cmPackets_lt rts
  have hsub : u32Sub (cmPackets rts) (m + 1) = cmPackets rts - (m + 1) := u32Sub_eq hm (by omega)
  have hleft : (u32Sub (cmPackets rts) (m + 1) + 1) % 2 ^ 32 = cmPackets rts - m := by
    omega
  have hmax : (pacedSession sa da rts last m n).ctsMax =
      if rts 4 = 0 then 255 else (rts 4).toNat := by
    by_cases hzero : rts 4 = 0
    · simp [pacedSession, announced, hzero]
    · simp [pacedSession, announced, hzero]
  have hwindow : ctsWindow (pacedSession sa da rts last m n) =
      if cmPackets rts - m < (pacedSession sa da rts last m n).ctsMax then cmPackets rts - m
      else (pacedSession sa da rts last m n).ctsMax := by
    rw [← hleft]
    rfl
  rw [hwindow, hmax]
  split_ifs <;> omega

theorem ctsWindow_paced_bounds (sa da : UInt8) (last : ℤ) (n : ℕ) (hm : m < cmPackets rts) :
    1 ≤ ctsWindow (pacedSession sa da rts last m n) ∧
      m + ctsWindow (pacedSession sa da rts last m n) ≤ cmPackets rts ∧
      (rts 4 ≠ 0 → ctsWindow (pacedSession sa da rts last m n) ≤ (rts 4).toNat) := by
  rw [ctsWindow_paced hm]
  have hpos : rts 4 ≠ 0 → 1 ≤ (rts 4).toNat := by
    intro hne
    exact Nat.pos_of_ne_zero fun h => hne (UInt8.toNat_inj.mp h)
  split_ifs with hzero
  · refine ⟨by omega, by omega, fun hne => absurd hzero hne⟩
  · have hpos := hpos hzero
    exact ⟨by omega, by omega, fun _ => Nat.min_le_right _ _⟩

theorem ctsReply_paced :
    ctsReply (pacedSession sa da rts last m n) =
      grant sa rts (m + 1, ctsWindow (pacedSession sa da rts last m 0)) := by
  rfl

theorem paced_windowDone (sa da : UInt8) (rts : TpFrame) (last now : ℤ) (m : ℕ) :
    (pacedSession sa da rts last m 1).windowDone = true ∧
      (pacedSession sa da rts last m 1).afterPacket now =
        pacedSession sa da rts now (m + 1) (ctsWindow (pacedSession sa da rts now (m + 1) 0)) := by
  have hdone : (pacedSession sa da rts last m 1).windowDone = true := rfl
  refine ⟨hdone, ?_⟩
  rfl

theorem read_grant (p : TpPeer) (hk : k < 256) (hn : n < 256) :
    p.read (grant sa rts (k, n)) = ⟨p.due ++ List.range' k n, p.log ++ [grant sa rts (k, n)]⟩ := by
  have hcts : (grant sa rts (k, n)).data 0 = tpCtrlCts := rfl
  have hfrom : ((grant sa rts (k, n)).data 2).toNat = k := UInt8.toNat_ofNat_of_lt hk
  have hmany : ((grant sa rts (k, n)).data 1).toNat = n := UInt8.toNat_ofNat_of_lt hn
  rw [TpPeer.read, if_pos hcts, hfrom, hmany]

theorem read_acknowledge (p : TpPeer) :
    p.read (acknowledge sa rts) = ⟨p.due, p.log ++ [acknowledge sa rts]⟩ := by
  have hcts : tpCtrlEoma ≠ tpCtrlCts := by decide
  exact congrArg (fun due => (⟨due, _⟩ : TpPeer)) (if_neg hcts)

end Window

/-! ## The invariant -/

section Paced

variable {sa da : UInt8} {rts : TpFrame} {packet : ℕ → TpFrame}

/-- After `m` packets, the last of them at `last`: the session waits for the
next one, and the windows `ws` are the packets sent and those due. -/
structure Paced (sa da : UInt8) (rts : TpFrame) (m : ℕ) (last : ℤ) (ws : List (ℕ × ℕ))
    (x : J1939Tp × TpPeer) : Prop where
  inv : TpInv x.1
  taken : x.1.reply = []
  session : ∃ b, tpView x.1 sa da = some (pacedSession sa da rts last m x.2.due.length, b)
  due_pos : 0 < x.2.due.length
  due_le : m + x.2.due.length ≤ cmPackets rts
  due_eq : x.2.due = List.range' (m + 1) x.2.due.length
  log : x.2.log = ws.map (grant sa rts)
  packets : windowPackets ws = List.range' 1 m ++ x.2.due
  windows : ∀ w ∈ ws, 1 ≤ w.2 ∧ (rts 4 ≠ 0 → w.2 ≤ (rts 4).toNat)

/-- All packets were sent. -/
structure Acknowledged (sa : UInt8) (rts : TpFrame) (ws : List (ℕ × ℕ))
    (x : J1939Tp × TpPeer) : Prop where
  due : x.2.due = []
  log : x.2.log = ws.map (grant sa rts) ++ [acknowledge sa rts]
  packets : windowPackets ws = List.range' 1 (cmPackets rts)
  windows : ∀ w ∈ ws, 1 ≤ w.2 ∧ (rts 4 ≠ 0 → w.2 ≤ (rts 4).toNat)

theorem peerTurn_eq {x : J1939Tp × TpPeer} {turn : List TpCall × ℤ} {due : List ℕ}
    (hdue : x.2.due = k :: due)
    (htp : turn.1.foldl (fun tp call => (callTake tp call).1) x.1 = tp) :
    peerTurn sa da packet x turn = ({ (j1939TpDt tp sa da (packet k) 8 turn.2).1 with reply := [] },
        (j1939TpDt tp sa da (packet k) 8 turn.2).1.reply.foldl TpPeer.read ⟨due, x.2.log⟩) := by
  rw [peerTurn, hdue]
  dsimp only
  rw [htp, callTake_eq]
  rfl

theorem range'_succ_append :
    List.range' 1 m ++ List.range' (m + 1) (n + 1) =
      List.range' 1 (m + 1) ++ List.range' (m + 2) n := by
  have hsplit : List.range' 1 (m + 1) = List.range' 1 m ++ [m + 1] := by
    rw [range'_1_concat, Nat.add_comm]
  rw [hsplit, append_assoc]
  rfl

theorem Paced.turn {x : J1939Tp × TpPeer}
    {turn : List TpCall × ℤ} (h : Paced sa da rts m last ws x) (hmore : m + 1 < cmPackets rts)
    (hnum : (packet (m + 1) 0).toNat = m + 1)
    (hspare : ∀ call ∈ turn.1, call.touches sa da = false ∧
      ∀ now, call = .expire now → now - last ≤ tpTimeoutUs) :
    ∃ ws', Paced sa da rts (m + 1) turn.2 ws' (peerTurn sa da packet x turn) := by
  obtain ⟨b, hview⟩ := h.session
  obtain ⟨hinv, htaken, hview⟩ := others_spare turn.1 h.inv h.taken hview hspare
  obtain ⟨n, hn⟩ : ∃ n, x.2.due.length = n + 1 := ⟨x.2.due.length - 1, by have := h.due_pos; omega⟩
  have hdue : x.2.due = (m + 1) :: List.range' (m + 2) n := by
    rw [h.due_eq, hn, range'_succ]
  rw [hn] at hview
  generalize htp : turn.1.foldl (fun tp call => (callTake tp call).1) x.1 = tp at hinv htaken hview
  rw [peerTurn_eq hdue htp]
  obtain ⟨hseen, -, hreply⟩ := dt_more turn.2 hinv hview hnum hmore
  have hinv' : TpInv { (j1939TpDt tp sa da (packet (m + 1)) 8 turn.2).1 with reply := [] } :=
    (hinv.dt sa da _ 8 turn.2).congr rfl rfl rfl
  have hview' : tpView { (j1939TpDt tp sa da (packet (m + 1)) 8 turn.2).1 with reply := [] } sa da =
      tpView (j1939TpDt tp sa da (packet (m + 1)) 8 turn.2).1 sa da :=
    tpView_congr (fun _ => rfl) fun _ _ => ⟨rfl, rfl⟩
  have hpackets := h.packets
  rw [h.due_eq, hn, range'_succ_append] at hpackets
  have hle := h.due_le
  rw [hreply htaken]
  cases n with
  | zero =>
    -- the window is used up: the next one is granted
    obtain ⟨hdone, hafter⟩ := paced_windowDone sa da rts last turn.2 m
    obtain ⟨hpos, hin, hlimit⟩ := ctsWindow_paced_bounds sa da turn.2 0 hmore
    rw [if_pos hdone, hafter, ctsReply_paced]
    rw [hafter] at hseen
    generalize ctsWindow (pacedSession sa da rts turn.2 (m + 1) 0) = w at hseen hpos hin hlimit ⊢
    have hlt := cmPackets_lt rts
    rw [foldl_cons, foldl_nil, read_grant _ (by omega) (by omega)]
    rw [range'_zero, append_nil] at hpackets
    rw [range'_zero, nil_append]
    refine ⟨ws ++ [(m + 2, w)], hinv', rfl, ?_, ?_, ?_, ?_, ?_, ?_, ?_⟩
    · rw [length_range']
      exact ⟨_, hview'.trans hseen⟩
    · rw [length_range']
      exact hpos
    · rw [length_range']
      exact hin
    · rw [length_range']
    · rw [h.log, map_append, map_singleton]
    · rw [windowPackets, flatMap_append, ← windowPackets, hpackets, flatMap_singleton]
    · intro v hv
      rcases mem_append.mp hv with hv | hv
      · exact h.windows v hv
      · rw [mem_singleton.mp hv]
        exact ⟨hpos, hlimit⟩
  | succ n =>
    have hdone : ¬ (pacedSession sa da rts last m (n + 1 + 1)).windowDone = true := by
      simp [TpSession.windowDone, pacedSession]
    rw [if_neg hdone]
    refine ⟨ws, hinv', rfl, ?_, ?_, ?_, ?_, h.log, hpackets, h.windows⟩
    · rw [foldl_nil, length_range']
      exact ⟨_, hview'.trans hseen⟩
    · rw [foldl_nil, length_range']
      exact Nat.succ_pos n
    · rw [foldl_nil, length_range']
      omega
    · rw [foldl_nil, length_range']

theorem Paced.lastTurn {x : J1939Tp × TpPeer}
    {turn : List TpCall × ℤ} (h : Paced sa da rts m last ws x) (hlast : m + 1 = cmPackets rts)
    (hnum : (packet (m + 1) 0).toNat = m + 1)
    (hspare : ∀ call ∈ turn.1, call.touches sa da = false ∧
      ∀ now, call = .expire now → now - last ≤ tpTimeoutUs) :
    Acknowledged sa rts ws (peerTurn sa da packet x turn) := by
  obtain ⟨b, hview⟩ := h.session
  obtain ⟨hinv, htaken, hview⟩ := others_spare turn.1 h.inv h.taken hview hspare
  have hone : x.2.due.length = 1 := by
    have hle := h.due_le
    have hpos := h.due_pos
    omega
  have hdue : x.2.due = [m + 1] := by
    rw [h.due_eq, hone]
    rfl
  generalize htp : turn.1.foldl (fun tp call => (callTake tp call).1) x.1 = tp at hinv htaken hview
  rw [peerTurn_eq hdue htp]
  have hend : ¬ (pacedSession sa da rts last m x.2.due.length).next <
      (pacedSession sa da rts last m x.2.due.length).packets := by
    have hnext : (pacedSession sa da rts last m x.2.due.length).next = m + 1 := rfl
    have hpackets : (pacedSession sa da rts last m x.2.due.length).packets = cmPackets rts := rfl
    omega
  obtain ⟨-, -, hreply⟩ := dt_last turn.2 hinv hview hnum hend
  have hack : eomaReply (pacedSession sa da rts last m x.2.due.length) = acknowledge sa rts := rfl
  have hmine : (pacedSession sa da rts last m x.2.due.length).mine = true := rfl
  rw [hreply htaken, if_pos hmine, hack, foldl_cons, foldl_nil, read_acknowledge]
  refine ⟨rfl, ?_, ?_, h.windows⟩
  · rw [h.log]
  · rw [h.packets, hdue, ← hlast, range'_1_concat, Nat.add_comm]

theorem paced_start (now : ℤ) (hinv : TpInv tp) (hreply : tp.reply = [])
    (hmine : forMe tp da = true) (hall : da ≠ j1939AddrAll) (hctrl : rts 0 = tpCtrlRts)
    (hmin : tpMinBytes ≤ cmSize rts) (hmax : cmSize rts ≤ j1939MsgMax)
    (hpackets : cmPackets rts = (cmSize rts + tpPacketBytes - 1) / tpPacketBytes)
    (hroom : sessionFind tp sa da ≠ none ∨ sessionFree tp ≠ none) :
    ∃ ws, Paced sa da rts 0 now ws ((callTake tp (.cm sa da rts 8 now)).1,
      (callTake tp (.cm sa da rts 8 now)).2.foldl TpPeer.read ⟨[], []⟩) := by
  have hann : j1939TpCm tp sa da rts 8 now = announce tp sa da rts now := by
    have hbam : rts 0 ≠ tpCtrlBam := by
      rw [hctrl]
      decide
    rw [j1939TpCm]
    rw [if_neg (by simp), if_neg hbam, if_pos hctrl, if_neg hall]
  have hmine' : (rts 0 == tpCtrlRts && forMe tp da) = true := by
    rw [hctrl, hmine]
    rfl
  have hpos : 0 < cmPackets rts := by
    rw [hpackets]
    simp only [tpMinBytes, tpPacketBytes] at hmin ⊢
    omega
  obtain ⟨i, st, hstart⟩ := announce_eq sa da now hmin hmax hpackets hroom
  have hnew : announced true sa da rts now = pacedSession sa da rts now 0 0 := rfl
  rw [hmine', hnew] at hstart
  have hinv' : TpInv (announce tp sa da rts now) := hinv.announce sa da rts now
  obtain ⟨hs, hrep⟩ := startSession_mine { tp with stats := st } i
    (s := pacedSession sa da rts now 0 0) rfl
  rw [← hstart] at hs hrep
  rw [callTake_eq, tpCall, hann]
  generalize announce tp sa da rts now = tp' at hinv' hs hrep
  rw [hrep hreply, ctsReply_paced]
  obtain ⟨hone, hin, hlimit⟩ := ctsWindow_paced_bounds sa da now 0 hpos
  generalize ctsWindow (pacedSession sa da rts now 0 0) = w at hs hone hin hlimit ⊢
  have hlt := cmPackets_lt rts
  rw [Nat.zero_add] at hin
  rw [foldl_cons, foldl_nil, read_grant _ (by omega) (by omega), nil_append]
  have hself : tp'.s i = pacedSession sa da rts now 0 w := by
    rw [hs, Function.update_self]
    rfl
  have hview := tpView_of_slot hinv' hself (isOf_iff.mpr ⟨rfl, rfl, rfl⟩)
  refine ⟨[(1, w)], hinv'.congr rfl rfl rfl, rfl, ?_, ?_, ?_, ?_, rfl, ?_, ?_⟩
  · rw [length_range']
    exact ⟨_, (tpView_congr (fun _ => rfl) fun _ _ => ⟨rfl, rfl⟩).trans hview⟩
  · rw [length_range']
    exact hone
  · rw [length_range', Nat.zero_add]
    exact hin
  · rw [length_range']
  · rw [windowPackets, flatMap_singleton, range'_zero, nil_append]
  · intro v hv
    rw [mem_singleton.mp hv]
    exact ⟨hone, hlimit⟩

theorem Paced.turns {turns : List (List TpCall × ℤ)} :
    ∀ {m : ℕ} {last : ℤ} {ws : List (ℕ × ℕ)} {x : J1939Tp × TpPeer},
      Paced sa da rts m last ws x → m + turns.length ≤ cmPackets rts →
      (∀ k, 1 ≤ k → k ≤ cmPackets rts → (packet k 0).toNat = k) → Spares sa da last turns →
      ∃ ws', m + turns.length < cmPackets rts ∧
          (∃ last', Paced sa da rts (m + turns.length) last' ws'
            (turns.foldl (peerTurn sa da packet) x)) ∨
        m + turns.length = cmPackets rts ∧
          Acknowledged sa rts ws' (turns.foldl (peerTurn sa da packet) x) := by
  induction turns with
  | nil =>
    intro m last ws x h hle _ _
    have hpos := h.due_pos
    have hin := h.due_le
    exact ⟨ws, .inl ⟨by rw [length_nil]; omega, last, h⟩⟩
  | cons turn turns ih =>
    intro m last ws x h hle hnum hspare
    obtain ⟨hothers, hspare⟩ := hspare
    rw [length_cons] at hle ⊢
    have hdue := hnum (m + 1) (by omega) (by omega)
    by_cases hmore : m + 1 < cmPackets rts
    · obtain ⟨ws', h'⟩ := h.turn hmore hdue hothers
      have hadd : m + (turns.length + 1) = m + 1 + turns.length := by omega
      rw [hadd] at hle ⊢
      exact ih h' hle hnum hspare
    · have hnil : turns = [] := length_eq_zero_iff.mp (by omega)
      subst hnil
      exact ⟨ws, .inr ⟨by rw [length_nil]; omega, h.lastTurn (by omega) hdue hothers⟩⟩

end Paced

/-- **Pacing a sender.** A request to send for this node, of 9 to 1785 bytes,
with any limit, finds a session or a free slot; the peer takes every reply and
sends the packets it is granted, with calls in between that leave its session
alone. Then the windows granted are, at every moment, the packets sent and those
due, in order; each has a packet, and no more than the limit where there is one
(0 is none); and when the last packet was sent, and not before, the
acknowledge follows, with the size and the packets of the message. -/
theorem j1939Tp_paces (tp₀ : J1939Tp) (before : List TpCall) (tp : J1939Tp) (sa da : UInt8)
    (rts : TpFrame) (packet : ℕ → TpFrame) (now : ℤ) (turns : List (List TpCall × ℤ))
    (htp : tp = tpRun (j1939TpInit tp₀) before) (hreply : tp.reply = []) (hda : tp.mySa = da)
    (hnone : da ≠ j1939AddrNone) (hall : da ≠ j1939AddrAll)
    (hroom : sessionFind tp sa da ≠ none ∨ sessionFree tp ≠ none) (hctrl : rts 0 = tpCtrlRts)
    (hmin : 9 ≤ cmSize rts) (hmax : cmSize rts ≤ 1785)
    (hpackets : cmPackets rts = (cmSize rts + 6) / 7)
    (hnum : ∀ k, 1 ≤ k → k ≤ cmPackets rts → (packet k 0).toNat = k)
    (hspare : Spares sa da now turns) (hturns : turns.length ≤ cmPackets rts) :
    ∃ windows, ∃ peer, peer = (peerRun tp sa da rts packet now turns).2 ∧
      peer.log = windows.map (grant sa rts) ++
        (if turns.length = cmPackets rts then [acknowledge sa rts] else []) ∧
      windowPackets windows = List.range' 1 turns.length ++ peer.due ∧
      (turns.length = cmPackets rts → peer.due = []) ∧
      ∀ w ∈ windows, 1 ≤ w.2 ∧ (rts 4 ≠ 0 → w.2 ≤ (rts 4).toNat) := by
  have hinv : TpInv tp := by
    rw [htp]
    exact (tpInv_init tp₀).run before
  have hmine : forMe tp da = true := by
    rw [forMe, hda]
    simp [hnone]
  obtain ⟨ws, hstart⟩ := paced_start now hinv hreply hmine hall hctrl hmin hmax hpackets hroom
  have hrun : peerRun tp sa da rts packet now turns = turns.foldl (peerTurn sa da packet)
      ((callTake tp (.cm sa da rts 8 now)).1,
        (callTake tp (.cm sa da rts 8 now)).2.foldl TpPeer.read ⟨[], []⟩) := rfl
  rw [hrun]
  obtain ⟨ws', ⟨hlt, last, h⟩ | ⟨heq, h⟩⟩ := hstart.turns (by omega) hnum hspare
  · rw [Nat.zero_add] at hlt h
    refine ⟨ws', _, rfl, ?_, h.packets, fun heq => absurd heq hlt.ne, h.windows⟩
    rw [if_neg hlt.ne, append_nil, h.log]
  · rw [Nat.zero_add] at heq
    refine ⟨ws', _, rfl, ?_, ?_, fun _ => h.due, h.windows⟩
    · rw [if_pos heq, h.log]
    · rw [h.packets, h.due, append_nil, heq]

/-- A receiver fresh from `j1939_tp_init`, which holds the address 5. -/
def tpAtFive : J1939Tp :=
  tpRun (j1939TpInit ⟨fun _ => .zero, fun _ _ => 0, .zero, 0, []⟩) [.setAddress 5]

/-- A request of node 7 for 9 bytes in two packets, one at a time. -/
theorem j1939Tp_paces_two :
    ∃ windows, ∃ peer, peer = (peerRun tpAtFive 7 5 ![16, 9, 0, 2, 1, 0, 0xEF, 0]
        (fun k _ => UInt8.ofNat k) 0 [([], 100), ([.expire 200], 300)]).2 ∧
      peer.log = windows.map (grant 7 ![16, 9, 0, 2, 1, 0, 0xEF, 0]) ++
        [acknowledge 7 ![16, 9, 0, 2, 1, 0, 0xEF, 0]] ∧
      windowPackets windows = [1, 2] ++ peer.due ∧ peer.due = [] ∧
      ∀ w ∈ windows, 1 ≤ w.2 ∧ w.2 ≤ 1 := by
  obtain ⟨windows, peer, hpeer, hlog, hpackets, hdue, hwindows⟩ := j1939Tp_paces
    ⟨fun _ => .zero, fun _ _ => 0, .zero, 0, []⟩ [.setAddress 5] tpAtFive 7 5
    ![16, 9, 0, 2, 1, 0, 0xEF, 0] (fun k _ => UInt8.ofNat k) 0 [([], 100), ([.expire 200], 300)]
    rfl rfl rfl (by decide) (by decide) (.inr (by decide)) rfl (by decide) (by decide) (by decide)
    (fun k _ hk => UInt8.toNat_ofNat_of_lt (hk.trans_lt (by decide)))
    ⟨by simp, by simp [TpCall.touches, tpTimeoutUs], trivial⟩ (by decide)
  refine ⟨windows, peer, hpeer, hlog, hpackets, hdue rfl, fun w hw => ?_⟩
  exact ⟨(hwindows w hw).1, (hwindows w hw).2 (by decide)⟩

/-- **A limit of zero is none**: to a request whose limit is 0 this node grants
two packets at once. -/
theorem j1939Tp_exceeds_zero :
    cmSize ![16, 9, 0, 2, 0, 0, 0xEF, 0] = 9 ∧ cmPackets ![16, 9, 0, 2, 0, 0, 0xEF, 0] = 2 ∧
      ∃ r, (peerRun tpAtFive 7 5 ![16, 9, 0, 2, 0, 0, 0xEF, 0]
          (fun k _ => UInt8.ofNat k) 0 []).2.log = [r] ∧
        r.data 0 = tpCtrlCts ∧
        ((![16, 9, 0, 2, 0, 0, 0xEF, 0] : TpFrame) 4).toNat < (r.data 1).toNat :=
  ⟨rfl, rfl, _, rfl, rfl, by decide⟩

end Meatpi
