import Mathlib.Data.Fintype.EquivFin
import Meatpi.Library.Run
import Meatpi.J1939.TpView

/-!
# Messages of several senders

At most eight senders with a pair of addresses each send a message: by BAM, or
with a request to send and the receiver's clear-to-send, which may go back.
Their frames come in any interleaving (`BusStep`). The receiver's session of a
sender follows the sender (`Follows`), since the others' frames do not touch
it, and a sender that starts finds a slot, since the open ones belong to the
others (`StreamInv`).
-/

namespace Meatpi

open Bool Function List Option

variable {da sa : UInt8} {off : ℕ} {x : ℕ} {last : ℤ}

/-! ## Senders -/

/-- A message to send: to all by BAM, to one by a connection. -/
structure TpSender where
  sa : UInt8
  da : UInt8
  pgn : ℕ
  data : List UInt8
  size_ge : 9 ≤ data.length
  size_le : data.length ≤ 1785

namespace TpSender

variable (m : TpSender)

def bam : Bool := m.da == j1939AddrAll

def packets : ℕ := (m.data.length + 6) / 7

/-- What the receiver hands out. -/
def message : TpMsg := ⟨m.pgn, m.sa, m.da, m.data⟩

/-- The frame that announces the message. -/
def Announces (d : TpFrame) : Prop :=
  d 0 = (if m.bam then tpCtrlBam else tpCtrlRts) ∧ cmSize d = m.data.length ∧
    cmPackets d = m.packets ∧ cmPgn d = m.pgn

/-- The frame of the `k`-th packet; the bytes after the message are filled. -/
def Carries (k : ℕ) (d : TpFrame) : Prop :=
  (d 0).toNat = k ∧ ∀ (j : Fin 7) (b : UInt8), m.data[(k - 1) * 7 + j]? = some b → d j.succ = b

end TpSender

/-- Where a sender is: the next packet, and the time of its last frame. -/
inductive TpProgress where
  | idle
  | sending (next : ℕ) (last : ℤ)
  | finished

def TpProgress.isFinished : TpProgress → Bool
  | .finished => true
  | _ => false

/-- A frame of a sender or of its receiver. -/
inductive TpSender.Step (m : TpSender) : TpProgress → TpCall → TpProgress → Prop
  | announce {d : TpFrame} {now : ℤ} :
      m.Announces d → m.Step .idle (.cm m.sa m.da d 8 now) (.sending 1 now)
  | packet {k : ℕ} {last now : ℤ} {d : TpFrame} :
      k < m.packets → m.Carries k d →
      m.Step (.sending k last) (.dt m.sa m.da d 8 now) (.sending (k + 1) now)
  | lastPacket {last now : ℤ} {d : TpFrame} :
      m.Carries m.packets d →
      m.Step (.sending m.packets last) (.dt m.sa m.da d 8 now) .finished
  /-- clear to send, from a packet that is due or was sent -/
  | clear {k : ℕ} {last now : ℤ} {d : TpFrame} :
      m.bam = false → d 0 = tpCtrlCts → cmPgn d = m.pgn → d 1 ≠ 0 → 1 ≤ (d 2).toNat →
      (d 2).toNat ≤ k →
      m.Step (.sending k last) (.cm m.da m.sa d 8 now) (.sending (d 2).toNat now)
  /-- the receiver asks the sender to wait -/
  | hold {k : ℕ} {last now : ℤ} {d : TpFrame} :
      m.bam = false → d 0 = tpCtrlCts → cmPgn d = m.pgn → d 1 = 0 →
      m.Step (.sending k last) (.cm m.da m.sa d 8 now) (.sending k now)
  /-- the receiver asks again for packets of a message that was sent -/
  | lateClear {now : ℤ} {d : TpFrame} :
      m.bam = false → d 0 = tpCtrlCts → m.Step .finished (.cm m.da m.sa d 8 now) .finished
  | latePacket {now : ℤ} {d : TpFrame} :
      m.bam = false → m.Step .finished (.dt m.sa m.da d 8 now) .finished
  /-- the receiver has the message -/
  | acknowledge {now : ℤ} {d : TpFrame} :
      m.bam = false → d 0 = tpCtrlEoma → m.Step .finished (.cm m.da m.sa d 8 now) .finished

/-- A call, with all senders: a frame of one of them, an expiry that finds none
of them quiet for too long, or one of the calls that are not about frames. -/
inductive BusStep {n : ℕ} (senders : Fin n → TpSender) :
    (Fin n → TpProgress) → TpCall → (Fin n → TpProgress) → Prop
  | frame {pos : Fin n → TpProgress} {call : TpCall} {p : TpProgress} (i : Fin n) :
      (senders i).Step (pos i) call p → BusStep senders pos call (update pos i p)
  | expire {pos : Fin n → TpProgress} {now : ℤ} :
      (∀ i k last, pos i = .sending k last → now - last ≤ tpTimeoutUs) →
      BusStep senders pos (.expire now) pos
  | setAddress {pos : Fin n → TpProgress} (mySa : UInt8) :
      BusStep senders pos (.setAddress mySa) pos
  | replyTake {pos : Fin n → TpProgress} : BusStep senders pos .replyTake pos

/-- The messages of the senders that have finished. -/
def finishedMessages {n : ℕ} (senders : Fin n → TpSender) (pos : Fin n → TpProgress) : List TpMsg :=
  ((List.finRange n).filter fun i => (pos i).isFinished).map fun i => (senders i).message

/-! ## A sender and its session -/

/-- The receiver's session of a sender that is at `p`. -/
def Follows (m : TpSender) (v : Option (TpSession × (ℕ → UInt8))) : TpProgress → Prop
  | .idle => v = none
  | .finished => v = none
  | .sending k last => ∃ s b, v = some (s, b) ∧ s.next = k ∧ s.packets = m.packets ∧
      s.size = m.data.length ∧ s.pgn = m.pgn ∧ s.lastUs = last ∧
      ∀ x < (k - 1) * 7, m.data[x]? = some (b x)

section Sender

variable {m : TpSender} {tp : J1939Tp} {s : TpSession} {b : ℕ → UInt8} {d : TpFrame} {k : ℕ}
  {now : ℤ}

theorem copyPacket_before {n : ℕ} (h : x < off) : copyPacket b off n d x = b x :=
  if_neg fun hin => absurd hin.1 (not_le.mpr h)

theorem copyPacket_inside {n : ℕ} (h : off ≤ x) (h' : x < off + n) :
    copyPacket b off n d x = d (Fin.ofNat 8 (1 + (x - off))) :=
  if_pos ⟨h, h'⟩

theorem copyPacket_data (hs : s.Sound) (hnext : s.next = k) (hsize : s.size = m.data.length)
    (hcarries : m.Carries k d) (hb : ∀ x < (k - 1) * 7, m.data[x]? = some (b x)) (hx : x < k * 7)
    (hlt : x < m.data.length) : m.data[x]? = some (copyPacket b (dtCopy s).1 (dtCopy s).2 d x) := by
  have hoff : (dtCopy s).1 = (k - 1) * 7 := by rw [hs.dtCopy_eq, hnext, tpPacketBytes]
  have hmany : (dtCopy s).2 = min 7 (m.data.length - (k - 1) * 7) := by
    rw [hs.dtCopy_eq, hnext, hsize, tpPacketBytes]
  rw [hoff]
  by_cases hold : x < (k - 1) * 7
  · rw [copyPacket_before hold]
    exact hb x hold
  · have hj : x - (k - 1) * 7 < 7 := by omega
    rw [copyPacket_inside (by omega) (by omega)]
    obtain ⟨y, hy⟩ : ∃ y, m.data[x]? = some y := ⟨_, List.getElem?_eq_getElem hlt⟩
    have hplace : (k - 1) * 7 + (x - (k - 1) * 7) = x := by omega
    have hbyte := hcarries.2 ⟨x - (k - 1) * 7, hj⟩ y (by rw [hplace]; exact hy)
    have hidx : (Fin.ofNat 8 (1 + (x - (k - 1) * 7)) : Fin 8) = Fin.succ ⟨x - (k - 1) * 7, hj⟩ := by
      apply Fin.ext
      simp only [Fin.val_ofNat, Fin.val_succ]
      omega
    rw [hidx, hbyte, hy]

theorem TpSender.Step.touches {p p' : TpProgress} {call : TpCall} (h : m.Step p call p')
    (hne : ¬ (m.sa = sa ∧ m.da = da)) : call.touches sa da = false := by
  have hfalse : (m.sa == sa && m.da == da) = false := by
    rw [eq_false_iff]
    intro htrue
    rw [and_eq_true, beq_iff_eq, beq_iff_eq] at htrue
    exact hne htrue
  have hcts : ∀ {d : TpFrame} {now : ℤ}, d 0 = tpCtrlCts ∨ d 0 = tpCtrlEoma →
      (TpCall.cm m.da m.sa d 8 now).touches sa da = false := by
    intro d now hd
    have hstart : ¬ (d 0 = tpCtrlBam ∨ d 0 = tpCtrlRts) := by
      rcases hd with hd | hd <;> rw [hd] <;> decide
    rw [TpCall.touches, if_neg hstart, if_pos hd]
    exact hfalse
  cases h with
  | announce hd =>
    refine (if_pos ?_).trans hfalse
    rw [hd.1]
    split_ifs
    · exact .inl rfl
    · exact .inr rfl
  | packet _ _ => exact hfalse
  | lastPacket _ => exact hfalse
  | clear _ hd => exact hcts (.inl hd)
  | hold _ hd => exact hcts (.inl hd)
  | lateClear _ hd => exact hcts (.inl hd)
  | latePacket _ => exact hfalse
  | acknowledge _ hd => exact hcts (.inr hd)

theorem TpSender.Step.not_expire {p p' : TpProgress} {call : TpCall} (h : m.Step p call p')
    (now : ℤ) : call ≠ .expire now := by
  rintro rfl
  cases h

theorem TpSender.Step.isFinished {p p' : TpProgress} {call : TpCall} (h : m.Step p call p')
    (hp : p.isFinished = true) : p'.isFinished = true := by
  cases h with
  | announce _ => cases hp
  | packet _ _ => cases hp
  | clear _ _ _ _ _ _ => cases hp
  | hold _ _ _ _ => cases hp
  | lastPacket _ => rfl
  | lateClear _ _ => rfl
  | latePacket _ => rfl
  | acknowledge _ _ => rfl

theorem follows_announce (h : TpInv tp) (hfree : sessionFree tp ≠ none) (hd : m.Announces d) :
    Follows m (tpView (j1939TpCm tp m.sa m.da d 8 now) m.sa m.da) (.sending 1 now) := by
  obtain ⟨hctrl, hsize, hpackets, hpgn⟩ := hd
  have hann : j1939TpCm tp m.sa m.da d 8 now = announce tp m.sa m.da d now := by
    rw [j1939TpCm]
    rw [hctrl, TpSender.bam]
    by_cases hall : m.da = j1939AddrAll
    · simp [hall]
    · have hrts : tpCtrlRts ≠ tpCtrlBam := by decide
      simp [hall, hrts]
  have hsound := m.size_le
  have hmin := m.size_ge
  obtain ⟨i, st, hstart⟩ := announce_eq m.sa m.da (d := d) now
    (by rw [hsize]; exact hmin) (by rw [hsize]; exact hsound)
    (by rw [hpackets, hsize]; rfl) (.inr hfree)
  have hinv := h.announce m.sa m.da d now
  rw [hann]
  rw [hstart] at hinv ⊢
  obtain ⟨n, hview⟩ := startSession_view hinv rfl
  refine ⟨_, _, hview, rfl, hpackets, hsize, hpgn, rfl, ?_⟩
  intro x hx
  omega

theorem follows_cts (now : ℤ) (h : TpInv tp) (hbam : d 0 = tpCtrlCts) (hpgn : cmPgn d = m.pgn)
    (hback : d 1 ≠ 0 → 1 ≤ (d 2).toNat ∧ (d 2).toNat ≤ k)
    (hf : Follows m (tpView tp m.sa m.da) (.sending k last)) :
    Follows m (tpView (j1939TpCm tp m.da m.sa d 8 now) m.sa m.da)
      (.sending (if d 1 = 0 then k else (d 2).toNat) now) := by
  obtain ⟨s, b, hview, hnext, hpackets, hsize, hspgn, hlast, hb⟩ := hf
  obtain ⟨i, hfind, rfl, rfl⟩ := tpView_eq_some.mp hview
  have hcts : j1939TpCm tp m.da m.sa d 8 now = cmCts tp i d now := by
    have hne : tpCtrlCts ≠ tpCtrlBam ∧ tpCtrlCts ≠ tpCtrlRts := by decide
    rw [j1939TpCm]
    rw [if_neg (by simp), hbam, if_neg hne.1, if_neg hne.2, if_pos rfl, hfind]
    dsimp only
    rw [if_neg (by rw [hspgn, hpgn]; simp)]
  have hinv := h.cm m.da m.sa d 8 now
  rw [hcts] at hinv ⊢
  obtain ⟨hopen, hof⟩ := sessionFind_some hfind
  by_cases hhold : d 1 = 0
  · have hs : (cmCts tp i d now).s i = { tp.s i with lastUs := now } := by
      rw [cmCts]
      rw [if_pos hhold, setSession_self]
    have hbuf : (cmCts tp i d now).buf = tp.buf := by
      rw [cmCts]
      rw [if_pos hhold, setSession_buf]
    rw [if_pos hhold, tpView_of_slot hinv hs (isOf_iff.mpr ⟨hopen, hof⟩), hbuf]
    exact ⟨_, _, rfl, hnext, hpackets, hsize, hspgn, rfl, hb⟩
  · obtain ⟨hone, hle⟩ := hback hhold
    have hcond : 1 ≤ (d 2).toNat ∧ (d 2).toNat ≤ (tp.s i).next := ⟨hone, by rw [hnext]; exact hle⟩
    have hs : (cmCts tp i d now).s i = { tp.s i with lastUs := now, next := (d 2).toNat } := by
      rw [cmCts]
      rw [if_neg hhold, setSession_self, if_pos hcond, setSession_self]
    have hbuf : (cmCts tp i d now).buf = tp.buf := by
      rw [cmCts]
      rw [if_neg hhold, setSession_self, if_pos hcond, setSession_buf, setSession_buf]
    rw [if_neg hhold, tpView_of_slot hinv hs (isOf_iff.mpr ⟨hopen, hof⟩), hbuf]
    refine ⟨_, _, rfl, rfl, hpackets, hsize, hspgn, rfl, fun x hx => hb x ?_⟩
    have hmul : ((d 2).toNat - 1) * 7 ≤ (k - 1) * 7 := Nat.mul_le_mul_right 7 (by omega)
    exact hx.trans_le hmul

theorem afterPacket_next (s : TpSession) (now : ℤ) :
    (s.afterPacket now).next = s.next + 1 ∧ (s.afterPacket now).packets = s.packets ∧
      (s.afterPacket now).size = s.size ∧ (s.afterPacket now).pgn = s.pgn ∧
      (s.afterPacket now).lastUs = now := by
  rw [TpSession.afterPacket]
  split_ifs <;> exact ⟨rfl, rfl, rfl, rfl, rfl⟩

theorem tpView_sound (h : TpInv tp) (hview : tpView tp sa da = some (s, b)) : s.Sound := by
  obtain ⟨i, hfind, rfl, -⟩ := tpView_eq_some.mp hview
  exact h.sound i (sessionFind_some hfind).1

theorem follows_packet (h : TpInv tp) (hmore : k < m.packets) (hd : m.Carries k d)
    (hf : Follows m (tpView tp m.sa m.da) (.sending k last)) :
    Follows m (tpView (j1939TpDt tp m.sa m.da d 8 now).1 m.sa m.da) (.sending (k + 1) now) ∧
      (j1939TpDt tp m.sa m.da d 8 now).2 = none := by
  obtain ⟨s, b, hview, hnext, hpackets, hsize, hpgn, hlast, hb⟩ := hf
  have hsound := tpView_sound h hview
  obtain ⟨hview', hout, -⟩ := dt_more now h hview (by rw [hnext]; exact hd.1)
    (by rw [hnext, hpackets]; exact hmore)
  obtain ⟨hnext', hpackets', hsize', hpgn', hlast'⟩ := afterPacket_next s now
  refine ⟨⟨_, _, hview', hnext'.trans (by rw [hnext]), hpackets'.trans hpackets,
    hsize'.trans hsize, hpgn'.trans hpgn, hlast', fun x hx => ?_⟩, hout⟩
  apply copyPacket_data hsound hnext hsize hd hb hx
  -- only the last packet reaches the end
  rw [TpSender.packets] at hmore
  omega

theorem follows_lastPacket (h : TpInv tp) (hd : m.Carries m.packets d)
    (hf : Follows m (tpView tp m.sa m.da) (.sending m.packets last)) :
    Follows m (tpView (j1939TpDt tp m.sa m.da d 8 now).1 m.sa m.da) .finished ∧
      (j1939TpDt tp m.sa m.da d 8 now).2 = some m.message := by
  obtain ⟨s, b, hview, hnext, hpackets, hsize, hpgn, hlast, hb⟩ := hf
  have hsound := tpView_sound h hview
  obtain ⟨hview', hout, -⟩ := dt_last now h hview (by rw [hnext]; exact hd.1)
    (by rw [hnext, hpackets]; exact lt_irrefl _)
  refine ⟨hview', hout.trans ?_⟩
  have hdata : (List.range s.size).map (copyPacket b (dtCopy s).1 (dtCopy s).2 d) = m.data := by
    apply ext_getElem?
    intro x
    rw [hsize, List.getElem?_map]
    by_cases hx : x < m.data.length
    · have hcopy := copyPacket_data hsound hnext hsize hd hb (x := x) (by
        rw [TpSender.packets]
        omega) hx
      rw [List.getElem?_range hx, map_some, hcopy]
    · rw [List.getElem?_eq_none (by rw [length_range]; omega),
        List.getElem?_eq_none (by omega), map_none]
  rw [hdata, hpgn, TpSender.message]

theorem follows_late (hview : tpView tp m.sa m.da = none) :
    (d 0 = tpCtrlCts ∨ d 0 = tpCtrlEoma → j1939TpCm tp m.da m.sa d 8 now = tp) ∧
      tpView (j1939TpDt tp m.sa m.da d 8 now).1 m.sa m.da = none ∧
      (j1939TpDt tp m.sa m.da d 8 now).2 = none := by
  have hfind := tpView_eq_none.mp hview
  have hdt : j1939TpDt tp m.sa m.da d 8 now =
      ({ tp with stats := { tp.stats with orphanDt := tp.stats.orphanDt + 1 } }, none) := by
    rw [j1939TpDt, hfind]
  refine ⟨?_, ?_, by rw [hdt]⟩
  · intro hd
    rw [j1939TpCm]
    rw [if_neg (by simp)]
    rcases hd with hd | hd
    · have hne : tpCtrlCts ≠ tpCtrlBam ∧ tpCtrlCts ≠ tpCtrlRts := by decide
      rw [hd, if_neg hne.1, if_neg hne.2, if_pos rfl, hfind]
    · have hne : tpCtrlEoma ≠ tpCtrlBam ∧ tpCtrlEoma ≠ tpCtrlRts ∧ tpCtrlEoma ≠ tpCtrlCts := by
        decide
      rw [hd, if_neg hne.1, if_neg hne.2.1, if_neg hne.2.2, if_pos rfl, hfind]
  · rw [hdt, ← hview]
    exact tpView_congr (fun _ => rfl) fun _ _ => ⟨rfl, rfl⟩

/-- **A sender's frame**: its session follows it, and the message comes out
with the last packet. -/
theorem TpSender.Step.follows {p p' : TpProgress} {call : TpCall} (hstep : m.Step p call p')
    (h : TpInv tp) (hroom : p = .idle → sessionFree tp ≠ none)
    (hf : Follows m (tpView tp m.sa m.da) p) :
    Follows m (tpView (tpCall tp call).1 m.sa m.da) p' ∧
      (tpCall tp call).2 = if p'.isFinished && !p.isFinished then some m.message else none := by
  cases hstep with
  | announce hd => exact ⟨follows_announce h (hroom rfl) hd, rfl⟩
  | packet hmore hd => exact follows_packet h hmore hd hf
  | lastPacket hd => exact follows_lastPacket h hd hf
  | @clear _ _ now _ hbam hd hpgn hgo hone hle =>
    have hcts := follows_cts now h hd hpgn (fun _ => ⟨hone, hle⟩) hf
    rw [if_neg hgo] at hcts
    exact ⟨hcts, rfl⟩
  | @hold _ _ now _ hbam hd hpgn hwait =>
    have hcts := follows_cts now h hd hpgn (fun hgo => absurd hwait hgo) hf
    rw [if_pos hwait] at hcts
    exact ⟨hcts, rfl⟩
  | lateClear hbam hd =>
    refine ⟨?_, rfl⟩
    rw [tpCall, (follows_late hf).1 (.inl hd)]
    exact hf
  | latePacket hbam => exact (follows_late hf).2
  | acknowledge hbam hd =>
    refine ⟨?_, rfl⟩
    rw [tpCall, (follows_late hf).1 (.inr hd)]
    exact hf

end Sender

/-! ## All senders -/

section Bus

variable {n : ℕ} {senders : Fin n → TpSender} {tp : J1939Tp} {pos pos' : Fin n → TpProgress}
  {call : TpCall} {out : List TpMsg}

/-- The receiver while the senders are at `pos`, with the messages so far. -/
structure StreamInv (senders : Fin n → TpSender) (tp : J1939Tp) (pos : Fin n → TpProgress)
    (out : List TpMsg) : Prop where
  inv : TpInv tp
  follows : ∀ i, Follows (senders i) (tpView tp (senders i).sa (senders i).da) (pos i)
  nobody : ∀ sa da, (∀ i, ¬ ((senders i).sa = sa ∧ (senders i).da = da)) → tpView tp sa da = none
  out : out.Perm (finishedMessages senders pos)

theorem StreamInv.sending (h : StreamInv senders tp pos out) {j : Fin tpSessions}
    (hj : (tp.s j).isOpen = true) :
    ∃ i, (senders i).sa = (tp.s j).sa ∧ (senders i).da = (tp.s j).da ∧
      ∃ k last, pos i = .sending k last := by
  have hview : tpView tp (tp.s j).sa (tp.s j).da = some (tp.s j, tp.buf j) :=
    tpView_of_isOf h.inv (isOf_iff.mpr ⟨hj, rfl, rfl⟩)
  by_contra hnone
  push Not at hnone
  by_cases hpair : ∃ i, (senders i).sa = (tp.s j).sa ∧ (senders i).da = (tp.s j).da
  · obtain ⟨i, hsa, hda⟩ := hpair
    have hf := h.follows i
    rw [hsa, hda, hview] at hf
    rcases hp : pos i with _ | ⟨k, last⟩ | _
    · rw [hp] at hf
      cases hf
    · exact hnone i hsa hda k last hp
    · rw [hp] at hf
      cases hf
  · rw [h.nobody _ _ fun i hi => hpair ⟨i, hi⟩] at hview
    cases hview

/-- **Room.** With at most as many senders as slots, one that has not started
finds a free slot. -/
theorem StreamInv.room (h : StreamInv senders tp pos out) (hn : n ≤ tpSessions) {i : Fin n}
    (hi : pos i = .idle) : sessionFree tp ≠ none := by
  intro hfull
  have hopen : ∀ j, (tp.s j).isOpen = true := by
    intro j
    have hj := List.find?_eq_none.mp hfull j (mem_finRange j)
    simpa using hj
  choose f hsa hda hsending using fun j => h.sending (hopen j)
  have hne : ∀ j, i ≠ f j := by
    rintro j rfl
    obtain ⟨k, last, hk⟩ := hsending j
    rw [hi] at hk
    cases hk
  have hinj : Function.Injective f := by
    intro j j' hjj
    apply h.inv.unique j j' (hopen j) (hopen j')
    · rw [← hsa j, ← hsa j', hjj]
    · rw [← hda j, ← hda j', hjj]
  have hcons : Function.Injective (Fin.cons i f : Fin (tpSessions + 1) → Fin n) := by
    rw [Fin.cons_injective_iff]
    exact ⟨fun ⟨j, hj⟩ => hne j hj.symm, hinj⟩
  have hcard := Fintype.card_le_of_injective _ hcons
  rw [Fintype.card_fin, Fintype.card_fin] at hcard
  omega

theorem finishedMessages_update {i : Fin n} {p : TpProgress}
    (h : out.Perm (finishedMessages senders pos))
    (hstays : (pos i).isFinished = true → p.isFinished = true) :
    (out ++ (if p.isFinished && !(pos i).isFinished then some (senders i).message
      else none).toList).Perm (finishedMessages senders (update pos i p)) := by
  have hother : ∀ j, j ≠ i → (update pos i p j).isFinished = (pos j).isFinished :=
    fun j hj => by rw [update_of_ne hj]
  by_cases hnew : (p.isFinished && !(pos i).isFinished) = true
  · rw [if_pos hnew]
    rw [and_eq_true, not_eq_true'] at hnew
    have hself : (update pos i p i).isFinished = true := by
      rw [update_self]
      exact hnew.1
    have hfilter : ((List.finRange n).filter fun j => (update pos i p j).isFinished).Perm
        (i :: (List.finRange n).filter fun j => (pos j).isFinished) :=
      filter_perm_of_update (nodup_finRange n) (mem_finRange i) hnew.2 hself hother
    have hmap := hfilter.map fun i => (senders i).message
    exact (perm_append_singleton _ _).trans ((h.cons _).trans hmap.symm)
  · rw [if_neg hnew, toList_none, append_nil]
    have hsame : (fun j => (update pos i p j).isFinished) = fun j => (pos j).isFinished := by
      funext j
      by_cases hj : j = i
      · rw [hj, update_self]
        cases hpi : (pos i).isFinished
        · simpa [hpi] using hnew
        · exact hstays hpi
      · exact hother j hj
    rw [finishedMessages, hsame]
    exact h

theorem StreamInv.of_same (h : StreamInv senders tp pos out) (call : TpCall)
    (hs : (tpCall tp call).1.s = tp.s) (hbuf : (tpCall tp call).1.buf = tp.buf)
    (hout : (tpCall tp call).2 = none) :
    StreamInv senders (tpCall tp call).1 pos (out ++ (tpCall tp call).2.toList) := by
  have hsame : ∀ sa da, tpView (tpCall tp call).1 sa da = tpView tp sa da := fun sa da =>
    tpView_congr (fun j => by rw [hs]) fun j _ => ⟨by rw [hs], by rw [hbuf]⟩
  refine ⟨h.inv.call call, ?_, ?_, ?_⟩
  · intro i
    rw [hsame]
    exact h.follows i
  · intro sa da hnone
    rw [hsame]
    exact h.nobody sa da hnone
  · rw [hout, toList_none, append_nil]
    exact h.out

/-- **Any call of the senders keeps the invariant.** -/
theorem StreamInv.step (h : StreamInv senders tp pos out) (hn : n ≤ tpSessions)
    (hpairs : ∀ i j, (senders i).sa = (senders j).sa → (senders i).da = (senders j).da → i = j)
    (hstep : BusStep senders pos call pos') :
    StreamInv senders (tpCall tp call).1 pos' (out ++ (tpCall tp call).2.toList) := by
  cases hstep with
  | @frame _ p i hi =>
    have hother : ∀ {sa da}, ¬ ((senders i).sa = sa ∧ (senders i).da = da) →
        tpView (tpCall tp call).1 sa da = tpView tp sa da := by
      intro sa da hne
      apply tpView_call h.inv (hi.touches hne)
      intro now hnow
      exact absurd hnow (hi.not_expire now)
    obtain ⟨hf, hout⟩ := hi.follows h.inv (h.room hn) (h.follows i)
    refine ⟨h.inv.call call, ?_, ?_, ?_⟩
    · intro j
      by_cases hj : j = i
      · rw [hj, update_self]
        exact hf
      · rw [update_of_ne hj, hother fun ⟨hsa, hda⟩ => hj (hpairs i j hsa hda).symm]
        exact h.follows j
    · intro sa da hnone
      rw [hother (hnone i)]
      exact h.nobody sa da hnone
    · rw [hout]
      exact finishedMessages_update h.out fun hp => hi.isFinished hp
  | @expire now hlive =>
    have hsame : ∀ sa da, tpView (j1939TpExpire tp now) sa da = tpView tp sa da := by
      intro sa da
      apply tpView_expire h.inv
      intro s b hview
      obtain ⟨j, hfind, rfl, -⟩ := tpView_eq_some.mp hview
      obtain ⟨hj, rfl, rfl⟩ := sessionFind_some hfind
      obtain ⟨i, hsa, hda, k, last, hp⟩ := h.sending hj
      have hf := h.follows i
      rw [hsa, hda, hview, hp] at hf
      obtain ⟨s', b', heq, -, -, -, -, hlast, -⟩ := hf
      rw [some.injEq, Prod.mk.injEq] at heq
      rw [heq.1, hlast]
      exact hlive i k last hp
    refine ⟨h.inv.expire now, ?_, ?_, ?_⟩
    · intro i
      rw [tpCall, hsame]
      exact h.follows i
    · intro sa da hnone
      rw [tpCall, hsame]
      exact h.nobody sa da hnone
    · rw [tpCall, toList_none, append_nil]
      exact h.out
  | setAddress mySa => exact h.of_same (.setAddress mySa) rfl rfl rfl
  | replyTake =>
    apply h.of_same .replyTake ?_ ?_ rfl
    · rw [tpCall, j1939TpReplyTake]
      split <;> rfl
    · rw [tpCall, j1939TpReplyTake]
      split <;> rfl

/-- **Runs** of the senders keep the invariant. -/
theorem StreamInv.run (hn : n ≤ tpSessions)
    (hpairs : ∀ i j, (senders i).sa = (senders j).sa → (senders i).da = (senders j).da → i = j)
    {calls : List TpCall} (hrun : Run (BusStep senders) pos calls pos') :
    ∀ {tp : J1939Tp} {out : List TpMsg}, StreamInv senders tp pos out →
      StreamInv senders (tpRun tp calls) pos' (out ++ tpOut tp calls) := by
  induction hrun with
  | nil pos =>
    intro tp out h
    rw [tpOut, append_nil]
    exact h
  | cons hstep _ ih =>
    intro tp out h
    have hnext := ih (h.step hn hpairs hstep)
    rw [tpOut, ← append_assoc]
    exact hnext

end Bus

/-- **Reassembly is exact.** At most eight senders, each with its own pair of
addresses, send a message each, on a receiver with no session open. Whatever
the interleaving of their frames, the messages handed out are those of the
senders whose packets have all been sent, each once, with its bytes, its group
number and its addresses. -/
theorem j1939Tp_reassembles {n : ℕ} (hn : n ≤ 8) (senders : Fin n → TpSender)
    (hpairs : ∀ i j, (senders i).sa = (senders j).sa → (senders i).da = (senders j).da → i = j)
    (tp₀ : J1939Tp) (before : List TpCall) (tp : J1939Tp)
    (htp : tp = tpRun (j1939TpInit tp₀) before) (hidle : j1939TpOpen tp = 0) (calls : List TpCall)
    (pos : Fin n → TpProgress) (hrun : Run (BusStep senders) (fun _ => .idle) calls pos) :
    (tpOut tp calls).Perm
      (((List.finRange n).filter fun i => (pos i).isFinished).map fun i => (senders i).message) := by
  have hinv : TpInv tp := by
    rw [htp]
    exact (tpInv_init tp₀).run before
  have hclosed : ∀ sa da, tpView tp sa da = none := by
    intro sa da
    rw [tpView_eq_none, sessionFind_none]
    rintro i ⟨hi, -⟩
    exact countP_eq_zero.mp hidle i (mem_finRange i) hi
  have hstart : StreamInv senders tp (fun _ => .idle) [] := by
    refine ⟨hinv, fun i => hclosed _ _, fun sa da _ => hclosed sa da, ?_⟩
    have hnobody : (List.finRange n).filter (fun _ => TpProgress.idle.isFinished) = [] :=
      filter_eq_nil_iff.mpr fun i _ => Bool.false_ne_true
    rw [finishedMessages, hnobody, map_nil]
  exact (StreamInv.run hn hpairs hrun hstart).out

/-- Nine zero bytes of node 1 to all, and of node 2 to node 3. -/
def twoSenders : Fin 2 → TpSender :=
  ![⟨1, 255, 0xFECA, List.replicate 9 0, by simp, by simp⟩,
    ⟨2, 3, 0xFECA, List.replicate 9 0, by simp, by simp⟩]

/-- A packet of zeros. -/
def zeroPacket (k : ℕ) : TpFrame := fun j => if j = 0 then UInt8.ofNat k else 0

/-- Their frames, one after the other; node 3 asks for the first packet twice. -/
def twoStreams : List TpCall :=
  [.cm 1 255 ![32, 9, 0, 2, 255, 0xCA, 0xFE, 0] 8 0, .cm 2 3 ![16, 9, 0, 2, 255, 0xCA, 0xFE, 0] 8 1,
    .cm 3 2 ![17, 2, 1, 255, 255, 0xCA, 0xFE, 0] 8 2, .dt 1 255 (zeroPacket 1) 8 3,
    .dt 2 3 (zeroPacket 1) 8 4, .expire 5, .cm 3 2 ![17, 2, 1, 255, 255, 0xCA, 0xFE, 0] 8 6,
    .dt 2 3 (zeroPacket 1) 8 7, .dt 1 255 (zeroPacket 2) 8 8, .dt 2 3 (zeroPacket 2) 8 9,
    .cm 3 2 ![19, 9, 0, 2, 255, 0xCA, 0xFE, 0] 8 10]

theorem twoSenders_carries (i : Fin 2) {k : ℕ} (hk : k < 256) :
    (twoSenders i).Carries k (zeroPacket k) := by
  refine ⟨UInt8.toNat_ofNat_of_lt hk, fun j b hb => ?_⟩
  have hdata : (twoSenders i).data = List.replicate 9 0 := by
    match i with
    | 0 => rfl
    | 1 => rfl
  rw [hdata, List.getElem?_replicate] at hb
  split_ifs at hb
  exact some.inj hb

theorem j1939Tp_reassembles_two :
    (tpOut (tpRun (j1939TpInit ⟨fun _ => .zero, fun _ _ => 0, .zero, 0, []⟩) []) twoStreams).Perm
      [⟨0xFECA, 1, 255, List.replicate 9 0⟩, ⟨0xFECA, 2, 3, List.replicate 9 0⟩] := by
  have hzero : ∀ i k, k < 256 → (twoSenders i).Carries k (zeroPacket k) :=
    fun i k => twoSenders_carries i
  have hrun : Run (BusStep twoSenders) (fun _ => .idle) twoStreams _ :=
    .cons (.frame 0 (.announce ⟨rfl, rfl, rfl, rfl⟩)) <|
    .cons (.frame 1 (.announce ⟨rfl, rfl, rfl, rfl⟩)) <|
    .cons (.frame 1 (.clear rfl rfl rfl (by decide) (by decide) (by decide))) <|
    .cons (.frame 0 (.packet (by decide) (hzero 0 1 (by decide)))) <|
    .cons (.frame 1 (.packet (by decide) (hzero 1 1 (by decide)))) <|
    .cons (.expire fun
      | 0, _, _, h => (TpProgress.sending.inj h).2 ▸ (by decide : (5 - 3 : ℤ) ≤ tpTimeoutUs)
      | 1, _, _, h => (TpProgress.sending.inj h).2 ▸ (by decide : (5 - 4 : ℤ) ≤ tpTimeoutUs)) <|
    .cons (.frame 1 (.clear rfl rfl rfl (by decide) (by decide) (by decide))) <|
    .cons (.frame 1 (.packet (by decide) (hzero 1 1 (by decide)))) <|
    .cons (.frame 0 (.lastPacket (hzero 0 2 (by decide)))) <|
    .cons (.frame 1 (.lastPacket (hzero 1 2 (by decide)))) <|
    .cons (.frame 1 (.acknowledge rfl rfl)) <| .nil _
  exact j1939Tp_reassembles (by decide) twoSenders (by decide)
    ⟨fun _ => .zero, fun _ _ => 0, .zero, 0, []⟩ [] _ rfl (by decide) twoStreams _ hrun

end Meatpi
