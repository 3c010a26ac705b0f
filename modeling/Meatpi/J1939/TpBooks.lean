import Meatpi.J1939.Tp

/-!
# The books of the receiver

Every session that was started is open or was counted as exactly one of completed,
lost, timed out, aborted and replaced; an open session's numbers are those of a
message, and a packet is copied inside the size announced. `TpInv` holds after the
initialisation and every call keeps it (`TpInv.call`), since a call changes the
sessions through three operations only: `TpInv.setSession`, `TpInv.close` and
`TpInv.startSession`.
-/

namespace Meatpi

open Function List

variable {j : Fin tpSessions} {tp' : J1939Tp} {sa : UInt8}

/-- The sessions counted as ended. -/
def TpStats.ends (st : TpStats) : UInt32 :=
  st.completed + st.seqErrors + st.timeouts + st.aborted + st.replaced

/-- The numbers of an open session. -/
structure TpSession.Sound (s : TpSession) : Prop where
  next_pos : 1 ≤ s.next
  next_le : s.next ≤ s.packets
  packets_eq : s.packets = (s.size + tpPacketBytes - 1) / tpPacketBytes
  size_ge : tpMinBytes ≤ s.size
  size_le : s.size ≤ j1939MsgMax

/-- What holds of a receiver whatever frames it has seen. -/
structure TpInv (tp : J1939Tp) : Prop where
  /-- the books balance -/
  books : tp.stats.started = tp.stats.ends + UInt32.ofNat (j1939TpOpen tp)
  /-- one session for a sender and a destination -/
  unique : ∀ i j, (tp.s i).isOpen = true → (tp.s j).isOpen = true → (tp.s i).sa = (tp.s j).sa →
    (tp.s i).da = (tp.s j).da → i = j
  sound : ∀ i, (tp.s i).isOpen = true → (tp.s i).Sound

/-! ## Counting the open sessions -/

section Count

variable {α : Type*} {l : List α} {p p' : α → Bool} {i : α}

theorem filter_perm_of_update (hl : l.Nodup) (hi : i ∈ l) (hp : p i = false) (hp' : p' i = true)
    (hne : ∀ j, j ≠ i → p' j = p j) : (l.filter p').Perm (i :: l.filter p) := by
  induction l with
  | nil => cases hi
  | cons x l ih =>
    obtain ⟨hx, hl⟩ := nodup_cons.mp hl
    by_cases hxi : x = i
    · subst hxi
      have hrest : l.filter p' = l.filter p := by
        apply filter_congr
        intro j hj
        exact hne j fun heq => hx (heq ▸ hj)
      rw [filter_cons_of_pos hp', filter_cons_of_neg (by simp [hp]), hrest]
    · have hmem := (mem_cons.mp hi).resolve_left fun h => hxi h.symm
      have hrest := ih hl hmem
      by_cases hpx : p x = true
      · rw [filter_cons_of_pos ((hne x hxi).trans hpx), filter_cons_of_pos hpx]
        exact (hrest.cons x).trans (List.Perm.swap i x _)
      · have hpx' : ¬ p' x = true := by rwa [hne x hxi]
        rw [filter_cons_of_neg hpx', filter_cons_of_neg hpx]
        exact hrest

theorem countP_of_update (hl : l.Nodup) (hi : i ∈ l) (hp : p i = false) (hp' : p' i = true)
    (hne : ∀ j, j ≠ i → p' j = p j) : l.countP p' = l.countP p + 1 := by
  rw [countP_eq_length_filter, countP_eq_length_filter,
    (filter_perm_of_update hl hi hp hp' hne).length_eq]
  rfl

end Count

theorem j1939TpOpen_congr {tp : J1939Tp} (h : ∀ i, (tp'.s i).isOpen = (tp.s i).isOpen) :
    j1939TpOpen tp' = j1939TpOpen tp := by
  exact countP_congr fun i _ => by rw [h]

theorem j1939TpOpen_succ {tp : J1939Tp} {i : Fin tpSessions} (hi : (tp.s i).isOpen = false)
    (hi' : (tp'.s i).isOpen = true) (hne : ∀ j, j ≠ i → (tp'.s j).isOpen = (tp.s j).isOpen) :
    j1939TpOpen tp' = j1939TpOpen tp + 1 :=
  countP_of_update (nodup_finRange _) (mem_finRange i) hi hi' hne

/-! ## Finding sessions -/

theorem isOf_iff {s : TpSession} {da : UInt8} :
    s.isOf sa da = true ↔ s.isOpen = true ∧ s.sa = sa ∧ s.da = da := by
  simp [TpSession.isOf, and_assoc]

theorem sessionFind_some {tp : J1939Tp} {da : UInt8} {i : Fin tpSessions}
    (h : sessionFind tp sa da = some i) :
    (tp.s i).isOpen = true ∧ (tp.s i).sa = sa ∧ (tp.s i).da = da := by
  have hof := List.find?_some h
  exact isOf_iff.mp hof

theorem sessionFind_none {tp : J1939Tp} {da : UInt8} :
    sessionFind tp sa da = none ↔
      ∀ i, ¬ ((tp.s i).isOpen = true ∧ (tp.s i).sa = sa ∧ (tp.s i).da = da) := by
  rw [sessionFind, List.find?_eq_none]
  constructor
  · intro h i hi
    exact h i (mem_finRange i) (isOf_iff.mpr hi)
  · intro h i _ hi
    exact h i (isOf_iff.mp hi)

theorem sessionFree_some {tp : J1939Tp} {i : Fin tpSessions} (h : sessionFree tp = some i) :
    (tp.s i).isOpen = false := by
  have hfree := List.find?_some h
  simpa using hfree

/-! ## What does not show in the sessions -/

section Slots

variable (tp : J1939Tp) (i : Fin tpSessions) (s : TpSession) (why : TpEnd)

theorem setSession_s : (tp.setSession i s).s = Function.update tp.s i s := rfl

@[simp] theorem setSession_self : (tp.setSession i s).s i = s := by
  rw [setSession_s, update_self]

theorem setSession_of_ne (h : j ≠ i) : (tp.setSession i s).s j = tp.s j := by
  rw [setSession_s, update_of_ne h]

theorem close_s : (tp.close i why).s = Function.update tp.s i { tp.s i with isOpen := false } := rfl

@[simp] theorem close_self : (tp.close i why).s i = { tp.s i with isOpen := false } := by
  rw [close_s, update_self]

theorem close_of_ne (h : j ≠ i) : (tp.close i why).s j = tp.s j := by
  rw [close_s, update_of_ne h]

end Slots

section Replies

variable (tp : J1939Tp) (da : UInt8) (pgn : ℕ) (reason : UInt8) (data : TpFrame) (s : TpSession)

@[simp] theorem replyQueue_s : (replyQueue tp da data).s = tp.s := by
  rw [replyQueue]; split_ifs <;> rfl

@[simp] theorem replyQueue_buf : (replyQueue tp da data).buf = tp.buf := by
  rw [replyQueue]; split_ifs <;> rfl

@[simp] theorem replyQueue_started : (replyQueue tp da data).stats.started = tp.stats.started := by
  rw [replyQueue]; split_ifs <;> rfl

@[simp] theorem replyQueue_ends : (replyQueue tp da data).stats.ends = tp.stats.ends := by
  rw [replyQueue]; split_ifs <;> rfl

@[simp] theorem replyEoma_s : (replyEoma tp s).s = tp.s := by simp [replyEoma]

@[simp] theorem replyEoma_buf : (replyEoma tp s).buf = tp.buf := by simp [replyEoma]

@[simp] theorem replyEoma_started : (replyEoma tp s).stats.started = tp.stats.started := by
  simp [replyEoma]

@[simp] theorem replyEoma_ends : (replyEoma tp s).stats.ends = tp.stats.ends := by
  exact replyQueue_ends ..

@[simp] theorem replyAbort_s : (replyAbort tp da pgn reason).s = tp.s := by simp [replyAbort]

@[simp] theorem replyAbort_buf : (replyAbort tp da pgn reason).buf = tp.buf := by simp [replyAbort]

@[simp] theorem replyAbort_started :
    (replyAbort tp da pgn reason).stats.started = tp.stats.started := by
  simp [replyAbort]

@[simp] theorem replyAbort_ends : (replyAbort tp da pgn reason).stats.ends = tp.stats.ends := by
  exact replyQueue_ends ..

end Replies

section Inv

variable {tp : J1939Tp}

theorem TpInv.congr (h : TpInv tp) (hs : tp'.s = tp.s)
    (hstarted : tp'.stats.started = tp.stats.started) (hends : tp'.stats.ends = tp.stats.ends) :
    TpInv tp' := by
  refine ⟨?_, ?_, ?_⟩
  · rw [hstarted, hends, h.books, j1939TpOpen_congr fun i => by rw [hs]]
  · rw [hs]
    exact h.unique
  · rw [hs]
    exact h.sound

theorem TpInv.setSession (h : TpInv tp) {i : Fin tpSessions} {s : TpSession}
    (hopen : s.isOpen = (tp.s i).isOpen) (hsa : s.sa = (tp.s i).sa) (hda : s.da = (tp.s i).da)
    (hsound : s.isOpen = true → s.Sound) : TpInv (tp.setSession i s) := by
  have hset : ∀ j, ((tp.setSession i s).s j).isOpen = (tp.s j).isOpen ∧
      ((tp.setSession i s).s j).sa = (tp.s j).sa ∧ ((tp.setSession i s).s j).da = (tp.s j).da := by
    intro j
    by_cases hj : j = i
    · rw [hj, setSession_self]
      exact ⟨hopen, hsa, hda⟩
    · rw [setSession_of_ne _ _ _ hj]
      exact ⟨rfl, rfl, rfl⟩
  refine ⟨?_, ?_, ?_⟩
  · exact h.books.trans (by rw [j1939TpOpen_congr fun j => (hset j).1]; rfl)
  · intro j k hj hk hjk hjk'
    rw [(hset j).1] at hj
    rw [(hset k).1] at hk
    rw [(hset j).2.1, (hset k).2.1] at hjk
    rw [(hset j).2.2, (hset k).2.2] at hjk'
    exact h.unique j k hj hk hjk hjk'
  · intro j hj
    by_cases hji : j = i
    · rw [hji, setSession_self] at hj ⊢
      exact hsound hj
    · rw [setSession_of_ne _ _ _ hji] at hj ⊢
      exact h.sound j hj

theorem TpInv.close (h : TpInv tp) {i : Fin tpSessions} (hi : (tp.s i).isOpen = true)
    (why : TpEnd) : TpInv (tp.close i why) := by
  have hopen : j1939TpOpen tp = j1939TpOpen (tp.close i why) + 1 := by
    refine j1939TpOpen_succ ?_ hi ?_
    · rw [close_self]
    · intro j hj
      rw [close_of_ne _ _ _ hj]
  have hlive : ∀ {j}, ((tp.close i why).s j).isOpen = true →
      j ≠ i ∧ (tp.close i why).s j = tp.s j := by
    intro j hj
    have hji : j ≠ i := by
      rintro rfl
      rw [close_self] at hj
      cases hj
    exact ⟨hji, close_of_ne _ _ _ hji⟩
  refine ⟨?_, ?_, ?_⟩
  · have hbooks := h.books
    rw [hopen, UInt32.ofNat_add] at hbooks
    have hstarted : (tp.close i why).stats.started = tp.stats.started := by
      cases why <;> rfl
    have hends : (tp.close i why).stats.ends = tp.stats.ends + 1 := by
      cases why <;> simp only [J1939Tp.close, TpStats.ended, TpStats.ends] <;> grind
    grind
  · intro j k hj hk hsa hda
    have hjs := (hlive hj).2
    have hks := (hlive hk).2
    rw [hjs] at hj hsa hda
    rw [hks] at hk hsa hda
    exact h.unique j k hj hk hsa hda
  · intro j hj
    have hjs := (hlive hj).2
    rw [hjs] at hj ⊢
    exact h.sound j hj

theorem replyCts_spec (tp : J1939Tp) (i : Fin tpSessions) :
    ∃ n, (replyCts tp i).s = (tp.setSession i { tp.s i with ctsLeft := n }).s ∧
      (replyCts tp i).stats.started = tp.stats.started ∧
      (replyCts tp i).stats.ends = tp.stats.ends ∧ (replyCts tp i).buf = tp.buf := by
  refine ⟨((replyCts tp i).s i).ctsLeft, ?_, ?_, ?_, ?_⟩
  · simp only [replyCts, replyQueue_s, setSession_self]
  · exact replyQueue_started ..
  · exact replyQueue_ends ..
  · exact replyQueue_buf ..

theorem TpInv.replyCts (h : TpInv tp) {i : Fin tpSessions} : TpInv (replyCts tp i) := by
  obtain ⟨n, hs, hstarted, hends, -⟩ := replyCts_spec tp i
  have hset : TpInv (tp.setSession i { tp.s i with ctsLeft := n }) := by
    refine h.setSession rfl rfl rfl fun hopen => ?_
    obtain ⟨h₁, h₂, h₃, h₄, h₅⟩ := h.sound i hopen
    exact ⟨h₁, h₂, h₃, h₄, h₅⟩
  exact hset.congr hs hstarted hends

theorem TpInv.startSession {tp tp₀ : J1939Tp} (h : TpInv tp₀) {i : Fin tpSessions} {s : TpSession}
    (hs : tp.s = tp₀.s) (hstarted : tp.stats.started = tp₀.stats.started)
    (hopen : s.isOpen = true) (hsound : s.Sound)
    (hslot : (tp₀.s i).isOpen = false ∧ tp.stats.ends = tp₀.stats.ends ∧
        (∀ j, ¬ ((tp₀.s j).isOpen = true ∧ (tp₀.s j).sa = s.sa ∧ (tp₀.s j).da = s.da)) ∨
      (tp₀.s i).isOpen = true ∧ tp.stats.ends = tp₀.stats.ends + 1 ∧
        (tp₀.s i).sa = s.sa ∧ (tp₀.s i).da = s.da) :
    TpInv (startSession tp i s) := by
  obtain ⟨tp', htp'⟩ : ∃ tp' : J1939Tp, tp' = { tp.setSession i s with
      stats := { tp.stats with started := tp.stats.started + 1 } } := ⟨_, rfl⟩
  have hself : tp'.s i = s := by simp [htp', J1939Tp.setSession]
  have hother : ∀ j, j ≠ i → tp'.s j = tp₀.s j := by
    intro j hj
    simp [htp', J1939Tp.setSession, hj, hs]
  have hends : tp'.stats.ends = tp.stats.ends := by simp [htp', TpStats.ends]
  -- nobody else has this sender and destination
  have halone : ∀ j, j ≠ i → (tp₀.s j).isOpen = true → (tp₀.s j).sa = s.sa →
      (tp₀.s j).da ≠ s.da := by
    intro j hj hjopen hsa hda
    rcases hslot with ⟨-, -, hnone⟩ | ⟨hi, -, hisa, hida⟩
    · exact hnone j ⟨hjopen, hsa, hda⟩
    · exact hj (h.unique j i hjopen hi (hsa.trans hisa.symm) (hda.trans hida.symm))
  have hinv : TpInv tp' := by
    refine ⟨?_, ?_, ?_⟩
    · have hbooks := h.books
      rcases hslot with ⟨hfree, hsame, -⟩ | ⟨hi, hmore, -⟩
      · have hcount : j1939TpOpen tp' = j1939TpOpen tp₀ + 1 :=
          j1939TpOpen_succ hfree (by rw [hself, hopen]) fun j hj => by rw [hother j hj]
        rw [hcount, UInt32.ofNat_add]
        grind
      · have hcount : j1939TpOpen tp' = j1939TpOpen tp₀ := by
          apply j1939TpOpen_congr
          intro j
          by_cases hj : j = i
          · rw [hj, hself, hopen, hi]
          · rw [hother j hj]
        grind
    · intro j k hj hk hsa hda
      by_cases hji : j = i
      · by_cases hki : k = i
        · rw [hji, hki]
        · rw [hji, hself, hother k hki] at hsa hda
          rw [hother k hki] at hk
          exact absurd hda.symm (halone k hki hk hsa.symm)
      · by_cases hki : k = i
        · rw [hki, hself, hother j hji] at hsa hda
          rw [hother j hji] at hj
          exact absurd hda (halone j hji hj hsa)
        · rw [hother j hji] at hj hsa hda
          rw [hother k hki] at hk hsa hda
          exact h.unique j k hj hk hsa hda
    · intro j hj
      by_cases hji : j = i
      · rw [hji, hself]
        exact hsound
      · rw [hother j hji] at hj ⊢
        exact h.sound j hj
  have hstart : Meatpi.startSession tp i s = if s.mine then
        Meatpi.replyCts { tp' with stats := { tp'.stats with toMe := tp'.stats.toMe + 1 } } i
      else tp' := by
    rw [htp']
    rfl
  rw [hstart]
  split_ifs
  · have hme : TpInv { tp' with stats := { tp'.stats with toMe := tp'.stats.toMe + 1 } } :=
      hinv.congr rfl rfl rfl
    exact hme.replyCts
  · exact hinv

/-! ## The calls -/

theorem announced_sound {mine : Bool} {da : UInt8} {d : TpFrame} {now : ℤ}
    (h : ¬ (cmSize d < tpMinBytes ∨ j1939MsgMax < cmSize d ∨
      cmPackets d ≠ (cmSize d + tpPacketBytes - 1) / tpPacketBytes)) :
    (announced mine sa da d now).Sound := by
  rw [not_or, not_or, not_not] at h
  obtain ⟨hmin, hmax, hpackets⟩ := h
  have hsome : 1 ≤ cmPackets d := by
    rw [hpackets]
    simp only [tpMinBytes, tpPacketBytes] at hmin ⊢
    omega
  exact ⟨Nat.le_refl 1, hsome, hpackets, Nat.not_lt.mp hmin, Nat.not_lt.mp hmax⟩

theorem TpInv.announce (h : TpInv tp) (sa da : UInt8) (d : TpFrame) (now : ℤ) :
    TpInv (announce tp sa da d now) := by
  rw [Meatpi.announce]
  by_cases hbad : cmSize d < tpMinBytes ∨ j1939MsgMax < cmSize d ∨
      cmPackets d ≠ (cmSize d + tpPacketBytes - 1) / tpPacketBytes
  · rw [if_pos hbad]
    exact h.congr rfl rfl rfl
  · rw [if_neg hbad]
    have hsound : (announced (d 0 == tpCtrlRts && forMe tp da) sa da d now).Sound :=
      announced_sound hbad
    rcases hfind : sessionFind tp sa da with _ | i
    · rcases hfree : sessionFree tp with _ | i
      · have hfull : TpInv
            { tp with stats := { tp.stats with noSession := tp.stats.noSession + 1 } } :=
          h.congr rfl rfl rfl
        split_ifs
        · exact hfull.congr (by simp) (by simp) (by simp)
        · exact hfull
      · exact h.startSession rfl rfl rfl hsound
          (.inl ⟨sessionFree_some hfree, rfl, sessionFind_none.mp hfind⟩)
    · obtain ⟨hopen, hsa, hda⟩ := sessionFind_some hfind
      refine h.startSession rfl rfl rfl hsound (.inr ⟨hopen, ?_, hsa, hda⟩)
      simp only [TpStats.ends]
      grind

theorem TpInv.cmCts (h : TpInv tp) {i : Fin tpSessions} (hi : (tp.s i).isOpen = true) (d : TpFrame)
    (now : ℤ) : TpInv (cmCts tp i d now) := by
  have hsound := h.sound i hi
  have hseen : TpInv (tp.setSession i { tp.s i with lastUs := now }) := by
    refine h.setSession rfl rfl rfl fun _ => ?_
    obtain ⟨h₁, h₂, h₃, h₄, h₅⟩ := hsound
    exact ⟨h₁, h₂, h₃, h₄, h₅⟩
  have hself : (tp.setSession i { tp.s i with lastUs := now }).s i =
      { tp.s i with lastUs := now } := by
    simp [J1939Tp.setSession]
  rw [Meatpi.cmCts]
  split_ifs with hhold hback
  · exact hseen
  · rw [hself] at hback
    refine hseen.setSession rfl rfl rfl fun _ => ?_
    rw [hself]
    exact ⟨hback.1, hback.2.trans hsound.next_le, hsound.packets_eq, hsound.size_ge, hsound.size_le⟩
  · exact hseen.close (by rw [hself]; exact hi) .seqErrors

theorem TpInv.cm (h : TpInv tp) (sa da : UInt8) (d : TpFrame) (dlc : ℕ) (now : ℤ) :
    TpInv (j1939TpCm tp sa da d dlc now) := by
  have hbad : TpInv { tp with stats := { tp.stats with badCm := tp.stats.badCm + 1 } } :=
    h.congr rfl rfl rfl
  rw [j1939TpCm]
  split_ifs with hdlc hbam hall hrts hall' hcts heoma habort
  · exact hbad
  · exact hbad
  · exact h.announce sa da d now
  · exact hbad
  · exact h.announce sa da d now
  · rcases hfind : sessionFind tp da sa with _ | i
    · exact h
    · dsimp only
      split_ifs
      · exact h
      · exact h.cmCts (sessionFind_some hfind).1 d now
  · rcases hfind : sessionFind tp da sa with _ | i
    · exact h
    · dsimp only
      split_ifs
      · exact h.close (sessionFind_some hfind).1 .seqErrors
      · exact h
  · rcases hfind : (sessionFind tp sa da).or (sessionFind tp da sa) with _ | i
    · exact h
    · have hi : (tp.s i).isOpen = true := by
        rcases Option.or_eq_some_iff.mp hfind with hi | ⟨-, hi⟩
        · exact (sessionFind_some hi).1
        · exact (sessionFind_some hi).1
      dsimp only
      split_ifs
      · exact h.close hi .aborted
      · exact h
  · exact hbad

theorem TpInv.dt (h : TpInv tp) (sa da : UInt8) (d : TpFrame) (dlc : ℕ) (now : ℤ) :
    TpInv (j1939TpDt tp sa da d dlc now).1 := by
  rw [j1939TpDt]
  rcases hfind : sessionFind tp sa da with _ | i
  · exact h.congr rfl rfl rfl
  · obtain ⟨hi, -⟩ := sessionFind_some hfind
    have hsound := h.sound i hi
    have hcopied : ∀ buf, TpInv { tp with buf := buf } := fun _ => h.congr rfl rfl rfl
    -- the numbers after a packet that is not the last one
    have hnext : ∀ {s : TpSession}, (tp.s i).next < (tp.s i).packets →
        s.next = (tp.s i).next + 1 → s.packets = (tp.s i).packets → s.size = (tp.s i).size →
        s.Sound := by
      intro s hmore hn hp hsize
      refine ⟨by rw [hn]; exact Nat.le_add_left 1 _, by rw [hn, hp]; exact hmore, ?_, ?_, ?_⟩
      · rw [hp, hsize]
        exact hsound.packets_eq
      · rw [hsize]
        exact hsound.size_ge
      · rw [hsize]
        exact hsound.size_le
    dsimp only
    split_ifs with hgap hmine hmore hleft hlast hdone
    · have hclosed := h.close hi .seqErrors
      exact hclosed.congr (by simp) (by simp) (by simp)
    · exact h.close hi .seqErrors
    · refine TpInv.replyCts ?_
      refine TpInv.setSession (hcopied _) rfl rfl rfl fun _ => ?_
      exact hnext hmore rfl rfl rfl
    · refine TpInv.setSession (hcopied _) rfl rfl rfl fun _ => ?_
      exact hnext hmore rfl rfl rfl
    · refine TpInv.setSession (hcopied _) rfl rfl rfl fun _ => ?_
      exact hnext hmore rfl rfl rfl
    all_goals
      have hseen := (hcopied (Function.update tp.buf i
          (copyPacket (tp.buf i) (dtCopy (tp.s i)).1 (dtCopy (tp.s i)).2 d))).setSession (i := i)
        (s := { tp.s i with lastUs := now }) rfl rfl rfl
        fun _ => ⟨hsound.next_pos, hsound.next_le, hsound.packets_eq, hsound.size_ge, hsound.size_le⟩
      have hclosed := hseen.close (i := i) (by rw [setSession_self]; exact hi) .completed
    · exact hclosed.congr (by simp) (by simp) (by simp)
    · exact hclosed

theorem TpInv.expireOne (h : TpInv tp) (now : ℤ) (i : Fin tpSessions) :
    TpInv (expireOne now tp i) := by
  rw [Meatpi.expireOne]
  dsimp only
  split_ifs with hquiet hmine
  · have hclosed := h.close hquiet.1 .timeouts
    exact hclosed.congr (by simp) (by simp) (by simp)
  · exact h.close hquiet.1 .timeouts
  · exact h

theorem TpInv.expire (h : TpInv tp) (now : ℤ) : TpInv (j1939TpExpire tp now) := by
  rw [j1939TpExpire]
  induction List.finRange tpSessions generalizing tp with
  | nil => exact h
  | cons i slots ih => exact ih (h.expireOne now i)

/-- **Every call keeps the invariant.** -/
theorem TpInv.call (h : TpInv tp) (call : TpCall) : TpInv (tpCall tp call).1 := by
  cases call with
  | cm sa da d dlc now => exact h.cm sa da d dlc now
  | dt sa da d dlc now => exact h.dt sa da d dlc now
  | expire now => exact h.expire now
  | setAddress mySa => exact h.congr rfl rfl rfl
  | replyTake =>
    rw [tpCall, j1939TpReplyTake]
    split
    · exact h
    · exact h.congr rfl rfl rfl

theorem TpInv.run (calls : List TpCall) (h : TpInv tp) : TpInv (tpRun tp calls) := by
  induction calls generalizing tp with
  | nil => exact h
  | cons call calls ih => exact ih (h.call call)

theorem tpInv_init (tp : J1939Tp) : TpInv (j1939TpInit tp) := by
  have hclosed : ∀ i, ¬ ((j1939TpInit tp).s i).isOpen = true := by
    intro i
    simp [j1939TpInit, TpSession.zero]
  refine ⟨?_, fun i j hi => absurd hi (hclosed i), fun i hi => absurd hi (hclosed i)⟩
  rfl

end Inv

/-! ## The copy -/

theorem u32Sub_eq {a b : ℕ} (hb : b ≤ a) (ha : a < 2 ^ 32) : u32Sub a b = a - b := by
  have hsum : a + 2 ^ 32 - b = a - b + 2 ^ 32 := by omega
  rw [u32Sub, hsum, Nat.add_mod_right]
  exact Nat.mod_eq_of_lt (by omega)

theorem TpSession.Sound.dtCopy_eq {s : TpSession} (h : s.Sound) :
    dtCopy s = ((s.next - 1) * tpPacketBytes,
      min tpPacketBytes (s.size - (s.next - 1) * tpPacketBytes)) := by
  obtain ⟨hpos, hle, hpackets, hmin, hmax⟩ := h
  simp only [tpPacketBytes, tpMinBytes, j1939MsgMax] at hpackets hmin hmax
  have hsub : u32Sub s.next 1 = s.next - 1 := u32Sub_eq hpos (by omega)
  have hoff : (s.next - 1) * 7 % 2 ^ 32 = (s.next - 1) * 7 := Nat.mod_eq_of_lt (by omega)
  have hrest : u32Sub s.size ((s.next - 1) * 7) = s.size - (s.next - 1) * 7 :=
    u32Sub_eq (by omega) (by omega)
  simp only [dtCopy, tpPacketBytes, hsub, hoff, hrest]
  refine Prod.ext rfl ?_
  split_ifs <;> omega

theorem TpSession.Sound.dtCopy_le {s : TpSession} (h : s.Sound) :
    (dtCopy s).1 + (dtCopy s).2 ≤ s.size := by
  rw [h.dtCopy_eq]
  obtain ⟨hpos, hle, hpackets, hmin, hmax⟩ := h
  simp only [tpPacketBytes, tpMinBytes, j1939MsgMax] at hpackets hmin hmax ⊢
  omega

/-- **The books balance.** Whatever frames come at whatever times: the sessions
started are those counted as ended and those open; there is one session for a
sender and a destination; an open session's numbers are those of a message; and
the packet that is due is copied inside the size announced. -/
theorem j1939Tp_books (tp : J1939Tp) (calls : List TpCall) :
    (tpRun (j1939TpInit tp) calls).stats.started = (tpRun (j1939TpInit tp) calls).stats.completed +
      (tpRun (j1939TpInit tp) calls).stats.seqErrors +
      (tpRun (j1939TpInit tp) calls).stats.timeouts +
      (tpRun (j1939TpInit tp) calls).stats.aborted +
      (tpRun (j1939TpInit tp) calls).stats.replaced +
      UInt32.ofNat (j1939TpOpen (tpRun (j1939TpInit tp) calls)) ∧
    (∀ i j, ((tpRun (j1939TpInit tp) calls).s i).isOpen = true →
      ((tpRun (j1939TpInit tp) calls).s j).isOpen = true →
      ((tpRun (j1939TpInit tp) calls).s i).sa = ((tpRun (j1939TpInit tp) calls).s j).sa →
      ((tpRun (j1939TpInit tp) calls).s i).da = ((tpRun (j1939TpInit tp) calls).s j).da → i = j) ∧
    ∀ i s, s = (tpRun (j1939TpInit tp) calls).s i → s.isOpen = true →
      1 ≤ s.next ∧ s.next ≤ s.packets ∧ s.packets = (s.size + 6) / 7 ∧
      (dtCopy s).1 + (dtCopy s).2 ≤ s.size ∧ s.size ≤ j1939MsgMax := by
  have hinv := (tpInv_init tp).run calls
  refine ⟨hinv.books, hinv.unique, ?_⟩
  rintro i s rfl hopen
  have hsound := hinv.sound i hopen
  exact ⟨hsound.next_pos, hsound.next_le, hsound.packets_eq, hsound.dtCopy_le, hsound.size_le⟩

end Meatpi
