import Meatpi.DataLogger.Damaged
import Meatpi.DataLogger.WdlRead
import Meatpi.Library.Framing

/-!
# Torn tails, whatever the file holds

An engine that goes on with a file cuts a torn tail off it. The records of a `.wdl`
are tokens at the front of the file (`wdlFramer`), so the pieces in which it is read
do not matter, and no records reach further than those that are kept. A text log is
looked at through one window at its end: it is cut behind its last line end, unless
that lies in front of the window.
-/

namespace Meatpi

open Library DlWdlHead Framer List Option

variable {e front rest : List UInt8} {c : UInt8} {fuel : ℕ} {r s : List UInt8} {i n : ℕ}

/-! ## The check -/

/-- `DL_AP_*` -/
inductive DlApFmt where
  | csv
  | wdl
  | candump
  | asc
  | jsonl
  deriving DecidableEq

/-- What the system does during a check. A read returns something as long as the file
goes on. -/
structure ApSys where
  /-- there is memory for the buffer, and the file can be opened -/
  opens : Bool
  /-- how many bytes a read gets, of so many that it wants and of those that are left -/
  fread : ℕ → List UInt8 → ℕ
  truncates : Bool
  fread_le : ∀ want rest, fread want rest ≤ min want rest.length
  fread_pos : ∀ want rest, 0 < want → rest ≠ [] → 0 < fread want rest

def dlRecoverTextKeep (buf : List UInt8) : ℕ → ℕ
  | 0 => 0
  | len + 1 => if buf[len]? = some 10 then len + 1 else dlRecoverTextKeep buf len

/-- The loop over a `.wdl`: what to keep. -/
def ApSys.scan (sys : ApSys) : ℕ → List UInt8 → List UInt8 → ℕ → ℕ
  | 0, _, _, keep => keep
  | fuel + 1, carry, rest, keep =>
    let n := sys.fread (apBufSz - carry.length) rest
    if n = 0 then
      keep
    else
      let buf := carry ++ rest.take n
      let r := dlRecoverWdlScan buf.length buf
      if 260 < (buf.drop r.1).length ∨ r.2 then
        keep + r.1
      else
        sys.scan fuel (buf.drop r.1) (rest.drop n) (keep + r.1)

/-- The window at the end of a text log. -/
def apWindow (file : List UInt8) : List UInt8 :=
  file.drop (file.length - min apBufSz file.length)

/-- How much of a file is kept. -/
def ApSys.keep (sys : ApSys) (fmt : DlApFmt) (file : List UInt8) : ℕ :=
  if fmt = .wdl then
    if file.length < 4 then 0 else sys.scan (file.length + 1) [] (file.drop 4) 4
  else
    let n := min apBufSz file.length
    if sys.fread n (apWindow file) = n then
      file.length - n + dlRecoverTextKeep (apWindow file) n
    else
      file.length

/-- `ap_repair_tail`, for every format -/
def ApSys.apRepairTail (sys : ApSys) (fmt : DlApFmt) (file : List UInt8) : List UInt8 :=
  if file = [] ∨ ¬sys.opens then
    file
  else if sys.keep fmt file < file.length ∧ sys.truncates then
    file.take (sys.keep fmt file)
  else
    file

/-! ## What a repaired file is -/

/-- A record of a `.wdl`: a definition, a value, a frame or a step of the clock. -/
inductive WdlRecord : List UInt8 → Prop
  | define (id name : List UInt8) (hid : id.length = 2) (hname : name.length < 256) :
    WdlRecord (0x01 :: (id ++ UInt8.ofNat name.length :: name))
  | param (fields : List UInt8) (hfields : fields.length = 18) : WdlRecord (0x02 :: fields)
  | frame (fields data : List UInt8) (hfields : fields.length = 12) (hdata : data.length ≤ 8) :
    WdlRecord (0x03 :: (fields ++ UInt8.ofNat data.length :: data))
  | step (fields : List UInt8) (hfields : fields.length = 17) : WdlRecord (0x04 :: fields)

/-- The complete records at the start of some bytes. -/
structure LongestRecords (bytes kept : List UInt8) : Prop where
  begins : kept <+: bytes
  records : ∃ records : List (List UInt8), (∀ r ∈ records, WdlRecord r) ∧ kept = records.flatten
  longest : ∀ records : List (List UInt8), (∀ r ∈ records, WdlRecord r) →
    records.flatten <+: bytes → records.flatten.length ≤ kept.length

/-- A `.wdl` keeps its magic and its complete records, a text log all complete lines
and nothing behind them. -/
structure RepairsTail (fmt : DlApFmt) (file repaired : List UInt8) : Prop where
  wdl : fmt = .wdl → ∀ bytes, file = wdlMagic ++ bytes →
    ∃ kept, repaired = wdlMagic ++ kept ∧ LongestRecords bytes kept
  text : fmt ≠ .wdl → DlEnded repaired ∧ completeLines 10 repaired = completeLines 10 file

/-! ## Records are tokens -/

theorem split_of_getElem? {bytes : List UInt8} (h : bytes[i]? = some c) :
    ∃ front back, bytes = front ++ c :: back ∧ front.length = i := by
  obtain ⟨hlt, rfl⟩ := List.getElem?_eq_some_iff.1 h
  refine ⟨bytes.take i, bytes.drop (i + 1), ?_, length_take_of_le (Nat.le_of_lt hlt)⟩
  rw [← drop_eq_getElem_cons hlt, take_append_drop]

theorem dlWdlHead_define (rest : List UInt8) :
    dlWdlHead (0x01 :: rest) = match rest[2]? with
      | none => .cut
      | some len => .need (4 + len.toNat) := rfl

theorem dlWdlHead_frame (rest : List UInt8) :
    dlWdlHead (0x03 :: rest) = match rest[12]? with
      | none => .cut
      | some (dlc : UInt8) => if 8 < dlc then .bad else .need (14 + dlc.toNat) := rfl

theorem dlWdlHead_other {t : UInt8} (hdefine : t ≠ 0x01) (hparam : t ≠ 0x02) (hframe : t ≠ 0x03)
    (hstep : t ≠ 0x04) : dlWdlHead (t :: rest) = .bad := by
  rw [dlWdlHead, List.getElem?_cons_zero, if_neg (mt some.inj hdefine),
    if_neg (mt some.inj hparam), if_neg (mt some.inj hframe),
    if_neg (mt some.inj hstep)]

theorem getElem?_behind (h : front.length = i) (c : UInt8) (back : List UInt8) :
    (front ++ c :: back)[i]? = some c := by
  rw [List.getElem?_append_right (Nat.le_of_eq h), h, Nat.sub_self]
  rfl

theorem take_behind (h : front.length = i) (c : UInt8) (back : List UInt8) (k : ℕ) :
    (front ++ c :: back).take (i + 1 + k) = front ++ c :: back.take k := by
  rw [take_append, h, take_of_length_le (by omega),
    show i + 1 + k - i = k + 1 by omega, take_succ_cons]

theorem dlWdlHead_record (h : WdlRecord r) (t : List UInt8) :
    dlWdlHead (r ++ t) = .need r.length := by
  cases h with
  | define id name hid hname =>
    rw [cons_append, append_assoc, cons_append, dlWdlHead_define,
      getElem?_behind hid, length_cons, length_append, length_cons]
    dsimp only
    rw [ofNat_length hname]
    congr 1
    omega
  | param fields hfields =>
    rw [length_cons, hfields]
    rfl
  | frame fields data hfields hdata =>
    have hbyte : (UInt8.ofNat data.length).toNat = data.length :=
      ofNat_length (Nat.lt_of_le_of_lt hdata (by decide))
    have hle : ¬8 < UInt8.ofNat data.length := by
      rw [UInt8.lt_iff_toNat_lt, hbyte]
      exact Nat.not_lt.2 hdata
    rw [cons_append, append_assoc, cons_append, dlWdlHead_frame,
      getElem?_behind hfields, length_cons, length_append, length_cons]
    dsimp only
    rw [if_neg hle]
    congr 1
    omega
  | step fields hfields =>
    rw [length_cons, hfields]
    rfl

theorem record_of_head (hhead : dlWdlHead s = .need n) (hn : n ≤ s.length) :
    WdlRecord (s.take n) := by
  rcases s with _ | ⟨t, rest⟩
  · cases hhead
  rw [length_cons] at hn
  by_cases hdefine : t = 0x01
  · subst hdefine
    rw [dlWdlHead_define] at hhead
    cases hlen : rest[2]? with
    | none =>
      rw [hlen] at hhead
      cases hhead
    | some len =>
      rw [hlen] at hhead
      obtain rfl := need.inj hhead
      obtain ⟨id, back, rfl, hid⟩ := split_of_getElem? hlen
      rw [length_append, length_cons] at hn
      have hname : (back.take len.toNat).length = len.toNat :=
        length_take_of_le (by omega)
      have hrecord := WdlRecord.define id (back.take len.toNat) hid (by rw [hname]; exact len.toNat_lt)
      rw [hname, UInt8.ofNat_toNat] at hrecord
      rw [show 4 + len.toNat = 2 + 1 + len.toNat + 1 by omega, take_succ_cons,
        take_behind hid]
      exact hrecord
  by_cases hparam : t = 0x02
  · subst hparam
    obtain rfl : 19 = n := need.inj hhead
    exact .param _ (length_take_of_le (Nat.le_of_succ_le_succ hn))
  by_cases hframe : t = 0x03
  · subst hframe
    rw [dlWdlHead_frame] at hhead
    cases hdlc : rest[12]? with
    | none =>
      rw [hdlc] at hhead
      cases hhead
    | some dlc =>
      rw [hdlc] at hhead
      dsimp only at hhead
      by_cases hbad : 8 < dlc
      · rw [if_pos hbad] at hhead
        cases hhead
      · rw [if_neg hbad] at hhead
        obtain rfl := need.inj hhead
        obtain ⟨fields, back, rfl, hfields⟩ := split_of_getElem? hdlc
        rw [length_append, length_cons] at hn
        have hdata : (back.take dlc.toNat).length = dlc.toNat :=
          length_take_of_le (by omega)
        have hrecord := WdlRecord.frame fields (back.take dlc.toNat) hfields (by
          rw [hdata]
          exact UInt8.le_iff_toNat_le.1 (UInt8.not_lt.1 hbad))
        rw [hdata, UInt8.ofNat_toNat] at hrecord
        rw [show 14 + dlc.toNat = 12 + 1 + dlc.toNat + 1 by omega, take_succ_cons,
          take_behind hfields]
        exact hrecord
  by_cases hstep : t = 0x04
  · subst hstep
    obtain rfl : 18 = n := need.inj hhead
    exact .step _ (length_take_of_le (Nat.le_of_succ_le_succ hn))
  · rw [dlWdlHead_other hdefine hparam hframe hstep] at hhead
    cases hhead

/-- The record at the start of some bytes, if it is complete. -/
def wdlPeel (s : List UInt8) : Option (List UInt8 × ℕ) :=
  match dlWdlHead s with
  | .need n => if n ≤ s.length then some (s.take n, n) else none
  | _ => none

theorem wdlPeel_need (h : dlWdlHead s = .need n) :
    wdlPeel s = if n ≤ s.length then some (s.take n, n) else none := by
  rw [wdlPeel, h]

theorem wdlPeel_eq_some (h : wdlPeel s = some (e, n)) :
    dlWdlHead s = .need n ∧ n ≤ s.length ∧ e = s.take n := by
  cases hhead : dlWdlHead s with
  | cut =>
    rw [wdlPeel, hhead] at h
    cases h
  | bad =>
    rw [wdlPeel, hhead] at h
    cases h
  | need k =>
    rw [wdlPeel_need hhead, ite_none_right_eq_some] at h
    obtain ⟨hle, h⟩ := h
    obtain ⟨rfl, rfl⟩ := Prod.mk.inj (some.inj h)
    exact ⟨rfl, hle, rfl⟩

theorem wdlPeel_record (h : WdlRecord r) (t : List UInt8) :
    wdlPeel (r ++ t) = some (r, r.length) := by
  rw [wdlPeel_need (dlWdlHead_record h t), if_pos, take_left]
  rw [length_append]
  exact Nat.le_add_right _ _

theorem record_of_peel (h : wdlPeel s = some (e, n)) :
    WdlRecord e ∧ e.length = n ∧ s = e ++ s.drop n := by
  obtain ⟨hhead, hle, rfl⟩ := wdlPeel_eq_some h
  exact ⟨record_of_head hhead hle, length_take_of_le hle, (take_append_drop n s).symm⟩

theorem WdlRecord.length_pos (h : WdlRecord r) : 0 < r.length := by
  cases h <;> exact Nat.succ_pos _

/-- The records of a `.wdl` as tokens. -/
def wdlFramer : Framer UInt8 (List UInt8) where
  peel := wdlPeel
  pos := by
    intro s e n h
    obtain ⟨hrecord, rfl, -⟩ := record_of_peel h
    exact hrecord.length_pos
  le_length := fun h => (wdlPeel_eq_some h).2.1
  append := by
    intro s e n t h
    obtain ⟨hrecord, rfl, hs⟩ := record_of_peel h
    rw [hs, List.append_assoc]
    exact wdlPeel_record hrecord _

theorem wdlFramer_records : ∀ s : List UInt8, ∃ records : List (List UInt8),
    (∀ r ∈ records, WdlRecord r) ∧ s = records.flatten ++ wdlFramer.rest s := by
  intro s
  induction s using induction (F := wdlFramer) with
  | hnone s hpeel =>
    refine ⟨[], forall_mem_nil _, ?_⟩
    rw [rest_of_none hpeel]
    rfl
  | hsome s e n hpeel ih =>
    obtain ⟨records, hrecords, hdrop⟩ := ih
    obtain ⟨hrecord, -, hs⟩ := record_of_peel hpeel
    refine ⟨e :: records, forall_mem_cons.2 ⟨hrecord, hrecords⟩, ?_⟩
    rw [rest_of_peel hpeel, flatten_cons, append_assoc, ← hdrop]
    exact hs

/-- What is left at the end is garbage. -/
def WdlGarbage (rest : List UInt8) : Prop := rest ≠ [] ∧ dlWdlHead rest = .bad

instance (rest : List UInt8) : Decidable (WdlGarbage rest) := inferInstanceAs (Decidable (_ ∧ _))

theorem dlRecoverWdlScan_eq {s : List UInt8} (hs : s.length ≤ fuel) :
    dlRecoverWdlScan fuel s =
      (s.length - (wdlFramer.rest s).length, decide (WdlGarbage (wdlFramer.rest s))) := by
  induction fuel generalizing s with
  | zero =>
    obtain rfl := length_eq_zero_iff.1 (Nat.le_zero.1 hs)
    rfl
  | succ fuel ih =>
    by_cases hnil : s = []
    · subst hnil
      rfl
    rw [dlRecoverWdlScan, if_neg hnil]
    cases hpeel : wdlFramer.peel s with
    | none =>
      rw [rest_of_none hpeel, Nat.sub_self]
      change wdlPeel s = none at hpeel
      cases hhead : dlWdlHead s with
      | cut =>
        have hgarbage : ¬WdlGarbage s := by
          rintro ⟨-, hbad⟩
          rw [hhead] at hbad
          cases hbad
        rw [decide_eq_false hgarbage]
      | bad => rw [decide_eq_true ⟨hnil, hhead⟩]
      | need n =>
        have hgarbage : ¬WdlGarbage s := by
          rintro ⟨-, hbad⟩
          rw [hhead] at hbad
          cases hbad
        have hlong : s.length < n := by
          by_contra hle
          rw [wdlPeel_need hhead, if_pos (Nat.not_lt.1 hle)] at hpeel
          cases hpeel
        dsimp only
        rw [if_pos hlong, decide_eq_false hgarbage]
    | some p =>
      obtain ⟨e, n⟩ := p
      have hpos := wdlFramer.pos hpeel
      obtain ⟨hhead, hle, -⟩ := wdlPeel_eq_some hpeel
      have hdrop : (s.drop n).length = s.length - n := length_drop
      have hrest := (rest_suffix (F := wdlFramer) (s.drop n)).length_le
      rw [hhead, rest_of_peel hpeel]
      dsimp only
      rw [if_neg (Nat.not_lt.2 hle), ih (by omega)]
      congr 1
      omega

theorem dlWdlHead_bound (t : UInt8) (rest : List UInt8) :
    (dlWdlHead (t :: rest) = .cut → rest.length ≤ 12) ∧
      ∀ n, dlWdlHead (t :: rest) = .need n → n ≤ 259 := by
  by_cases hdefine : t = 0x01
  · subst hdefine
    rw [dlWdlHead_define]
    cases hlen : rest[2]? with
    | none =>
      have hshort := List.getElem?_eq_none_iff.1 hlen
      refine ⟨fun _ => by omega, fun n h => ?_⟩
      cases h
    | some len =>
      have hbyte := len.toNat_lt
      refine ⟨fun h => ?_, fun n h => ?_⟩
      · cases h
      · obtain rfl := need.inj h
        omega
  by_cases hparam : t = 0x02
  · subst hparam
    refine ⟨fun h => ?_, fun n h => ?_⟩
    · cases h
    · obtain rfl : 19 = n := need.inj h
      decide
  by_cases hframe : t = 0x03
  · subst hframe
    rw [dlWdlHead_frame]
    cases hdlc : rest[12]? with
    | none =>
      refine ⟨fun _ => List.getElem?_eq_none_iff.1 hdlc, fun n h => ?_⟩
      cases h
    | some dlc =>
      dsimp only
      by_cases hbad : 8 < dlc
      · rw [if_pos hbad]
        refine ⟨fun h => ?_, fun n h => ?_⟩ <;> cases h
      · rw [if_neg hbad]
        have hle : dlc.toNat ≤ 8 := UInt8.le_iff_toNat_le.1 (UInt8.not_lt.1 hbad)
        refine ⟨fun h => ?_, fun n h => ?_⟩
        · cases h
        · obtain rfl := need.inj h
          omega
  by_cases hstep : t = 0x04
  · subst hstep
    refine ⟨fun h => ?_, fun n h => ?_⟩
    · cases h
    · obtain rfl : 18 = n := need.inj h
      decide
  · rw [dlWdlHead_other hdefine hparam hframe hstep]
    refine ⟨fun h => ?_, fun n h => ?_⟩ <;> cases h

theorem length_rest (s : List UInt8) :
    WdlGarbage (wdlFramer.rest s) ∨ (wdlFramer.rest s).length ≤ 258 := by
  have hpeel := peel_rest (F := wdlFramer) s
  generalize wdlFramer.rest s = rest at hpeel
  change wdlPeel rest = none at hpeel
  rcases rest with _ | ⟨t, rest⟩
  · exact .inr (Nat.zero_le _)
  obtain ⟨hcut, hneed⟩ := dlWdlHead_bound t rest
  cases hhead : dlWdlHead (t :: rest) with
  | cut =>
    have hshort := hcut hhead
    refine .inr ?_
    rw [length_cons]
    omega
  | bad => exact .inl ⟨cons_ne_nil t rest, hhead⟩
  | need n =>
    have hle := hneed n hhead
    refine .inr ?_
    by_contra hlong
    rw [wdlPeel_need hhead, if_pos (by omega)] at hpeel
    cases hpeel

theorem dlWdlHead_bad_append (h : dlWdlHead (c :: rest) = .bad) (t : List UInt8) :
    dlWdlHead (c :: rest ++ t) = .bad := by
  rw [cons_append]
  by_cases hdefine : c = 0x01
  · subst hdefine
    rw [dlWdlHead_define] at h
    cases hlen : rest[2]? <;> rw [hlen] at h <;> cases h
  by_cases hparam : c = 0x02
  · subst hparam
    cases h
  by_cases hframe : c = 0x03
  · subst hframe
    rw [dlWdlHead_frame] at h ⊢
    cases hdlc : rest[12]? with
    | none =>
      rw [hdlc] at h
      cases h
    | some dlc =>
      obtain ⟨hlt, -⟩ := List.getElem?_eq_some_iff.1 hdlc
      rw [hdlc] at h
      rw [List.getElem?_append_left hlt, hdlc]
      exact h
  by_cases hstep : c = 0x04
  · subst hstep
    cases h
  · exact dlWdlHead_other hdefine hparam hframe hstep

theorem WdlGarbage.peel_append (h : WdlGarbage s) (t : List UInt8) :
    wdlFramer.peel (s ++ t) = none := by
  obtain ⟨hne, hbad⟩ := h
  obtain ⟨c, rest, rfl⟩ := exists_cons_of_ne_nil hne
  change wdlPeel (c :: rest ++ t) = none
  rw [wdlPeel, dlWdlHead_bad_append hbad t]

/-! ## The loop over a `.wdl` -/

/-- **The pieces do not matter**: the loop keeps the records at the start of the file. -/
theorem ApSys.scan_eq (sys : ApSys) : ∀ {carry rest : List UInt8} {keep : ℕ},
    wdlFramer.peel carry = none → carry.length ≤ 258 → rest.length < fuel →
    sys.scan fuel carry rest keep =
      keep + ((carry ++ rest).length - (wdlFramer.rest (carry ++ rest)).length) := by
  induction fuel with
  | zero =>
    intro carry rest keep _ _ hfuel
    cases hfuel
  | succ fuel ih =>
    intro carry rest keep hcarry hshort hfuel
    have hwant : 0 < apBufSz - carry.length := by
      change 0 < 4096 - carry.length
      omega
    have hle := sys.fread_le (apBufSz - carry.length) rest
    have hpos := sys.fread_pos (apBufSz - carry.length) rest hwant
    rw [ApSys.scan]
    generalize sys.fread (apBufSz - carry.length) rest = n at hle hpos
    by_cases hn : n = 0
    · -- the end of the file
      have hnil : rest = [] := by
        by_contra hne
        have h := hpos hne
        omega
      rw [if_pos hn, hnil, append_nil, rest_of_none hcarry, Nat.sub_self, Nat.add_zero]
    · rw [if_neg hn]
      have hsplit : carry ++ rest = (carry ++ rest.take n) ++ rest.drop n := by
        rw [append_assoc, take_append_drop]
      rw [hsplit]
      generalize carry ++ rest.take n = buf
      have hdrop : (rest.drop n).length < fuel := by
        rw [length_drop]
        omega
      have hsuffix := rest_suffix (F := wdlFramer) buf
      have hbuf := hsuffix.length_le
      dsimp only
      rw [dlRecoverWdlScan_eq (Nat.le_refl _)]
      rw [← suffix_iff_eq_drop.1 hsuffix, rest_append buf (rest.drop n), length_append]
      by_cases hgarbage : WdlGarbage (wdlFramer.rest buf)
      · rw [if_pos (.inr (decide_eq_true hgarbage)),
          rest_of_none (hgarbage.peel_append (rest.drop n)), length_append]
        omega
      · have hleft := (length_rest buf).resolve_left hgarbage
        have hgo : ¬(260 < (wdlFramer.rest buf).length ∨
            decide (WdlGarbage (wdlFramer.rest buf)) = true) := by
          rintro (hlong | hbad)
          · omega
          · exact hgarbage (of_decide_eq_true hbad)
        have hlast := (rest_suffix (F := wdlFramer) (wdlFramer.rest buf ++ rest.drop n)).length_le
        rw [length_append] at hlast
        rw [if_neg hgo, ih (peel_rest buf) hleft hdrop, length_append]
        omega

theorem longestRecords_rest (bytes : List UInt8) :
    LongestRecords bytes (bytes.take (bytes.length - (wdlFramer.rest bytes).length)) := by
  obtain ⟨records, hrecords, hbytes⟩ := wdlFramer_records bytes
  have htake : bytes.take (bytes.length - (wdlFramer.rest bytes).length) = records.flatten := by
    generalize wdlFramer.rest bytes = rest at hbytes
    subst hbytes
    rw [length_append, Nat.add_sub_cancel, take_left]
  have hpre : bytes.take (bytes.length - (wdlFramer.rest bytes).length) <+: bytes :=
    take_prefix _ bytes
  refine ⟨hpre, ⟨records, hrecords, htake⟩, fun others hothers hbegins => ?_⟩
  have hwhole : ∀ w ∈ others, ∃ e, wdlFramer.peel w = some (e, w.length) := by
    intro w hw
    have hpeel := wdlPeel_record (hothers w hw) []
    rw [append_nil] at hpeel
    exact ⟨w, hpeel⟩
  have hreach := flatten_length_le hwhole hbegins
  rw [length_take]
  omega

theorem ApSys.keep_wdl (sys : ApSys) (bytes : List UInt8) :
    sys.keep .wdl (wdlMagic ++ bytes) = 4 + (bytes.length - (wdlFramer.rest bytes).length) := by
  have hlength : (wdlMagic ++ bytes).length = 4 + bytes.length := length_append
  have hbytes : (wdlMagic ++ bytes).drop 4 = bytes := drop_left' rfl
  rw [ApSys.keep, if_pos rfl, if_neg (by omega), hbytes,
    sys.scan_eq rfl (Nat.zero_le _) (by omega), nil_append]

/-! ## The window of a text log -/

/-- The end of a text log that the check looks at, with the byte in front of it, has a
line end, or the whole log is looked at. -/
def LineEndNear (file : List UInt8) : Prop :=
  file.length ≤ apBufSz ∨ 10 ∈ file.drop (file.length - (apBufSz + 1))

instance (file : List UInt8) : Decidable (LineEndNear file) :=
  inferInstanceAs (Decidable (_ ∨ _))

theorem dlRecoverTextKeep_spec {buf : List UInt8} {len : ℕ} (hlen : len ≤ buf.length) :
    dlRecoverTextKeep buf len ≤ len ∧ 10 ∉ (buf.take len).drop (dlRecoverTextKeep buf len) ∧
      (dlRecoverTextKeep buf len = 0 ∨
        (buf.take (dlRecoverTextKeep buf len)).getLast? = some 10) := by
  induction len with
  | zero =>
    refine ⟨Nat.le_refl _, ?_, .inl rfl⟩
    exact not_mem_nil
  | succ len ih =>
    obtain ⟨hle, hnone, hlast⟩ := ih (by omega)
    rw [dlRecoverTextKeep]
    by_cases hend : buf[len]? = some 10
    · rw [if_pos hend]
      refine ⟨Nat.le_refl _, ?_, .inr ?_⟩
      · rw [drop_of_length_le (by rw [length_take]; omega)]
        exact not_mem_nil
      · rw [take_add_one, hend]
        exact List.getLast?_concat
    · rw [if_neg hend]
      refine ⟨by omega, ?_, hlast⟩
      have hget : buf[len]? = some buf[len] := List.getElem?_eq_getElem (by omega)
      rw [take_add_one, hget, toList_some,
        drop_append_of_le_length (by rw [length_take]; omega), mem_append, not_or,
        mem_singleton]
      refine ⟨hnone, fun h => hend ?_⟩
      rw [hget, ← h]

theorem length_apWindow (file : List UInt8) : (apWindow file).length = min apBufSz file.length := by
  rw [apWindow, length_drop]
  omega

theorem ApSys.keep_text {sys : ApSys} {fmt : DlApFmt} {file : List UInt8} (hfmt : fmt ≠ .wdl)
    (hreads : sys.fread (min apBufSz file.length) (apWindow file) = min apBufSz file.length) :
    sys.keep fmt file = file.length - min apBufSz file.length +
      dlRecoverTextKeep (apWindow file) (min apBufSz file.length) := by
  rw [ApSys.keep, if_neg hfmt]
  rw [if_pos hreads]

theorem keep_text_spec (file : List UInt8) {keep : ℕ}
    (hkeep : keep = file.length - min apBufSz file.length +
      dlRecoverTextKeep (apWindow file) (min apBufSz file.length)) :
    keep ≤ file.length ∧ 10 ∉ file.drop keep ∧ (DlEnded (file.take keep) ↔ LineEndNear file) := by
  obtain ⟨hle, hnone, hlast⟩ := dlRecoverTextKeep_spec (Nat.le_of_eq (length_apWindow file).symm)
  rw [← length_apWindow, take_length] at hnone
  rw [length_apWindow] at hnone
  generalize dlRecoverTextKeep (apWindow file) (min apBufSz file.length) = k
    at hkeep hle hnone hlast
  have hdrop : file.drop keep = (apWindow file).drop k := by
    rw [apWindow, drop_drop, hkeep]
  rw [← hdrop] at hnone
  refine ⟨by omega, hnone, fun hended => ?_, fun hnear => ?_⟩
  · -- the last byte that is kept is in the window, or the one in front of it
    by_cases hshort : file.length ≤ apBufSz
    · exact .inl hshort
    · refine .inr ?_
      rcases hended with hnil | hend
      · have hlength := congrArg List.length hnil
        rw [length_take, length_nil] at hlength
        omega
      · have hmem : 10 ∈ (file.take keep).drop (file.length - (apBufSz + 1)) := by
          refine List.mem_of_getLast? ?_
          rw [List.getLast?_drop, length_take, if_neg (by omega), hend]
        rw [drop_take] at hmem
        exact mem_of_mem_take hmem
  · rcases hlast with hzero | hlast
    · rw [hzero] at hkeep
      by_cases hshort : file.length ≤ apBufSz
      · refine .inl ?_
        rw [hkeep, Nat.min_eq_right hshort, Nat.sub_self, take_zero]
      · -- no line end in the window: it is the byte in front of it
        have hmem := hnear.resolve_left hshort
        have hlt : file.length - (apBufSz + 1) < file.length := by omega
        have hnext : file.length - (apBufSz + 1) + 1 = keep := by omega
        rw [drop_eq_getElem_cons hlt, hnext] at hmem
        have hend := (mem_cons.1 hmem).resolve_right hnone
        refine .inr ?_
        rw [← hnext, take_add_one, List.getElem?_eq_getElem hlt, ← hend]
        exact List.getLast?_concat
    · refine .inr ?_
      have htake : file.take keep =
          file.take (file.length - min apBufSz file.length) ++ (apWindow file).take k := by
        rw [hkeep, take_add, apWindow]
      rw [htake, List.getLast?_append, hlast]
      rfl

/-! ## Repaired files -/

/-- Nothing fails during a check. -/
structure ApSys.Works (sys : ApSys) (fmt : DlApFmt) (file : List UInt8) : Prop where
  opens : sys.opens = true
  truncates : sys.truncates = true
  reads : fmt ≠ .wdl →
    sys.fread (min apBufSz file.length) (apWindow file) = min apBufSz file.length

/-- There is nothing to repair. -/
structure ApIntact (fmt : DlApFmt) (file : List UInt8) : Prop where
  wdl : fmt = .wdl → ∀ bytes, file = wdlMagic ++ bytes →
    ∃ records : List (List UInt8), (∀ r ∈ records, WdlRecord r) ∧ bytes = records.flatten
  text : fmt ≠ .wdl → DlEnded file

variable {sys : ApSys} {fmt : DlApFmt} {file : List UInt8}

theorem apRepairTail_works (h : sys.Works fmt file) :
    sys.apRepairTail fmt file = file.take (sys.keep fmt file) := by
  rw [ApSys.apRepairTail]
  by_cases hnil : file = []
  · rw [if_pos (.inl hnil), hnil, take_nil]
  · have hgo : ¬(file = [] ∨ ¬sys.opens = true) := not_or.2 ⟨hnil, not_not.2 h.opens⟩
    rw [if_neg hgo]
    by_cases hlt : sys.keep fmt file < file.length
    · rw [if_pos ⟨hlt, h.truncates⟩]
    · rw [if_neg fun hcut => hlt hcut.1, take_of_length_le (Nat.not_lt.1 hlt)]

theorem apRepairTail_fails (h : ¬sys.Works fmt file) : sys.apRepairTail fmt file = file := by
  rw [ApSys.apRepairTail]
  by_cases hgo : file = [] ∨ ¬sys.opens = true
  · rw [if_pos hgo]
  · rw [if_neg hgo]
    obtain ⟨-, hopens⟩ := not_or.1 hgo
    by_cases hcut : sys.keep fmt file < file.length ∧ sys.truncates = true
    · refine absurd ⟨not_not.1 hopens, hcut.2, fun hfmt => ?_⟩ h
      by_contra hshort
      have hkeep : sys.keep fmt file = file.length := by
        rw [ApSys.keep, if_neg hfmt]
        rw [if_neg hshort]
      exact Nat.ne_of_lt hcut.1 hkeep
    · rw [if_neg hcut]

theorem repairsTail_wdl (h : sys.Works .wdl file) :
    RepairsTail .wdl file (sys.apRepairTail .wdl file) := by
  refine ⟨fun _ bytes hfile => ?_, fun hfmt => absurd rfl hfmt⟩
  subst hfile
  have htake : (wdlMagic ++ bytes).take
        (wdlMagic.length + (bytes.length - (wdlFramer.rest bytes).length)) =
      wdlMagic ++ bytes.take (bytes.length - (wdlFramer.rest bytes).length) :=
    take_length_add_append _
  refine ⟨_, ?_, longestRecords_rest bytes⟩
  rw [apRepairTail_works h, sys.keep_wdl bytes]
  exact htake

theorem repairsTail_text (hfmt : fmt ≠ .wdl) (h : sys.Works fmt file) :
    RepairsTail fmt file (sys.apRepairTail fmt file) ↔ LineEndNear file := by
  have hkeep := ApSys.keep_text hfmt (h.reads hfmt)
  obtain ⟨-, hnone, hended⟩ := keep_text_spec file hkeep
  rw [apRepairTail_works h, ← hended]
  refine ⟨fun hrepairs => (hrepairs.text hfmt).1, fun h => ⟨fun h => absurd h hfmt, fun _ => ?_⟩⟩
  refine ⟨h, ?_⟩
  have hlines := completeLines_append (file.take (sys.keep fmt file)) hnone
  rw [take_append_drop] at hlines
  exact hlines.symm

theorem repairsTail_self : RepairsTail fmt file file ↔ ApIntact fmt file := by
  constructor
  · intro h
    refine ⟨fun hfmt bytes hfile => ?_, fun hfmt => (h.text hfmt).1⟩
    obtain ⟨kept, hkept, hlongest⟩ := h.wdl hfmt bytes hfile
    obtain rfl : bytes = kept := append_cancel_left (hfile.symm.trans hkept)
    exact hlongest.records
  · intro h
    refine ⟨fun hfmt bytes hfile => ⟨bytes, hfile, ?_⟩, fun hfmt => ⟨h.text hfmt, rfl⟩⟩
    exact ⟨prefix_refl bytes, h.wdl hfmt bytes hfile, fun _ _ hbegins => hbegins.length_le⟩

theorem LineEndNear.of_ended (h : DlEnded file) : LineEndNear file := by
  rcases h with rfl | hend
  · exact .inl (Nat.zero_le _)
  · by_cases hshort : file.length ≤ apBufSz
    · exact .inl hshort
    · refine .inr (List.mem_of_getLast? ?_)
      rw [List.getLast?_drop, if_neg (by omega), hend]

/-- **Torn-tail repair** keeps the intact part if nothing fails and, in a text log, the
window or the byte in front of it has a line end; or there was nothing to repair. -/
theorem apRepairTail_repairs (sys : ApSys) (fmt : DlApFmt) (file : List UInt8) :
    RepairsTail fmt file (sys.apRepairTail fmt file) ↔
      (sys.Works fmt file ∧ (fmt ≠ .wdl → LineEndNear file)) ∨ ApIntact fmt file := by
  by_cases hworks : sys.Works fmt file
  · by_cases hfmt : fmt = .wdl
    · subst hfmt
      exact ⟨fun _ => .inl ⟨hworks, fun h => absurd rfl h⟩, fun _ => repairsTail_wdl hworks⟩
    · rw [repairsTail_text hfmt hworks]
      constructor
      · intro hnear
        exact .inl ⟨hworks, fun _ => hnear⟩
      · rintro (⟨-, hnear⟩ | hintact)
        · exact hnear hfmt
        · exact .of_ended (hintact.text hfmt)
  · rw [apRepairTail_fails hworks, repairsTail_self]
    exact ⟨.inr, fun h => h.resolve_left fun hw => hworks hw.1⟩

/-! ## Reads of whole buffers -/

/-- A system whose reads get all they want. -/
def ApSys.whole (mem : Bool) : ApSys where
  opens := mem
  fread want rest := min want rest.length
  truncates := true
  fread_le _ _ := Nat.le_refl _
  fread_pos _ _ hwant hrest := Nat.lt_min.2 ⟨hwant, List.length_pos_iff.2 hrest⟩

/-- A row and more than a window of zeros, as a power cut can leave them. -/
def zerosTail : List UInt8 := csvRow ++ List.replicate 4097 0

/-- What is left of them ends with a zero. -/
theorem apRepairTail_zeros :
    ¬RepairsTail .csv zerosTail ((ApSys.whole true).apRepairTail .csv zerosTail) := by
  have hrow : csvRow.length = 8 := rfl
  have hlength : zerosTail.length = 8 + 4097 := by
    rw [zerosTail, length_append, length_replicate, hrow]
  have hworks : (ApSys.whole true).Works .csv zerosTail := by
    refine ⟨rfl, rfl, fun _ => ?_⟩
    change min _ (apWindow zerosTail).length = _
    rw [length_apWindow, Nat.min_self]
  rw [repairsTail_text (by decide) hworks]
  rintro (hshort | hmem)
  · change zerosTail.length ≤ 4096 at hshort
    omega
  · have hzeros : zerosTail.drop (zerosTail.length - (apBufSz + 1)) = List.replicate 4097 0 := by
      rw [hlength]
      exact drop_left' hrow
    rw [hzeros] at hmem
    exact absurd (eq_of_mem_replicate hmem) (by decide)

end Meatpi
