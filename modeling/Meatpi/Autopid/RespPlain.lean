import Meatpi.Autopid.RespFrames

/-!
# A plain reply under the 29-bit hint

With headers off and no row index, a line of one to seven bytes is the answer
itself. On a 29-bit protocol `take_id29` may still find an id in it: four bytes
and then a single frame trimmed to its length, which takes six bytes or seven and
leaves one or two.
-/

namespace Meatpi

open Bool List

variable {payloadMax : ℕ}

section Plain

variable (hint : Id29Hint) {bs : List UInt8} {resp : List Char}

/-- Four bytes and a single frame of one or two bytes, trimmed. -/
def LooksLikeFrame (bs : List UInt8) : Prop :=
  6 ≤ bs.length ∧ (bs.getD 4 0).toNat = bs.length - 5

theorem frameWhole_short (h6 : 6 ≤ bs.length) (h7 : bs.length ≤ 7) :
    frameWhole (bs.drop 4) = true ↔ (bs.getD 4 0).toNat = bs.length - 5 := by
  have hd : (bs.drop 4).getD 0 0 = bs.getD 4 0 := by simp [getD_eq_getElem?_getD]
  have hlen : (bs.drop 4).length = bs.length - 4 := length_drop
  have h8 : ¬ (bs.length - 4 = 8) := by omega
  rw [frameWhole, hd]
  simp only [hlen, h8, decide_false, Bool.false_and, Bool.or_false]
  split
  case h_1 hnibble =>
    simp only [and_eq_true, decide_eq_true_eq]
    omega
  case h_2 hnibble => exact ⟨fun h => (by cases h), fun h => by omega⟩
  case h_3 hnibble => exact ⟨fun h => (by cases h), fun h => by omega⟩
  case h_4 hzero _ _ => exact ⟨fun h => (by cases h), fun h => absurd (by omega) hzero⟩

theorem readsAsId29_hint (h7 : bs.length ≤ 7) (hleg : legislated bs = false)
    (hrx : 4 ≤ bs.length → hint.rxId ≠ idOfBytes bs) :
    readsAsId29 hint bs = true ↔ hint.proto29 = true ∧ LooksLikeFrame bs := by
  by_cases h6 : 6 ≤ bs.length
  · have hid : idOfBytes bs ≠ hint.rxId := fun h => hrx (by omega) h.symm
    rw [readsAsId29, LooksLikeFrame, ← frameWhole_short h6 h7]
    cases hint.proto29 <;> simp [h6, hleg, hid]
  · simp [readsAsId29, LooksLikeFrame, h6]

theorem apRespToPayload_plain (hne : bs ≠ []) (h7 : bs.length ≤ 7)
    (hread : readsAsId29 hint bs = false) (hp : ¬ ResponsePending bs)
    (htext : ReplyText [printPlain bs] resp) (hmax : bs.length ≤ payloadMax) :
    apRespToPayload hint resp payloadMax = .ok bs := by
  have hcollect := collect_plain hint hne h7 htext
  have hpend := not_lineIsPending_plain hp
  rw [takeEa_takeId29_plain hint hread, filter_cons_of_pos (by simp [hpend])] at hcollect
  have hbytes : assembleHeaderless [{ ApLine.init with bytes := bs }] (-1) payloadMax = bs := by
    simp [assembleHeaderless, ApLine.init, putBytes_nil, take_of_length_le hmax]
  have hoff : headersOn [{ ApLine.init with bytes := bs }] = false := rfl
  simp only [apRespToPayload, respLines, hcollect, filter_nil, false_eq_true, if_false,
    bind, Except.bind, hoff, hbytes, cons_ne_nil, nonEmptyBytes, hne]

theorem length_assembleHeaderLine_le (header payloadMax : ℕ) (expect : ℤ) (line : ApLine) :
    (assembleHeaderLine header payloadMax ([], expect) line).1.length ≤ line.bytes.length := by
  have hput : ∀ src : List UInt8, src.length ≤ line.bytes.length →
      (putBytes payloadMax [] src).length ≤ line.bytes.length := by
    intro src hsrc
    rw [putBytes_nil, length_take]
    omega
  rw [assembleHeaderLine]
  by_cases hskip : (!line.hasHeader) = true ∨ line.header ≠ header ∨ line.bytes.length ≤ line.ea
  · rw [if_pos hskip]
    exact Nat.zero_le _
  · rw [if_neg hskip]
    simp only
    split
    case h_1 => exact hput _ (by simp only [length_take, length_drop]; omega)
    case h_2 =>
      split_ifs
      · exact Nat.zero_le _
      · exact hput _ (by simp only [length_drop]; omega)
    case h_3 => exact hput _ (by simp only [length_drop]; omega)
    case h_4 => exact hput _ (by simp only [length_drop]; omega)

theorem apRespToPayload_taken (hne : bs ≠ []) (h7 : bs.length ≤ 7)
    (hread : readsAsId29 hint bs = true) (htext : ReplyText [printPlain bs] resp) :
    apRespToPayload hint resp payloadMax ≠ .ok bs := by
  have hcollect := collect_plain hint hne h7 htext
  obtain ⟨line, hline, hh, hbytes, hpend⟩ := taken_plain hint h7 hread
  have h6 : 6 ≤ bs.length := by
    simp only [readsAsId29, and_eq_true, decide_eq_true_eq] at hread
    exact hread.1
  rw [hline, filter_cons_of_pos (by simp [hpend]), filter_nil] at hcollect
  have hon : headersOn [line] = true := hh
  obtain ⟨out, hout⟩ : ∃ out,
      out = assembleHeaderFrames [line] (lowestHeader [line]) payloadMax := ⟨_, rfl⟩
  have hlen : out.length ≤ line.bytes.length := by
    have hone := length_assembleHeaderLine_le (lowestHeader [line]) payloadMax (-1) line
    rw [hout, assembleHeaderFrames, foldl_cons, foldl_nil]
    simp only
    split_ifs
    · rw [length_take]
      omega
    · exact hone
  have hdrop : line.bytes.length = bs.length - 4 := by rw [hbytes, length_drop]
  simp only [apRespToPayload, respLines, hcollect, false_eq_true, if_false, bind, Except.bind,
    hon, if_true, cons_ne_nil, ← hout]
  intro h
  rw [nonEmptyBytes] at h
  split_ifs at h
  cases h
  omega

/-- **A plain reply** comes back whole exactly when the line does not look like an
id and a frame, or the protocol is no 29-bit one. -/
theorem apRespToPayload_plain_iff {payloadMax : ℕ} (hne : bs ≠ []) (h7 : bs.length ≤ 7)
    (hp : ¬ ResponsePending bs) (hleg : legislated bs = false)
    (hrx : 4 ≤ bs.length → hint.rxId ≠ idOfBytes bs) (htext : ReplyText [printPlain bs] resp)
    (hmax : bs.length ≤ payloadMax) :
    apRespToPayload hint resp payloadMax = .ok bs ↔
      ¬ (hint.proto29 = true ∧ LooksLikeFrame bs) := by
  rw [← readsAsId29_hint hint h7 hleg hrx]
  cases hread : readsAsId29 hint bs with
  | false => simp [apRespToPayload_plain hint hne h7 hread hp htext hmax]
  | true => simp [apRespToPayload_taken hint hne h7 hread htext]

end Plain

/-- The answer `62 F1 90 41 02 11 22`. -/
def idLikeReply : List UInt8 := [0x62, 0xF1, 0x90, 0x41, 0x02, 0x11, 0x22]

/-- On a 29-bit protocol it comes back as two bytes. -/
theorem apRespToPayload_idLikeReply : ∃ resp, ReplyText [printPlain idLikeReply] resp ∧
    ¬ ResponsePending idLikeReply ∧ legislated idLikeReply = false ∧ 0 ≠ idOfBytes idLikeReply ∧
    apRespToPayload ⟨0, true⟩ resp 128 ≠ .ok idLikeReply := by
  have hp : ¬ ResponsePending idLikeReply := by
    rintro ⟨service, h⟩
    cases h
  refine ⟨_, replyText_lines (by decide), hp, rfl, by decide, ?_⟩
  exact apRespToPayload_taken ⟨0, true⟩ (by decide) (by decide) rfl (replyText_lines (by decide))

/-- A byte more in the value, and it comes back whole. -/
theorem apRespToPayload_plain_iff_whole : ∃ resp,
    apRespToPayload ⟨0, true⟩ resp 128 = .ok [0x62, 0xF1, 0x90, 0x41, 0x03, 0x11, 0x22] := by
  have hp : ¬ ResponsePending [0x62, 0xF1, 0x90, 0x41, 0x03, 0x11, 0x22] := by
    rintro ⟨service, h⟩
    cases h
  exact ⟨_, (apRespToPayload_plain_iff ⟨0, true⟩ (by decide) (by decide) hp rfl
    (fun _ => by decide) (replyText_lines (by decide)) (by decide)).mpr
    fun h => absurd h.2.2 (by decide)⟩

end Meatpi
