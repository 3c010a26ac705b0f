import Meatpi.Autopid.DtcCodec
import Meatpi.Autopid.RespEcus

/-!
# The stored codes of the ECUs that answer (`autopid_dtc_obd.c`)

`ap_dtc_obd_codes` asks a service of every ECU at once and merges what they
answer. Between the ECUs' codes and the merged list stand the line table, the
table of responders, the payload buffer and two code tables, each of a fixed
size. `keptCodes` says what gets through all of them, from the answers and the
order their lines arrive in (`apDtcObdCodes_eq`).
-/

namespace Meatpi

open List

variable {resp : List Char}

/-- `ap_dtc_obd_codes`, called for the codes only (no report); the reply is
`none` when the request failed. -/
def apDtcObdCodes (hint : Id29Hint) (cmd : List Char) (svc : UInt8) (reply : Option (List Char)) :
    List (List Char) :=
  match reply with
  | none => []
  | some resp =>
    match apRespToPayloads hint resp apRespEcusMax with
    | .error _ => []
    | .ok ecus =>
      ecus.foldl
        (fun out ecu =>
          if !apPayloadMatchesCmd cmd ecu.payload then out
          else
            match apDtcParseCodes ecu.payload svc apDtcMax with
            | none => out
            | some codes => apDtcMergeCodes out apDtcMax codes)
        []

/-! ## What the ECUs answer -/

/-- The answer to service 03: the service byte, how many codes, the codes. -/
def storedPayload (codes : List (UInt8 × UInt8)) : List UInt8 :=
  0x43 :: UInt8.ofNat codes.length :: codes.flatMap fun c => [c.1, c.2]

/-- An ECU, the codes it reports for service 03 and the frames they travel in. -/
structure EcuAnswer where
  responder : Responder
  codes : List (UInt8 × UInt8)
  frames : List (List UInt8)
  segmented : IsoTp.Segmented (storedPayload codes) frames

def EcuAnswer.id (a : EcuAnswer) : ℕ := a.responder.header

/-- The texts of codes; padding is none. -/
def codeTexts (codes : List (UInt8 × UInt8)) : List (List Char) :=
  (codes.filter isCodePair).map fun c => apDtcFormat c.1 c.2

/-- Every code that is reported. -/
def reportedCodes (E : List EcuAnswer) : List (List Char) := E.flatMap fun a => codeTexts a.codes

/-- What each ECU's reply reads as. -/
def answerLines (E : List EcuAnswer) : List (ℕ × List (List Char)) :=
  E.map fun a => (a.id, a.frames.map (printFrame a.responder))

/-- The ECUs, in the order of their ids, and their lines as they arrive: in any
interleaving. -/
structure ObdReply (E : List EcuAnswer) (L : List (ℕ × List Char)) : Prop where
  ascending : (E.map EcuAnswer.id).Pairwise (· < ·)
  interleaving : Interleaving (answerLines E) L

/-! ## What is kept of them -/

/-- How many of an ECU's lines the line table has room for. -/
def heard (L : List (ℕ × List Char)) (a : EcuAnswer) : ℕ :=
  ((L.take apMaxLines).filter (·.1 == a.id)).length

/-- The bytes of an answer that `k` frames carry and the payload buffer holds. -/
def EcuAnswer.keptBytes (a : EcuAnswer) (k : ℕ) : ℕ :=
  min apPayloadMax (min (storedPayload a.codes).length
    (IsoTp.carried (storedPayload a.codes).length k))

/-- The pairs that are read in the kept bytes: the first codes, or, when a frame
was cut off in the middle of a code, the pairs from the count byte on. -/
def EcuAnswer.keptPairs (a : EcuAnswer) (k : ℕ) : List (UInt8 × UInt8) :=
  if a.keptBytes k % 2 = 0 then a.codes.take ((a.keptBytes k - 2) / 2)
  else pairsOf (((storedPayload a.codes).take (a.keptBytes k)).drop 1)

/-- The codes kept of one answer. -/
def EcuAnswer.kept (a : EcuAnswer) (k : ℕ) : List (List Char) :=
  (codeTexts (a.keptPairs k)).take apDtcMax

/-- **The codes kept**: of the ECUs with a line in the table, the lowest ids; of
each, its first codes; of these, the first distinct ones. -/
def keptCodes (E : List EcuAnswer) (L : List (ℕ × List Char)) : List (List Char) :=
  (((E.filter (0 < heard L ·)).take apRespEcusMax).flatMap
    fun a => a.kept (heard L a)).eraseDups.take apDtcMax

/-! ## The lines heard -/

section Reply

variable {hint : Id29Hint} {E : List EcuAnswer} {L : List (ℕ × List Char)}

theorem EcuAnswer.id_le (a : EcuAnswer) : a.id ≤ uint32Max := a.responder.header_lt.le

theorem EcuAnswer.dataLines_frames (hint : Id29Hint) (a : EcuAnswer) :
    ∀ {fs : List (List UInt8)}, (∀ f ∈ fs, f ∈ a.frames) →
      dataLines hint (fs.map (printFrame a.responder)) = fs.map (frameLine a.responder) := by
  have hp : ¬ ResponsePending (storedPayload a.codes) := by
    rintro ⟨service, h⟩
    simp only [storedPayload, cons.injEq] at h
    exact absurd h.1 (by decide)
  intro fs
  induction fs with
  | nil => intro _; rfl
  | cons f fs ih =>
    intro hfs
    have hf := hfs f mem_cons_self
    have hread := (readsAs_printFrame hint a.responder (a.segmented.read.2 f hf)).read
    have hdata := not_lineIsPending_of_segmented a.responder a.segmented hp hf
    rw [map_cons, dataLines_cons, ih fun g hg => hfs g (mem_cons_of_mem _ hg)]
    simp [dataLines, hread, hdata]

theorem ObdReply.responders (h : ObdReply E L) (hint : Id29Hint)
    (part : EcuAnswer → List (List UInt8)) (hpart : ∀ a ∈ E, ∀ f ∈ part a, f ∈ a.frames) :
    Responders hint (E.map fun a => (a.id, (part a).map (printFrame a.responder))) where
  nodup := by
    rw [map_map]
    exact h.ascending.imp fun hlt => hlt.ne
  id_le := by
    intro r hr
    obtain ⟨a, -, rfl⟩ := mem_map.mp hr
    exact a.id_le
  lines := by
    intro r hr l hl
    obtain ⟨a, ha, rfl⟩ := mem_map.mp hr
    obtain ⟨f, hf, rfl⟩ := mem_map.mp hl
    exact printFrame_replyLine hint a.responder (a.segmented.read.2 f (hpart a ha f hf))

/-- The first frames of each ECU, as many as the table has lines of it. -/
def heardLines (E : List EcuAnswer) (L : List (ℕ × List Char)) : List (ℕ × List (List Char)) :=
  E.map fun a => (a.id, (a.frames.take (heard L a)).map (printFrame a.responder))

theorem ObdReply.responders_heard (h : ObdReply E L) (hint : Id29Hint) :
    Responders hint (heardLines E L) :=
  h.responders hint (fun a => a.frames.take (heard L a)) fun _ _ _ hf => mem_of_mem_take hf

theorem ObdReply.interleaving_heard (h : ObdReply E L) :
    Interleaving (heardLines E L) (L.take apMaxLines) where
  order := by
    intro r hr
    obtain ⟨a, ha, rfl⟩ := mem_map.mp hr
    have horder := h.interleaving.order _ (mem_map_of_mem ha)
    have hprefix : ((L.take apMaxLines).filter (·.1 == a.id)).map Prod.snd <+:
        (L.filter (·.1 == a.id)).map Prod.snd :=
      IsPrefix.map _ (IsPrefix.filter _ <| take_prefix apMaxLines L)
    have htake := prefix_iff_eq_take.mp hprefix
    rw [horder, length_map] at htake
    rw [htake, map_take]
    rfl
  tags := by
    intro x hx
    have htag := h.interleaving.tags x (mem_of_mem_take hx)
    rw [answerLines, map_map] at htag
    rw [heardLines, map_map]
    exact htag

theorem dataLines_take : ∀ {ls : List (List Char)},
    (∀ l ∈ ls, ∃ line, dataLines hint [l] = [line]) → ∀ n,
      (dataLines hint ls).take n = dataLines hint (ls.take n) := by
  intro ls
  induction ls with
  | nil => intro _ n; simp [dataLines]
  | cons l ls ih =>
    intro hls n
    cases n with
    | zero => rfl
    | succ n =>
      obtain ⟨line, hline⟩ := hls l mem_cons_self
      rw [dataLines_cons, hline, singleton_append, take_succ_cons, take_succ_cons,
        dataLines_cons, hline, singleton_append,
        ih fun g hg => hls g (mem_cons_of_mem _ hg)]

theorem ObdReply.collect (h : ObdReply E L) (hint : Id29Hint)
    (htext : ReplyText (L.map Prod.snd) resp) :
    apRespCollectLines hint resp apMaxLines =
      ⟨dataLines hint ((L.take apMaxLines).map Prod.snd), false, -1⟩ := by
  have hR : Responders hint (answerLines E) := h.responders hint EcuAnswer.frames fun _ _ _ hf => hf
  have hdata : ∀ l ∈ L.map Prod.snd, ∃ line, dataLines hint [l] = [line] := by
    intro l hl
    obtain ⟨x, hx, rfl⟩ := mem_map.mp hl
    obtain ⟨r, hr, hrx⟩ := mem_map.mp (h.interleaving.tags x hx)
    obtain ⟨a, ha, rfl⟩ := mem_map.mp hr
    have horder : (L.filter (·.1 == a.id)).map Prod.snd = a.frames.map (printFrame a.responder) :=
      h.interleaving.order _ hr
    have hmem : x.2 ∈ a.frames.map (printFrame a.responder) := by
      rw [← horder]
      exact mem_map_of_mem (mem_filter.mpr ⟨hx, by simp [← hrx]⟩)
    obtain ⟨f, hf, hfx⟩ := mem_map.mp hmem
    have hone : dataLines hint ([f].map (printFrame a.responder)) = [frameLine a.responder f] :=
      a.dataLines_frames hint (by simpa using hf)
    rw [← hfx]
    exact ⟨_, hone⟩
  rw [htext.collect_replyLines (h.interleaving.replyLine hR), dataLines_take hdata, map_take]

/-! ## The payloads -/

theorem EcuAnswer.two_le_keptBytes (a : EcuAnswer) (k : ℕ) : 2 ≤ a.keptBytes k := by
  have hlen : 2 ≤ (storedPayload a.codes).length := by simp [storedPayload]
  simp only [EcuAnswer.keptBytes, apPayloadMax, IsoTp.carried]
  split_ifs <;> omega

theorem EcuAnswer.frames_ne_nil (a : EcuAnswer) : a.frames ≠ [] := a.segmented.frames_ne_nil

theorem answering_heardLines (hint : Id29Hint) (E : List EcuAnswer) (L : List (ℕ × List Char)) :
    answering hint (heardLines E L) = (E.filter (0 < heard L ·)).map EcuAnswer.id := by
  rw [answering, heardLines, filter_map, map_map]
  congr 1
  apply filter_congr
  intro a _
  have hlines := a.dataLines_frames hint (fun f hf => mem_of_mem_take (i := heard L a) hf)
  simp only [Function.comp_apply, hlines, isEmpty_map]
  rcases Nat.eq_zero_or_pos (heard L a) with hzero | hpos
  · simp [hzero]
  · have hne : a.frames.take (heard L a) ≠ [] := by
      rw [Ne, take_eq_nil_iff, not_or]
      exact ⟨hpos.ne', a.frames_ne_nil⟩
    simp [hpos, hne]

theorem ObdReply.alonePayload_heard (h : ObdReply E L) (hint : Id29Hint) {a : EcuAnswer}
    (ha : a ∈ E) (hpos : 0 < heard L a) :
    alonePayload hint (heardLines E L) a.id =
      (storedPayload a.codes).take (a.keptBytes (heard L a)) := by
  have hmem : (a.id, (a.frames.take (heard L a)).map (printFrame a.responder)) ∈ heardLines E L :=
    mem_map_of_mem ha
  have hasm := assembleHeaderFrames_take a.responder apPayloadMax a.segmented hpos
  rw [(h.responders_heard hint).alonePayload_eq hmem,
    a.dataLines_frames hint (fun f hf => mem_of_mem_take hf)]
  refine hasm.trans ?_
  rw [take_take, EcuAnswer.keptBytes, take_eq_take_iff]
  omega

/-- **What `ap_resp_to_payloads` returns**: the kept bytes of the lowest ids. -/
theorem ObdReply.payloads (h : ObdReply E L) (hint : Id29Hint)
    (htext : ReplyText (L.map Prod.snd) resp) :
    apRespToPayloads hint resp apRespEcusMax =
      .ok (((E.filter (0 < heard L ·)).take apRespEcusMax).map fun a =>
        ⟨a.id, (storedPayload a.codes).take (a.keptBytes (heard L a))⟩) := by
  have hasc : ((E.filter (0 < heard L ·)).map EcuAnswer.id).Pairwise (· ≤ ·) :=
    (h.ascending.sublist (filter_sublist.map _)).imp fun hlt => hlt.le
  rw [h.interleaving_heard.payloads_of_collect (h.responders_heard hint) (h.collect hint htext),
    respondersPayloads, answering_heardLines, hasc.insertionSort_eq, Nat.min_self, ← map_take,
    map_map]
  congr 1
  have hmap : ∀ a ∈ (E.filter (0 < heard L ·)).take apRespEcusMax,
      (⟨a.id, alonePayload hint (heardLines E L) a.id⟩ : ApRespEcu) =
        ⟨a.id, (storedPayload a.codes).take (a.keptBytes (heard L a))⟩ := by
    intro a ha
    obtain ⟨haE, hpos⟩ := mem_filter.mp (mem_of_mem_take ha)
    rw [h.alonePayload_heard hint haE (by simpa using hpos)]
  rw [show (fun id => (⟨id, alonePayload hint (heardLines E L) id⟩ : ApRespEcu)) ∘ EcuAnswer.id =
    fun a => ⟨a.id, alonePayload hint (heardLines E L) a.id⟩ from rfl, map_congr_left hmap,
    filter_eq_self]
  intro ecu hecu
  obtain ⟨a, -, rfl⟩ := mem_map.mp hecu
  have hkept := a.two_le_keptBytes (heard L a)
  have hne : (storedPayload a.codes).take (a.keptBytes (heard L a)) ≠ [] := by
    rw [Ne, take_eq_nil_iff, not_or]
    exact ⟨by omega, by simp [storedPayload]⟩
  simpa using hne

/-! ## The codes -/

theorem pairsOf_take (codes : List (UInt8 × UInt8)) (n : ℕ) :
    pairsOf ((codes.flatMap fun c => [c.1, c.2]).take (2 * n)) = codes.take n := by
  induction codes generalizing n with
  | nil => simp [pairsOf]
  | cons c codes ih =>
    cases n with
    | zero => simp [pairsOf]
    | succ n =>
      rw [show 2 * (n + 1) = 2 * n + 1 + 1 by omega, flatMap_cons, cons_append,
        cons_append, nil_append, take_succ_cons, take_succ_cons, pairsOf, ih,
        take_succ_cons]

theorem EcuAnswer.parse_kept (a : EcuAnswer) (k : ℕ) :
    apDtcParseCodes ((storedPayload a.codes).take (a.keptBytes k)) 0x43 apDtcMax =
      some (a.kept k) := by
  obtain ⟨n, hn⟩ : ∃ n, a.keptBytes k = n + 2 :=
    ⟨a.keptBytes k - 2, by have := a.two_le_keptBytes k; omega⟩
  have hle : a.keptBytes k ≤ (storedPayload a.codes).length :=
    (Nat.min_le_right _ _).trans (Nat.min_le_left _ _)
  have hlen : ((a.codes.flatMap fun c => [c.1, c.2]).take n).length = n := by
    rw [length_take]
    simp only [storedPayload, length_cons] at hle
    omega
  have hbytes : (storedPayload a.codes).take (a.keptBytes k) =
      0x43 :: UInt8.ofNat a.codes.length :: (a.codes.flatMap fun c => [c.1, c.2]).take n := by
    rw [hn, storedPayload, take_succ_cons, take_succ_cons]
  have hpairs : pairsOf (((storedPayload a.codes).take (a.keptBytes k)).drop (pairsOff (n + 2))) =
      a.keptPairs k := by
    rw [EcuAnswer.keptPairs, hn, pairsOff]
    by_cases heven : n % 2 = 0
    · rw [if_neg (by omega), if_pos (by omega), ← hn, hbytes, drop_succ_cons,
        drop_succ_cons, drop_zero, ← pairsOf_take]
      congr 2
      omega
    · rw [if_pos (by omega), if_neg (by omega)]
  rw [hbytes, apDtcParseCodes_eq, ← hbytes, length_cons, hlen, hpairs, EcuAnswer.kept,
    codeTexts, map_take]

theorem storedPayload_matchesCmd (rest : List UInt8) :
    apPayloadMatchesCmd ['0', '3'] (0x43 :: rest) = true := by
  have hpairs : cmdPairs 3 ['0', '3'] = [3] := by decide
  rw [apPayloadMatchesCmd, hpairs]
  simp

/-- **The codes that get through.** -/
theorem ObdReply.apDtcObdCodes_eq (h : ObdReply E L) (hint : Id29Hint)
    (htext : ReplyText (L.map Prod.snd) resp) :
    apDtcObdCodes hint ['0', '3'] 0x43 (some resp) = keptCodes E L := by
  rw [apDtcObdCodes]
  simp only [h.payloads hint htext, foldl_map]
  have hstep : ∀ out, ∀ a ∈ (E.filter (0 < heard L ·)).take apRespEcusMax,
      (if !apPayloadMatchesCmd ['0', '3'] ((storedPayload a.codes).take (a.keptBytes (heard L a)))
        then out
        else
          match apDtcParseCodes ((storedPayload a.codes).take (a.keptBytes (heard L a))) 0x43
            apDtcMax with
          | none => out
          | some codes => apDtcMergeCodes out apDtcMax codes) =
        (a.kept (heard L a)).foldl (addDistinct apDtcMax) out := by
    intro out a _
    obtain ⟨n, hn⟩ : ∃ n, a.keptBytes (heard L a) = n + 1 :=
      ⟨a.keptBytes (heard L a) - 1, by have := a.two_le_keptBytes (heard L a); omega⟩
    have hmatch : apPayloadMatchesCmd ['0', '3']
        ((storedPayload a.codes).take (a.keptBytes (heard L a))) = true := by
      rw [hn]
      exact storedPayload_matchesCmd _
    rw [hmatch, a.parse_kept]
    simp [apDtcMergeCodes_eq]
  rw [foldl_ext _ _ _ hstep, ← foldl_flatMap]
  exact foldl_addDistinct apDtcMax _ ([] : List (List Char))

end Reply

end Meatpi
