import Meatpi.Autopid.DtcObd
import Meatpi.Autopid.DtcJ1939

/-!
# The conditional clear

`if_only` refuses a clear that would wipe an unlisted code. It looks at the
codes that were kept, the clear wipes the codes that are there, and the tables
in between drop codes without a word: the two agree on the networks none of
whose codes are dropped.
-/

namespace Meatpi

open List

variable {E : List EcuAnswer} {heard : ℕ → Bool} {dm1 : ℕ → Option (List UInt8)}

theorem codeTexts_isCode {codes : List (UInt8 × UInt8)} : ∀ c ∈ codeTexts codes, IsCode c := by
  intro c hc
  obtain ⟨pair, -, rfl⟩ := mem_map.mp hc
  exact apDtcFormat_isCode pair.1 pair.2

theorem reportedCodes_isCode : ∀ c ∈ reportedCodes E, IsCode c := by
  intro c hc
  obtain ⟨a, -, hc⟩ := mem_flatMap.mp hc
  exact codeTexts_isCode c hc

theorem keptCodes_isCode {L : List (ℕ × List Char)} : ∀ c ∈ keptCodes E L, IsCode c := by
  intro c hc
  have hmem := mem_eraseDups.mp (mem_of_mem_take hc)
  obtain ⟨a, -, hc⟩ := mem_flatMap.mp hmem
  exact codeTexts_isCode c (mem_of_mem_take hc)

theorem dm1Texts_isCode {sa : ℕ} : ∀ c ∈ dm1Texts dm1 sa, IsCode c := by
  intro c hc
  obtain ⟨d, -, rfl⟩ := mem_map.mp hc
  exact j1939DtcText_isCode d.spn d.fmi

theorem reportedDm1_isCode : ∀ c ∈ reportedDm1 heard dm1, IsCode c := by
  intro c hc
  obtain ⟨sa, -, hc⟩ := mem_flatMap.mp hc
  exact dm1Texts_isCode c hc

theorem keptDm1_isCode : ∀ c ∈ keptDm1 heard dm1, IsCode c := by
  intro c hc
  have hmem := mem_eraseDups.mp (mem_of_mem_take hc)
  obtain ⟨sa, -, hc⟩ := mem_flatMap.mp hmem
  exact dm1Texts_isCode c (mem_of_mem_take hc)

/-- **The conditional clear.** Whatever the ECUs answer to service 03 and however
their lines arrive, an allowed `if_only` clear wipes listed codes only, for
every code list, exactly when nothing was kept of the answers or no reported
code was dropped; and so for a J1939 network and the active codes of its
controllers. -/
theorem apDtcClearAllowed_ifOnly_iff (hint : Id29Hint) {E : List EcuAnswer}
    {L : List (ℕ × List Char)} {resp : List Char} (hreply : ObdReply E L)
    (htext : ReplyText (L.map Prod.snd) resp) (heard : ℕ → Bool) (dm1 : ℕ → Option (List UInt8)) :
    ((∀ csv, apDtcClearAllowed (apDtcObdCodes hint ['0', '3'] 0x43 (some resp)) csv .ifOnly = true →
        ∀ c ∈ reportedCodes E, Listed csv c) ↔
      keptCodes E L = [] ∨ ∀ c ∈ reportedCodes E, c ∈ keptCodes E L) ∧
    ((∀ csv, apDtcClearAllowed (presentCodes heard dm1) csv .ifOnly = true →
        ∀ c ∈ reportedDm1 heard dm1, Listed csv c) ↔
      keptDm1 heard dm1 = [] ∨ ∀ c ∈ reportedDm1 heard dm1, c ∈ keptDm1 heard dm1) := by
  constructor
  · rw [hreply.apDtcObdCodes_eq hint htext]
    exact clearIfOnly_safe_iff keptCodes_isCode reportedCodes_isCode
  · rw [presentCodes_eq]
    exact clearIfOnly_safe_iff keptDm1_isCode reportedDm1_isCode

theorem segmented_storedPayload (codes : List (UInt8 × UInt8)) (hlen : codes.length ≤ 255) :
    IsoTp.Segmented (storedPayload codes) (IsoTp.segment (storedPayload codes)) := by
  apply IsoTp.segmented_segment
  · simp [storedPayload]
  · have hflat : (codes.flatMap fun c => [c.1, c.2]).length = 2 * codes.length := by
      simp [length_flatMap, Nat.mul_comm]
    rw [storedPayload, length_cons, length_cons]
    omega

theorem engine_id : 0x7E8 < 0x800 := by decide

/-- An ECU that reports `codes`, its frames padded with zeros. -/
def ecuReporting (codes : List (UInt8 × UInt8)) (hlen : codes.length ≤ 255) : EcuAnswer where
  responder := .std 0x7E8 engine_id
  codes := codes
  frames := IsoTp.segment (storedPayload codes)
  segmented := segmented_storedPayload codes hlen

/-- The lines of one ECU, one after the other. -/
def linesOf (a : EcuAnswer) : List (ℕ × List Char) :=
  a.frames.map fun f => (a.id, printFrame a.responder f)

theorem obdReply_linesOf (a : EcuAnswer) : ObdReply [a] (linesOf a) where
  ascending := by simp
  interleaving := by
    have h := interleaving_alone (a.id, a.frames.map (printFrame a.responder))
    rwa [map_map] at h

theorem replyText_linesOf (hint : Id29Hint) (a : EcuAnswer) :
    ∃ resp, ReplyText ((linesOf a).map Prod.snd) resp := by
  refine ⟨_, replyText_lines ?_⟩
  intro l hl
  simp only [linesOf, map_map, mem_map, Function.comp_apply] at hl
  obtain ⟨f, hf, rfl⟩ := hl
  exact (readsAs_printFrame hint a.responder (a.segmented.read.2 f hf)).not_isFiller

/-- P0133 and U0155 from one ECU, one code from a controller. -/
theorem apDtcClearAllowed_ifOnly_iff_small :
    (∃ resp, ∀ csv,
      apDtcClearAllowed (apDtcObdCodes ⟨0, false⟩ ['0', '3'] 0x43 (some resp)) csv .ifOnly = true →
        ∀ c ∈ reportedCodes [ecuReporting [(0x01, 0x33), (0xC1, 0x55)] (by decide)], Listed csv c) ∧
    (∀ csv, apDtcClearAllowed
        (presentCodes (· == 0) fun _ => some [0x04, 0xFF, 0x6E, 0x00, 0x00, 0x01]) csv .ifOnly = true →
      ∀ c ∈ reportedDm1 (· == 0) fun _ => some [0x04, 0xFF, 0x6E, 0x00, 0x00, 0x01], Listed csv c) := by
  obtain ⟨resp, htext⟩ := replyText_linesOf ⟨0, false⟩
    (ecuReporting [(0x01, 0x33), (0xC1, 0x55)] (by decide))
  have hreply := obdReply_linesOf (ecuReporting [(0x01, 0x33), (0xC1, 0x55)] (by decide))
  obtain ⟨hobd, hj1939⟩ := apDtcClearAllowed_ifOnly_iff ⟨0, false⟩ hreply htext (· == 0)
    fun _ => some [0x04, 0xFF, 0x6E, 0x00, 0x00, 0x01]
  exact ⟨⟨resp, hobd.mpr (by decide)⟩, hj1939.mpr (by decide)⟩

/-- Thirty-three codes of one ECU, P0101 to P0121. -/
def manyCodes : List (UInt8 × UInt8) := (List.range 33).map fun n => (0x01, UInt8.ofNat (n + 1))

/-- The list names the first thirty-two, the clear is allowed, and P0121 goes. -/
theorem apDtcClearAllowed_ifOnly_drops :
    ∃ L resp, ObdReply [ecuReporting manyCodes (by decide)] L ∧ ReplyText (L.map Prod.snd) resp ∧
      ∃ csv, apDtcClearAllowed (apDtcObdCodes ⟨0, false⟩ ['0', '3'] 0x43 (some resp)) csv .ifOnly =
          true ∧
        ∃ c ∈ reportedCodes [ecuReporting manyCodes (by decide)], ¬ Listed csv c := by
  have hreply := obdReply_linesOf (ecuReporting manyCodes (by decide))
  obtain ⟨resp, htext⟩ := replyText_linesOf ⟨0, false⟩ (ecuReporting manyCodes (by decide))
  have hkept : keptCodes [ecuReporting manyCodes (by decide)]
      (linesOf (ecuReporting manyCodes (by decide))) = (codeTexts manyCodes).take 32 := by decide
  have hcode : ∀ c ∈ (codeTexts manyCodes).take 32, IsCode c :=
    fun c hc => codeTexts_isCode c (mem_of_mem_take hc)
  have hne : (codeTexts manyCodes).take 32 ≠ [] := by decide
  refine ⟨_, resp, hreply, htext, some (printTokens ((codeTexts manyCodes).take 32)), ?_, ?_⟩
  · rw [hreply.apDtcObdCodes_eq _ htext, hkept, apDtcClearAllowed_ifOnly hcode]
    exact ⟨hne, fun c hc => (listed_printTokens hne hcode (hcode c hc)).mpr hc⟩
  · have hlast : apDtcFormat 0x01 0x21 ∈ reportedCodes [ecuReporting manyCodes (by decide)] := by
      decide
    refine ⟨_, hlast, ?_⟩
    rw [listed_printTokens hne hcode (apDtcFormat_isCode 0x01 0x21)]
    decide

end Meatpi
