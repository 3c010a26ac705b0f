import Meatpi.UdsManager.AtMessages

/-!
# The UDS transaction over the chip (`uds_at_transceive_ex`)

The target is set up, then the request goes out as one line, up to three times: again
with the digit its lines need when the answer was cut, and again as it is when the
parser found no answer on the text. A service that changes the server's state goes
out without a digit and is not asked again for a cut answer, but an unreadable text
sends it again like any other.
-/

namespace Meatpi

/-! ## The lines sent -/

/-- `esp_err_t`, as far as it is told apart here. -/
inductive UdsErr where
  | ok
  | invalidArg
  | invalidSize
  | invalidResponse
  | other (code : ℕ)
  deriving DecidableEq

structure UdsAddr where
  extId : Bool
  txId : ℕ
  rxId : ℕ

def udsAtProtocol (canKbps : ℕ) (extId : Bool) : Char :=
  if canKbps = 250 then if extId then '9' else '8'
  else if extId then '7' else '6'

def udsAtLinesFor (total : ℕ) : ℕ :=
  if total ≤ 7 then 1 else min 255 (1 + (total - 6 + 6) / 7)

/-- The services that must not go out twice. -/
def notRepeatable : List UInt8 := [0x27, 0x29, 0x31, 0x38, 0x84]

def udsAtFirstDigit (sid : UInt8) : Option Char :=
  if sid ∈ notRepeatable then none else some '1'

def udsAtReqMax : ℕ := 64

/-- `hex_no_space`, into a buffer of `cap` characters. -/
def hexNoSpace (b : List UInt8) (cap : ℕ) : List Char := (b.take ((cap - 1) / 2)).flatMap hexByte

/-- The lines that set the target up. -/
def udsAtSetup (canKbps : ℕ) (addr : UdsAddr) (p2Ms : ℕ) : List (List Char) :=
  ["ATTP".toList ++ [udsAtProtocol canKbps addr.extId]] ++
    (if addr.extId then
      ["ATCP".toList ++ hexWord 2 (addr.txId / 2 ^ 24 % 0x20),
        "ATSH".toList ++ hexWord 6 (addr.txId % 0x1000000),
        "ATCRA".toList ++ hexWord 8 addr.rxId]
    else
      ["ATSH".toList ++ hexWord 3 (addr.txId % 0x800),
        "ATCRA".toList ++ hexWord 3 (addr.rxId % 0x800)]) ++
    ["ATH0".toList, "ATCAF1".toList, "ATS1".toList,
      -- the chip's own wait, in units of 4 ms
      "ATST".toList ++ hexWord 2 (min 0xFF (max 0x0A (p2Ms / 4)))]

/-! ## The transaction -/

/-- A transaction: the lines sent, what the call returns and, when that is `ok`, the
answer and `*pending_out`. -/
structure UdsTxn where
  setup : List (List Char)
  sends : List (List Char)
  err : UdsErr
  resp : List UInt8
  pending : ℕ

/-- What `req_fn` gives for each sending of the request: its result and the text in
the buffer. -/
abbrev UdsChip := ℕ → UdsErr × List Char

/-- The attempts that are left, from the `attempt`-th on: the lines sent, the result,
the answer and the pending count. -/
def udsAttempts (chip : UdsChip) (cmd : List Char) (cap : ℕ) (repeatable : Bool) :
    ℕ → ℕ → Option Char → UdsErr → UdsTxn
  | 0, _, _, err => ⟨[], [], err, [], 0⟩
  | left + 1, attempt, digit, _ =>
    let line := cmd ++ digit.toList
    let (err, text) := chip attempt
    if err ≠ .ok then ⟨[], [line], err, [], 0⟩
    else
      let r := udsAtParseResponseLen text cap
      if r.ok then
        if r.out.length < r.announced then
          -- cut short: never handed over as a message
          if !repeatable then ⟨[], [line], .invalidSize, [], 0⟩
          else
            let lines := udsAtLinesFor r.announced
            let t := udsAttempts chip cmd cap repeatable left (attempt + 1)
              (if lines ≤ 15 then some (hexChar lines) else none) .invalidSize
            { t with sends := line :: t.sends }
        else ⟨[], [line], .ok, r.out, r.pending⟩
      else
        let t := udsAttempts chip cmd cap repeatable left (attempt + 1) digit .invalidResponse
        { t with sends := line :: t.sends }

def udsAtTransceiveEx (chip : UdsChip) (canKbps : ℕ) (addr : UdsAddr) (req : List UInt8)
    (cap p2Ms : ℕ) (skipSetup : Bool) : UdsTxn :=
  match req with
  | [] => ⟨[], [], .invalidArg, [], 0⟩
  | sid :: _ =>
    if udsAtReqMax < req.length then ⟨[], [], .invalidArg, [], 0⟩
    else
      let digit := udsAtFirstDigit sid
      let t := udsAttempts chip (hexNoSpace req (2 * udsAtReqMax + 2)) cap digit.isSome 3 0 digit
        .invalidResponse
      { t with setup := if skipSetup then [] else udsAtSetup canKbps addr p2Ms }

/-! ## When the request goes out again -/

/-- A line of bytes from the server. -/
def isDataLine (line : List Char) : Bool :=
  !isErrorLine line && !(lineBytes (udsTrim line)).isEmpty

/-- The server answered something. -/
def hasData (text : List Char) : Bool := (text.splitOnP isEol).any isDataLine

/-- No answer can be read from the text: a line is no data, a message does not fit,
or every message only says that the answer is still to come. -/
def Unread (cap : ℕ) (text : List Char) : Prop :=
  let lines := text.splitOnP isEol
  udsRefused cap lines = true ∨ udsAnswer (udsMessages lines) = none

theorem parse_ok_iff (cap : ℕ) (text : List Char) :
    (udsAtParseResponseLen text cap).ok = false ↔ Unread cap text := by
  rw [udsAtParseResponseLen_eq, Unread]
  cases href : udsRefused cap (text.splitOnP isEol) with
  | true => simp [href]
  | false =>
    cases hans : udsAnswer (udsMessages (text.splitOnP isEol)) with
    | none => simp [href, hans]
    | some a => simp [href, hans]

/-- The request went out again only while the server had said nothing. -/
def AgainUnanswered (chip : UdsChip) (t : UdsTxn) : Prop :=
  ∀ i, i + 1 < t.sends.length → ∀ j ≤ i, hasData (chip j).2 = false

theorem udsAttempts_once (chip : UdsChip) (cmd : List Char) (cap left attempt : ℕ)
    (digit : Option Char) (err : UdsErr) :
    (udsAttempts chip cmd cap false (left + 1) attempt digit err).sends.length =
      if (chip attempt).1 = .ok ∧ (udsAtParseResponseLen (chip attempt).2 cap).ok = false then
        (udsAttempts chip cmd cap false left (attempt + 1) digit .invalidResponse).sends.length + 1
      else 1 := by
  rw [udsAttempts]
  by_cases herr : (chip attempt).1 = .ok
  · cases hok : (udsAtParseResponseLen (chip attempt).2 cap).ok with
    | false => simp [herr, hok]
    | true =>
      by_cases hcut : (udsAtParseResponseLen (chip attempt).2 cap).out.length <
          (udsAtParseResponseLen (chip attempt).2 cap).announced
      · simp [herr, hok, hcut]
      · simp [herr, hok, hcut]
  · simp [herr]

/-- A reply that has data on it and no answer that can be read: the data stands beside
a line that is no data, does not fit, or only says that the answer is still to come. -/
def LostData (cap : ℕ) (reply : UdsErr × List Char) : Prop :=
  reply.1 = .ok ∧ Unread cap reply.2 ∧ hasData reply.2 = true

theorem length_sends_once (chip : UdsChip) (canKbps : ℕ) (addr : UdsAddr) (sid : UInt8)
    (params : List UInt8) (cap p2Ms : ℕ) (skipSetup : Bool) (hsid : sid ∈ notRepeatable)
    (hlen : ¬udsAtReqMax < (sid :: params).length) {n : ℕ}
    (hn : (udsAtTransceiveEx chip canKbps addr (sid :: params) cap p2Ms
      skipSetup).sends.length = n) :
    (1 < n ↔ (chip 0).1 = .ok ∧ Unread cap (chip 0).2) ∧
      (2 < n ↔ ((chip 0).1 = .ok ∧ Unread cap (chip 0).2) ∧
        ((chip 1).1 = .ok ∧ Unread cap (chip 1).2)) ∧ n ≤ 3 := by
  have hdigit : udsAtFirstDigit sid = none := if_pos hsid
  simp only [udsAtTransceiveEx, if_neg hlen, hdigit, Option.isSome_none] at hn
  rw [udsAttempts_once, udsAttempts_once, udsAttempts_once, udsAttempts, List.length_nil] at hn
  simp only [← parse_ok_iff]
  split_ifs at hn with h0 h1 h2
  · exact ⟨by simp [h0]; omega, by simp [h0, h1]; omega, by omega⟩
  · exact ⟨by simp [h0]; omega, by simp [h0, h1]; omega, by omega⟩
  · exact ⟨by simp [h0]; omega, by simp [h1]; omega, by omega⟩
  · exact ⟨by simp [h0]; omega, by simp [h0]; omega, by omega⟩

/-- **A service that changes the server's state** is sent again only while the server
had said nothing, exactly as long as no reply holds data that cannot be read as an
answer. -/
theorem sent_again_unanswered_iff (chip : UdsChip) (canKbps : ℕ) (addr : UdsAddr) (sid : UInt8)
    (params : List UInt8) (cap p2Ms : ℕ) (skipSetup : Bool) (hsid : sid ∈ notRepeatable) :
    AgainUnanswered chip
        (udsAtTransceiveEx chip canKbps addr (sid :: params) cap p2Ms skipSetup) ↔
      udsAtReqMax < (sid :: params).length ∨ (¬LostData cap (chip 0) ∧
          ((chip 0).1 = .ok → Unread cap (chip 0).2 → ¬LostData cap (chip 1))) := by
  by_cases hlen : udsAtReqMax < (sid :: params).length
  · refine ⟨fun _ => .inl hlen, fun _ i hi => ?_⟩
    simp only [udsAtTransceiveEx, if_pos hlen, List.length_nil] at hi
    omega
  obtain ⟨h1, h2, h3⟩ :=
    length_sends_once chip canKbps addr sid params cap p2Ms skipSetup hsid hlen rfl
  constructor
  · intro hagain
    refine .inr ⟨?_, ?_⟩
    · rintro ⟨hok, hun, hdata⟩
      have := hagain 0 (h1.mpr ⟨hok, hun⟩) 0 le_rfl
      rw [hdata] at this
      cases this
    · rintro hok hun ⟨hok1, hun1, hdata⟩
      have := hagain 1 (h2.mpr ⟨⟨hok, hun⟩, hok1, hun1⟩) 1 le_rfl
      rw [hdata] at this
      cases this
  · rintro (h | ⟨hfirst, hsecond⟩)
    · exact absurd h hlen
    intro i hi j hj
    rw [Bool.eq_false_iff]
    intro hdata
    obtain ⟨hok, hun⟩ := h1.mp (by omega)
    rcases Nat.eq_zero_or_pos j with rfl | hj0
    · exact hfirst ⟨hok, hun, hdata⟩
    · obtain ⟨-, hok1, hun1⟩ := h2.mp (by omega)
      have hj1 : j = 1 := by omega
      rw [hj1] at hdata
      exact hsecond hok hun ⟨hok1, hun1, hdata⟩

/-- The chip prints nothing for the first sending, and the answer for the next. -/
def lateChip : UdsChip := fun i => (.ok, if i = 0 then "\r>".toList else "71 01 02\r\r>".toList)

/-- A routine goes out twice, and the server had said nothing. -/
theorem sent_again_unanswered_iff_late :
    (udsAtTransceiveEx lateChip 500 ⟨false, 0x7E0, 0x7E8⟩ [0x31, 1, 2, 3] 64 50 false).sends.length =
        2 ∧
      AgainUnanswered lateChip
        (udsAtTransceiveEx lateChip 500 ⟨false, 0x7E0, 0x7E8⟩ [0x31, 1, 2, 3] 64 50 false) := by
  refine ⟨by decide +kernel, (sent_again_unanswered_iff lateChip 500 ⟨false, 0x7E0, 0x7E8⟩ 0x31
    [1, 2, 3] 64 50 false (by decide)).mpr (.inr ⟨fun hlost => ?_, fun _ _ hlost => ?_⟩)⟩
  · exact absurd hlost.2.2 (by decide +kernel)
  · exact absurd ((parse_ok_iff 64 (lateChip 1).2).mpr hlost.2.1) (by decide +kernel)

/-- The chip rode out a response-pending line and printed no answer after it. -/
def pendingChip : UdsChip := fun _ => (.ok, "7F 31 78\r\r>".toList)

/-- A routine that the server answered with `7F 31 78` is started again. -/
theorem routine_started_again :
    (0x31 : UInt8) ∈ notRepeatable ∧ ¬AgainUnanswered pendingChip
        (udsAtTransceiveEx pendingChip 500 ⟨false, 0x7E0, 0x7E8⟩ [0x31, 1, 2, 3] 64 50 false) := by
  refine ⟨by decide, fun hagain => ?_⟩
  have hsent : 0 + 1 < (udsAtTransceiveEx pendingChip 500 ⟨false, 0x7E0, 0x7E8⟩ [0x31, 1, 2, 3]
      64 50 false).sends.length := by decide +kernel
  have hdata : hasData (pendingChip 0).2 = true := by decide +kernel
  have := hagain 0 hsent 0 le_rfl
  rw [hdata] at this
  cases this

end Meatpi
