import Meatpi.Autopid.RespLines

/-!
# Response text to bytes (`autopid_resp.c`)

The collected lines become the framing-free payload (`ap_resp_to_payload`), one
payload per responder (`ap_resp_to_payloads`), or the frames as the chip prints
them with headers on (`ap_resp_frames`). The one shared line table behind its
lock is the list the tokenizer returns: a call sees nothing of the last one.
-/

namespace Meatpi

def apPayloadMax : ℕ := 128
def apFramesMax : ℕ := 256
def apRespEcusMax : ℕ := 8

def uint32Max : ℕ := 4294967295

/-- The error codes of `esp_err_t` these functions return. -/
inductive RespErr where
  /-- `ESP_FAIL`: the chip printed an error line -/
  | fail
  /-- `ESP_ERR_NOT_FOUND`: no data line -/
  | notFound
  deriving DecidableEq

/-- The copy loops (`frames_put` and the loops over `payload[n++]`): what fits. -/
def putBytes (max : ℕ) (out src : List UInt8) : List UInt8 :=
  out ++ src.take (max - out.length)

/-- `ap_payload_matches_cmd`, the command's leading hex pairs: at most three. -/
def cmdPairs : ℕ → List Char → List ℕ
  | 0, _ => []
  | fuel + 1, cmd =>
    match cmd.dropWhile (· == ' ') with
    | a :: b :: rest =>
      if a.isHexDigit && b.isHexDigit then hexNum [a, b] :: cmdPairs fuel rest else []
    | _ => []

def apPayloadMatchesCmd (cmd : List Char) (payload : List UInt8) : Bool :=
  match cmdPairs 3 cmd with
  | [] => true -- AT/ST/VT: nothing to verify
  | want0 :: wants =>
    match payload with
    | [] => false
    | p0 :: ps =>
      -- positive responses echo (service | 0x40) then the identifier
      decide (p0.toNat = (want0 + 0x40) % 256) &&
      (match wants, ps with
        | want1 :: _, p1 :: _ => decide (p1.toNat = want1)
        | _, _ => true) &&
      (match wants, ps with
        | [_, want2], _ :: p2 :: _ => !decide (want0 = 0x22) || decide (p2.toNat = want2)
        | _, _ => true)

/-- One turn of `assemble_header_frames`: the bytes so far and `expect`. -/
def assembleHeaderLine (header payloadMax : ℕ) (acc : List UInt8 × ℤ) (line : ApLine) :
    List UInt8 × ℤ :=
  if !line.hasHeader ∨ line.header ≠ header ∨ line.bytes.length ≤ line.ea then acc
  else
    -- behind the extended address byte when the line carries one
    let b := line.bytes.drop line.ea
    let b0 := (b.getD 0 0).toNat
    match b0 / 16 with
    | 0 => (putBytes payloadMax acc.1 ((b.drop 1).take (b0 % 16)), acc.2)
    | 1 =>
      if b.length < 2 then acc
      else (putBytes payloadMax acc.1 (b.drop 2), ((b0 % 16) * 256 + (b.getD 1 0).toNat : ℕ))
    | 2 => (putBytes payloadMax acc.1 (b.drop 1), acc.2)
    | _ => (putBytes payloadMax acc.1 b, acc.2) -- no PCI: the raw bytes

def assembleHeaderFrames (lines : List ApLine) (header payloadMax : ℕ) : List UInt8 :=
  let (payload, expect) := lines.foldl (assembleHeaderLine header payloadMax) ([], -1)
  if 0 ≤ expect then payload.take expect.toNat else payload

/-- The row loop of `assemble_headerless`: it stops at the first gap. -/
def assembleRows (payloadMax : ℕ) : ℤ → List UInt8 → List ApLine → List UInt8
  | _, payload, [] => payload
  | expect, payload, line :: lines =>
    if line.isoIndex < 0 then assembleRows payloadMax expect payload lines
    else if line.isoIndex ≠ expect % 16 then payload
    else assembleRows payloadMax (expect + 1) (putBytes payloadMax payload line.bytes) lines

/-- `assemble_headerless`; the caller passes at least one line. -/
def assembleHeaderless (lines : List ApLine) (isoTotal : ℤ) (payloadMax : ℕ) : List UInt8 :=
  if 0 ≤ (lines.head?.elim (-1) ApLine.isoIndex) ∨ 0 ≤ isoTotal then
    let payload := assembleRows payloadMax 0 [] lines
    if 0 ≤ isoTotal then payload.take isoTotal.toNat else payload
  else
    lines.foldl (fun payload line => putBytes payloadMax payload line.bytes) []

/-- The lowest responder id among the header lines. -/
def lowestHeader (lines : List ApLine) : ℕ :=
  lines.foldl
    (fun lowest line => if line.hasHeader ∧ line.header < lowest then line.header else lowest)
    uint32Max

/-- `lines[0].has_header` -/
def headersOn (lines : List ApLine) : Bool := lines.head?.elim false ApLine.hasHeader

/-- What the three entry points share: the lines, or the error they return. -/
def respLines (hint : Id29Hint) (resp : List Char) : Except RespErr Collected :=
  let c := apRespCollectLines hint resp apMaxLines
  if c.sawError then .error .fail
  else if c.lines = [] then .error .notFound
  else .ok c

/-- `*out_len = n`, or `ESP_ERR_NOT_FOUND` for no bytes. -/
def nonEmptyBytes (out : List UInt8) : Except RespErr (List UInt8) :=
  if out = [] then .error .notFound else .ok out

def apRespToPayload (hint : Id29Hint) (resp : List Char) (payloadMax : ℕ) :
    Except RespErr (List UInt8) := do
  let c ← respLines hint resp
  nonEmptyBytes
    (if headersOn c.lines then assembleHeaderFrames c.lines (lowestHeader c.lines) payloadMax
    else assembleHeaderless c.lines c.isoTotal payloadMax)

/-- The consecutive frames of `frames_from_payload`, from sequence number `sn`;
`fuel` bounds the loop over the rest of the payload. -/
def consecutiveFrames (outMax : ℕ) : ℕ → ℕ → List UInt8 → List UInt8 → List UInt8
  | 0, _, _, out => out
  | fuel + 1, sn, rest, out =>
    if rest = [] then out
    else
      let pci := UInt8.ofNat (0x20 + sn % 16)
      let out := putBytes outMax out [pci]
      let out := putBytes outMax out (rest.take 7)
      let out := putBytes outMax out (List.replicate (7 - rest.length) 0)
      consecutiveFrames outMax fuel (sn + 1) (rest.drop 7) out

/-- `frames_from_payload`: the frames the chip would have printed with headers
on for a reply it gave headers off. -/
def framesFromPayload (payload : List UInt8) (outMax : ℕ) : List UInt8 :=
  let len := payload.length
  if len = 0 then []
  else if len ≤ 7 then
    putBytes outMax (putBytes outMax [] [UInt8.ofNat len]) payload
  else
    let ff := [UInt8.ofNat (0x10 + (len / 256) % 16), UInt8.ofNat (len % 256)]
    let out := putBytes outMax (putBytes outMax [] ff) (payload.take 6)
    consecutiveFrames outMax len 1 (payload.drop 6) out

/-- `ap_resp_frames`; `s_flat` holds `AP_PAYLOAD_MAX` bytes. -/
def apRespFrames (hint : Id29Hint) (resp : List Char) (outMax : ℕ) :
    Except RespErr (List UInt8) := do
  let c ← respLines hint resp
  nonEmptyBytes
    (if headersOn c.lines then
      -- the LOWEST responder's lines, verbatim, in arrival order
      let lowest := lowestHeader c.lines
      c.lines.foldl
        (fun out line =>
          if line.hasHeader ∧ line.header = lowest then putBytes outMax out line.bytes else out)
        []
    else
      framesFromPayload (assembleHeaderless c.lines c.isoTotal apPayloadMax) outMax)

/-- `ap_resp_ecu_t`: one responder's payload. -/
structure ApRespEcu where
  header : ℕ
  payload : List UInt8
  deriving DecidableEq

/-- The place of `h` in the kept ids (`while (at < n_hdrs && hdrs[at] < h)`),
the shift behind it and the cap: the largest id falls out of a full table. -/
def insertHeader (maxEcus : ℕ) (hdrs : List ℕ) (h : ℕ) : List ℕ :=
  let at' := (hdrs.takeWhile (· < h)).length
  if hdrs[at']? = some h then hdrs
  else if hdrs.length < maxEcus then hdrs.take at' ++ h :: hdrs.drop at'
  else if maxEcus ≤ at' then hdrs
  else hdrs.take at' ++ h :: (hdrs.drop at').dropLast

/-- The distinct responder ids of the header lines, ascending, the lowest kept. -/
def respHeaders (maxEcus : ℕ) (lines : List ApLine) : List ℕ :=
  lines.foldl
    (fun hdrs line => if line.hasHeader then insertHeader maxEcus hdrs line.header else hdrs) []

/-- `ap_resp_to_payloads`: `.error` is its `-1`, an empty list its `0`. -/
def apRespToPayloads (hint : Id29Hint) (resp : List Char) (maxEcus : ℕ) :
    Except RespErr (List ApRespEcu) :=
  if maxEcus = 0 then .ok []
  else
    match respLines hint resp with
    | .error .fail => .error .fail
    | .error .notFound => .ok []
    | .ok c =>
      if headersOn c.lines then
        .ok (((respHeaders (min maxEcus apRespEcusMax) c.lines).map fun h =>
          (⟨h, assembleHeaderFrames c.lines h apPayloadMax⟩ : ApRespEcu)).filter
            fun ecu => !ecu.payload.isEmpty)
      else
        let payload := assembleHeaderless c.lines c.isoTotal apPayloadMax
        .ok (if payload = [] then [] else [⟨uint32Max, payload⟩])

end Meatpi
