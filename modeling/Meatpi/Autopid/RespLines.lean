import Meatpi.Library.Numeral
import Mathlib.Data.List.DropRight

/-!
# The chip's lines (`autopid_resp_lines.c`)

One line of chip text becomes its bytes, its CAN header and its ISO-TP row
index. A text is its characters up to the terminating NUL; a `bytes` array with
its count `n` is a list.
-/

namespace Meatpi

def apLineMax : ℕ := 128
def apMaxLines : ℕ := 64

/-- `LONG_MAX` of the 32-bit target, where `strtol` saturates. -/
def longMax : ℕ := 2147483647

/-- `ap_line_t`; `isoIndex` is the `N:` row index, `-1` without one. -/
structure ApLine where
  bytes : List UInt8
  header : ℕ
  hasHeader : Bool
  isoIndex : ℤ
  bareValue : ℤ
  isBare : Bool
  ea : ℕ

/-- `memset(out, 0, ..)` and `iso_index = -1`. -/
def ApLine.init : ApLine := ⟨[], 0, false, -1, 0, false, 0⟩

/-- `ap_resp_set_id29_hint`: the row's receive filter id (0 = none) and
whether the protocol in effect is 29-bit. -/
structure Id29Hint where
  rxId : ℕ
  proto29 : Bool

def isHexStr (tok : List Char) : Bool := !tok.isEmpty && tok.all Char.isHexDigit

/-- `strtol(tok, NULL, 16)` of a run of hex digits. -/
def strtol16 (tok : List Char) : ℤ := min (hexNum tok) longMax

def isBlank (c : Char) : Bool := c == ' ' || c == '\t'

/-- The tokens of a line, between runs of blanks. -/
def lineTokens (line : List Char) : List (List Char) :=
  (line.splitOnP isBlank).filter (!·.isEmpty)

/-- One turn of the token loop of `parse_line`, with `n_tok`; `none` is its
`return false`. -/
def parseToken (s : ApLine × ℕ) (tok : List Char) : Option (ApLine × ℕ) :=
  let (out, nTok) := s
  if apLineMax ≤ tok.length then none
  else if nTok = 0 ∧ 2 ≤ tok.length ∧ tok.getLast? = some ':' ∧ isHexStr tok.dropLast then
    -- "N:" ISO-TP row marker (first token only)
    some ({ out with isoIndex := strtol16 tok.dropLast }, nTok + 1)
  else if !isHexStr tok then none
  else if tok.length = 2 ∨ (tok.length = 1 ∧ 0 < nTok) then
    if apLineMax / 2 ≤ out.bytes.length then none
    else some ({ out with bytes := out.bytes ++ [UInt8.ofNat (hexNum tok)] }, nTok + 1)
  else if nTok = 0 then
    -- first token, not a byte: CAN header, or a bare ISO-TP length line
    let out :=
      if tok.length = 3 ∨ tok.length = 8 then
        { out with header := hexNum tok, hasHeader := true }
      else out
    some ({ out with bareValue := strtol16 tok, isBare := true }, nTok + 1)
  else none

/-- The end of `parse_line`: bare only when no bytes followed. -/
def parseLineEnd (out : ApLine) : Option ApLine :=
  let out :=
    if out.bytes ≠ [] ∨ 0 ≤ out.isoIndex then { out with isBare := false } else out
  if out.bytes ≠ [] ∨ out.isBare ∨ 0 ≤ out.isoIndex then some out else none

def parseLine (line : List Char) : Option ApLine := do
  let (out, _) ← (lineTokens line).foldlM parseToken (ApLine.init, 0)
  parseLineEnd out

/-- `pci_fits`: a plausible ISO-TP PCI byte for the `rest` bytes after it. -/
def pciFits (pci : UInt8) (rest : ℕ) : Bool :=
  match pci.toNat / 16 with
  | 0 => decide (1 ≤ pci.toNat % 16) && decide (pci.toNat % 16 ≤ rest)
  | 1 => decide (2 ≤ rest)
  | 2 => true
  | _ => false

/-- `frame_whole`: a whole ISO-TP frame as the chip prints it with headers on.
The caller passes at least two bytes. -/
def frameWhole (d : List UInt8) : Bool :=
  let d0 := (d.getD 0 0).toNat
  let d1 := (d.getD 1 0).toNat
  match d0 / 16 with
  | 0 =>
    let len := d0 % 16
    decide (1 ≤ len) && decide (len ≤ 7) && (decide (d.length = len + 1) || decide (d.length = 8))
  | 1 => decide (d.length = 8) && decide (8 ≤ (d0 % 16) * 256 + d1)
  | 2 => decide (d.length = 8)
  | _ => false

/-- The four bytes of a printed 29-bit id. -/
def idOfBytes (b : List UInt8) : ℕ := ofDigitsBE 256 ((b.take 4).map UInt8.toNat)

/-- `b[0] == 0x18 && b[1] == 0xDA && b[2] == 0xF1` -/
def legislated (b : List UInt8) : Bool := b.take 3 == [0x18, 0xDA, 0xF1]

/-- Do the bytes of a line without a header read as a 29-bit id and a frame?
The conditions of `take_id29` on the bytes alone. -/
def readsAsId29 (hint : Id29Hint) (b : List UInt8) : Bool :=
  let hinted := decide (hint.rxId ≠ 0) && decide (idOfBytes b = hint.rxId)
  let d := b.drop 4
  decide (6 ≤ b.length) &&
  (if legislated b || hinted then
    -- a known id: the PCI after it, or after an extended address byte
    pciFits (d.getD 0 0) (d.length - 1) ||
      (decide (3 ≤ d.length) && decide (3 < (d.getD 0 0).toNat / 16) &&
        pciFits (d.getD 1 0) (d.length - 2))
  else if hint.proto29 then
    -- the protocol hint alone wants a whole frame behind the four bytes
    frameWhole d
  else false)

/-- `take_id29`: the chip prints a 29-bit id as four byte tokens. -/
def takeId29 (hint : Id29Hint) (line : ApLine) : ApLine :=
  if line.hasHeader ∨ 0 ≤ line.isoIndex then line
  else if readsAsId29 hint line.bytes then
    { line with header := idOfBytes line.bytes, hasHeader := true, bytes := line.bytes.drop 4 }
  else line

/-- `take_ea`: an extended address byte before the PCI. -/
def takeEa (line : ApLine) : ApLine :=
  if line.hasHeader ∧ 3 ≤ line.bytes.length ∧ 3 < (line.bytes.getD 0 0).toNat / 16 ∧
      pciFits (line.bytes.getD 1 0) (line.bytes.length - 2) then
    { line with ea := 1 }
  else line

/-- `line_is_pending`: `7F <service> 78`, the ECU asks for more time. -/
def lineIsPending (line : ApLine) : Bool :=
  if 0 ≤ line.isoIndex then false
  else if !line.hasHeader then
    decide (line.bytes.length = 3) && line.bytes.getD 0 0 == 0x7F && line.bytes.getD 2 0 == 0x78
  else
    let d := line.bytes.drop line.ea
    decide (4 ≤ d.length) && d.getD 0 0 == 0x03 && d.getD 1 0 == 0x7F && d.getD 3 0 == 0x78

/-- `NOISE[]` of `line_is_noise` -/
def noiseWords : List (List Char) :=
  ["SEARCHING".toList, "BUS INIT".toList, "OK".toList, "STOPPED".toList]

/-- `ERR[]` of `line_is_error` -/
def errWords : List (List Char) :=
  ["NO DATA".toList, "ERROR".toList, "CAN ERROR".toList, "UNABLE TO CONNECT".toList, "?".toList]

def lineIsNoise (line : List Char) : Bool := noiseWords.any (·.isPrefixOf line)

def lineIsError (line : List Char) : Bool := errWords.any (·.isPrefixOf line)

/-- What `ap_resp_collect_lines` has gathered; `isoTotal` is the bare length
line, `-1` without one. -/
structure Collected where
  lines : List ApLine
  sawError : Bool
  isoTotal : ℤ

def Collected.init : Collected := ⟨[], false, -1⟩

/-- What is trimmed off the end of a line: blanks and the prompt. -/
def isTail (c : Char) : Bool := c == ' ' || c == '>'

/-- The trim of one line: the prompt and blanks behind, blanks before, and no
more than the buffer holds. -/
def trimLine (line : List Char) : List Char :=
  ((line.rdropWhile isTail).dropWhile (· == ' ')).take (apLineMax - 1)

/-- What a trimmed line of data becomes once it parsed. -/
def keepParsed (hint : Id29Hint) (acc : Collected) (parsed : ApLine) : Collected :=
  let parsed := takeEa (takeId29 hint parsed)
  if parsed.isBare then { acc with isoTotal := parsed.bareValue }
  else if lineIsPending parsed then acc
  else { acc with lines := acc.lines ++ [parsed] }

/-- One turn of the line loop of `ap_resp_collect_lines`. -/
def collectLine (hint : Id29Hint) (max : ℕ) (acc : Collected) (line : List Char) : Collected :=
  if max ≤ acc.lines.length then acc
  else
    let buf := trimLine line
    if buf = [] then acc
    else if lineIsError buf then { acc with sawError := true }
    else if lineIsNoise buf then acc
    else
      match parseLine buf with
      | some parsed => keepParsed hint acc parsed
      | none => acc

def isEol (c : Char) : Bool := c == '\r' || c == '\n'

/-- `ap_resp_collect_lines`. The source steps from a line end over the whole
run of them; the empty lines inside a run collect nothing. -/
def apRespCollectLines (hint : Id29Hint) (resp : List Char) (max : ℕ) : Collected :=
  (resp.splitOnP isEol).foldl (collectLine hint max) Collected.init

end Meatpi
