import Meatpi.Autopid.RespPrint

/-!
# The answer of the chip to a UDS request (`uds_transport_at.c`, the parser)

With headers off the chip prints a single-frame answer as one line of bytes, a longer
one as a line with its length and rows `0:`, `1:`, and a response-pending line for
each `7F xx 78` it rode out. The parser goes line by line, with a look at the next
one to tell a length line from a message. What it keeps of the text is the last
message.
-/

namespace Meatpi

/-! ## Lines -/

/-- The ends of a line that are no part of it. -/
def isPrompt (c : Char) : Bool := c == ' ' || c == '>'

/-- A line without the blanks and prompts at its end and the blanks before it. -/
def udsTrim (line : List Char) : List Char := (line.rdropWhile isPrompt).dropWhile (· == ' ')

/-- `is_error_token`: a question mark, or a letter that is no hex digit; a line with
one is no data, known phrase or not. -/
def isErrorToken (tok : List Char) : Bool :=
  tok.any fun c => c == '?' || (decide ('G' ≤ c.toUpper) && decide (c.toUpper ≤ 'Z'))

def lineHasIndex (line : List Char) : Bool := line.contains ':'

/-- A row's line after its index. -/
def afterIndex (line : List Char) : List Char :=
  if lineHasIndex line then (line.dropWhile (· != ':')).drop 1 else line

/-- `collect_line_bytes`: the runs of exactly two hex digits. -/
def lineBytes (line : List Char) : List UInt8 :=
  (((afterIndex line).splitOnP fun c => !c.isHexDigit).filter fun run => run.length == 2).map
    fun run => UInt8.ofNat (hexNum run)

def lengthLineValue (line : List Char) : ℕ :=
  if line = [] ∨ 4 < line.length ∨ ¬line.all Char.isHexDigit then 0 else hexNum line

/-- A line that the look-ahead skips. -/
def isGap (line : List Char) : Bool := line.all (· == ' ')

/-- The next non-empty line is a row. -/
def nextIndexed : List (List Char) → Bool
  | [] => false
  | line :: rest => if isGap line then nextIndexed rest else lineHasIndex line

/-! ## The parser -/

/-- The locals of `uds_at_parse_response_len`; `msg` is the bytes of `out` so far. -/
structure UdsParse where
  msg : List UInt8
  complete : Bool
  inMulti : Bool
  total : ℕ
  announced : ℕ
  pending : ℕ

/-- Before the first line. -/
def UdsParse.init : UdsParse := ⟨[], false, false, 0, 0, 0⟩

/-- The end of a multi-frame message: the last frame's padding is cut off. -/
def finishMulti (s : UdsParse) : UdsParse :=
  if s.inMulti then
    let msg := if 0 < s.total then s.msg.take s.total else s.msg
    { s with inMulti := false, msg := msg, complete := !msg.isEmpty, announced := s.total }
  else s

/-- A single-frame message that says that the answer is still to come. -/
def isPending (m : List UInt8) : Bool :=
  match m with
  | [a, _, c] => a == 0x7F && c == 0x78
  | _ => false

/-- One turn of the line loop; `none` is its `return false`. -/
def udsLine (cap : ℕ) (s : UdsParse) (line : List Char) (indexedNext : Bool) : Option UdsParse :=
  let l := udsTrim line
  if l = [] then
    some s
  else if isErrorToken l then
    none
  else if lineHasIndex l then
    -- a row without a length line is tolerated
    let s := if s.inMulti then s
      else { s with inMulti := true, msg := [], complete := false, total := 0 }
    let m := lineBytes l
    if m ≠ [] ∧ cap < s.msg.length + m.length then none else some { s with msg := s.msg ++ m }
  else
    let s := finishMulti s
    if indexedNext then
      some { s with inMulti := true, msg := [], complete := false, total := lengthLineValue l }
    else
      let m := lineBytes l
      if 8 < m.length then none
      else if isPending m then some { s with pending := min 255 (s.pending + 1) }
      else if m = [] then some s
      else if cap < m.length then none
      else some { s with msg := m, complete := true, announced := 0 }

/-- The line loop. -/
def udsLines (cap : ℕ) : UdsParse → List (List Char) → Option UdsParse
  | s, [] => some s
  | s, line :: rest => (udsLine cap s line (nextIndexed rest)).bind fun s => udsLines cap s rest

/-- What `uds_at_parse_response_len` returns. -/
structure UdsAnswer where
  ok : Bool
  out : List UInt8
  pending : ℕ
  announced : ℕ
  deriving DecidableEq

def udsAtParseResponseLen (resp : List Char) (cap : ℕ) : UdsAnswer :=
  match udsLines cap .init (resp.splitOnP isEol) with
  | none => ⟨false, [], 0, 0⟩
  | some s =>
    let s := finishMulti s
    if s.complete then ⟨!s.msg.isEmpty, s.msg, s.pending, s.announced⟩
    else ⟨false, [], s.pending, 0⟩

def udsAtParseResponseEx (resp : List Char) (cap : ℕ) : Option (List UInt8) :=
  let r := udsAtParseResponseLen resp cap
  if r.ok ∧ r.announced ≤ r.out.length then some r.out else none

end Meatpi
