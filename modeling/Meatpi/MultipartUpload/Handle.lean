import Mathlib.Data.List.DropRight
import Meatpi.MultipartUpload.Callbacks
import Meatpi.MultipartUpload.Dechunk

/-!
# Handling an upload (`multipart_upload_handle`)

The boundary comes from the `Content-Type`, or from the first line of the body, which
is then read ahead. The body comes with a length, up to the end of the connection, or
in chunked coding.
-/

namespace Meatpi

/-- What `httpd_req_recv` answers: a timeout, or bytes. Where there is no more answer,
it fails or finds the connection closed. -/
inductive MpRecv where
  | timeout
  | data (bytes : List UInt8)

/-- The part of an `httpd_req_t` that is used. -/
structure MpRequest where
  contentType : Option (List UInt8)
  transferEncoding : Option (List UInt8)
  contentLen : ℕ
  /-- the answers to the calls of `httpd_req_recv`, each cut to what was asked for -/
  reads : List MpRecv

def requestIsChunked (req : MpRequest) : Bool :=
  let te := req.transferEncoding.getD []
  if te.length = 0 ∨ 128 < te.length then false
  else (ciStrstr (ascii "chunked") (cString te)).isSome

/-! ## The boundary -/

/-- The loop of `parse_boundary_from_content_type` over the tokens. -/
def boundaryLoop (outLen : ℕ) : ℕ → List UInt8 → Option (List UInt8)
  | 0, _ => none
  | fuel + 1, p =>
    let start := p.dropWhile fun c => c = 32 || c = 59
    let token := start.takeWhile fun c => c ≠ 59
    if start = [] then none
    else if 9 ≤ token.length ∧ startsWithCi (ascii "boundary=") start then
      let b := start.drop 9
      let text := if b.head? = some 34 then b.tail.takeWhile fun c => c ≠ 34
        else (token.drop 9).rdropWhile fun c => c = 32
      if outLen < text.length + 2 + 1 then none else some (45 :: 45 :: text)
    else boundaryLoop outLen fuel (start.drop token.length)

def parseBoundaryFromContentType (ct : List UInt8) (outLen : ℕ) : Option (List UInt8) :=
  boundaryLoop outLen (ct.length + 1) (cString ct)

/-- The boundary that the header gives. -/
def headerBoundary (req : MpRequest) : Option (List UInt8) :=
  let ct := req.contentType.getD []
  if 0 < ct.length ∧ ct.length < 256 then parseBoundaryFromContentType ct 256 else none

def extractBoundaryFromFirstLine (data : List UInt8) (maxLen : ℕ) : Option (List UInt8) :=
  let line := if 13 ∈ data then data.takeWhile (· ≠ 13) else data.takeWhile (· ≠ 10)
  if 13 ∉ data ∧ 10 ∉ data then none
  else if maxLen ≤ line.length then none
  else some line

def findBytes (pat : List UInt8) : List UInt8 → Option ℕ
  | [] => none
  | c :: rest =>
    if pat = [] then none
    else if pat.isPrefixOf (c :: rest) then some 0
    else (findBytes pat rest).map (· + 1)

/-! ## Reading ahead -/

/-- What is there after the boundary was read from the body. -/
structure MpAhead where
  boundary : List UInt8
  /-- `rx`, `initial_len` bytes of it -/
  rx : List UInt8
  dc : Dechunker
  reads : List MpRecv

/-- The loop that reads ahead, for a body that is not chunked: each read overwrites
the one before. -/
def readAhead (rxSize : ℕ) : List MpRecv → Option MpAhead
  | [] => none
  | .timeout :: reads => readAhead rxSize reads
  | .data bytes :: reads =>
    let got := bytes.take rxSize
    if got = [] then none
    else
      (extractBoundaryFromFirstLine got 256).elim
        (if rxSize ≤ got.length then none else readAhead rxSize reads)
        fun b => some ⟨b, got, .init, reads⟩

/-- The loop over what one read gave, until something is decoded. -/
def aheadRounds : ℕ → Dechunker → List UInt8 → ℕ → Option (Dechunker × List UInt8)
  | 0, dc, _, _ => some (dc, [])
  | fuel + 1, dc, raw, room =>
    if raw = [] ∨ room = 0 then some (dc, [])
    else
      let d := dechunkerConsume dc raw room
      if d.1.state = .error then none
      else if d.2.2 ≠ [] then some (d.1, d.2.2)
      else if d.2.1 = 0 then some (d.1, [])
      else aheadRounds fuel d.1 (raw.drop d.2.1) room

/-- The loop that reads ahead, for a chunked body: what is decoded is collected. -/
def readAheadChunked (rxSize : ℕ) : Dechunker → List UInt8 → List MpRecv → Option MpAhead
  | _, _, [] => none
  | dc, rx, .timeout :: reads => readAheadChunked rxSize dc rx reads
  | dc, rx, .data bytes :: reads =>
    let got := bytes.take rxSize
    if got = [] then none
    else
      (aheadRounds got.length dc got (rxSize - rx.length)).bind fun r =>
        let rx' := rx ++ r.2
        (if rx' = [] then none else extractBoundaryFromFirstLine rx' 256).elim
          (if rxSize ≤ rx'.length then none else readAheadChunked rxSize r.1 rx' reads)
          fun b => some ⟨b, rx', r.1, reads⟩

/-- Feeding what was read ahead, from the boundary on when it is not at the start. -/
def feedAhead (h : MpHandlers) (m : MpRun) (boundary rx : List UInt8) : MpRun × Bool :=
  if rx = [] then (m, true)
  else
    let r := mpExecute h m rx
    let pos := (findBytes (cString boundary) rx).getD 0
    if r.2 then r
    else if 0 < pos then mpExecute h r.1 (rx.drop pos)
    else r

/-! ## Reading on -/

/-- A body of known length. -/
def readKnown (h : MpHandlers) (rxSize : ℕ) : ℤ → MpRun → List MpRecv → MpRun × Bool
  | remaining, m, [] => (m, decide (remaining ≤ 0))
  | remaining, m, .timeout :: reads =>
    if remaining ≤ 0 then (m, true) else readKnown h rxSize remaining m reads
  | remaining, m, .data bytes :: reads =>
    if remaining ≤ 0 then (m, true)
    else
      let got := bytes.take (min remaining.toNat rxSize)
      if got = [] then (m, false)
      else
        let r := mpExecute h m got
        if r.2 then readKnown h rxSize (remaining - got.length) r.1 reads else r

/-- A body up to the end of the connection. -/
def readToEnd (h : MpHandlers) (rxSize : ℕ) : MpRun → List MpRecv → MpRun × Bool
  | m, [] => (m, true)
  | m, .timeout :: reads => readToEnd h rxSize m reads
  | m, .data bytes :: reads =>
    let got := bytes.take rxSize
    if got = [] then (m, true)
    else
      let r := mpExecute h m got
      if r.2 then readToEnd h rxSize r.1 reads else r

/-- The loop over what one read gave: decoded and fed. -/
def chunkRounds (h : MpHandlers) (rxSize : ℕ) :
    ℕ → Dechunker → MpRun → List UInt8 → Dechunker × MpRun × Bool
  | 0, dc, m, _ => (dc, m, true)
  | fuel + 1, dc, m, raw =>
    if raw = [] then (dc, m, true)
    else
      let d := dechunkerConsume dc raw rxSize
      if d.1.state = .error then (d.1, m, false)
      else
        let r := if d.2.2 = [] then (m, true) else mpExecute h m d.2.2
        if r.2 = false then (d.1, r.1, false)
        else if d.2.1 = 0 then (d.1, r.1, true)
        else chunkRounds h rxSize fuel d.1 r.1 (raw.drop d.2.1)

/-- A body in chunked coding. -/
def readChunked (h : MpHandlers) (rxSize : ℕ) : Dechunker → MpRun → List MpRecv → MpRun × Bool
  | dc, m, [] => (m, decide (dc.state = .done))
  | dc, m, .timeout :: reads =>
    if dc.state = .done then (m, true) else readChunked h rxSize dc m reads
  | dc, m, .data bytes :: reads =>
    if dc.state = .done then (m, true)
    else
      let got := bytes.take rxSize
      if got = [] then (m, false)
      else
        let r := chunkRounds h rxSize got.length dc m got
        if r.2.2 then readChunked h rxSize r.1 r.2.1 reads else r.2

/-! ## The upload -/

/-- `int remaining = req->content_len` -/
def contentRemaining (contentLen : ℕ) : ℤ :=
  if contentLen % 2 ^ 32 < 2 ^ 31 then (contentLen % 2 ^ 32 : ℕ)
  else (contentLen % 2 ^ 32 : ℕ) - 2 ^ 32

/-- The loop for the body at hand. -/
def readOn (h : MpHandlers) (rxSize : ℕ) (chunked : Bool) (contentLen : ℕ) (dc : Dechunker)
    (m : MpRun) (reads : List MpRecv) : MpRun × Bool :=
  if chunked then readChunked h rxSize dc m reads
  else if 0 < contentRemaining contentLen then
    readKnown h rxSize (contentRemaining contentLen) m reads
  else readToEnd h rxSize m reads

/-- The rest of the function, with the boundary at hand. -/
def uploadFrom (h : MpHandlers) (rxSize : ℕ) (chunked : Bool) (contentLen : ℕ) (a : MpAhead) :
    MpRun × Bool :=
  let i := feedAhead h ⟨.init a.boundary, .init⟩ a.boundary a.rx
  if i.2 then readOn h rxSize chunked contentLen a.dc i.1 a.reads else i

/-- `rx_size` -/
def rxSizeOf (rxBufSize : ℕ) : ℕ := if rxBufSize ≠ 0 then rxBufSize else 1024

/-- What the body is read with: the header's boundary, or the first line's. -/
def aheadOf (req : MpRequest) (rxSize : ℕ) : Option MpAhead :=
  (headerBoundary req).elim
    (if requestIsChunked req then readAheadChunked rxSize .init [] req.reads
      else readAhead rxSize req.reads)
    fun b => some ⟨b, [], .init, req.reads⟩

/-- `multipart_upload_handle`: whether it returns `ESP_OK`, and the calls it made. -/
def multipartUploadHandle (h : MpHandlers) (req : MpRequest) (rxBufSize : ℕ) :
    Bool × List MpCall :=
  (aheadOf req (rxSizeOf rxBufSize)).elim (false, []) fun a =>
    let r := uploadFrom h (rxSizeOf rxBufSize) (requestIsChunked req) req.contentLen a
    (r.2 && !r.1.ctx.hadError, r.1.ctx.calls)

end Meatpi
