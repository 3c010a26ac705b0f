import Mathlib.Data.List.Sort
import Meatpi.Library.Numeral
import Meatpi.Library.Text

/-!
# The export route

`GET /api/logger/export` reads the closed files of the parameter stream in pages.
A page starts where `since` says, takes the lines that match a name, and ends when
one of its budgets is spent: lines, bytes that go out, bytes that are read. Its
last line is a cursor for the next page. The client stays connected.
-/

namespace Meatpi

/-! ## Files -/

/-- A closed log file of the stream: the time in its name, and its bytes. -/
structure DlFile where
  epoch : ℕ
  text : List UInt8

def dlExportMaxFiles : ℕ := 64

/-- `dl_export_list_epochs`: the files of a folder, oldest first. -/
def dlExportListEpochs (dir : List DlFile) : List DlFile :=
  (dir.take dlExportMaxFiles).insertionSort fun f g => f.epoch ≤ g.epoch

/-- `dl_files_make`, for the parameter stream -/
def dlFilesMake (csv : Bool) (epoch : ℕ) : List UInt8 :=
  asciiBytes "dl_" ++ (digitsBE 10 10 epoch).map (fun d => (48 + d).toUInt8) ++
    asciiBytes (if csv then ".csv" else ".jsonl")

/-- The line ahead of the rows of a file. -/
def dlExportFileLine (csv : Bool) (epoch : ℕ) : List UInt8 :=
  asciiBytes "\x7b\"_file\":\"" ++ dlFilesMake csv epoch ++ asciiBytes "\"\x7d\n"

/-! ## Which lines go out -/

/-- `memchr`: what stands before the first such byte, and what stands after it. -/
def memchr (c : UInt8) : List UInt8 → Option (List UInt8 × List UInt8)
  | [] => none
  | b :: bs => if b = c then some ([], bs) else (memchr c bs).map fun r => (b :: r.1, r.2)

/-- What stands after the first place of a key. -/
def afterKey (key : List UInt8) : List UInt8 → Option (List UInt8)
  | [] => none
  | b :: bs => if key <+: b :: bs then some ((b :: bs).drop key.length) else afterKey key bs

/-- The parameter a line is about: the second field, or the text after its key. -/
def dlExportLineParam (csv : Bool) (line : List UInt8) : Option (List UInt8) :=
  if csv then
    ((memchr 44 line).bind fun r => memchr 44 r.2).map Prod.fst
  else
    ((afterKey (asciiBytes "\"param\":\"") line).bind (memchr 34)).map Prod.fst

/-- `dl_export_line_matches`: the whole parameter, or what follows a dot in it. -/
def dlExportLineMatches (csv : Bool) (name line : List UInt8) : Bool :=
  match dlExportLineParam csv line with
  | none => false
  | some value =>
    if value.length = name.length then
      value == name
    else
      decide (name.length < value.length) &&
        value[value.length - name.length - 1]? == some 46 &&
        value.drop (value.length - name.length) == name

def dlExportLineIsMarker (csv : Bool) (line : List UInt8) : Bool :=
  (afterKey (asciiBytes (if csv then ",logger.clock_step," else "\"event\":\"clock_step\""))
    line).isSome

/-- What a page is asked for. -/
structure DlExportQuery where
  csv : Bool
  name : List UInt8
  limit : ℤ

/-- A line that goes out: no marker, and what is asked for. -/
def DlExportQuery.sends (q : DlExportQuery) (line : List UInt8) : Bool :=
  !dlExportLineIsMarker q.csv line &&
    (q.name.isEmpty || dlExportLineMatches q.csv q.name line)

/-! ## The walk through a window -/

/-- `lines_left`, `bytes_left` and `scan_left` -/
structure DlBudget where
  lines : ℤ
  bytes : ℤ
  scan : ℤ

/-- The loops of the page end. -/
def DlBudget.spent (b : DlBudget) : Bool :=
  !(decide (0 < b.lines) && decide (0 < b.bytes) && decide (0 < b.scan))

/-- A walk through a window, as far as it has come. -/
structure DlWalk where
  consumed : ℕ
  stop : Bool
  budget : DlBudget
  sent : List (List UInt8)

/-- One complete line of the window. The first line of a page always goes out. -/
def dlExportLine (q : DlExportQuery) (line : List UInt8) (w : DlWalk) : DlWalk :=
  if q.sends line then
    if w.budget.bytes < line.length ∧ w.budget.lines < q.limit then
      { w with stop := true }
    else
      { consumed := w.consumed + line.length
        stop := decide (w.budget.lines - 1 = 0) || decide (w.budget.bytes - line.length ≤ 0)
        budget :=
          { w.budget with
            lines := w.budget.lines - 1
            bytes := w.budget.bytes - line.length }
        sent := w.sent ++ [line] }
  else
    { w with
      consumed := w.consumed + line.length
      stop := decide (w.budget.lines = 0) || decide (w.budget.bytes ≤ 0) }

/-- `dl_export_walk`, `line` being what stands since the last line end. -/
def dlExportWalk (q : DlExportQuery) : List UInt8 → List UInt8 → DlWalk → DlWalk
  | _, [], w => w
  | line, c :: buf, w =>
    if c = 10 then
      if (dlExportLine q (line ++ [c]) w).stop then
        dlExportLine q (line ++ [c]) w
      else
        dlExportWalk q [] buf (dlExportLine q (line ++ [c]) w)
    else
      dlExportWalk q (line ++ [c]) buf w

/-! ## A page -/

/-- What goes out: the line ahead of a file, a row, or a window without a line end. -/
inductive DlExportChunk where
  | file (line : List UInt8)
  | row (line : List UInt8)
  | raw (window : List UInt8)
  deriving DecidableEq

/-- What one window of a file does to the page. -/
structure DlWindow where
  consumed : ℕ
  /-- the file is left here -/
  leave : Bool
  budget : DlBudget
  sent : List DlExportChunk

/-- `sizeof(buf)` -/
def dlExportWindowSize : ℕ := 1024

/-- One window, from the cursor on. -/
def dlExportWindow (q : DlExportQuery) (rest : List UInt8) (b : DlBudget) : DlWindow :=
  let n := min (min dlExportWindowSize rest.length) b.scan.toNat
  let w := dlExportWalk q [] (rest.take n)
    { consumed := 0, stop := false, budget := b, sent := [] }
  if w.consumed = 0 ∧ ¬w.stop then
    if n < rest.length ∧ n = dlExportWindowSize then
      -- a record longer than the window goes out raw, or is skipped by a filter
      { consumed := n
        leave := false
        budget :=
          { w.budget with
            bytes := if q.name.isEmpty then w.budget.bytes - n else w.budget.bytes
            scan := w.budget.scan - n }
        sent := if q.name.isEmpty then [.raw (rest.take n)] else [] }
    else
      { consumed := 0, leave := true, budget := w.budget, sent := [] }
  else
    { consumed := w.consumed
      leave := w.stop
      budget := { w.budget with scan := w.budget.scan - w.consumed }
      sent := w.sent.map .row }

/-- What a page reads of a file: where it stops, and what goes out. -/
structure DlReading where
  off : ℕ
  budget : DlBudget
  sent : List DlExportChunk

/-- The windows of a file, from the cursor on. A window that goes on consumes
something, so the bytes that are left bound their number. -/
def dlExportWindows (q : DlExportQuery) : ℕ → List UInt8 → ℕ → DlBudget → DlReading
  | 0, _, off, b => { off := off, budget := b, sent := [] }
  | fuel + 1, rest, off, b =>
    if b.spent ∨ rest = [] then
      { off := off, budget := b, sent := [] }
    else
      let w := dlExportWindow q rest b
      if w.leave then
        { off := off + w.consumed, budget := w.budget, sent := w.sent }
      else
        let r := dlExportWindows q fuel (rest.drop w.consumed) (off + w.consumed) w.budget
        { r with sent := w.sent ++ r.sent }

/-- `<file-epoch>:<offset>` -/
structure DlCursor where
  epoch : ℤ
  off : ℕ
  deriving DecidableEq

/-- What the client gets. -/
structure DlExportPage where
  sent : List DlExportChunk
  cursor : DlCursor
  more : Bool
  deriving DecidableEq

/-- The loop over the files. `epoch` is `cur_epoch`, that of the last file read. -/
def dlExportFiles (q : DlExportQuery) : ℤ → List DlFile → ℕ → DlBudget → DlExportPage
  | epoch, [], off, _ => { sent := [], cursor := ⟨epoch, off⟩, more := false }
  | epoch, file :: later, off, b =>
    if b.spent then
      { sent := [], cursor := ⟨epoch, off⟩, more := false }
    else
      let head := dlExportFileLine q.csv file.epoch
      let r := dlExportWindows q (file.text.length + 1) (file.text.drop off) off
        { b with bytes := b.bytes - head.length }
      if r.off < file.text.length then
        -- a budget is spent, or the tail of a record is still to come
        { sent := .file head :: r.sent, cursor := ⟨file.epoch, r.off⟩, more := true }
      else if later.isEmpty then
        { sent := .file head :: r.sent, cursor := ⟨file.epoch, r.off⟩, more := false }
      else
        let page := dlExportFiles q file.epoch later 0 r.budget
        { page with sent := .file head :: r.sent ++ page.sent }

/-! ## A request -/

/-- The `since` of a request. -/
inductive DlSince where
  | start
  /-- a cursor of ours -/
  | exact (cursor : DlCursor)
  /-- a moment in time, in seconds or in milliseconds -/
  | moment (time : ℤ)

/-- `since_epoch` -/
def DlSince.epoch : DlSince → ℤ
  | .start => 0
  | .exact cursor => cursor.epoch
  | .moment time => if 100000000000 < time then time / 1000 else time

/-- `dl_export_start`: the place of the first file, and the offset in it. -/
def dlExportStart (epochs : List ℕ) (since : DlSince) : ℕ × ℕ :=
  if since.epoch ≤ 0 ∨ epochs = [] then
    (0, 0)
  else
    match since with
    | .exact cursor =>
      let idx := epochs.findIdx fun (e : ℕ) => decide (cursor.epoch ≤ e)
      if (epochs[idx]?).map Int.ofNat = some cursor.epoch then (idx, cursor.off) else (idx, 0)
    | _ =>
      -- the last file opened at or before the moment, or the first one
      (epochs.zipIdx.foldl (fun idx e => if (e.1 : ℤ) ≤ since.epoch then e.2 else idx) 0, 0)

/-- The `limit` of a request. -/
def dlExportLimit : Option ℤ → ℤ
  | none => 500
  | some limit => if limit < 1 ∨ 2000 < limit then 500 else limit

/-- The budgets of a page. -/
def dlExportBudget (limit : ℤ) : DlBudget := { lines := limit, bytes := 65536, scan := 512 * 1024 }

/-- The page of a request to the two line-oriented engines. -/
def dlExportPage (dir : List DlFile) (q : DlExportQuery) (since : DlSince) : DlExportPage :=
  let files := dlExportListEpochs dir
  let start := dlExportStart (files.map DlFile.epoch) since
  dlExportFiles q ((files.drop start.1).head?.elim since.epoch fun f => f.epoch)
    (files.drop start.1) start.2 (dlExportBudget q.limit)

/-- What a request says. -/
structure DlExportRequest where
  stream : Option String
  since : DlSince
  limit : Option ℤ
  name : List UInt8

def dlExportGetHandler (format : Option String) (dir : List DlFile) (r : DlExportRequest) :
    Except String DlExportPage :=
  if format = some "jsonl" ∨ format = some "csv" then
    if r.stream.all (· = "params") then
      .ok (dlExportPage dir
        { csv := decide (format = some "csv"), name := r.name, limit := dlExportLimit r.limit }
        r.since)
    else
      .error "only stream=params"
  else
    .error "params stream is not jsonl or csv"

end Meatpi
