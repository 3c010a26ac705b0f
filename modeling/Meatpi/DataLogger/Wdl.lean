import Meatpi.DataLogger.Ring
import Meatpi.Library.Inline
import Meatpi.Library.Numeral
import Meatpi.Library.Run
import Meatpi.Library.Text

/-!
# The `.wdl` format

A binary log: four bytes of magic, then records of a type byte and fields. A
parameter is named by a number, which a definition gives it on its first use after
an open. An open cuts a torn tail off the file and starts the numbers again.
-/

namespace Meatpi

open Library

/-! ## The registry -/

def dlSourceMax : ℕ := 16
def dlNameMax : ℕ := 32

structure DlParamEntry where
  used : Bool
  source : List UInt8
  name : List UInt8
  dbId : ℕ
  source_lt : source.length < dlSourceMax
  name_lt : name.length < dlNameMax

/-- A free entry. -/
def DlParamEntry.free : DlParamEntry where
  used := false
  source := []
  name := []
  dbId := 0
  source_lt := by decide
  name_lt := by decide

/-- The place of a parameter in the registry, of `DL_MAX_PARAMS`. -/
abbrev DlParam := Fin 256

/-- The file of a stream and the registry. -/
structure DlWdl where
  params : DlParam → DlParamEntry
  nextId : UInt16
  file : Option (List UInt8)
  isOpen : Bool

/-- The loop of `data_logger_register_param`: the entry of a parameter, or a free
one. -/
def dlFindParam (params : DlParam → DlParamEntry) (source name : List UInt8) :
    List DlParam → Option DlParam
  | [] => none
  | i :: is =>
    if (params i).used then
      if (params i).source = source ∧ (params i).name = name then
        some i
      else
        dlFindParam params source name is
    else
      some i

def dataLoggerRegisterParam (s : DlWdl) (source name : List UInt8) :
    Except String DlParam × DlWdl :=
  if h : source.length < dlSourceMax ∧ name.length < dlNameMax then
    if source = [] ∨ name = [] then
      (.error "ESP_ERR_INVALID_ARG", s)
    else
      match dlFindParam s.params source name (List.finRange 256) with
      | none => (.error "ESP_ERR_NO_MEM", s)
      | some i =>
        if (s.params i).used then
          (.ok i, s)
        else
          (.ok i, { s with
            params := Function.update s.params i
              { used := true
                source := source
                name := name
                dbId := 0
                source_lt := h.1
                name_lt := h.2 } })
  else
    (.error "ESP_ERR_INVALID_ARG", s)

def dlCoreForgetDbIds (params : DlParam → DlParamEntry) : DlParam → DlParamEntry :=
  fun i => { params i with dbId := 0 }

/-! ## Records -/

/-- The bytes of an `int64_t`. -/
def i64Bytes (n : ℤ) : List UInt8 := leBytes 8 (Int64.ofInt n).toUInt64.toNat

def dlWdlEncodeFrame (tsMs : ℤ) (id : UInt32) (flags : UInt8) (data : List UInt8) (dlc : UInt8) :
    List UInt8 :=
  let dlc := if 8 < dlc then 8 else dlc
  let idw := (id &&& 0x1FFFFFFF) ||| (if flags &&& dlFrameExt ≠ 0 then 0x80000000 else 0) |||
    (if flags &&& dlFrameRtr ≠ 0 then 0x40000000 else 0)
  0x03 :: i64Bytes tsMs ++ leBytes 4 idw.toNat ++ dlc :: data.take dlc.toNat

def dlWdlEncodeStep (step : DlClockStep) : List UInt8 :=
  0x04 :: i64Bytes step.wallMs ++ i64Bytes step.deltaMs ++ [step.source]

/-- The definition of a number, in `bin_write`. -/
def dlWdlEncodeDef (id : ℕ) (full : List UInt8) : List UInt8 :=
  0x01 :: leBytes 2 id ++ UInt8.ofNat full.length :: full

/-- The value of a parameter, in `bin_write`. -/
def dlWdlEncodeParam (tsMs : ℤ) (id : ℕ) (value : UInt64) : List UInt8 :=
  0x02 :: i64Bytes tsMs ++ leBytes 2 id ++ leBytes 8 value.toNat

/-- `"%s.%s"`, in a buffer of its own. -/
def DlParamEntry.full (p : DlParamEntry) : List UInt8 :=
  (p.source ++ asciiBytes "." ++ p.name).take (dlSourceMax + dlNameMax)

/-- More bytes at the end of the file. -/
def DlWdl.append (s : DlWdl) (bytes : List UInt8) : DlWdl :=
  { s with file := s.file.map (· ++ bytes) }

/-- A parameter gets its number in the file. -/
def DlWdl.intern (s : DlWdl) (i : DlParam) : DlWdl :=
  if (s.params i).dbId = 0 then
    { s with
      params := Function.update s.params i
        { s.params i with dbId := (s.nextId + 1).toNat }
      nextId := s.nextId + 1 }.append
      (dlWdlEncodeDef (s.nextId + 1).toNat (s.params i).full)
  else
    s

/-- `bin_write`, `p` being what `dl_core_param` found. -/
def binWrite (s : DlWdl) (rec : DlRecord) (p : Option DlParam) : DlWdl :=
  match rec.payload, p with
  | .frame id data dlc flags, _ => s.append (dlWdlEncodeFrame rec.tsMs id flags data dlc)
  | .param value _, some i =>
    (s.intern i).append (dlWdlEncodeParam rec.tsMs ((s.intern i).params i).dbId value)
  | _, _ => s

def binMark (s : DlWdl) (step : DlClockStep) : DlWdl := s.append (dlWdlEncodeStep step)

/-! ## Torn tails -/

/-- What stands at the start of some bytes. -/
inductive DlWdlHead where
  /-- the beginning of a record -/
  | cut
  /-- not a record -/
  | bad
  /-- a record of this length -/
  | need (n : ℕ)
  deriving DecidableEq

def dlWdlStepLen : ℕ := 18

/-- The length of the record at the start of some bytes, as its type says. -/
def dlWdlHead (buf : List UInt8) : DlWdlHead :=
  if buf[0]? = some 0x01 then
    match buf[3]? with
    | none => .cut
    | some len => .need (4 + len.toNat)
  else if buf[0]? = some 0x02 then
    .need 19
  else if buf[0]? = some 0x03 then
    match buf[13]? with
    | none => .cut
    | some dlc => if 8 < dlc then .bad else .need (14 + dlc.toNat)
  else if buf[0]? = some 0x04 then
    .need dlWdlStepLen
  else
    .bad

/-- `dl_recover_wdl_scan`: the length of the complete records, and whether something
else follows. Every record has a byte, so the bytes bound their number. -/
def dlRecoverWdlScan : ℕ → List UInt8 → ℕ × Bool
  | 0, _ => (0, false)
  | fuel + 1, buf =>
    if buf = [] then
      (0, false)
    else
      match dlWdlHead buf with
      | .cut => (0, false)
      | .bad => (0, true)
      | .need n =>
        if buf.length < n then
          (0, false)
        else
          let r := dlRecoverWdlScan fuel (buf.drop n)
          (n + r.1, r.2)

def apBufSz : ℕ := 4096

/-- The loop of `ap_repair_tail` over a `.wdl`: what to keep. The carry is the end of
the buffer, a record that is not complete yet. -/
def apRepairScan : ℕ → List UInt8 → List UInt8 → ℕ → ℕ
  | 0, _, _, keep => keep
  | fuel + 1, carry, rest, keep =>
    let chunk := rest.take (apBufSz - carry.length)
    if chunk = [] then
      keep
    else
      let r := dlRecoverWdlScan ((carry ++ chunk).length) (carry ++ chunk)
      let carry' := (carry ++ chunk).drop r.1
      if 260 < carry'.length ∨ r.2 then
        keep + r.1
      else
        apRepairScan fuel carry' (rest.drop (apBufSz - carry.length)) (keep + r.1)

/-- `ap_repair_tail`; without memory for the buffer the file stays as it is. -/
def apRepairTail (mem : Bool) (file : List UInt8) : List UInt8 :=
  if ¬mem then
    file
  else if file.length < 4 then
    []
  else
    file.take (apRepairScan (file.length + 1) [] (file.drop 4) 4)

/-! ## Opening and closing -/

/-- The magic. -/
def wdlMagic : List UInt8 := asciiBytes "WDL1"

/-- `ap_open`: the file, repaired, with its magic. -/
def apOpen (mem : Bool) (file : Option (List UInt8)) : List UInt8 :=
  match file with
  | none => wdlMagic
  | some text => if apRepairTail mem text = [] then wdlMagic else apRepairTail mem text

/-- `bin_open`, and then `dl_store_open`. -/
def DlWdl.dlStoreOpen (frames mem : Bool) (s : DlWdl) : DlWdl where
  params := if frames then s.params else dlCoreForgetDbIds s.params
  nextId := 0
  file := some (apOpen mem s.file)
  isOpen := true

def DlWdl.dlStoreClose (s : DlWdl) : DlWdl := { s with isOpen := false }

/-! ## What happens to a file -/

/-- A frame of the bus. -/
structure DlFrame where
  id : UInt32
  ext : Bool
  rtr : Bool
  data : List UInt8
  id_fits : id &&& 0x1FFFFFFF = id
  data_le : data.length ≤ 8
  deriving DecidableEq

/-- `frame_to_record` -/
def DlFrame.record (f : DlFrame) (tsMs : ℤ) : DlRecord where
  tsMs := tsMs
  payload := .frame f.id (f.data ++ List.replicate (8 - f.data.length) 0)
    (UInt8.ofNat f.data.length)
    ((if f.ext then dlFrameExt else 0) ||| (if f.rtr then dlFrameRtr else 0))
  flags := 0
  monoMs := 0

/-- The record of a value, as `param_push` makes it. -/
def dlParamRecord (i : DlParam) (tsMs : ℤ) (value : UInt64) : DlRecord where
  tsMs := tsMs
  payload := .param value (Int16.ofNat i.val)
  flags := 0
  monoMs := 0

/-- What happens to the file of a stream, every write succeeding. -/
inductive DlWdlOp where
  | register (source name : List UInt8)
  /-- a value of the parameter with this entry and this `source.name` -/
  | param (i : DlParam) (full : List UInt8) (ts : Int64) (value : UInt64)
  | frame (ts : Int64) (f : DlFrame)
  | mark (step : DlClockStep)
  | close
  /-- another file is written: it numbers the parameters in its own way -/
  | elsewhere (ids : DlParam → ℕ) (nextId : UInt16)
  /-- the file is opened, `mem` being whether the torn-tail check has its buffer -/
  | resume (mem : Bool)

/-- The steps of a stream. The parameters go to the stream of the parameters. -/
def DlWdl.step (frames : Bool) (s : DlWdl) : DlWdlOp → Option DlWdl
  | .register source name => some (dataLoggerRegisterParam s source name).2
  | .param i full ts value =>
    if s.isOpen ∧ frames = false ∧ (s.params i).used ∧
        (s.params i).source ++ asciiBytes "." ++ (s.params i).name = full then
      some (binWrite s (dlParamRecord i ts.toInt value) (some i))
    else
      none
  | .frame ts f => if s.isOpen then some (binWrite s (f.record ts.toInt) none) else none
  | .mark step => if s.isOpen then some (binMark s step) else none
  | .close => some s.dlStoreClose
  | .elsewhere ids nextId =>
    if s.isOpen then
      none
    else
      some { s with params := fun i => { s.params i with dbId := ids i }, nextId := nextId }
  | .resume mem => if s.isOpen then none else some (s.dlStoreOpen frames mem)

/-- Before the file is first opened. -/
structure DlWdl.New (s : DlWdl) : Prop where
  file : s.file = none
  closed : s.isOpen = false

/-! ## A sequential reader -/

/-- A record without a key. -/
inductive DlBare where
  | frame (ts : Int64) (f : DlFrame)
  | mark (wall delta : Int64) (source : UInt8)
  deriving DecidableEq

/-- A record of the file. -/
abbrev DlWdlItem := Inline (List UInt8) (Int64 × UInt64) DlBare

/-- A number of eight bytes. -/
def readI64 (bytes : List UInt8) : Int64 := (UInt64.ofNat (ofLeBytes bytes)).toInt64

/-- The frame in a record, if it is one. -/
def readFrame (idw : UInt32) (data : List UInt8) : Option DlFrame :=
  if h : data.length ≤ 8 then
    some
      { id := idw &&& 0x1FFFFFFF
        ext := decide (idw &&& 0x80000000 ≠ 0)
        rtr := decide (idw &&& 0x40000000 ≠ 0)
        data := data
        id_fits := by rw [UInt32.and_assoc, UInt32.and_self]
        data_le := h }
  else
    none

/-- One complete record. -/
def readItem (bytes : List UInt8) : Option DlWdlItem :=
  if bytes[0]? = some 0x01 then
    some (.define (ofLeBytes ((bytes.drop 1).take 2)) (bytes.drop 4))
  else if bytes[0]? = some 0x02 then
    some (.keyed (ofLeBytes ((bytes.drop 9).take 2))
      (readI64 ((bytes.drop 1).take 8), UInt64.ofNat (ofLeBytes (bytes.drop 11))))
  else if bytes[0]? = some 0x03 then
    (readFrame (UInt32.ofNat (ofLeBytes ((bytes.drop 9).take 4))) (bytes.drop 14)).map fun f =>
      .bare (.frame (readI64 ((bytes.drop 1).take 8)) f)
  else if bytes[0]? = some 0x04 then
    some (.bare (.mark (readI64 ((bytes.drop 1).take 8)) (readI64 ((bytes.drop 9).take 8))
      (bytes.getD 17 0)))
  else
    none

/-- The records of a file after its magic. -/
def readItems : ℕ → List UInt8 → Option (List DlWdlItem)
  | 0, _ => some []
  | fuel + 1, bytes =>
    if bytes = [] then
      some []
    else
      match dlWdlHead bytes with
      | .need n =>
        if bytes.length < n then
          none
        else
          (readItem (bytes.take n)).bind fun item =>
            (readItems fuel (bytes.drop n)).map (item :: ·)
      | _ => none

/-- What is in a log. -/
inductive DlWdlEntry where
  | value (name : List UInt8) (ts : Int64) (value : UInt64)
  | frame (ts : Int64) (f : DlFrame)

/-- What a record says; a clock record says nothing about parameters and frames. -/
def DlWdlEntry.ofFound : List UInt8 × (Int64 × UInt64) ⊕ DlBare → Option DlWdlEntry
  | .inl (name, ts, bits) => some (.value name ts bits)
  | .inr (.frame ts f) => some (.frame ts f)
  | .inr (.mark _ _ _) => none

/-- A sequential reader: it applies each definition to the records after it. -/
def wdlRead (file : List UInt8) : Option (List DlWdlEntry) :=
  if wdlMagic <+: file then
    ((readItems file.length (file.drop wdlMagic.length)).bind (readInline fun _ => none)).map
      (List.filterMap DlWdlEntry.ofFound)
  else
    none

/-- What was written. -/
def DlWdlOp.written : DlWdlOp → Option DlWdlEntry
  | .param _ full ts value => some (.value full ts value)
  | .frame ts f => some (.frame ts f)
  | _ => none

end Meatpi
