import Mathlib.Data.Nat.Log
import Meatpi.DataLogger.Export

/-!
# The files of a stream

A stream writes one file after the other into a folder that it shares with the other
stream and with anything else. Names carry the time at which a file was begun. An open
goes on with the newest file of the stream, or begins one that is named after the
newest, whatever the clock says; then the oldest ones are deleted.
-/

namespace Meatpi

/-! ## Names -/

/-- The two streams. -/
inductive DlStreamId where
  | param
  | can
  deriving DecidableEq

/-- `DL_PREFIX_PARAM`, `DL_PREFIX_CAN` -/
def DlStreamId.start : DlStreamId → List UInt8
  | .param => asciiBytes "dl_"
  | .can => asciiBytes "can_"

/-- `EXTS` -/
def dlExts : List (List UInt8) :=
  [".db", ".csv", ".wdl", ".log", ".asc", ".jsonl", ".mf4", ".blf"].map asciiBytes

def dlEpochLen : ℕ := 10

/-- The digit that a byte stands for. -/
def digitOf (c : UInt8) : ℕ := c.toNat - 48

/-- The bytes of the digits. -/
def IsDigitByte (c : UInt8) : Prop := 48 ≤ c ∧ c ≤ 57

instance (c : UInt8) : Decidable (IsDigitByte c) := inferInstanceAs (Decidable (_ ∧ _))

/-- What stands behind the first prefix of a stream that fits. -/
def dlBehindStart (fname : List UInt8) : Option (List UInt8) :=
  if DlStreamId.param.start <+: fname then
    some (fname.drop DlStreamId.param.start.length)
  else if DlStreamId.can.start <+: fname then
    some (fname.drop DlStreamId.can.start.length)
  else
    none

/-- The time and the extension, behind the prefix. -/
def dlParseTime (digits : List UInt8) : Option ℕ :=
  if (digits.take dlEpochLen).length = dlEpochLen ∧
      (digits.take dlEpochLen).all fun c => IsDigitByte c then
    if dlExts.contains (digits.drop dlEpochLen) then
      some (ofDigitsBE 10 ((digits.take dlEpochLen).map digitOf))
    else
      none
  else
    none

def dlFilesParse (fname : List UInt8) : Option ℕ := (dlBehindStart fname).bind dlParseTime

/-- `"%010lld"` of a time: at least ten digits. -/
def dlEpochText (epoch : ℕ) : List UInt8 :=
  (digitsBE 10 (max dlEpochLen (Nat.log 10 epoch + 1)) epoch).map fun d => (48 + d).toUInt8

/-- `dl_files_make`, for any stream -/
def DlStreamId.dlFilesMake (st : DlStreamId) (epoch : ℤ) (ext : List UInt8) : List UInt8 :=
  st.start ++ dlEpochText epoch.toNat ++ ext

/-! ## The scan of the folder -/

structure DlScan where
  count : ℕ
  oldest : List UInt8
  newest : List UInt8

/-- `sizeof(s->oldest)` -/
def dlScanName : ℕ := 48

/-- The files that a scan counts: a time, a known extension, the prefix of the stream. -/
def IsLogFile (st : DlStreamId) (fname : List UInt8) : Prop :=
  ((dlFilesParse fname).isSome = true ∧ fname.length < dlScanName) ∧ st.start <+: fname

instance (st : DlStreamId) (fname : List UInt8) : Decidable (IsLogFile st fname) :=
  inferInstanceAs (Decidable (_ ∧ _))

def dlScanInit : DlScan := { count := 0, oldest := [], newest := [] }

def dlScanAdd (st : DlStreamId) (s : DlScan) (fname : List UInt8) : DlScan :=
  if ¬((dlFilesParse fname).isSome = true ∧ fname.length < dlScanName) then
    s
  else if ¬st.start <+: fname then
    -- the other stream's file
    s
  else
    { count := s.count + 1
      oldest := if s.count = 0 ∨ fname < s.oldest then fname else s.oldest
      newest := if s.count = 0 ∨ s.newest < fname then fname else s.newest }

/-- `scan_dir`, in the order in which the names are read -/
def scanDir (st : DlStreamId) (names : List (List UInt8)) : DlScan :=
  names.foldl (dlScanAdd st) dlScanInit

/-! ## The folder -/

/-- A folder: its names, each once. -/
structure DlFolder where
  names : List (List UInt8)
  nodup : names.Nodup

/-- A file is deleted. -/
def DlFolder.unlink (d : DlFolder) (name : List UInt8) : DlFolder where
  names := d.names.erase name
  nodup := d.nodup.erase name

/-- A file is opened for writing. -/
def DlFolder.create (d : DlFolder) (name : List UInt8) : DlFolder where
  names := d.names.insert name
  nodup := d.nodup.insert

/-- What the system does during an operation; the folder can be opened. -/
structure DlSystem where
  /-- `time(NULL)` -/
  time : ℤ
  time_nonneg : 0 ≤ time
  time_le : time ≤ 2 ^ 33
  /-- `rtc_manager_time_valid` -/
  timeValid : Bool
  /-- the order in which the names of a folder are read -/
  readdir : DlFolder → List (List UInt8)
  readdir_perm : ∀ d, (readdir d).Perm d.names
  /-- the size of the newest file, if `stat` finds it -/
  size : Option ℕ
  /-- the engine opens its file -/
  opens : Bool
  /-- an engine that fails leaves a file behind -/
  leaves : Bool
  /-- `unlink` succeeds -/
  unlinks : List UInt8 → Bool

/-- A storage engine. -/
structure DlEngine where
  ext : List UInt8
  singleUse : Bool
  resumeMax : ℕ

/-- The engines: sqlite, csv, binary, candump, asc, jsonl, mf4 and blf. -/
def dlEngines : List DlEngine :=
  [⟨asciiBytes ".db", false, 0⟩, ⟨asciiBytes ".csv", false, 0⟩,
    ⟨asciiBytes ".wdl", false, 16 * 1024 * 1024⟩, ⟨asciiBytes ".log", false, 0⟩,
    ⟨asciiBytes ".asc", true, 0⟩, ⟨asciiBytes ".jsonl", false, 0⟩,
    ⟨asciiBytes ".mf4", true, 0⟩, ⟨asciiBytes ".blf", true, 0⟩]

def extMatches (fname ext : List UInt8) : Bool :=
  decide (ext.length < fname.length) && fname.drop (fname.length - ext.length) == ext

/-- `enforce_retention`. Every round deletes a file, so their number bounds the rounds. -/
def enforceRetention (sys : DlSystem) (st : DlStreamId) (maxFiles : ℕ) : ℕ → DlFolder → DlFolder
  | 0, d => d
  | fuel + 1, d =>
    if maxFiles < (scanDir st (sys.readdir d)).count then
      if sys.unlinks (scanDir st (sys.readdir d)).oldest then
        enforceRetention sys st maxFiles fuel (d.unlink (scanDir st (sys.readdir d)).oldest)
      else
        d
    else
      d

/-! ## Opens -/

/-- The folder and what the streams are writing. -/
structure DlStore where
  dir : DlFolder
  file : DlStreamId → Option (List UInt8)

/-- An open goes on with the newest file. -/
def dlResumes (sys : DlSystem) (eng : DlEngine) (forceNew : Bool) (scan : DlScan) : Bool :=
  !(forceNew || eng.singleUse) && decide (0 < scan.count) && extMatches scan.newest eng.ext &&
    sys.timeValid && !(decide (eng.resumeMax ≠ 0) && sys.size.any fun size => eng.resumeMax < size)

/-- The time in the name of a new file: behind that of the newest one. -/
def dlNewEpoch (sys : DlSystem) (scan : DlScan) : ℤ :=
  if 0 < scan.count then
    match dlFilesParse scan.newest with
    | some newest => if sys.time ≤ newest then newest + 1 else sys.time
    | none => sys.time
  else
    sys.time

/-- The file that an open goes for. -/
def dlOpenName (sys : DlSystem) (st : DlStreamId) (eng : DlEngine) (forceNew : Bool)
    (d : DlFolder) : List UInt8 :=
  let scan := scanDir st (sys.readdir d)
  if dlResumes sys eng forceNew scan then
    scan.newest
  else
    st.dlFilesMake (dlNewEpoch sys scan) eng.ext

/-- `dl_store_open`, with the limit of the stream -/
def DlStore.dlStoreOpen (sys : DlSystem) (st : DlStreamId) (maxFiles : ℕ) (eng : DlEngine)
    (forceNew : Bool) (s : DlStore) : DlStore :=
  let name := dlOpenName sys st eng forceNew s.dir
  if sys.opens then
    let dir := s.dir.create name
    { dir := enforceRetention sys st maxFiles dir.names.length dir
      file := Function.update s.file st (some name) }
  else if sys.leaves then
    { s with dir := s.dir.create name }
  else
    s

/-- `dl_store_close`, for a stream -/
def DlStore.dlStoreClose (st : DlStreamId) (s : DlStore) : DlStore :=
  { s with file := Function.update s.file st none }

def DlStore.dlStoreRotate (sys : DlSystem) (st : DlStreamId) (maxFiles : ℕ) (eng : DlEngine)
    (s : DlStore) : DlStore :=
  (s.dlStoreClose st).dlStoreOpen sys st maxFiles eng true

/-- What a stream does: it opens a file if none is open, closes it, rotates, or only
deletes old ones. The engine is one of the table. -/
inductive DlStoreOp where
  | open (eng : Fin dlEngines.length) (forceNew : Bool)
  | close
  | rotate (eng : Fin dlEngines.length)
  | retain

/-- One operation, of one of the streams, with a limit of at least 1. -/
structure DlStoreStep where
  st : DlStreamId
  sys : DlSystem
  maxFiles : ℕ
  maxFiles_pos : 1 ≤ maxFiles
  op : DlStoreOp

/-- The folder and the streams after an operation. -/
def DlStore.step (s : DlStore) (e : DlStoreStep) : DlStore :=
  match e.op with
  | .open eng forceNew =>
    if (s.file e.st).isSome then
      s
    else
      s.dlStoreOpen e.sys e.st e.maxFiles (dlEngines.get eng) forceNew
  | .close => s.dlStoreClose e.st
  | .rotate eng => s.dlStoreRotate e.sys e.st e.maxFiles (dlEngines.get eng)
  | .retain => { s with dir := enforceRetention e.sys e.st e.maxFiles s.dir.names.length s.dir }

/-- Before anything is opened. -/
def DlStore.closed (d : DlFolder) : DlStore := { dir := d, file := fun _ => none }

/-- After some operations, of both streams. -/
def DlStore.after (d : DlFolder) (ops : List DlStoreStep) : DlStore :=
  ops.foldl DlStore.step (DlStore.closed d)

end Meatpi
