import Meatpi.DataLogger.Ring
import Meatpi.Library.Run

/-!
# The writer (`data_logger_writer.c`, `data_logger_store.c`)

The writer drains the two rings in batches. A batch takes the records out of the
ring one by one and hands each to the engine of the open file; at its end the
engine commits. When a write or the commit fails the file is closed, and the
next lap opens one again. Producers push all the time, also while a batch is
under way.
-/

namespace Meatpi

open Library Function List

variable {rows : List DlRecord} {limit : ℕ}

/-! ## Streams -/

/-- `DL_ST_PARAM`, `DL_ST_CAN` -/
inductive DlSt where
  | param
  | can
  deriving DecidableEq

def dlClockRotateMs : ℤ := 60000

def dlClockRotates (step : DlClockStep) (firstValid : Bool) : Bool :=
  firstValid || decide (dlClockRotateMs ≤ step.deltaMs) || decide (step.deltaMs ≤ -dlClockRotateMs)

/-- `dl_stream_t` with its ring and what it wrote: the rows of each file, the
file that is written last at the end. -/
structure DlStream where
  ring : DlRing
  isOpen : Bool
  files : List (List DlRecord)
  written : UInt32
  fileRows : UInt32
  rotations : UInt32
  openFails : UInt32

/-- Rows that reach the file that is written. -/
def landRows (rows : List DlRecord) : List (List DlRecord) → List (List DlRecord)
  | [] => [rows]
  | [file] => [file ++ rows]
  | file :: files => file :: landRows rows files

/-- What an attempt to open a file comes to. -/
inductive DlOpened where
  | failed
  | fresh
  | resumed
  deriving DecidableEq

def dlStoreOpen (st : DlStream) : DlOpened → DlStream
  | .failed => st
  | .fresh => { st with isOpen := true, files := st.files ++ [[]], fileRows := 0 }
  | .resumed => { st with isOpen := true, fileRows := 0 }

def dlStoreClose (st : DlStream) : DlStream := { st with isOpen := false }

def dlStoreRotate (st : DlStream) (reopened : Bool) : DlStream :=
  dlStoreOpen { dlStoreClose st with rotations := st.rotations + 1 }
    (if reopened then .fresh else .failed)

def dlStoreQuarantine (st : DlStream) (reopened : Bool) : DlStream :=
  dlStoreOpen (dlStoreClose st) (if reopened then .fresh else .failed)

/-! ## The writer -/

/-- A batch in flight: the rows that were handed to the engine, and whether a pop
has found nothing more. -/
structure DlBatch where
  st : DlSt
  rows : List DlRecord
  drained : Bool

/-- The writer: its streams, the clock's steps, and the batch in flight. -/
structure DlWriter where
  streams : DlSt → DlStream
  journal : DlJournal
  validSeen : Bool
  errors : UInt32
  batch : Option DlBatch

/-- How a batch that failed ends: how many of the rows reached the file all the
same, whether the engine calls the file corrupt, and whether a fresh one could
be opened then. -/
structure DlFailure where
  landed : ℕ
  corrupt : Bool
  reopened : Bool

/-- What happens to the writer and around it. -/
inductive DlEvent where
  /-- a producer pushes a record -/
  | push (st : DlSt) (rec : DlRecord)
  /-- `dl_journal_lap` finds a clock step -/
  | clock (step : TimedStep) (reopened : DlSt → Bool)
  /-- `dl_store_ensure_open` opens a file -/
  | openFile (st : DlSt) (opened : DlOpened)
  /-- `close_all`: a pause, or the card is gone -/
  | closeAll
  /-- `write_batch` begins -/
  | begin (st : DlSt) (begun : Bool) (failure : DlFailure)
  /-- one round of its loop: a pop, and the write of what came -/
  | row (written : Bool) (failure : DlFailure)
  /-- the commit at its end; `full` asks for a rotation -/
  | commit (committed : Bool) (failure : DlFailure) (full reopened : Bool)

/-- A stream is replaced. -/
def DlWriter.set (w : DlWriter) (st : DlSt) (stream : DlStream) : DlWriter :=
  { w with streams := Function.update w.streams st stream }

/-- A stream whose batch failed. -/
def DlStream.failed (st : DlStream) (rows : List DlRecord) (failure : DlFailure) : DlStream :=
  if failure.corrupt then
    dlStoreQuarantine { st with files := landRows (rows.take failure.landed) st.files }
      failure.reopened
  else
    dlStoreClose { st with files := landRows (rows.take failure.landed) st.files }

/-- A stream whose batch was committed. -/
def DlStream.landed (st : DlStream) (rows : List DlRecord) : DlStream :=
  { st with
    files := landRows rows st.files
    written := st.written + UInt32.ofNat rows.length
    fileRows := st.fileRows + UInt32.ofNat rows.length }

/-- The end of a batch that failed with these rows. -/
def DlWriter.fail (w : DlWriter) (st : DlSt) (rows : List DlRecord) (failure : DlFailure) :
    DlWriter :=
  { w.set st ((w.streams st).failed rows failure) with errors := w.errors + 1, batch := none }

/-- A record was taken out of the ring of a batch, and the engine has its row. -/
def DlWriter.taken (w : DlWriter) (batch : DlBatch) (ring : DlRing) (row : DlRecord) : DlWriter :=
  { w.set batch.st { w.streams batch.st with ring := ring } with
    batch := some { batch with rows := batch.rows ++ [row] } }

def dlWriterClockRotate (w : DlWriter) (reopened : DlSt → Bool) : DlWriter :=
  { w with
    streams := fun st =>
      if (w.streams st).isOpen then dlStoreRotate (w.streams st) (reopened st)
      else w.streams st }

/-- One lap of `dl_journal_lap` over a step. -/
def dlJournalLap (w : DlWriter) (step : TimedStep) (reopened : DlSt → Bool) : DlWriter :=
  if dlClockRotates step.step (!w.validSeen) then
    dlWriterClockRotate { w with journal := w.journal.pushStep step, validSeen := true } reopened
  else
    { w with journal := w.journal.pushStep step, validSeen := true }

/-- The writer takes a step. Between two rows of a batch only producers come in. -/
def DlWriter.step (batchRows : ℕ) (w : DlWriter) : DlEvent → Option DlWriter
  | .push st rec =>
    some (w.set st { w.streams st with ring := ringPush (w.streams st).ring rec })
  | .clock step reopened =>
    if w.batch = none then some (dlJournalLap w step reopened) else none
  | .openFile st opened =>
    if w.batch = none ∧ (w.streams st).isOpen = false then
      some (w.set st
        { dlStoreOpen (w.streams st) opened with
          openFails := if opened = .failed then (w.streams st).openFails + 1 else 0 })
    else
      none
  | .closeAll =>
    if w.batch = none then some { w with streams := fun st => dlStoreClose (w.streams st) }
    else none
  | .begin st begun failure =>
    match w.batch with
    | some _ => none
    | none =>
      if (w.streams st).isOpen ∧ begun then
        some { w with batch := some ⟨st, [], false⟩ }
      else
        some (w.fail st [] failure)
  | .row written failure =>
    match w.batch with
    | none => none
    | some batch =>
      if batch.drained ∨ batchRows ≤ batch.rows.length then
        none
      else
        match ringPop (w.streams batch.st).ring with
        | (_, none) => some { w with batch := some { batch with drained := true } }
        | (ring, some rec) =>
          if written then
            some (w.taken batch ring (dlJournalRebase w.journal rec))
          else
            some ((w.set batch.st { w.streams batch.st with ring := ring }).fail batch.st
              (batch.rows ++ [dlJournalRebase w.journal rec]) failure)
  | .commit committed failure full reopened =>
    match w.batch with
    | none => none
    | some batch =>
      if ¬batch.drained ∧ batch.rows.length < batchRows then
        none
      else if committed then
        some { w.set batch.st
            (if full then dlStoreRotate ((w.streams batch.st).landed batch.rows) reopened
            else (w.streams batch.st).landed batch.rows) with
          batch := none }
      else
        some (w.fail batch.st batch.rows failure)

/-! ## The ledger of a stream -/

/-- The rows of the batch in flight that are of a stream. -/
def DlWriter.inFlight (w : DlWriter) (st : DlSt) : List DlRecord :=
  match w.batch with
  | none => []
  | some batch => if batch.st = st then batch.rows else []

/-- Every record that was accepted has a fate or is queued: it was taken out of
the ring as some row, or dropped. The rows are in the files and in the batch in
flight, in the order the records were accepted in. -/
structure Ledger (accepted inFlight : List DlRecord) (st : DlStream)
    (fates : List (DlRecord × Option DlRecord)) : Prop where
  accepted_eq : accepted = fates.map Prod.fst ++ st.ring.queue
  rows_eq : fates.filterMap Prod.snd = st.files.flatten ++ inFlight
  dropped_eq : st.ring.dropped = UInt32.ofNat (fates.countP fun fate => fate.2.isNone)
  rebased : ∀ fate ∈ fates, ∀ row, fate.2 = some row → ∃ j, row = dlJournalRebase j fate.1

theorem flatten_landRows (rows : List DlRecord) (files : List (List DlRecord)) :
    (landRows rows files).flatten = files.flatten ++ rows := by
  induction files with
  | nil =>
    rw [landRows, flatten_singleton]
    rfl
  | cons file files ih =>
    cases files with
    | nil => rw [landRows, flatten_singleton, flatten_singleton]
    | cons next files =>
      exact (congrArg (file ++ ·) ih).trans (append_assoc _ _ _).symm

section Ledger

variable {accepted inFlight : List DlRecord} {st : DlStream}
  {fates : List (DlRecord × Option DlRecord)}

theorem Ledger.push_room (h : Ledger accepted inFlight st fates)
    (hr : st.ring.Sound limit) (hroom : st.ring.fill < st.ring.cap) (rec : DlRecord) :
    Ledger (accepted ++ [rec]) inFlight { st with ring := ringPush st.ring rec } fates where
  accepted_eq := by
    rw [h.accepted_eq, (ringPush_room hr rec hroom).2, append_assoc]
  rows_eq := h.rows_eq
  dropped_eq := by
    rw [← h.dropped_eq]
    exact ringPush_dropped_room hroom rec
  rebased := h.rebased

theorem Ledger.push_full (h : Ledger accepted inFlight st fates)
    (hr : st.ring.Sound limit) (hfull : st.ring.fill = st.ring.cap) (rec : DlRecord) :
    Ledger (accepted ++ [rec]) inFlight { st with ring := ringPush st.ring rec }
      (fates ++ [(st.ring.buf st.ring.tail, none)]) where
  accepted_eq := by
    have hfill : 0 < st.ring.fill := hfull ▸ hr.cap_pos
    rw [h.accepted_eq, (ringPush_full hr rec hfull).2, (ringPop_some hr hfill).2.1,
      tail_cons, map_append, map_singleton]
    simp only [append_assoc, cons_append, nil_append]
  rows_eq := by
    rw [filterMap_append, h.rows_eq]
    exact List.append_nil _
  dropped_eq := by
    rw [countP_append, UInt32.ofNat_add, ← h.dropped_eq]
    exact ringPush_dropped_full hfull rec
  rebased := by
    intro fate hfate row hrow
    rcases mem_append.mp hfate with hold | hnew
    · exact h.rebased fate hold row hrow
    · rw [mem_singleton.mp hnew] at hrow
      cases hrow

theorem Ledger.take (h : Ledger accepted inFlight st fates)
    (hr : st.ring.Sound limit) (hfill : 0 < st.ring.fill) (j : DlJournal) :
    Ledger accepted (inFlight ++ [dlJournalRebase j (st.ring.buf st.ring.tail)])
      { st with ring := (ringPop st.ring).1 }
      (fates ++ [(st.ring.buf st.ring.tail,
        some (dlJournalRebase j (st.ring.buf st.ring.tail)))]) where
  accepted_eq := by
    rw [h.accepted_eq, (ringPop_some hr hfill).2.1, map_append, map_singleton]
    simp only [append_assoc, cons_append, nil_append]
  rows_eq := by
    rw [filterMap_append, h.rows_eq, append_assoc]
    rfl
  dropped_eq := by
    rw [countP_append, UInt32.ofNat_add, ← h.dropped_eq]
    exact (ringPop_dropped hfill).trans (UInt32.add_zero _).symm
  rebased := by
    intro fate hfate row hrow
    rcases mem_append.mp hfate with hold | hnew
    · exact h.rebased fate hold row hrow
    · rw [mem_singleton.mp hnew] at hrow ⊢
      exact ⟨j, (Option.some.inj hrow).symm⟩

theorem Ledger.move (h : Ledger accepted inFlight st fates) {inFlight' : List DlRecord}
    {st' : DlStream} (hring : st'.ring = st.ring)
    (hrows : st'.files.flatten ++ inFlight' = st.files.flatten ++ inFlight) :
    Ledger accepted inFlight' st' fates where
  accepted_eq := by rw [hring, h.accepted_eq]
  rows_eq := by rw [hrows, h.rows_eq]
  dropped_eq := by rw [hring, h.dropped_eq]
  rebased := h.rebased

end Ledger

/-! ## Steps that leave the ledgers alone -/

/-- The ring of a stream stays as it is, and so does what it wrote. -/
def DlStream.Same (st st' : DlStream) : Prop :=
  st'.ring = st.ring ∧ st'.files.flatten = st.files.flatten

theorem same_dlStoreOpen (st : DlStream) (opened : DlOpened) : st.Same (dlStoreOpen st opened) := by
  cases opened with
  | failed => exact ⟨rfl, rfl⟩
  | resumed => exact ⟨rfl, rfl⟩
  | fresh =>
    refine ⟨rfl, ?_⟩
    change (st.files ++ [[]]).flatten = st.files.flatten
    rw [flatten_append, flatten_singleton, List.append_nil]

theorem same_dlStoreRotate (st : DlStream) (reopened : Bool) :
    st.Same (dlStoreRotate st reopened) :=
  same_dlStoreOpen { dlStoreClose st with rotations := st.rotations + 1 } _

theorem DlStream.failed_spared (st : DlStream) {failure : DlFailure}
    (h : rows.length ≤ failure.landed) : (st.failed rows failure).ring = st.ring ∧
      (st.failed rows failure).files.flatten = st.files.flatten ++ rows := by
  have hland : (landRows (rows.take failure.landed) st.files).flatten =
      st.files.flatten ++ rows := by
    rw [flatten_landRows, take_of_length_le h]
  rw [DlStream.failed]
  split
  · obtain ⟨hring, hfiles⟩ := same_dlStoreOpen
      (dlStoreClose { st with files := landRows (rows.take failure.landed) st.files })
      (if failure.reopened then .fresh else .failed)
    exact ⟨hring, hfiles.trans hland⟩
  · exact ⟨rfl, hland⟩

/-- No ring changes, and rows only move from the batch into the files. -/
def DlWriter.Quiet (w w' : DlWriter) : Prop :=
  ∀ st, (w'.streams st).ring = (w.streams st).ring ∧
    (w'.streams st).files.flatten ++ w'.inFlight st =
      (w.streams st).files.flatten ++ w.inFlight st

theorem inFlight_batch {w : DlWriter} {batch : DlBatch} (h : w.batch = some batch) (st : DlSt) :
    w.inFlight st = if batch.st = st then batch.rows else [] := by
  rw [DlWriter.inFlight, h]

theorem inFlight_none {w : DlWriter} (h : w.batch = none) (st : DlSt) : w.inFlight st = [] := by
  rw [DlWriter.inFlight, h]

theorem Quiet.of_same {w w' : DlWriter} (hidle : w.batch = none) (hidle' : w'.batch = none)
    (hsame : ∀ st, (w.streams st).Same (w'.streams st)) : w.Quiet w' := by
  intro st
  obtain ⟨hring, hfiles⟩ := hsame st
  rw [inFlight_none hidle, inFlight_none hidle', hfiles]
  exact ⟨hring, rfl⟩

theorem Quiet.of_batch {w w' : DlWriter} {st : DlSt}
    (hflight : ∀ st', w.inFlight st' = if st = st' then rows else []) (hidle : w'.batch = none)
    (hst : (w'.streams st).ring = (w.streams st).ring ∧
      (w'.streams st).files.flatten = (w.streams st).files.flatten ++ rows)
    (hother : ∀ st', st ≠ st' → w'.streams st' = w.streams st') : w.Quiet w' := by
  intro st'
  rw [hflight, inFlight_none hidle, List.append_nil]
  by_cases heq : st = st'
  case pos =>
    rw [if_pos heq, ← heq]
    exact hst
  case neg =>
    rw [if_neg heq, hother st' heq, List.append_nil]
    exact ⟨rfl, rfl⟩

theorem Quiet.fail {w : DlWriter} {st : DlSt} {failure : DlFailure}
    (hflight : ∀ st', w.inFlight st' = if st = st' then rows else [])
    (h : rows.length ≤ failure.landed) : w.Quiet (w.fail st rows failure) := by
  apply Quiet.of_batch hflight rfl
  · have hst : (w.fail st rows failure).streams st = (w.streams st).failed rows failure :=
      update_self _ _ _
    rw [hst]
    exact (w.streams st).failed_spared h
  · intro st' hne
    exact update_of_ne (Ne.symm hne) _ _

/-! ## Runs -/

/-- The records that were accepted into the ring of a stream. -/
def pushed (st : DlSt) (events : List DlEvent) : List DlRecord :=
  events.filterMap fun event =>
    match event with
    | .push st' rec => if st' = st then some rec else none
    | _ => none

/-- When a write or a commit fails, the rows that had been taken are in the file
all the same. -/
def DlEvent.Spares (w : DlWriter) : DlEvent → Prop
  | .row false failure =>
    ∀ batch, w.batch = some batch → batch.rows.length + 1 ≤ failure.landed
  | .commit false failure _ _ =>
    ∀ batch, w.batch = some batch → batch.rows.length ≤ failure.landed
  | _ => True

/-- A step of the writer that is spared. -/
def DlWriter.SparedStep (batchRows : ℕ) (w : DlWriter) (event : DlEvent) (w' : DlWriter) : Prop :=
  w.step batchRows event = some w' ∧ event.Spares w

/-- Every stream has its ledger. -/
def DlWriter.Accounts (limit : ℕ) (accepted : DlSt → List DlRecord) (w : DlWriter) : Prop :=
  ∀ st, (w.streams st).ring.Sound limit ∧
    ∃ fates, Ledger (accepted st) (w.inFlight st) (w.streams st) fates

theorem DlWriter.Accounts.quiet {accepted : DlSt → List DlRecord} {w w' : DlWriter}
    (h : w.Accounts limit accepted) (hquiet : w.Quiet w') : w'.Accounts limit accepted := by
  intro st
  obtain ⟨hsound, fates, hledger⟩ := h st
  obtain ⟨hring, hrows⟩ := hquiet st
  refine ⟨?_, fates, hledger.move hring hrows⟩
  rw [hring]
  exact hsound

theorem DlWriter.Accounts.push {accepted : DlSt → List DlRecord} {w : DlWriter}
    (h : w.Accounts limit accepted) (st : DlSt) (rec : DlRecord) :
    (w.set st { w.streams st with ring := ringPush (w.streams st).ring rec }).Accounts limit
      fun st' => accepted st' ++ if st = st' then [rec] else [] := by
  intro st'
  have hflight : (w.set st { w.streams st with
      ring := ringPush (w.streams st).ring rec }).inFlight st' = w.inFlight st' := rfl
  rw [hflight, DlWriter.set]
  dsimp only
  by_cases heq : st = st'
  case neg =>
    rw [update_of_ne (Ne.symm heq), if_neg heq, List.append_nil]
    exact h st'
  case pos =>
    subst heq
    obtain ⟨hsound, fates, hledger⟩ := h st
    rw [update_self, if_pos rfl]
    rcases Nat.lt_or_eq_of_le hsound.fill_le with hroom | hfull
    · exact ⟨(ringPush_room hsound rec hroom).1, fates, hledger.push_room hsound hroom rec⟩
    · exact ⟨(ringPush_full hsound rec hfull).1, _, hledger.push_full hsound hfull rec⟩

theorem DlWriter.Accounts.take {accepted : DlSt → List DlRecord} {w : DlWriter}
    (h : w.Accounts limit accepted) {batch : DlBatch} (hbatch : w.batch = some batch)
    (hfill : 0 < (w.streams batch.st).ring.fill) :
    (w.taken batch (ringPop (w.streams batch.st).ring).1 (dlJournalRebase w.journal
      ((w.streams batch.st).ring.buf (w.streams batch.st).ring.tail))).Accounts limit accepted := by
  intro st'
  rw [DlWriter.taken, inFlight_batch rfl, DlWriter.set]
  dsimp only
  obtain ⟨hsound, fates, hledger⟩ := h st'
  rw [inFlight_batch hbatch] at hledger
  by_cases heq : batch.st = st'
  case neg =>
    rw [if_neg heq] at hledger
    rw [update_of_ne (Ne.symm heq), if_neg heq]
    exact ⟨hsound, fates, hledger⟩
  case pos =>
    subst heq
    rw [if_pos rfl] at hledger
    rw [update_self, if_pos rfl]
    exact ⟨(ringPop_some hsound hfill).1, _, hledger.take hsound hfill w.journal⟩

/-- **A step.** One step keeps the ledgers, when it is spared. -/
theorem DlWriter.Accounts.step {batchRows : ℕ} {accepted : DlSt → List DlRecord} {w w' : DlWriter}
    (h : w.Accounts limit accepted) {event : DlEvent} (hstep : w.step batchRows event = some w')
    (hspares : event.Spares w) : w'.Accounts limit fun st => accepted st ++ pushed st [event] := by
  -- what a step that accepts nothing has to show
  have hquiet : (∀ st, pushed st [event] = []) → w.Quiet w' →
      w'.Accounts limit fun st => accepted st ++ pushed st [event] := by
    intro hnone hq
    have hsame : (fun st => accepted st ++ pushed st [event]) = accepted := by
      funext st
      rw [hnone st, List.append_nil]
    rw [hsame]
    exact h.quiet hq
  cases event with
  | push st rec =>
    obtain rfl := Option.some.inj hstep
    have hpushed : (fun st' => accepted st' ++ pushed st' [.push st rec]) =
        fun st' => accepted st' ++ if st = st' then [rec] else [] := by
      funext st'
      have hone : pushed st' [.push st rec] = if st = st' then [rec] else [] := by
        rw [pushed]
        by_cases heq : st = st'
        · simp only [List.filterMap_cons, List.filterMap_nil, if_pos heq]
        · simp only [List.filterMap_cons, List.filterMap_nil, if_neg heq]
      rw [hone]
    rw [hpushed]
    exact h.push st rec
  | clock step reopened =>
    rw [DlWriter.step] at hstep
    split at hstep
    case isFalse => cases hstep
    case isTrue hidle =>
    obtain rfl := Option.some.inj hstep
    apply hquiet (fun _ => rfl)
    apply Quiet.of_same hidle
    · rw [dlJournalLap]
      split <;> exact hidle
    · intro st
      rw [dlJournalLap]
      split
      · rw [dlWriterClockRotate]
        dsimp only
        split
        · exact same_dlStoreRotate _ _
        · exact ⟨rfl, rfl⟩
      · exact ⟨rfl, rfl⟩
  | openFile st opened =>
    rw [DlWriter.step] at hstep
    split at hstep
    case isFalse => cases hstep
    case isTrue hcan =>
    obtain rfl := Option.some.inj hstep
    apply hquiet (fun _ => rfl)
    refine Quiet.of_same hcan.1 ?_ ?_
    · exact hcan.1
    intro st'
    rw [DlWriter.set]
    dsimp only
    by_cases heq : st' = st
    · subst heq
      rw [update_self]
      exact same_dlStoreOpen _ opened
    · rw [update_of_ne heq]
      exact ⟨rfl, rfl⟩
  | closeAll =>
    rw [DlWriter.step] at hstep
    split at hstep
    case isFalse => cases hstep
    case isTrue hidle =>
    obtain rfl := Option.some.inj hstep
    exact hquiet (fun _ => rfl) (Quiet.of_same hidle hidle fun _ => ⟨rfl, rfl⟩)
  | begin st begun failure =>
    rw [DlWriter.step] at hstep
    cases hbatch : w.batch with
    | some batch =>
      rw [hbatch] at hstep
      cases hstep
    | none =>
      rw [hbatch] at hstep
      dsimp only at hstep
      apply hquiet (fun _ => rfl)
      split at hstep
      · obtain rfl := Option.some.inj hstep
        intro st'
        rw [inFlight_none hbatch, inFlight_batch rfl]
        refine ⟨rfl, ?_⟩
        split <;> rfl
      · obtain rfl := Option.some.inj hstep
        apply Quiet.fail
        · intro st'
          rw [inFlight_none hbatch]
          split <;> rfl
        · exact Nat.zero_le _
  | row written failure =>
    rw [DlWriter.step] at hstep
    cases hbatch : w.batch with
    | none =>
      rw [hbatch] at hstep
      cases hstep
    | some batch =>
      rw [hbatch] at hstep
      dsimp only at hstep
      split at hstep
      case isTrue => cases hstep
      case isFalse =>
      rcases Nat.eq_zero_or_pos (w.streams batch.st).ring.fill with hzero | hfill
      · rw [ringPop_none hzero] at hstep
        obtain rfl := Option.some.inj hstep
        apply hquiet (fun _ => rfl)
        intro st'
        rw [inFlight_batch hbatch]
        exact ⟨rfl, rfl⟩
      · have htaken := h.take hbatch hfill
        have hnone : (fun st => accepted st ++ pushed st [.row written failure]) = accepted := by
          funext st
          exact List.append_nil _
        rw [hnone]
        have hpop : ringPop (w.streams batch.st).ring = ((ringPop (w.streams batch.st).ring).1,
              some ((w.streams batch.st).ring.buf (w.streams batch.st).ring.tail)) := by
          rw [ringPop, if_pos hfill]
        rw [hpop] at hstep
        cases written with
        | true =>
          obtain rfl := Option.some.inj hstep
          exact htaken
        | false =>
          obtain rfl := Option.some.inj hstep
          -- the record is in the batch, and the batch fails
          refine htaken.quiet (Quiet.fail (w := w.taken batch _ _) ?_ ?_)
          · intro st'
            rw [inFlight_batch rfl]
          · rw [length_append]
            exact hspares batch hbatch
  | commit committed failure full reopened =>
    rw [DlWriter.step] at hstep
    cases hbatch : w.batch with
    | none =>
      rw [hbatch] at hstep
      cases hstep
    | some batch =>
      rw [hbatch] at hstep
      dsimp only at hstep
      split at hstep
      case isTrue => cases hstep
      case isFalse =>
      apply hquiet (fun _ => rfl)
      cases committed with
      | false =>
        obtain rfl := Option.some.inj hstep
        exact Quiet.fail (inFlight_batch hbatch) (hspares batch hbatch)
      | true =>
        obtain rfl := Option.some.inj hstep
        apply Quiet.of_batch (inFlight_batch hbatch) rfl
        · rw [DlWriter.set]
          dsimp only
          rw [update_self]
          have hland : ((w.streams batch.st).landed batch.rows).files.flatten =
              (w.streams batch.st).files.flatten ++ batch.rows := flatten_landRows _ _
          split
          · obtain ⟨hring, hfiles⟩ :=
              same_dlStoreRotate ((w.streams batch.st).landed batch.rows) reopened
            exact ⟨hring, hfiles.trans hland⟩
          · exact ⟨rfl, hland⟩
        · intro st' hne
          exact update_of_ne (Ne.symm hne) _ _

/-- **The writer.** In every run whose batches are spared every record that was
accepted into a ring is in a file or in the batch in flight, still queued, or
counted as dropped, and the rows of a stream are in the order its records were
accepted in. -/
theorem records_accounted {limit batchRows : ℕ} {w w' : DlWriter} {events : List DlEvent}
    (hsound : ∀ st, (w.streams st).ring.Sound limit) (hfiles : ∀ st, (w.streams st).files = [])
    (hdropped : ∀ st, (w.streams st).ring.dropped = 0) (hidle : w.batch = none)
    (hrun : Run (DlWriter.SparedStep batchRows) w events w') (st : DlSt) :
    ∃ fates, Ledger ((w.streams st).ring.queue ++ pushed st events) (w'.inFlight st)
      (w'.streams st) fates := by
  have haccounts : w'.Accounts limit fun st => (w.streams st).ring.queue ++ pushed st events := by
    refine hrun.history (I := fun events w' => w'.Accounts limit
      fun st => (w.streams st).ring.queue ++ pushed st events) ?_ ?_
    · rintro events w₁ event w₂ ⟨hstep, hspares⟩ h
      have hsplit : (fun st => (w.streams st).ring.queue ++ pushed st (events ++ [event])) =
          fun st => ((w.streams st).ring.queue ++ pushed st events) ++ pushed st [event] := by
        funext st
        rw [pushed, filterMap_append, ← append_assoc]
        rfl
      rw [hsplit]
      exact h.step hstep hspares
    · intro st
      refine ⟨hsound st, [], ?_, ?_, ?_, ?_⟩
      · exact List.append_nil _
      · rw [hfiles st, inFlight_none hidle]
        rfl
      · exact hdropped st
      · exact fun fate hfate => absurd hfate not_mem_nil
  exact (haccounts st).2

/-- A writer that has just started, with empty rings. -/
def writerBoot : DlWriter where
  streams := fun _ =>
    { ring := paramRing 0
      isOpen := false
      files := []
      written := 0
      fileRows := 0
      rotations := 0
      openFails := 0 }
  journal := dlJournalBoot
  validSeen := false
  errors := 0
  batch := none

/-- A write that fails with nothing in the file. -/
def yanked : DlFailure := ⟨0, false, false⟩

/-- A batch of two records of one stream, with a third pushed before its commit, and one of
the other stream whose write fails with its row in the file. -/
def twoBatches : List DlEvent :=
  [.push .param (sampleRecord 0), .push .param (sampleRecord 1), .push .can (sampleRecord 2),
    .openFile .param .fresh, .begin .param true yanked, .row true yanked, .row true yanked,
    .row true yanked, .push .param (sampleRecord 3), .commit true yanked false false,
    .openFile .can .fresh, .begin .can true yanked, .row false ⟨1, false, false⟩]

theorem records_accounted_two : ∃ w', Run (DlWriter.SparedStep 256) writerBoot twoBatches w' ∧
    ∀ st, ∃ fates, Ledger ((writerBoot.streams st).ring.queue ++ pushed st twoBatches)
      (w'.inFlight st) (w'.streams st) fates := by
  obtain ⟨w', hrun⟩ : ∃ w', Run (DlWriter.SparedStep 256) writerBoot twoBatches w' :=
    ⟨_, .cons ⟨rfl, trivial⟩ (.cons ⟨rfl, trivial⟩ (.cons ⟨rfl, trivial⟩ (.cons ⟨rfl, trivial⟩
      (.cons ⟨rfl, trivial⟩ (.cons ⟨rfl, trivial⟩ (.cons ⟨rfl, trivial⟩ (.cons ⟨rfl, trivial⟩
      (.cons ⟨rfl, trivial⟩ (.cons ⟨rfl, trivial⟩ (.cons ⟨rfl, trivial⟩ (.cons ⟨rfl, trivial⟩
      (.cons ⟨rfl, fun _ h => Option.some_inj.mp h ▸ Nat.le_refl 1⟩ (.nil _)))))))))))))⟩
  have hsound : ∀ st, (writerBoot.streams st).ring.Sound 2048 :=
    fun _ => paramRing_sound (Nat.zero_le _)
  exact ⟨w', hrun, records_accounted hsound (fun _ => rfl) (fun _ => rfl) rfl hrun⟩

/-- A record that is pushed, and a batch whose first write fails. -/
def failedBatch : List DlEvent :=
  [.push .param (sampleRecord 0), .openFile .param .fresh, .begin .param true yanked,
    .row false yanked]

/-- The record of a write that failed is nowhere: not queued, not counted, in no
file. -/
theorem record_lost : ∃ w',
    Run (fun w event w' => DlWriter.step 256 w event = some w') writerBoot failedBatch w' ∧
    ¬∃ fates, Ledger ((writerBoot.streams .param).ring.queue ++ pushed .param failedBatch)
      (w'.inFlight .param) (w'.streams .param) fates := by
  refine ⟨_, .cons rfl (.cons rfl (.cons rfl (.cons rfl (.nil _)))), ?_⟩
  rintro ⟨fates, haccepted, hrows, hdropped, -⟩
  have hone : [sampleRecord 0] = fates.map Prod.fst ++ [] := haccepted
  have hnone : fates.filterMap Prod.snd = [] := hrows
  have hzero : 0 = UInt32.ofNat (fates.countP fun fate => fate.2.isNone) := hdropped
  match fates, hone, hnone, hzero with
  | [(_, none)], _, _, hzero =>
    have hcounted : (0 : UInt32) = UInt32.ofNat 1 := hzero
    exact absurd hcounted (by decide)
  | [(_, some row)], _, hnone, _ => cases hnone

end Meatpi
