import Mathlib.Data.List.Perm.Subperm
import Meatpi.DataLogger.StoreNames

/-!
# The order of the files

A file that is named after the newest one comes last as long as there is room in ten
digits. Retention deletes from the front (`enforceRetention_retains`), and a file that
is written is at the end (`DlFolder.Writes`), so it stays.
-/

namespace Meatpi

open Function List

variable {eng : DlEngine} {st' : DlStreamId} {new old : List UInt8}

variable {name : List UInt8} {epoch maxFiles : ℕ}

variable {st : DlStreamId}

/-! ## Retention -/

/-- What deletes files of a stream from the front does to a folder. -/
structure Retains (st : DlStreamId) (d d' : DlFolder) : Prop where
  subset : ∀ name ∈ d'.names, name ∈ d.names
  removed : ∀ name ∈ d.names, name ∉ d'.names →
    IsLogFile st name ∧ ∀ kept ∈ d'.names, IsLogFile st kept → name < kept
  last : ∀ name ∈ d.names, (∀ other ∈ d.names, IsLogFile st other → other ≤ name) →
    name ∈ d'.names

theorem Retains.refl (d : DlFolder) : Retains st d d where
  subset := fun _ h => h
  removed := fun _ h hnot => absurd h hnot
  last := fun _ h _ => h

variable {d : DlFolder}

theorem exists_other (h : 1 < d.names.countP fun name => IsLogFile st name) (first : List UInt8) :
    ∃ other ∈ d.names, IsLogFile st other ∧ other ≠ first := by
  by_contra hnone
  have hsub : d.names.filter (fun name => IsLogFile st name) ⊆ [first] := by
    intro other hother
    obtain ⟨hmem, hlog⟩ := mem_filter.1 hother
    by_contra hne
    exact hnone ⟨other, hmem, of_decide_eq_true hlog, fun heq => hne (heq ▸ mem_cons_self)⟩
  have hle := (subperm_of_subset (d.nodup.filter _) hsub).length_le
  rw [← countP_eq_length_filter, length_singleton] at hle
  omega

variable {d' : DlFolder}

theorem Retains.unlink {sys : DlSystem} (hmax : 1 ≤ maxFiles)
    (hcount : maxFiles < (scanDir st (sys.readdir d)).count)
    (h : Retains st (d.unlink (scanDir st (sys.readdir d)).oldest) d') : Retains st d d' := by
  have hscan := scanDir_readdir sys st d
  generalize scanDir st (sys.readdir d) = scan at hcount h hscan
  obtain ⟨-, hlog⟩ := hscan.oldest (by omega)
  have hfirst : ∀ name ∈ (d.unlink scan.oldest).names, IsLogFile st name → scan.oldest < name := by
    intro name hname hlog'
    obtain ⟨hne, hmem⟩ := d.nodup.mem_erase_iff.1 hname
    exact Std.lt_of_le_of_ne (hscan.oldest_le name hmem hlog') (Ne.symm hne)
  refine ⟨fun name hname => mem_of_mem_erase (h.subset name hname),
    fun name hname hnot => ?_, fun name hname hlast => ?_⟩
  · by_cases heq : name = scan.oldest
    · subst heq
      exact ⟨hlog, fun kept hkept hlog' => hfirst kept (h.subset kept hkept) hlog'⟩
    · exact h.removed name (d.nodup.mem_erase_iff.2 ⟨heq, hname⟩) hnot
  · have hne : name ≠ scan.oldest := by
      rintro rfl
      have htwo : 1 < d.names.countP fun name => IsLogFile st name := by
        rw [← hscan.count]
        omega
      obtain ⟨other, hmem, hlog', hne⟩ := exists_other htwo scan.oldest
      exact hne (List.le_antisymm (hlast other hmem hlog') (hscan.oldest_le other hmem hlog'))
    exact h.last name (d.nodup.mem_erase_iff.2 ⟨hne, hname⟩)
      fun other hother => hlast other (mem_of_mem_erase hother)

/-- **Retention deletes from the front** and never the last file. -/
theorem enforceRetention_retains (sys : DlSystem) (st : DlStreamId) (hmax : 1 ≤ maxFiles) (fuel : ℕ)
    (d : DlFolder) : Retains st d (enforceRetention sys st maxFiles fuel d) := by
  induction fuel generalizing d with
  | zero => exact .refl d
  | succ fuel ih =>
    rw [enforceRetention]
    by_cases hcount : maxFiles < (scanDir st (sys.readdir d)).count
    · rw [if_pos hcount]
      by_cases hunlink : sys.unlinks (scanDir st (sys.readdir d)).oldest = true
      · rw [if_pos hunlink]
        exact .unlink hmax hcount (ih _)
      · rw [if_neg hunlink]
        exact .refl d
    · rw [if_neg hcount]
      exact .refl d

/-! ## Opens -/

/-- The last time that ten digits hold. -/
def dlLastEpoch : ℕ := 9999999999

/-- No file of the stream has the last time that ten digits hold, or a later one. -/
def RoomLeft (st : DlStreamId) (d : DlFolder) : Prop :=
  ∀ old ∈ d.names, IsLogFile st old → ∀ epoch, dlFilesParse old = some epoch → epoch < dlLastEpoch

/-- What a stream may write next: as a log file it comes last, and it is one as long as
there is room. -/
structure Opens (st : DlStreamId) (d : DlFolder) (name : List UInt8) : Prop where
  start : st.start <+: name
  last : IsLogFile st name → ∀ other ∈ d.names, IsLogFile st other → other ≤ name
  room : RoomLeft st d → IsLogFile st name

theorem dlNewEpoch_spec (sys : DlSystem) (st : DlStreamId) (d : DlFolder) :
    (∀ old ∈ d.names, IsLogFile st old → ∀ epoch, dlFilesParse old = some epoch →
      epoch < dlNewEpoch sys (scanDir st (sys.readdir d))) ∧
    (RoomLeft st d →
      (dlNewEpoch sys (scanDir st (sys.readdir d))).toNat < 10 ^ dlEpochLen) := by
  have hscan := scanDir_readdir sys st d
  generalize scanDir st (sys.readdir d) = scan at hscan
  have htime := sys.time_le
  have hlen : 10 ^ dlEpochLen = 10000000000 := rfl
  by_cases hcount : 0 < scan.count
  · obtain ⟨hmem, hlog⟩ := hscan.newest hcount
    obtain ⟨newest, -, -, -, hnewest⟩ := hlog.logName
    have hepoch : dlNewEpoch sys scan =
        if sys.time ≤ newest then (newest : ℤ) + 1 else sys.time := by
      rw [dlNewEpoch, if_pos hcount, hnewest]
    rw [hepoch]
    refine ⟨fun old hold hlog' epoch hparse => ?_, fun hroom => ?_⟩
    · have hle := time_le_of_le hlog' hlog (hscan.le_newest old hold hlog') hparse hnewest
      split_ifs <;> omega
    · have hlt : newest < 9999999999 := hroom _ hmem hlog newest hnewest
      split_ifs <;> omega
  · have hepoch : dlNewEpoch sys scan = sys.time := by
      rw [dlNewEpoch, if_neg hcount]
    refine ⟨fun old hold hlog => ?_, fun _ => by omega⟩
    rw [hscan.count] at hcount
    exact absurd (countP_pos_iff.2 ⟨old, hold, decide_eq_true hlog⟩) hcount

theorem dlEngines_ext (eng : Fin dlEngines.length) : (dlEngines.get eng).ext ∈ dlExts := by
  have hall : ∀ eng ∈ dlEngines, eng.ext ∈ dlExts := by decide
  exact hall _ (get_mem _ _)

theorem dlOpenName_opens (sys : DlSystem) (st : DlStreamId) (hext : eng.ext ∈ dlExts)
    (forceNew : Bool) (d : DlFolder) : Opens st d (dlOpenName sys st eng forceNew d) := by
  rw [dlOpenName]
  by_cases hresume : dlResumes sys eng forceNew (scanDir st (sys.readdir d)) = true
  · rw [if_pos hresume]
    have hscan := scanDir_readdir sys st d
    have hcount : 0 < (scanDir st (sys.readdir d)).count := by
      rw [dlResumes] at hresume
      simp only [Bool.and_eq_true, decide_eq_true_eq] at hresume
      exact hresume.1.1.1.2
    obtain ⟨-, hlog⟩ := hscan.newest hcount
    exact ⟨hlog.2, fun _ => hscan.le_newest, fun _ => hlog⟩
  · rw [if_neg hresume]
    obtain ⟨hafter, hroom⟩ := dlNewEpoch_spec sys st d
    generalize dlNewEpoch sys (scanDir st (sys.readdir d)) = epoch at hafter hroom
    refine ⟨?_, fun hlog other hother hlog' => ?_, fun h => ?_⟩
    · rw [DlStreamId.dlFilesMake, append_assoc]
      exact prefix_append _ _
    · have hfits : epoch.toNat < 10 ^ dlEpochLen := by
        by_contra hlong
        have hparse := hlog.1.1
        rw [parse_make_long st (Nat.not_lt.1 hlong)] at hparse
        cases hparse
      obtain ⟨old, digits, ext, hname, hparse⟩ := hlog'.logName
      have hlt := hafter other hother hlog' old hparse
      exact List.le_of_lt (lt_of_time_lt hname (isLogName_make st hext hfits) (by omega))
    · exact (isLogName_make st hext (hroom h)).isLogFile

/-! ## Files that are written -/

/-- A file that a stream writes: it is in the folder, and the last one of the stream. -/
structure DlFolder.Writes (d : DlFolder) (st : DlStreamId) (name : List UInt8) : Prop where
  mem : name ∈ d.names
  start : st.start <+: name
  last : IsLogFile st name → ∀ other ∈ d.names, IsLogFile st other → other ≤ name

theorem DlFolder.Writes.retain
    (h : d.Writes st name) (hretains : Retains st' d d') : d'.Writes st name where
  mem := by
    by_contra hnot
    obtain ⟨hlog, -⟩ := hretains.removed name h.mem hnot
    obtain rfl := start_inj h.start hlog.2
    exact hnot (hretains.last name h.mem (h.last hlog))
  start := h.start
  last := fun hlog other hother => h.last hlog other (hretains.subset other hother)

theorem DlFolder.Writes.create {name' : List UInt8}
    (h : d.Writes st name) (hne : st ≠ st') (hstart : st'.start <+: name') :
    (d.create name').Writes st name where
  mem := mem_insert_of_mem h.mem
  start := h.start
  last := by
    intro hlog other hother hlog'
    rcases mem_insert_iff.1 hother with rfl | hother
    · exact absurd (start_inj hlog'.2 hstart) hne
    · exact h.last hlog other hother hlog'

theorem Opens.writes (h : Opens st d name) :
    (d.create name).Writes st name where
  mem := mem_insert_self
  start := h.start
  last := by
    intro hlog other hother hlog'
    rcases mem_insert_iff.1 hother with rfl | hother
    · exact List.le_refl _
    · exact h.last hlog other hother hlog'

/-! ## Steps -/

/-- A file that is created is one of the stream and comes after all of its files. -/
def CreatesLast (st : DlStreamId) (d d' : DlFolder) : Prop :=
  ∀ name ∈ d'.names, name ∉ d.names →
    st.start <+: name ∧ ∀ old ∈ d.names, IsLogFile st old → old < name

/-- A file that is deleted is one of the stream and comes before all that stay. -/
def DeletesFirst (st : DlStreamId) (d d' : DlFolder) : Prop :=
  ∀ name ∈ d.names, name ∉ d'.names →
    IsLogFile st name ∧ ∀ kept ∈ d'.names, IsLogFile st kept → name < kept

/-- What the streams write is there. -/
def DlStore.KeepsWritten (s : DlStore) : Prop :=
  ∀ st name, s.file st = some name → name ∈ s.dir.names

/-- What the streams write is there, and last. -/
def DlStore.Inv (s : DlStore) : Prop :=
  ∀ st name, s.file st = some name → s.dir.Writes st name

/-- What a step does, where there is room. -/
structure DlStepKeeps (st : DlStreamId) (s s' : DlStore) : Prop where
  inv : s'.Inv
  creates : RoomLeft st s.dir → CreatesLast st s.dir s'.dir
  deletes : DeletesFirst st s.dir s'.dir

variable {s : DlStore}

theorem DlStepKeeps.same {s' : DlStore} (hdir : s'.dir = s.dir) (hinv : s'.Inv) :
    DlStepKeeps st s s' where
  inv := hinv
  creates := by
    intro _ name hname hnot
    rw [hdir] at hname
    exact absurd hname hnot
  deletes := by
    intro name hname hnot
    rw [hdir] at hnot
    exact absurd hname hnot

theorem dlStoreOpen_keeps (sys : DlSystem) (hmax : 1 ≤ maxFiles) (hext : eng.ext ∈ dlExts)
    (forceNew : Bool) (hinv : s.Inv) (hclosed : s.file st = none) :
    DlStepKeeps st s (s.dlStoreOpen sys st maxFiles eng forceNew) := by
  have hopens := dlOpenName_opens sys st hext forceNew s.dir
  rw [DlStore.dlStoreOpen]
  generalize dlOpenName sys st eng forceNew s.dir = name at hopens
  -- a name that was not there is the new one, and the last one
  have hnew : ∀ name' ∈ (s.dir.create name).names, name' ∉ s.dir.names → RoomLeft st s.dir →
      st.start <+: name' ∧ ∀ old ∈ s.dir.names, IsLogFile st old → old < name' := by
    intro name' hname' hnot hroom
    obtain rfl := (mem_insert_iff.1 hname').resolve_right hnot
    refine ⟨hopens.start, fun old hold hlog => ?_⟩
    exact Std.lt_of_le_of_ne (hopens.last (hopens.room hroom) old hold hlog)
      fun heq => hnot (heq ▸ hold)
  by_cases hok : sys.opens = true
  · rw [if_pos hok]
    have hretains := enforceRetention_retains sys st hmax (s.dir.create name).names.length
      (s.dir.create name)
    dsimp only
    generalize enforceRetention sys st maxFiles (s.dir.create name).names.length
      (s.dir.create name) = d' at hretains
    refine ⟨fun st' name' hfile => ?_, fun hroom name' hname' hnot => ?_,
      fun name' hname' hnot => ?_⟩
    · by_cases hst : st' = st
      · subst hst
        have hsame : some name = some name' := (update_self st' _ _).symm.trans hfile
        obtain rfl := Option.some.inj hsame
        exact hopens.writes.retain hretains
      · have hsame : s.file st' = some name' := (update_of_ne hst _ _).symm.trans hfile
        exact ((hinv st' name' hsame).create hst hopens.start).retain hretains
    · exact hnew name' (hretains.subset name' hname') hnot hroom
    · exact hretains.removed name' (mem_insert_of_mem hname') hnot
  · rw [if_neg hok]
    by_cases hleaves : sys.leaves = true
    · rw [if_pos hleaves]
      refine ⟨fun st' name' hfile => ?_, fun hroom name' hname' hnot => ?_,
        fun name' hname' hnot => absurd (mem_insert_of_mem hname') hnot⟩
      · have hst : st' ≠ st := by
          rintro rfl
          rw [hclosed] at hfile
          cases hfile
        exact (hinv st' name' hfile).create hst hopens.start
      · exact hnew name' hname' hnot hroom
    · rw [if_neg hleaves]
      exact .same rfl hinv

theorem dlStoreClose_inv (hinv : s.Inv) (st : DlStreamId) : (s.dlStoreClose st).Inv := by
  intro st' name hfile
  by_cases hst : st' = st
  · subst hst
    have hnone : none = some name := (update_self st' _ _).symm.trans hfile
    cases hnone
  · exact hinv st' name ((update_of_ne hst _ _).symm.trans hfile)

/-- **One operation.** -/
theorem step_keeps (hinv : s.Inv) (e : DlStoreStep) : DlStepKeeps e.st s (s.step e) := by
  rw [DlStore.step]
  cases e.op with
  | «open» eng forceNew =>
    cases hfile : s.file e.st with
    | none =>
      exact dlStoreOpen_keeps e.sys e.maxFiles_pos (dlEngines_ext eng) forceNew hinv hfile
    | some name => exact .same rfl hinv
  | close => exact .same rfl (dlStoreClose_inv hinv e.st)
  | rotate eng =>
    have hclosed : (s.dlStoreClose e.st).file e.st = none := update_self e.st _ _
    have hkeeps := dlStoreOpen_keeps e.sys e.maxFiles_pos (dlEngines_ext eng) true
      (dlStoreClose_inv hinv e.st) hclosed
    exact ⟨hkeeps.inv, hkeeps.creates, hkeeps.deletes⟩
  | retain =>
    have hretains := enforceRetention_retains e.sys e.st e.maxFiles_pos s.dir.names.length s.dir
    refine ⟨fun st name hfile => (hinv st name hfile).retain hretains,
      fun _ name hname hnot => absurd (hretains.subset name hname) hnot, hretains.removed⟩

theorem after_inv (d : DlFolder) (ops : List DlStoreStep) : (DlStore.after d ops).Inv := by
  induction ops using List.reverseRecOn with
  | nil =>
    intro st name hfile
    cases hfile
  | append_singleton ops e ih =>
    rw [DlStore.after, foldl_append]
    exact (step_keeps ih e).inv

/-- **The files of a stream** stay in the order of writing as long as ten digits hold
their times, retention deletes the oldest, and what is written stays. -/
theorem dlStore_ordered (d : DlFolder) (ops : List DlStoreStep) (e : DlStoreStep) :
    (RoomLeft e.st (DlStore.after d ops).dir →
      CreatesLast e.st (DlStore.after d ops).dir ((DlStore.after d ops).step e).dir) ∧
    DeletesFirst e.st (DlStore.after d ops).dir ((DlStore.after d ops).step e).dir ∧
    ((DlStore.after d ops).step e).KeepsWritten := by
  have hkeeps := step_keeps (after_inv d ops) e
  exact ⟨hkeeps.creates, hkeeps.deletes, fun st name hfile => (hkeeps.inv st name hfile).mem⟩

/-! ## The last time -/

/-- A clock that stands at its last time, and a card without faults. -/
def standingClock : DlSystem where
  time := 2 ^ 33
  time_nonneg := by decide
  time_le := Int.le_refl _
  timeValid := true
  readdir := DlFolder.names
  readdir_perm _ := .refl _
  size := none
  opens := true
  leaves := false
  unlinks _ := true

/-- A rotation of the csv parameter log, with one file kept. -/
def rotateCsv : DlStoreStep where
  st := .param
  sys := standingClock
  maxFiles := 1
  maxFiles_pos := Nat.le_refl 1
  op := .rotate ⟨1, by decide⟩

/-- The name of a csv parameter log. -/
def csvLog (epoch : ℕ) : List UInt8 := DlStreamId.param.dlFilesMake epoch (asciiBytes ".csv")

/-- A folder of one file. -/
def onlyFile (name : List UInt8) : DlFolder := ⟨[name], List.nodup_singleton name⟩

theorem csvLog_name (h : epoch < 10 ^ dlEpochLen) :
    IsLogName .param (csvLog epoch) (dlEpochText epoch) (asciiBytes ".csv") epoch := by
  have hfits : (epoch : ℤ).toNat < 10 ^ dlEpochLen := h
  exact isLogName_make .param (by decide) hfits

theorem scanDir_singleton (h : IsLogFile .param name) :
    scanDir .param [name] = { count := 1, oldest := name, newest := name } :=
  dlScanAdd_file h dlScanInit

theorem step_rotateCsv {s : DlStore} (hdir : s.dir = d)
    (hepoch : dlNewEpoch standingClock (scanDir .param d.names) = epoch) :
    (s.step rotateCsv).dir = enforceRetention standingClock .param 1
      (d.create (csvLog epoch)).names.length (d.create (csvLog epoch)) := by
  have hname : dlOpenName standingClock .param (dlEngines.get ⟨1, by decide⟩) true d =
      csvLog epoch := by
    rw [csvLog, ← hepoch]
    rfl
  subst hdir
  rw [← hname]
  rfl

theorem newEpoch_singleton (hlow : 2 ^ 33 ≤ epoch) (hfits : epoch < 10 ^ dlEpochLen) :
    dlNewEpoch standingClock (scanDir .param [csvLog epoch]) = (epoch + 1 : ℕ) := by
  have hname := csvLog_name hfits
  have hle : standingClock.time ≤ epoch := by
    change (2 ^ 33 : ℤ) ≤ epoch
    omega
  rw [scanDir_singleton hname.isLogFile, dlNewEpoch, hname.parse]
  dsimp only
  rw [if_pos hle]
  rfl

theorem DlFolder.eq_of_names (h : d.names = d'.names) : d = d' := by
  cases d
  cases d'
  cases h
  rfl

theorem enforceRetention_only (h : IsLogFile .param name) (fuel : ℕ) :
    enforceRetention standingClock .param 1 fuel (onlyFile name) = onlyFile name := by
  cases fuel with
  | zero => rfl
  | succ fuel =>
    change (if 1 < (scanDir .param [name]).count then _ else _) = _
    rw [scanDir_singleton h, if_neg (Nat.lt_irrefl 1)]

theorem enforceRetention_two (hold : IsLogFile .param old) (hnew : IsLogFile .param new)
    (hlt : old < new) (hd : d.names = [new, old]) (fuel : ℕ) :
    enforceRetention standingClock .param 1 (fuel + 1) d = onlyFile new := by
  have hscan : scanDir .param [new, old] = { count := 2, oldest := old, newest := new } := by
    change dlScanAdd .param (scanDir .param [new]) old = _
    rw [scanDir_singleton hnew, dlScanAdd_file hold]
    rw [if_pos (.inr hlt), if_neg (not_or.2 ⟨Nat.one_ne_zero, List.lt_asymm hlt⟩)]
  have hread : standingClock.readdir d = [new, old] := hd
  have hne : (new == old) = false := by
    rw [beq_eq_false_iff_ne]
    rintro rfl
    exact List.lt_irrefl new hlt
  have hunlink : d.unlink old = onlyFile new := by
    refine DlFolder.eq_of_names ?_
    change d.names.erase old = [new]
    rw [hd, erase_cons, hne, if_neg Bool.false_ne_true, erase_cons_head]
  rw [enforceRetention, hread, hscan, hunlink]
  exact enforceRetention_only hnew fuel

theorem rotateCsv_only {s : DlStore} (hdir : s.dir = onlyFile (csvLog epoch))
    (hlow : 2 ^ 33 ≤ epoch) (hfits : epoch + 1 < 10 ^ dlEpochLen) :
    (s.step rotateCsv).dir = onlyFile (csvLog (epoch + 1)) := by
  have hold := csvLog_name (Nat.lt_of_succ_lt hfits)
  have hnew := csvLog_name hfits
  have hlt : csvLog epoch < csvLog (epoch + 1) := lt_of_time_lt hold hnew (Nat.lt_succ_self epoch)
  have hnot : csvLog (epoch + 1) ∉ (onlyFile (csvLog epoch)).names := by
    intro hmem
    rw [mem_singleton.1 hmem] at hlt
    exact List.lt_irrefl _ hlt
  have hnames : ((onlyFile (csvLog epoch)).create (csvLog (epoch + 1))).names =
      [csvLog (epoch + 1), csvLog epoch] := insert_of_not_mem hnot
  rw [step_rotateCsv hdir (newEpoch_singleton hlow (Nat.lt_of_succ_lt hfits)), hnames]
  exact enforceRetention_two hold.isLogFile hnew.isLogFile hlt hnames 1

theorem after_rotateCsv {k : ℕ} (h : 2 ^ 33 + k < 10 ^ dlEpochLen) :
    (DlStore.after ⟨[], nodup_nil⟩ (List.replicate (k + 1) rotateCsv)).dir =
      onlyFile (csvLog (2 ^ 33 + k)) := by
  induction k with
  | zero =>
    have hfirst : dlNewEpoch standingClock (scanDir .param []) = (2 ^ 33 : ℕ) := rfl
    have hstep := step_rotateCsv (s := DlStore.closed ⟨[], nodup_nil⟩)
      (d := ⟨[], nodup_nil⟩) rfl hfirst
    exact hstep.trans (enforceRetention_only (csvLog_name h).isLogFile _)
  | succ k ih =>
    have hbefore := ih (by omega)
    rw [replicate_succ', DlStore.after, foldl_append]
    exact rotateCsv_only hbefore (Nat.le_add_right _ k) h

theorem roomLeft_csvLog (h : epoch < dlLastEpoch) : RoomLeft .param (onlyFile (csvLog epoch)) := by
  have hname := csvLog_name (h.trans (by decide))
  intro old hmem _ time hparse
  rw [mem_singleton.1 hmem, hname.parse] at hparse
  cases hparse
  exact h

/-- Two rotations in one second: the second file is named after the first, which goes. -/
theorem dlStore_ordered_rotations :
    CreatesLast .param (onlyFile (csvLog (2 ^ 33))) (onlyFile (csvLog (2 ^ 33 + 1))) ∧
    DeletesFirst .param (onlyFile (csvLog (2 ^ 33))) (onlyFile (csvLog (2 ^ 33 + 1))) := by
  have hdir : (DlStore.after ⟨[], nodup_nil⟩ [rotateCsv]).dir = onlyFile (csvLog (2 ^ 33)) :=
    after_rotateCsv (k := 0) (by decide)
  have hnext := rotateCsv_only hdir (Nat.le_refl _) (by decide)
  obtain ⟨hcreates, hdeletes, -⟩ := dlStore_ordered ⟨[], nodup_nil⟩ [rotateCsv] rotateCsv
  rw [hnext, hdir] at hcreates hdeletes
  exact ⟨hcreates (roomLeft_csvLog (by decide)), hdeletes⟩

theorem csvLog_wraps : ¬csvLog dlLastEpoch < csvLog (dlLastEpoch + 1) := by
  decide +kernel

theorem enforceRetention_spared (hold : IsLogFile .param old) (hnew : ¬IsLogFile .param new)
    (hd : d.names = [new, old]) (fuel : ℕ) :
    enforceRetention standingClock .param 1 fuel d = d := by
  cases fuel with
  | zero => rfl
  | succ fuel =>
    have hscan : scanDir .param [new, old] = { count := 1, oldest := old, newest := old } := by
      change dlScanAdd .param (dlScanAdd .param dlScanInit new) old = _
      rw [dlScanAdd_other hnew, dlScanAdd_file hold]
      rfl
    have hread : standingClock.readdir d = [new, old] := hd
    rw [enforceRetention, hread, hscan, if_neg (Nat.lt_irrefl 1)]

/-- A clock that stands at its last time for as many rotations as there are times left. -/
theorem dlStore_wraps :
    ¬∀ (d : DlFolder) (ops : List DlStoreStep) (e : DlStoreStep),
      CreatesLast e.st (DlStore.after d ops).dir ((DlStore.after d ops).step e).dir ∧
      DeletesFirst e.st (DlStore.after d ops).dir ((DlStore.after d ops).step e).dir ∧
      ((DlStore.after d ops).step e).KeepsWritten := by
  intro h
  obtain ⟨k, hk⟩ : ∃ k, 2 ^ 33 + k = dlLastEpoch := Nat.le.dest (by decide)
  have hlow : 2 ^ 33 ≤ dlLastEpoch := hk ▸ Nat.le_add_right _ k
  have hlast : dlLastEpoch < 10 ^ dlEpochLen := by decide
  have hlog := (csvLog_name hlast).isLogFile
  have hdir := after_rotateCsv (k := k) (hk ▸ hlast)
  rw [hk] at hdir
  obtain ⟨hcreates, -, -⟩ := h ⟨[], nodup_nil⟩ (List.replicate (k + 1) rotateCsv) rotateCsv
  generalize DlStore.after ⟨[], nodup_nil⟩ (List.replicate (k + 1) rotateCsv) = s at hdir hcreates
  -- the new file is there, and before the old one
  have hnew : ¬IsLogFile .param (csvLog (dlLastEpoch + 1)) := by
    intro hnew
    have hparse := hnew.1.1
    have hlong : 10 ^ dlEpochLen ≤ ((dlLastEpoch + 1 : ℕ) : ℤ).toNat := Nat.le_refl _
    rw [csvLog, parse_make_long .param hlong] at hparse
    cases hparse
  have hnot : csvLog (dlLastEpoch + 1) ∉ (onlyFile (csvLog dlLastEpoch)).names := by
    intro hmem
    rw [mem_singleton.1 hmem] at hnew
    exact hnew hlog
  have hnames : ((onlyFile (csvLog dlLastEpoch)).create (csvLog (dlLastEpoch + 1))).names =
      [csvLog (dlLastEpoch + 1), csvLog dlLastEpoch] := insert_of_not_mem hnot
  have hstep := step_rotateCsv hdir (newEpoch_singleton hlow hlast)
  rw [enforceRetention_spared hlog hnew hnames] at hstep
  rw [hstep, hdir] at hcreates
  have hmem : csvLog (dlLastEpoch + 1) ∈
      ((onlyFile (csvLog dlLastEpoch)).create (csvLog (dlLastEpoch + 1))).names := by
    rw [hnames]
    exact mem_cons_self
  exact csvLog_wraps ((hcreates _ hmem hnot).2 _ mem_cons_self hlog)

end Meatpi
