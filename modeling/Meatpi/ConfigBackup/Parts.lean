import Meatpi.ConfigBackup.Files

/-!
# The parts that are files (`config_backup_apply.c`)

Each part of a document is walked twice, dry and for real, by the same code. For
every part three facts: when a walk succeeds, that a dry one changes nothing, and
what a real one that succeeds does to the files. When it succeeds does not depend
on the files that are there.
-/

namespace Meatpi

variable {m : CbMember} {mem : Bool} {files : CbFiles} {text : List UInt8}

/-- The characters of a text are its bytes. -/
def charBytes (s : List Char) : List UInt8 := s.map fun c => c.toNat.toUInt8

/-- The bytes of a text are its characters. -/
def byteChars (bytes : List UInt8) : List Char := bytes.map fun b => Char.ofNat b.toNat

/-- `cJSON_ParseWithLength`, which may find no memory. -/
def cbParse (plat : CbPlatform) (mem : Bool) (text : List UInt8) : Option Json :=
  if mem then plat.cj.parse text else none

def apDir : List Char := "/data/autopid".toList

def apTablesDir : List Char := "/data/autopid/vehicles".toList

def dtcDbDir : List Char := "/data/autopid/dtc_db".toList

def dbcDir : List Char := "/data/autopid/dbc".toList

def scriptsDir : List Char := "/data/scripts".toList

/-- `DASHBOARD` -/
def dashboardPath : CbPath := ("/data".toList, "dashboard.json".toList)

def certsDir : List Char := "/data/certs".toList

variable (plat : CbPlatform) (env : CbFsEnv) (dry : Bool)

/-! ## Databases and scripts -/

/-- The folders of the databases part, and the members that list them. -/
def databaseFolders : List (List Char × List Char) :=
  [(dtcDbDir, "dtc_db".toList), (dbcDir, "dbc".toList)]

def databasesWalk (mem : Bool) (files : CbFiles) (text : List UInt8) :
    Except SmErr Unit × CbFiles :=
  match cbParse plat mem text with
  | some (.obj members) =>
    walk (fun files folder => filesWalk plat env folder.1 dry files (members.lookup folder.2))
      files databaseFolders
  | _ => (.error .invalidArg, files)

def scriptsWalk (mem : Bool) (files : CbFiles) (text : List UInt8) :
    Except SmErr Unit × CbFiles :=
  filesWalk plat env scriptsDir dry files (cbParse plat mem text)

/-- The databases can be restored. -/
def DatabasesOk (text : List UInt8) : Prop :=
  match plat.cj.parse text with
  | some (.obj members) =>
    ∀ folder ∈ databaseFolders, FolderOk plat (members.lookup folder.2)
  | _ => False

/-- There is memory for them. -/
def DatabasesMem (mem : Bool) (text : List UInt8) : Prop :=
  mem = true ∧
    match plat.cj.parse text with
    | some (.obj members) =>
      ∀ folder ∈ databaseFolders, FolderMem env folder.1 dry (members.lookup folder.2)
    | _ => True

/-- The tasks of the databases. -/
def databasesTasks (text : List UInt8) : List CbTask :=
  match plat.cj.parse text with
  | some (.obj members) =>
    databaseFolders.flatMap fun folder => folderTasks plat folder.1 (members.lookup folder.2)
  | _ => []

/-- The scripts can be restored. -/
def ScriptsOk (text : List UInt8) : Prop := FolderOk plat (plat.cj.parse text)

/-- There is memory for them. -/
def ScriptsMem (mem : Bool) (text : List UInt8) : Prop :=
  mem = true ∧ FolderMem env scriptsDir dry (plat.cj.parse text)

/-- The tasks of the scripts. -/
def scriptsTasks (text : List UInt8) : List CbTask :=
  folderTasks plat scriptsDir (plat.cj.parse text)

section

variable {plat env dry}

theorem databasesWalk_ok_iff (hs : dry = false → env.Storage) (mem : Bool) (files : CbFiles)
    (text : List UInt8) : (databasesWalk plat env dry mem files text).1 = .ok () ↔
      DatabasesOk plat text ∧ DatabasesMem plat env dry mem text := by
  rw [databasesWalk, DatabasesOk, DatabasesMem, cbParse]
  cases mem with
  | false => simp
  | true =>
    rw [if_pos rfl]
    rcases hparse : plat.cj.parse text with _ | (_ | _ | _ | _ | _ | members)
    case some.obj =>
      have hfolder : ∀ (files : CbFiles) (folder : List Char × List Char),
          (filesWalk plat env folder.1 dry files (members.lookup folder.2)).1 = .ok () ↔
            FolderOk plat (members.lookup folder.2) ∧
              FolderMem env folder.1 dry (members.lookup folder.2) :=
        fun files folder => filesWalk_ok_iff hs files _
      simp only [true_and]
      rw [walk_ok_iff, passes_iff_forall fun files folder _ => hfolder files folder]
      exact forall₂_and
    all_goals simp

theorem databasesWalk_does (hok : (databasesWalk plat env false mem files text).1 = .ok ()) :
    FileTask.DoesAll fsPathTempName files (databasesTasks plat text)
      (databasesWalk plat env false mem files text).2 := by
  rw [databasesWalk, cbParse] at hok ⊢
  rw [databasesTasks]
  cases mem with
  | false => cases hok
  | true =>
    rcases hparse : plat.cj.parse text with _ | (_ | _ | _ | _ | _ | members)
    case some.obj =>
      rw [hparse] at hok
      exact .walk id (fun files folder h => filesWalk_does h) hok
    all_goals
      rw [hparse] at hok
      cases hok

theorem scriptsWalk_ok_iff (hs : dry = false → env.Storage) (mem : Bool) (files : CbFiles)
    (text : List UInt8) : (scriptsWalk plat env dry mem files text).1 = .ok () ↔
      ScriptsOk plat text ∧ ScriptsMem plat env dry mem text := by
  rw [scriptsWalk, filesWalk_ok_iff hs, ScriptsOk, ScriptsMem, cbParse]
  cases mem with
  | false => simp [FolderOk]
  | true => simp

theorem scriptsWalk_does (hok : (scriptsWalk plat env false mem files text).1 = .ok ()) :
    FileTask.DoesAll fsPathTempName files (scriptsTasks plat text)
      (scriptsWalk plat env false mem files text).2 := by
  cases mem with
  | false => cases hok
  | true => exact filesWalk_does hok

end

/-! ## The dashboard -/

/-- A text that can be a file. -/
def fileTextOk (text : List UInt8) : Bool := text.length ≤ cbFileMax && cbJsonValid text

def dashboardWalk (files : CbFiles) (text : List UInt8) : Except SmErr Unit × CbFiles :=
  if ¬cbJsonIsNull text ∧ ¬fileTextOk text then
    (.error .invalidArg, files)
  else if dry then
    (.ok (), files)
  else if cbJsonIsNull text then
    match filesystemDelete env files dashboardPath with
    | (.error err, files') => (if err = .notFound then .ok () else .error err, files')
    | (.ok (), files') => (.ok (), files')
  else
    filesystemWrite env files dashboardPath text

/-- The dashboard can be restored. -/
def DashboardOk (text : List UInt8) : Prop := cbJsonIsNull text = true ∨ fileTextOk text = true

/-- The tasks of the dashboard. -/
def dashboardTasks (text : List UInt8) : List CbTask :=
  if cbJsonIsNull text then [.remove dashboardPath] else [.put dashboardPath text]

section

variable {env dry}

theorem dashboardWalk_ok_iff (hs : dry = false → env.Storage) (files : CbFiles)
    (text : List UInt8) : (dashboardWalk env dry files text).1 = .ok () ↔ DashboardOk text := by
  rw [dashboardWalk, DashboardOk]
  cases hnull : cbJsonIsNull text with
  | false =>
    cases htext : fileTextOk text with
    | false => simp
    | true =>
      cases dry with
      | true => simp
      | false => simp [filesystemWrite_ok (hs rfl)]
  | true =>
    cases dry with
    | true => simp
    | false =>
      cases hfile : files dashboardPath with
      | none => simp [filesystemDelete, hfile]
      | some data => simp [filesystemDelete, hfile, (hs rfl).deletes]

theorem dashboardWalk_does (hok : (dashboardWalk env false files text).1 = .ok ()) :
    FileTask.DoesAll fsPathTempName files (dashboardTasks text)
      (dashboardWalk env false files text).2 := by
  rw [dashboardWalk, dashboardTasks] at *
  cases hnull : cbJsonIsNull text with
  | false =>
    cases htext : fileTextOk text with
    | false => simp [hnull, htext] at hok
    | true =>
      simp only [hnull, htext] at hok ⊢
      exact .single (filesystemWrite_does hok)
  | true =>
    apply FileTask.DoesAll.single
    cases hfile : files dashboardPath with
    | none =>
      simp only [filesystemDelete, hfile]
      exact (Function.update_eq_self_iff.mpr hfile.symm).symm
    | some data =>
      cases hdel : env.deletes dashboardPath with
      | false => simp [hnull, filesystemDelete, hfile, hdel] at hok
      | true =>
        simp only [filesystemDelete, hfile, hdel]
        rfl

end

/-! ## Vehicles -/

def tablesCb (files : CbFiles) (m : CbMember) : Except SmErr Unit × CbFiles :=
  if ¬cbVehicleKeyOk (byteChars m.key) then
    (.error .invalidArg, files)
  else if ¬fileTextOk m.val then
    (.error .invalidArg, files)
  else if dry then
    (.ok (), files)
  else
    filesystemWrite env files (apTablesDir, byteChars m.key ++ ".json".toList) m.val

/-- The file of a member of the vehicles part. -/
def vehiclePath (key : List UInt8) : Option CbPath :=
  if key = asciiBytes "index" then some (apDir, "vehicles.json".toList)
  else if key = asciiBytes "live" then some (apDir, "config.json".toList)
  else if key = asciiBytes "std_scan" then some (apDir, "std_scan.json".toList)
  else none

/-- A key as a C string. -/
def cKey (m : CbMember) : List UInt8 := m.key.takeWhile fun c => c != 0

/-- `vehicles_cb`. What the wipe returns is not asked. -/
def vehiclesCb (files : CbFiles) (m : CbMember) : Except SmErr Unit × CbFiles :=
  if 16 ≤ m.key.length then
    (.ok (), files)
  else if cKey m = asciiBytes "tables" then
    cbJsonMembers (tablesCb env dry)
      (if dry then files else (cbWipeDirFiles plat env files apTablesDir).2) m.val
  else
    match vehiclePath (cKey m) with
    | none => (.ok (), files)
    | some path =>
      if ¬fileTextOk m.val then
        (.error .invalidArg, files)
      else if dry then
        (.ok (), files)
      else
        filesystemWrite env files path m.val

def vehiclesWalk (files : CbFiles) (text : List UInt8) : Except SmErr Unit × CbFiles :=
  cbJsonMembers (vehiclesCb plat env dry) files text

/-- A table can be restored. -/
def TableOk (m : CbMember) : Prop :=
  cbVehicleKeyOk (byteChars m.key) = true ∧ fileTextOk m.val = true

/-- A member of the vehicles part can be restored. -/
def VehicleOk (m : CbMember) : Prop :=
  m.key.length < 16 →
    if cKey m = asciiBytes "tables" then
      (cbMembers m.val).2 = true ∧ ∀ table ∈ (cbMembers m.val).1, TableOk table
    else
      (vehiclePath (cKey m)).isSome = true → fileTextOk m.val = true

/-- The vehicles can be restored. -/
def VehiclesOk (text : List UInt8) : Prop :=
  (cbMembers text).2 = true ∧ ∀ m ∈ (cbMembers text).1, VehicleOk m

/-- The tasks of a table. -/
def tableTasks (m : CbMember) : List CbTask :=
  [.put (apTablesDir, byteChars m.key ++ ".json".toList) m.val]

/-- The tasks of a member of the vehicles part. -/
def vehicleTasks (m : CbMember) : List CbTask :=
  if 16 ≤ m.key.length then []
  else if cKey m = asciiBytes "tables" then
    .clear (fun p => p.1 = apTablesDir) :: (cbMembers m.val).1.flatMap tableTasks
  else
    match vehiclePath (cKey m) with
    | none => []
    | some path => [.put path m.val]

/-- The tasks of the vehicles. -/
def vehiclesTasks (text : List UInt8) : List CbTask := (cbMembers text).1.flatMap vehicleTasks

section

variable {plat env dry}

theorem tablesCb_ok_iff (hs : dry = false → env.Storage) (files : CbFiles) (m : CbMember) :
    (tablesCb env dry files m).1 = .ok () ↔ TableOk m := by
  rw [tablesCb, TableOk]
  cases cbVehicleKeyOk (byteChars m.key) with
  | false => simp
  | true =>
    cases fileTextOk m.val with
    | false => simp
    | true =>
      cases dry with
      | true => simp
      | false => simp [filesystemWrite_ok (hs rfl)]

theorem tablesCb_does (hok : (tablesCb env false files m).1 = .ok ()) :
    FileTask.DoesAll fsPathTempName files (tableTasks m) (tablesCb env false files m).2 := by
  rw [tablesCb] at hok ⊢
  cases hkey : cbVehicleKeyOk (byteChars m.key) with
  | false => simp [hkey] at hok
  | true =>
    cases htext : fileTextOk m.val with
    | false => simp [hkey, htext] at hok
    | true =>
      simp only [hkey, htext] at hok ⊢
      exact .single (filesystemWrite_does hok)

theorem vehiclesCb_ok_iff (hs : dry = false → env.Storage) (files : CbFiles) (m : CbMember) :
    (vehiclesCb plat env dry files m).1 = .ok () ↔ VehicleOk m := by
  rw [vehiclesCb, VehicleOk]
  by_cases hlen : 16 ≤ m.key.length
  · simp [hlen, Nat.not_lt.mpr hlen]
  · rw [if_neg hlen]
    simp only [Nat.not_le.mp hlen, true_imp_iff]
    by_cases htables : cKey m = asciiBytes "tables"
    · rw [if_pos htables, if_pos htables, cbJsonMembers_ok_iff, walk_ok_iff,
        passes_iff_forall fun files m _ => tablesCb_ok_iff hs files m]
    · rw [if_neg htables, if_neg htables]
      cases vehiclePath (cKey m) with
      | none => simp
      | some path =>
        cases fileTextOk m.val with
        | false => simp
        | true =>
          cases dry with
          | true => simp
          | false => simp [filesystemWrite_ok (hs rfl)]

theorem vehiclesCb_does (hok : (vehiclesCb plat env false files m).1 = .ok ()) :
    FileTask.DoesAll fsPathTempName files (vehicleTasks m)
      (vehiclesCb plat env false files m).2 := by
  rw [vehiclesCb] at hok ⊢
  rw [vehicleTasks]
  by_cases hlen : 16 ≤ m.key.length
  · rw [if_pos hlen, if_pos hlen]
    exact .nil files
  · rw [if_neg hlen] at hok ⊢
    rw [if_neg hlen]
    by_cases htables : cKey m = asciiBytes "tables"
    · rw [if_pos htables] at hok ⊢
      rw [if_pos htables, cbJsonMembers_snd]
      exact .cons (cbWipeDirFiles_does plat env files apTablesDir)
        (.walk id (fun files m h => tablesCb_does h) (cbJsonMembers_ok_iff.mp hok).2)
    · rw [if_neg htables] at hok ⊢
      rw [if_neg htables]
      cases hpath : vehiclePath (cKey m) with
      | none => exact .nil files
      | some path =>
        rw [hpath] at hok
        cases htext : fileTextOk m.val with
        | false => simp [htext] at hok
        | true =>
          simp only [htext] at hok ⊢
          exact .single (filesystemWrite_does hok)

theorem vehiclesWalk_ok_iff (hs : dry = false → env.Storage) (files : CbFiles) (text : List UInt8) :
    (vehiclesWalk plat env dry files text).1 = .ok () ↔ VehiclesOk text := by
  rw [vehiclesWalk, cbJsonMembers_ok_iff, walk_ok_iff,
    passes_iff_forall fun files m _ => vehiclesCb_ok_iff hs files m, VehiclesOk]

theorem vehiclesWalk_does (hok : (vehiclesWalk plat env false files text).1 = .ok ()) :
    FileTask.DoesAll fsPathTempName files (vehiclesTasks text)
      (vehiclesWalk plat env false files text).2 := by
  rw [vehiclesWalk, cbJsonMembers_snd]
  exact .walk id (fun files m h => vehiclesCb_does h) (cbJsonMembers_ok_iff.mp hok).2

end

/-! ## Certificates -/

def pemOk : Option Json → Bool
  | none => true
  | some (.str s) => s.length ≤ cbPemMax && "-----BEGIN".toList.isPrefixOf s
  | some _ => false

/-- The name of a set. -/
def certSet (item : Json) : Option (List Char) := (item.getItem "set".toList).bind Json.asStr

/-- A set is valid. -/
def certOk (item : Json) : Bool :=
  (match certSet item with
    | some set => cbSetNameOk set
    | none => false) &&
  pemOk (item.getItem "ca".toList) && pemOk (item.getItem "cert".toList) &&
  pemOk (item.getItem "key".toList)

/-- The folder of a set. -/
def setDir (set : List Char) : List Char := certsDir ++ '/' :: set

/-- The files of a set. -/
def certFiles (item : Json) : List (CbPath × Option Json) :=
  [((setDir ((certSet item).getD []), "ca.pem".toList), item.getItem "ca".toList),
    ((setDir ((certSet item).getD []), "client.crt".toList), item.getItem "cert".toList),
    ((setDir ((certSet item).getD []), "client.key".toList), item.getItem "key".toList)]

def certPartWrite (files : CbFiles) (part : CbPath × Option Json) :
    Except SmErr Unit × CbFiles :=
  match part.2 with
  | some (.str pem) => filesystemWrite env files part.1 (charBytes pem)
  | _ => (.ok (), files)

/-- The folders that `sets_cb` takes. -/
def certSets (files : CbFiles) : List (List Char) :=
  (((plat.list files certsDir).filter fun entry => entry.2 && cbSetNameOk entry.1).take
    cbListMax).map Prod.fst

/-- `certs_wipe`. The folders stay, empty. -/
def certsWipe (files : CbFiles) : Except SmErr Unit × CbFiles :=
  if ¬env.lists certsDir then
    (.error .noMem, files)
  else
    (.ok (), (certSets plat files).foldl
      (fun files set => (cbWipeDirFiles plat env files (setDir set)).2) files)

def certsWalk (mem : Bool) (files : CbFiles) (text : List UInt8) :
    Except SmErr Unit × CbFiles :=
  match cbParse plat mem text with
  | some (.arr items) =>
    if ¬items.all certOk then
      (.error .invalidArg, files)
    else if dry then
      (.ok (), files)
    else
      match certsWipe plat env files with
      | (.error err, files') => (.error err, files')
      | (.ok (), files') => walk (certPartWrite env) files' (items.flatMap certFiles)
  | _ => (.error .invalidArg, files)

/-- The certificates can be restored. -/
def CertsOk (text : List UInt8) : Prop :=
  match plat.cj.parse text with
  | some (.arr items) => items.all certOk = true
  | _ => False

/-- There is memory for them. -/
def CertsMem (mem : Bool) : Prop := mem = true ∧ (dry = false → env.lists certsDir = true)

/-- The tasks of a file of a set. -/
def certPartTasks (part : CbPath × Option Json) : List CbTask :=
  match part.2 with
  | some (.str pem) => [.put part.1 (charBytes pem)]
  | _ => []

/-- The tasks of the certificates. -/
def certsTasks (text : List UInt8) : List CbTask :=
  match plat.cj.parse text with
  | some (.arr items) =>
    .clear (fun p => ∃ set, p.1 = setDir set) :: (items.flatMap certFiles).flatMap certPartTasks
  | _ => []

section

variable {plat env dry}

theorem certPartWrite_ok (hs : env.Storage) (files : CbFiles) (part : CbPath × Option Json) :
    (certPartWrite env files part).1 = .ok () := by
  rw [certPartWrite]
  rcases part.2 with _ | (_ | _ | _ | pem | _ | _)
  case some.str => exact filesystemWrite_ok hs files part.1 (charBytes pem)
  all_goals rfl

theorem certPartWrite_does {part : CbPath × Option Json}
    (hok : (certPartWrite env files part).1 = .ok ()) :
    FileTask.DoesAll fsPathTempName files (certPartTasks part) (certPartWrite env files part).2 := by
  rw [certPartWrite] at hok ⊢
  rw [certPartTasks]
  rcases hpart : part.2 with _ | (_ | _ | _ | pem | _ | _)
  case some.str =>
    rw [hpart] at hok
    exact .single (filesystemWrite_does hok)
  all_goals exact .nil files

theorem certsWipe_does {files : CbFiles} :
    FileTask.Does fsPathTempName files (certsWipe plat env files).2
      (.clear fun p => ∃ set, p.1 = setDir set) := by
  intro p hp
  rw [certsWipe]
  split_ifs
  · generalize certSets plat files = sets
    induction sets generalizing files with
    | nil => rfl
    | cons set sets ih =>
      rw [List.foldl_cons, ih]
      exact cbWipeDirFiles_does plat env files (setDir set) p fun hset => hp ⟨set, hset⟩
  · rfl

theorem certsWalk_ok_iff (hs : dry = false → env.Storage) (mem : Bool) (files : CbFiles)
    (text : List UInt8) : (certsWalk plat env dry mem files text).1 = .ok () ↔
      CertsOk plat text ∧ CertsMem env dry mem := by
  rw [certsWalk, CertsOk, CertsMem, cbParse]
  cases mem with
  | false => simp
  | true =>
    rw [if_pos rfl]
    rcases plat.cj.parse text with _ | (_ | _ | _ | _ | items | _)
    case some.arr =>
      cases hall : items.all certOk with
      | false => simp [hall]
      | true =>
        cases dry with
        | true => simp [hall]
        | false =>
          cases hlists : env.lists certsDir with
          | false => simp [hall, certsWipe, hlists]
          | true =>
            simp only [hall, certsWipe, hlists, not_true_eq_false, if_false, Bool.false_eq_true]
            rw [walk_ok_iff, passes_iff_forall (P := fun _ => True) fun files part _ =>
              ⟨fun _ => trivial, fun _ => certPartWrite_ok (hs rfl) files part⟩]
            simp
    all_goals simp

theorem certsWalk_does (hok : (certsWalk plat env false mem files text).1 = .ok ()) :
    FileTask.DoesAll fsPathTempName files (certsTasks plat text)
      (certsWalk plat env false mem files text).2 := by
  rw [certsWalk, cbParse] at hok ⊢
  rw [certsTasks]
  cases mem with
  | false => cases hok
  | true =>
    rw [if_pos rfl] at hok ⊢
    rcases hparse : plat.cj.parse text with _ | (_ | _ | _ | _ | items | _)
    case some.arr =>
      rw [hparse] at hok
      have hclear := @certsWipe_does plat env files
      cases hall : items.all certOk with
      | false => simp [hall] at hok
      | true =>
        rcases hwipe : certsWipe plat env files with ⟨r, files'⟩
        rw [hwipe] at hclear
        simp only [hall, hwipe, not_true_eq_false, if_false, Bool.false_eq_true] at hok ⊢
        cases r with
        | error err => cases hok
        | ok u => exact .cons hclear (.walk id (fun files part h => certPartWrite_does h) hok)
    all_goals
      rw [hparse] at hok
      cases hok

end

end Meatpi
