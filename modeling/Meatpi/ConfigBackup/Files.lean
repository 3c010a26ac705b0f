import Meatpi.ConfigBackup.Scan
import Meatpi.Library.Saved

/-!
# Files of a backup (`config_backup_files.c`, `config_backup_apply.c`)

A folder is restored as a whole: it is cleared, and then its files are decoded
and written one by one. A dry run looks at the same entries and writes nothing.
-/

namespace Meatpi

variable {item : Json × ℕ}

/-! ## The filesystem -/

/-- A folder and the name of a file in it. -/
abbrev CbPath := List Char × List Char

/-- The files of the internal flash. -/
abbrev CbFiles := CbPath → Option (List UInt8)

/-- What is to be done with them. -/
abbrev CbTask := FileTask CbPath (List UInt8)

def fsPathTempName (path : CbPath) : CbPath := (path.1, path.2 ++ ".tmp".toList)

/-- How a write goes: it is done, the temporary file does not open, or it is given
up and removed. -/
inductive FsWrite where
  | done
  | unopened
  | torn

/-- What is not under our control: the libraries and the directory listing. -/
structure CbPlatform where
  cj : JsonCodec
  /-- `cJSON_Compare` -/
  compare : Json → Json → Bool
  /-- `mbedtls_base64_decode` -/
  b64Decode : List Char → Option (List UInt8)
  /-- `filesystem_list`: the names, and which are folders -/
  list : CbFiles → List Char → List (List Char × Bool)

/-- How the files part of a walk goes. -/
structure CbFsEnv where
  writes : CbPath → FsWrite
  deletes : CbPath → Bool
  /-- memory for the list of a folder -/
  lists : List Char → Bool
  /-- memory for the content of an entry -/
  raws : List Char → ℕ → Bool

/-- Every storage write succeeds. -/
structure CbFsEnv.Storage (env : CbFsEnv) : Prop where
  writes : ∀ path, env.writes path = .done
  deletes : ∀ path, env.deletes path = true

def filesystemWrite (env : CbFsEnv) (files : CbFiles) (path : CbPath) (data : List UInt8) :
    Except SmErr Unit × CbFiles :=
  match env.writes path with
  | .done =>
    (.ok (), Function.update (Function.update files (fsPathTempName path) none) path (some data))
  | .unopened => (.error .fail, files)
  | .torn => (.error .fail, Function.update files (fsPathTempName path) none)

def filesystemDelete (env : CbFsEnv) (files : CbFiles) (path : CbPath) :
    Except SmErr Unit × CbFiles :=
  match files path with
  | none => (.error .notFound, files)
  | some _ =>
    if env.deletes path then (.ok (), Function.update files path none) else (.error .fail, files)

/-- `cb_dir_read`: the entries that the list takes. -/
def cbDirRead (plat : CbPlatform) (files : CbFiles) (dir : List Char) :
    List (List Char × Bool) :=
  ((plat.list files dir).filter fun entry => cbNameOk entry.1).take cbListMax

/-- One entry in `cb_wipe_dir_files`. -/
def wipeEntry (env : CbFsEnv) (dir : List Char) (files : CbFiles) (entry : List Char × Bool) :
    Except SmErr Unit × CbFiles :=
  if entry.2 then (.ok (), files) else filesystemDelete env files (dir, entry.1)

def cbWipeDirFiles (plat : CbPlatform) (env : CbFsEnv) (files : CbFiles) (dir : List Char) :
    Except SmErr Unit × CbFiles :=
  if ¬env.lists dir then
    (.error .noMem, files)
  else
    walk (wipeEntry env dir) files (cbDirRead plat files dir)

theorem filesystemWrite_ok {env : CbFsEnv} (hs : env.Storage) (files : CbFiles) (path : CbPath)
    (data : List UInt8) : (filesystemWrite env files path data).1 = .ok () := by
  rw [filesystemWrite, hs.writes]

theorem filesystemWrite_does {env : CbFsEnv} {files : CbFiles} {path : CbPath} {data : List UInt8}
    (hok : (filesystemWrite env files path data).1 = .ok ()) :
    FileTask.Does fsPathTempName files (filesystemWrite env files path data).2
      (.put path data) := by
  rw [filesystemWrite] at hok ⊢
  cases hw : env.writes path with
  | done => rfl
  | unopened =>
    rw [hw] at hok
    cases hok
  | torn =>
    rw [hw] at hok
    cases hok

theorem filesystemDelete_other {env : CbFsEnv} {files : CbFiles} {path p : CbPath}
    (hne : p ≠ path) : (filesystemDelete env files path).2 p = files p := by
  rw [filesystemDelete]
  cases files path with
  | none => rfl
  | some data =>
    split_ifs
    · exact Function.update_of_ne hne _ _
    · rfl

theorem cbWipeDirFiles_does (plat : CbPlatform) (env : CbFsEnv) (files : CbFiles)
    (dir : List Char) : FileTask.Does fsPathTempName files (cbWipeDirFiles plat env files dir).2
      (.clear fun p => p.1 = dir) := by
  intro p hp
  rw [cbWipeDirFiles]
  split_ifs with hlists
  · apply walk_frame fun files : CbFiles => files p
    intro files entry _
    have hne : p ≠ (dir, entry.1) := by
      rintro rfl
      exact hp rfl
    rw [wipeEntry]
    split_ifs
    · rfl
    · exact filesystemDelete_other hne
  · rfl

theorem cbWipeDirFiles_error {plat : CbPlatform} {env : CbFsEnv} (hs : env.Storage)
    {files : CbFiles} {dir : List Char} (hlists : env.lists dir = true) {err : SmErr}
    (h : (cbWipeDirFiles plat env files dir).1 = .error err) : err = .notFound := by
  rw [cbWipeDirFiles, hlists] at h
  generalize cbDirRead plat files dir = entries at h
  induction entries generalizing files with
  | nil => cases h
  | cons entry entries ih =>
    cases hfirst : (wipeEntry env dir files entry).1 with
    | ok u =>
      rw [walk_cons_ok entries hfirst] at h
      exact ih h
    | error err' =>
      rw [walk_cons_error entries hfirst] at h
      cases h
      rw [wipeEntry] at hfirst
      split_ifs at hfirst with hdir
      rw [filesystemDelete] at hfirst
      cases hfile : files (dir, entry.1) with
      | none =>
        rw [hfile] at hfirst
        cases hfirst
        rfl
      | some data =>
        rw [hfile] at hfirst
        simp only [hs.deletes, if_true] at hfirst
        cases hfirst

/-! ## A folder -/

/-- The fields of an entry that is valid: its name, its size and its content in
base64. -/
def fileFields (item : Json) : Option (List Char × ℕ × List Char) :=
  match item.getItem "name".toList, item.getItem "size".toList, item.getItem "b64".toList with
  | some (.str name), some (.num size), some (.str b64) =>
    if ¬cbNameOk name ∨ size < 0 ∨ (cbFileMax : ℚ) < size then none
    else some (name, size.num.toNat / size.den, b64)
  | _, _, _ => none

/-- The loop of `files_walk`, over an entry and its place. -/
def filesStep (plat : CbPlatform) (env : CbFsEnv) (dir : List Char) (dry : Bool) (files : CbFiles)
    (item : Json × ℕ) : Except SmErr Unit × CbFiles :=
  match fileFields item.1 with
  | none => (.error .invalidArg, files)
  | some (name, want, b64) =>
    if ¬env.raws dir item.2 then
      (.error .noMem, files)
    else
      match plat.b64Decode b64 with
      | none => (.error .invalidArg, files)
      | some raw =>
        if raw.length ≠ want then (.error .invalidArg, files)
        else if dry then (.ok (), files)
        else filesystemWrite env files (dir, name) raw

def filesWalk (plat : CbPlatform) (env : CbFsEnv) (dir : List Char) (dry : Bool)
    (files : CbFiles) (arr : Option Json) : Except SmErr Unit × CbFiles :=
  match arr with
  | some (.arr items) =>
    if dry then
      walk (filesStep plat env dir dry) files items.zipIdx
    else
      match cbWipeDirFiles plat env files dir with
      | (.error err, files') =>
        if err ≠ .notFound then (.error err, files')
        else walk (filesStep plat env dir dry) files' items.zipIdx
      | (.ok (), files') => walk (filesStep plat env dir dry) files' items.zipIdx
  | _ => (.error .invalidArg, files)

/-! ### What a folder comes to -/

/-- The file that an entry is: its name and its content. -/
def fileEntry (plat : CbPlatform) (item : Json) : Option (List Char × List UInt8) :=
  match fileFields item with
  | none => none
  | some (name, want, b64) =>
    match plat.b64Decode b64 with
    | none => none
    | some raw => if raw.length = want then some (name, raw) else none

/-- The tasks of an entry. -/
def entryTasks (plat : CbPlatform) (dir : List Char) (item : Json) : List CbTask :=
  match fileEntry plat item with
  | none => []
  | some (name, raw) => [.put (dir, name) raw]

/-- The tasks of a folder. -/
def folderTasks (plat : CbPlatform) (dir : List Char) : Option Json → List CbTask
  | some (.arr items) => .clear (fun p => p.1 = dir) :: items.flatMap (entryTasks plat dir)
  | _ => []

/-- The list is one of files. -/
def FolderOk (plat : CbPlatform) : Option Json → Prop
  | some (.arr items) => ∀ item ∈ items, (fileEntry plat item).isSome = true
  | _ => False

/-- There is memory for a folder. -/
def FolderMem (env : CbFsEnv) (dir : List Char) (dry : Bool) : Option Json → Prop
  | some (.arr items) =>
    (dry = false → env.lists dir = true) ∧ ∀ i < items.length, env.raws dir i = true
  | _ => True

section

variable {plat : CbPlatform} {env : CbFsEnv} {dir : List Char} {dry : Bool}

theorem filesStep_some {name : List Char} {raw : List UInt8}
    (hentry : fileEntry plat item.1 = some (name, raw)) (hraw : env.raws dir item.2 = true)
    (files : CbFiles) : filesStep plat env dir dry files item =
      if dry then (.ok (), files) else filesystemWrite env files (dir, name) raw := by
  rw [fileEntry] at hentry
  cases hf : fileFields item.1 with
  | none =>
    rw [hf] at hentry
    cases hentry
  | some fields =>
    obtain ⟨name', want, b64⟩ := fields
    cases hd : plat.b64Decode b64 with
    | none => simp [hf, hd] at hentry
    | some raw' =>
      by_cases hlen : raw'.length = want
      · simp only [hf, hd, hlen, if_true, Option.some.injEq, Prod.mk.injEq] at hentry
        obtain ⟨rfl, rfl⟩ := hentry
        simp [filesStep, hf, hd, hraw, hlen]
      · simp [hf, hd, hlen] at hentry

variable (plat env dir dry) in
theorem filesStep_none (h : fileEntry plat item.1 = none ∨ env.raws dir item.2 = false)
    (files : CbFiles) : ∃ err, filesStep plat env dir dry files item = (.error err, files) := by
  rw [fileEntry] at h
  cases hf : fileFields item.1 with
  | none => exact ⟨.invalidArg, by simp [filesStep, hf]⟩
  | some fields =>
    obtain ⟨name, want, b64⟩ := fields
    cases hraw : env.raws dir item.2 with
    | false => exact ⟨.noMem, by simp [filesStep, hf, hraw]⟩
    | true =>
      cases hd : plat.b64Decode b64 with
      | none => exact ⟨.invalidArg, by simp [filesStep, hf, hraw, hd]⟩
      | some raw =>
        by_cases hlen : raw.length = want
        · simp [hf, hd, hraw, hlen] at h
        · exact ⟨.invalidArg, by simp [filesStep, hf, hraw, hd, hlen]⟩

theorem filesStep_ok_iff (hs : dry = false → env.Storage) (files : CbFiles) (item : Json × ℕ) :
    (filesStep plat env dir dry files item).1 = .ok () ↔
      (fileEntry plat item.1).isSome = true ∧ env.raws dir item.2 = true := by
  cases he : fileEntry plat item.1 with
  | none =>
    obtain ⟨err, hstep⟩ := filesStep_none plat env dir dry (.inl he) files
    simp [hstep]
  | some entry =>
    cases hraw : env.raws dir item.2 with
    | false =>
      obtain ⟨err, hstep⟩ := filesStep_none plat env dir dry (.inr hraw) files
      simp [hstep]
    | true =>
      rw [filesStep_some he hraw]
      cases dry with
      | true => simp
      | false => simp [filesystemWrite_ok (hs rfl)]

theorem filesStep_does {files : CbFiles}
    (hok : (filesStep plat env dir false files item).1 = .ok ()) :
    FileTask.DoesAll fsPathTempName files (entryTasks plat dir item.1)
      (filesStep plat env dir false files item).2 := by
  by_cases h : fileEntry plat item.1 = none ∨ env.raws dir item.2 = false
  · obtain ⟨err, hstep⟩ := filesStep_none plat env dir false h files
    rw [hstep] at hok
    cases hok
  · rw [not_or, Bool.not_eq_false] at h
    obtain ⟨⟨name, raw⟩, he⟩ := Option.ne_none_iff_exists'.mp h.1
    rw [filesStep_some he h.2] at hok ⊢
    rw [entryTasks, he]
    exact .single (filesystemWrite_does hok)

theorem flatMap_zipIdx {α β : Type*} (f : α → List β) (l : List α) (k : ℕ) :
    ((l.zipIdx k).flatMap fun a => f a.1) = l.flatMap f := by
  induction l generalizing k with
  | nil => rfl
  | cons a l ih => rw [List.zipIdx_cons, List.flatMap_cons, List.flatMap_cons, ih]

theorem filesSteps_passes (hs : dry = false → env.Storage) (files : CbFiles) (items : List Json) :
    (walk (filesStep plat env dir dry) files items.zipIdx).1 = .ok () ↔
      (∀ item ∈ items, (fileEntry plat item).isSome = true) ∧
        ∀ i < items.length, env.raws dir i = true := by
  rw [walk_ok_iff, passes_iff_forall fun files item _ => filesStep_ok_iff hs files item]
  constructor
  · intro hall
    constructor
    · intro item hitem
      obtain ⟨i, hi, rfl⟩ := List.getElem_of_mem hitem
      exact (hall (items[i], i) (List.mk_mem_zipIdx_iff_getElem?.mpr
        (List.getElem?_eq_getElem hi))).1
    · intro i hi
      exact (hall (items[i], i) (List.mk_mem_zipIdx_iff_getElem?.mpr
        (List.getElem?_eq_getElem hi))).2
  · rintro ⟨hentries, hmem⟩ ⟨item, i⟩ hitem
    obtain ⟨hi, rfl⟩ := List.getElem?_eq_some_iff.mp (List.mk_mem_zipIdx_iff_getElem?.mp hitem)
    exact ⟨hentries _ (List.getElem_mem hi), hmem i hi⟩

/-- **When a folder is restored.** The list must be one of files, and there must be
memory. -/
theorem filesWalk_ok_iff (hs : dry = false → env.Storage) (files : CbFiles) (arr : Option Json) :
    (filesWalk plat env dir dry files arr).1 = .ok () ↔
      FolderOk plat arr ∧ FolderMem env dir dry arr := by
  cases arr with
  | none => simp [filesWalk, FolderOk]
  | some j =>
    cases j with
    | arr items =>
      rw [filesWalk, FolderOk, FolderMem]
      cases dry with
      | true =>
        rw [if_pos rfl, filesSteps_passes hs]
        simp
      | false =>
        rw [if_neg Bool.false_ne_true]
        cases hlists : env.lists dir with
        | false => simp [cbWipeDirFiles, hlists]
        | true =>
          rcases hwipe : cbWipeDirFiles plat env files dir with ⟨r, files'⟩
          cases r with
          | ok u =>
            rw [filesSteps_passes hs]
            simp
          | error err =>
            have herr : err = .notFound :=
              @cbWipeDirFiles_error plat env (hs rfl) files dir hlists err (by rw [hwipe])
            subst herr
            simp only [ne_eq, not_true_eq_false, if_false]
            rw [filesSteps_passes hs]
            simp
    | _ => simp [filesWalk, FolderOk]

/-- **What restoring a folder does.** -/
theorem filesWalk_does {files : CbFiles} {arr : Option Json}
    (hok : (filesWalk plat env dir false files arr).1 = .ok ()) :
    FileTask.DoesAll fsPathTempName files (folderTasks plat dir arr)
      (filesWalk plat env dir false files arr).2 := by
  cases arr with
  | none => cases hok
  | some j =>
    cases j with
    | arr items =>
      have hsteps : ∀ {files' : CbFiles},
          (walk (filesStep plat env dir false) files' items.zipIdx).1 = .ok () →
            FileTask.DoesAll fsPathTempName files' (items.flatMap (entryTasks plat dir))
              (walk (filesStep plat env dir false) files' items.zipIdx).2 := by
        intro files' hok'
        rw [← flatMap_zipIdx (entryTasks plat dir) items 0]
        exact .walk id (fun files item h => filesStep_does h) hok'
      have hclear := cbWipeDirFiles_does plat env files dir
      rw [filesWalk] at hok ⊢
      rcases hwipe : cbWipeDirFiles plat env files dir with ⟨r, files'⟩
      rw [hwipe] at hclear hok
      cases r with
      | ok u => exact .cons hclear (hsteps hok)
      | error err =>
        by_cases herr : err = .notFound
        · simp only [herr, ne_eq, not_true_eq_false, if_false] at hok ⊢
          exact .cons hclear (hsteps hok)
        · simp only [ne_eq, herr, not_false_eq_true, if_true] at hok
          cases hok
    | _ => cases hok

end

end Meatpi
