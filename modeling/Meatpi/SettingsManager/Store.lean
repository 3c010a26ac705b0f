import Meatpi.Library.Run
import Meatpi.SettingsManager.Codec

/-!
# The settings store (`settings_manager.c`, `_boot.c`, `_backup.c`, `_storage.c`)

Each component has a settings object in memory and a file on the partition. A
boot loads the files, and falls back to defaults; a set validates a new object
and writes the file. A flag says that the file is what memory is, so that an
object that is set again is not written again.
-/

namespace Meatpi

/-! ## Components -/

/-- The members of an object. -/
abbrev Members := List (List Char × Json)

/-- `settings_descriptor_t`: what the manager asks of a component. The default
objects are the members of the parsed texts. -/
structure SmDesc where
  version : UInt32
  defaultsJson : Option Members
  schemaDefaults : Members
  /-- the schema and `on_validate` -/
  validate : Json → Bool
  migrate : Option (UInt32 → Json → Option Json)

structure SmEntry where
  desc : SmDesc
  current : Option Json
  applied : Option Json
  persistedClean : Bool
  degraded : Bool
  unconfigured : Bool

/-- The manager and the partition. -/
structure SmDevice where
  entries : List Char → Option SmEntry
  files : List Char → Option (List UInt8)
  /-- `s_mounted` -/
  mounted : Bool
  /-- the path of the partition is there -/
  reachable : Bool

/-! ## Defaults -/

/-- Which allocations of `sm_build_defaults` succeed. -/
structure SmDefsMem where
  overrides : Bool
  creates : Bool
  parses : Bool
  copies : List Char → Bool
  recreates : Bool

def smSchemaCollectDefaults (desc : SmDesc) (mem : SmDefsMem) : Option Members :=
  if mem.creates then
    some (if mem.parses then desc.schemaDefaults.filter fun m => mem.copies m.1 else [])
  else
    none

/-- The defaults of the schema, or an empty object. -/
def smSchemaDefaults (desc : SmDesc) (mem : SmDefsMem) : Option Members :=
  match smSchemaCollectDefaults desc mem with
  | some defs => some defs
  | none => if mem.recreates then some [] else none

def smBuildDefaults (desc : SmDesc) (mem : SmDefsMem) : Option Members :=
  match desc.defaultsJson with
  | none => smSchemaDefaults desc mem
  | some whole => if mem.overrides then some whole else smSchemaDefaults desc mem

/-- `sm_fill_missing`, over the members; a copy may fail. -/
def smFillMembers (copies : List Char → Bool) (dst : Members) : Members → Members × ℕ
  | [] => (dst, 0)
  | (key, value) :: src =>
    if (dst.lookup key).isNone ∧ copies key then
      ((smFillMembers copies (dst ++ [(key, value)]) src).1,
        (smFillMembers copies (dst ++ [(key, value)]) src).2 + 1)
    else
      smFillMembers copies dst src

def smFillMissing (copies : List Char → Bool) (dst : Json) (src : Option Members) : Json × ℕ :=
  match dst, src with
  | .obj members, some src =>
    (.obj (smFillMembers copies members src).1, (smFillMembers copies members src).2)
  | dst, _ => (dst, 0)

/-- `sm_validate_entry`; it needs memory itself. -/
def smValidateEntry (desc : SmDesc) (mem : Bool) (candidate : Json) : Bool :=
  isObject candidate && mem && desc.validate candidate

/-! ## Storage -/

/-- How a load goes. A file that is read short does not parse, as the text of an
object ends with its brace. -/
structure SmLoadEnv where
  /-- the flash job runs -/
  runs : Bool
  opens : Bool
  sizes : Bool
  buffer : Bool
  whole : Bool
  mem : SmMem

/-- How a save goes. `media` is what the temp file holds when a flush or a sync
failed, which nobody asks. -/
structure SmSaveEnv where
  mem : SmMem
  scratch : Bool
  /-- the flash job runs -/
  runs : Bool
  opens : Bool
  writes : Bool
  media : Option (List UInt8)
  renames : Bool

section

variable (cj : JsonCodec)

def smStorageLoad (env : SmLoadEnv) (reachable : Bool) (file : Option (List UInt8)) :
    Except SmErr (UInt32 × Json) :=
  if ¬env.runs then
    .error .noMem
  else
    match file with
    | none => .error .notFound
    | some text =>
      if ¬(reachable ∧ env.opens) then
        .error .notFound
      else if ¬env.sizes then
        .error .fail
      else if ¬env.buffer then
        .error .noMem
      else if ¬env.whole then
        .error .invalidArg
      else
        smCodecDecode cj env.mem text

/-- `sm_storage_save`: what it returns, and the file after it. -/
def smStorageSave (env : SmSaveEnv) (reachable : Bool) (version : UInt32) (data : Option Json)
    (file : Option (List UInt8)) : Except SmErr Unit × Option (List UInt8) :=
  match data with
  | none => (.error .invalidArg, file)
  | some data =>
    match smCodecEncode cj env.mem version data with
    | .error err => (.error err, file)
    | .ok text =>
      if ¬env.scratch then
        (.error .noMem, file)
      else if ¬env.runs then
        (.error .noMem, file)
      else if ¬(reachable ∧ env.opens) then
        (.error .fail, file)
      else if ¬env.writes then
        (.error .fail, file)
      else if ¬env.renames then
        (.error .fail, file)
      else
        (.ok (), some (env.media.getD text))

def smPersist (env : SmSaveEnv) (reachable : Bool) (e : SmEntry) (data : Option Json)
    (file : Option (List UInt8)) : SmEntry × Option (List UInt8) :=
  match smStorageSave cj env reachable e.desc.version data file with
  | (.ok (), file') => ({ e with persistedClean := true }, file')
  | (.error _, file') => ({ e with persistedClean := false }, file')

/-! ## The boot pass -/

/-- How the boot of a component goes. -/
structure SmBootEnv where
  defs : SmDefsMem
  load : SmLoadEnv
  /-- the copy of the defaults in `boot_load` -/
  copies : Bool
  /-- the empty object when there is no copy -/
  creates : Bool
  /-- `on_migrate` has what it needs -/
  migrates : Bool
  fills : List Char → Bool
  validates : Bool
  save : SmSaveEnv
  /-- `on_apply` -/
  apply : Option Json → Bool
  /-- the copy of the defaults after `on_apply` -/
  copiesAgain : Bool
  saveAgain : SmSaveEnv
  /-- the snapshot of what ran -/
  snapshots : Bool

/-- The defaults, persisted; without memory for a copy, an empty object. -/
def bootDefaults (env : SmBootEnv) (reachable : Bool) (e : SmEntry) (defs : Option Members)
    (file : Option (List UInt8)) : SmEntry × Option Json × Option (List UInt8) :=
  match if env.copies then defs.map Json.obj else none with
  | some d =>
    ((smPersist cj env.save reachable e (some d) file).1, some d,
      (smPersist cj env.save reachable e (some d) file).2)
  | none =>
    ((smPersist cj env.save reachable e none file).1,
      if env.creates then some (.obj []) else none,
      (smPersist cj env.save reachable e none file).2)

/-- What `on_migrate` makes of a loaded object: nothing to do, done, or failed. -/
def bootMigrate (env : SmBootEnv) (desc : SmDesc) (ver : UInt32) (data : Json) :
    Option (Json × Bool) :=
  if ver < desc.version then
    match desc.migrate with
    | none => none
    | some migrate =>
      if env.migrates then (migrate ver data).map fun data => (data, true) else none
  else
    some (data, false)

/-- `boot_load`: the entry, the object to apply, and the file after it. -/
def bootLoad (env : SmBootEnv) (reachable : Bool) (e : SmEntry) (defs : Option Members)
    (file : Option (List UInt8)) : SmEntry × Option Json × Option (List UInt8) :=
  match smStorageLoad cj env.load reachable file with
  | .error _ => bootDefaults cj env reachable e defs file
  | .ok (ver, data) =>
    match bootMigrate env e.desc ver data with
    | none => bootDefaults cj env reachable e defs file
    | some (data, migrated) =>
      if ¬smValidateEntry e.desc env.validates (smFillMissing env.fills data defs).1 then
        bootDefaults cj env reachable e defs file
      else if migrated ∨ 0 < (smFillMissing env.fills data defs).2 then
        ((smPersist cj env.save reachable e (some (smFillMissing env.fills data defs).1) file).1,
          some (smFillMissing env.fills data defs).1,
          (smPersist cj env.save reachable e (some (smFillMissing env.fills data defs).1) file).2)
      else
        ({ e with persistedClean := true }, some (smFillMissing env.fills data defs).1, file)

/-- The object that is tried after `on_apply` rejected the first one. -/
def bootRetry (env : SmBootEnv) (defs : Option Members) (current : Option Json) : Option Json :=
  match if env.copiesAgain then defs.map Json.obj else none with
  | some d => some d
  | none => current

/-- The boot of one component, in `settings_manager_start`. -/
def smBoot (env : SmBootEnv) (reachable : Bool) (e : SmEntry) (file : Option (List UInt8)) :
    SmEntry × Option (List UInt8) :=
  match bootLoad cj env reachable { e with degraded := false, unconfigured := false }
      (smBuildDefaults e.desc env.defs) file with
  | (e', current, file') =>
    if env.apply current then
      ({ e' with
        current := current
        applied := if env.snapshots then current else none }, file')
    else
      match bootRetry env (smBuildDefaults e.desc env.defs) current with
      | retry =>
        ({ (smPersist cj env.saveAgain reachable e' retry file').1 with
          current := retry
          applied := if env.snapshots then retry else none
          degraded := true
          unconfigured := !env.apply retry },
          (smPersist cj env.saveAgain reachable e' retry file').2)

def settingsManagerStart (env : List Char → SmBootEnv) (dev : SmDevice) : SmDevice :=
  { dev with
    entries := fun name =>
      (dev.entries name).map fun e => (smBoot cj (env name) dev.reachable e (dev.files name)).1
    files := fun name =>
      match dev.entries name with
      | none => dev.files name
      | some e => (smBoot cj (env name) dev.reachable e (dev.files name)).2 }

/-! ## Set, restore and reset -/

/-- How a set goes. -/
structure SmSetEnv where
  duplicates : Bool
  defs : SmDefsMem
  fills : List Char → Bool
  validates : Bool
  save : SmSaveEnv

/-- The document a set is about. -/
def smCandidate (env : SmSetEnv) (desc : SmDesc) (input : Json) : Json :=
  (smFillMissing env.fills input (smBuildDefaults desc env.defs)).1

/-- What `settings_manager_get` copies. -/
def SmDevice.current (dev : SmDevice) (name : List Char) : Option Json :=
  (dev.entries name).bind SmEntry.current

/-- An entry and its file are replaced. -/
def SmDevice.put (dev : SmDevice) (name : List Char) (e : SmEntry) (file : Option (List UInt8)) :
    SmDevice :=
  { dev with
    entries := Function.update dev.entries name (some e)
    files := Function.update dev.files name file }

variable (compare : Json → Json → Bool)

/-- The write is skipped: the object is the one that is stored. -/
def smSame (e : SmEntry) (candidate : Json) : Bool :=
  match e.current with
  | none => false
  | some current => compare current candidate && e.persistedClean

/-- `settings_manager_set`: the error, or whether something changed. -/
def settingsManagerSet (env : SmSetEnv) (dev : SmDevice) (name : List Char) (input : Json) :
    Except SmErr Bool × SmDevice :=
  if ¬isObject input then
    (.error .invalidArg, dev)
  else
    match dev.entries name with
    | none => (.error .notFound, dev)
    | some e =>
      if ¬env.duplicates then
        (.error .noMem, dev)
      else if ¬smValidateEntry e.desc env.validates (smCandidate env e.desc input) then
        (.error .invalidArg, dev)
      else if smSame compare e (smCandidate env e.desc input) then
        (.ok false, dev)
      else
        match smStorageSave cj env.save dev.reachable e.desc.version
            (some (smCandidate env e.desc input)) (dev.files name) with
        | (.error err, file) => (.error err, dev.put name e file)
        | (.ok (), file) =>
          (.ok true, dev.put name
            { e with current := some (smCandidate env e.desc input), persistedClean := true } file)

def settingsManagerRestore (env : SmSetEnv) (migrates : Bool) (dev : SmDevice) (name : List Char)
    (version : UInt32) (input : Json) (dryRun : Bool) : Except SmErr Bool × SmDevice :=
  if ¬isObject input then
    (.error .invalidArg, dev)
  else
    match dev.entries name with
    | none => (.error .notFound, dev)
    | some e =>
      if e.desc.version < version then
        (.error .invalidVersion, dev)
      else if ¬env.duplicates then
        (.error .noMem, dev)
      else
        match if version < e.desc.version then
            e.desc.migrate.bind fun migrate => if migrates then migrate version input else none
          else some input with
        | none => (.error .invalidArg, dev)
        | some cand =>
          if dryRun then
            if smValidateEntry e.desc env.validates (smCandidate env e.desc cand) then
              (.ok false, dev)
            else
              (.error .invalidArg, dev)
          else
            settingsManagerSet cj compare env dev name cand

end

/-- How a factory reset goes. -/
inductive SmWipe where
  /-- the flash job does not run -/
  | refused
  | unmountFailed
  | noPartition
  /-- what is left of the files -/
  | eraseFailed (left : List Char → Option (List UInt8))
  | erased

def settingsManagerFactoryReset (wipe : SmWipe) (dev : SmDevice) : Except SmErr Unit × SmDevice :=
  if ¬dev.mounted then
    (.error .invalidState, dev)
  else
    match wipe with
    | .refused => (.error .noMem, dev)
    | .unmountFailed => (.error .fail, { dev with mounted := false })
    | .noPartition => (.error .notFound, { dev with mounted := false, reachable := false })
    | .eraseFailed left =>
      (.error .fail, { dev with mounted := false, reachable := false, files := left })
    | .erased =>
      (.ok (), { dev with mounted := false, reachable := false, files := fun _ => none })

end Meatpi
