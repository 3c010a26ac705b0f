import Meatpi.SettingsManager.Boot

/-!
# A restore and a boot take the same data (`settings_manager_backup.c`, `_boot.c`)

A restore runs the data of a backup through a pipeline of its own: migrate, fill,
validate, persist. For a version that is not newer than the firmware's it does what the
boot pass does with a file of that version. A newer version the restore refuses; the
boot pass does not look whether a version is newer.
-/

namespace Meatpi

open Option

variable {ver : UInt32} {obj : Json} {cj : JsonCodec}

/-! ## The common pipeline -/

/-- The data at the version of the component. -/
def smAtVersion (desc : SmDesc) (version : UInt32) (data : Json) : Option Json :=
  if version < desc.version then desc.migrate.bind fun migrate => migrate version data
  else some data

/-- The document that data makes: what the defaults have and the data has not is filled in. -/
def smWhole (desc : SmDesc) (data : Json) : Json :=
  (smFillMissing (fun _ => true) data (smBuildDefaults desc .plenty)).1

/-- A document that the component takes. -/
def SmDesc.takes (desc : SmDesc) (whole : Json) : Bool := isObject whole && desc.validate whole

/-- Migrate, fill, validate. -/
def smTaken (desc : SmDesc) (version : UInt32) (data : Json) : Option Json :=
  (smAtVersion desc version data).bind fun data =>
    if desc.takes (smWhole desc data) then some (smWhole desc data) else none

/-! ## The boot pass -/

/-- The stored object as `boot_load` uses it, where it does not fall back to the
defaults. -/
def bootUsed (cj : JsonCodec) (env : SmBootEnv) (reachable : Bool) (desc : SmDesc)
    (defs : Option Members) (file : Option (List UInt8)) : Option Json :=
  match smStorageLoad cj env.load reachable file with
  | .error _ => none
  | .ok (ver, data) =>
    (bootMigrate env desc ver data).bind fun r =>
      if smValidateEntry desc env.validates (smFillMissing env.fills r.1 defs).1 then
        some (smFillMissing env.fills r.1 defs).1
      else none

variable {desc : SmDesc}

section

variable {env : SmBootEnv} {reachable : Bool} {e : SmEntry} {defs : Option Members}
  {file : Option (List UInt8)}

theorem bootLoad_unused (h : bootUsed cj env reachable e.desc defs file = none) :
    bootLoad cj env reachable e defs file = bootDefaults cj env reachable e defs file := by
  rw [bootUsed] at h
  rw [bootLoad]
  rcases hload : smStorageLoad cj env.load reachable file with _ | ⟨ver, data⟩
  · rfl
  · rw [hload] at h
    dsimp only at h ⊢
    rcases hmig : bootMigrate env e.desc ver data with _ | ⟨data', migrated⟩
    · rfl
    · rw [hmig, bind_some] at h
      dsimp only at h ⊢
      by_cases hvalid : smValidateEntry e.desc env.validates
          (smFillMissing env.fills data' defs).1 = true
      · rw [if_pos hvalid] at h
        cases h
      · rw [if_pos hvalid]

theorem bootLoad_used (h : bootUsed cj env reachable e.desc defs file = some obj) :
    (bootLoad cj env reachable e defs file).2.1 = some obj := by
  rw [bootUsed] at h
  rw [bootLoad]
  rcases hload : smStorageLoad cj env.load reachable file with _ | ⟨ver, data⟩
  · rw [hload] at h
    cases h
  · rw [hload] at h
    dsimp only at h ⊢
    rcases hmig : bootMigrate env e.desc ver data with _ | ⟨data', migrated⟩
    · rw [hmig] at h
      cases h
    · rw [hmig, bind_some] at h
      dsimp only at h ⊢
      by_cases hvalid : smValidateEntry e.desc env.validates
          (smFillMissing env.fills data' defs).1 = true
      · rw [if_pos hvalid] at h
        obtain rfl := some.inj h
        split_ifs <;> rfl
      · rw [if_neg hvalid] at h
        cases h

/-- Nothing fails in a boot. -/
structure SmBootEnv.Succeeds (env : SmBootEnv) (reachable : Bool) : Prop
    extends env.Loads reachable where
  migrates : env.migrates = true
  defs : env.defs = .plenty
  fills : env.fills = fun _ => true

theorem bootMigrate_fst {data : Json} (h : env.migrates = true) :
    (bootMigrate env desc ver data).map Prod.fst = smAtVersion desc ver data := by
  rw [bootMigrate, smAtVersion, h]
  by_cases hold : ver < desc.version
  · rw [if_pos hold, if_pos hold]
    cases desc.migrate with
    | none => rfl
    | some migrate =>
      dsimp only
      rw [if_pos rfl, map_map]
      exact map_id'
  · rw [if_neg hold, if_neg hold]
    rfl

/-- **The boot pass runs the pipeline**, and keeps newer data as they are. -/
theorem bootUsed_eq {text : List UInt8} {data : Json} (h : env.Succeeds reachable)
    (hdecode : smCodecDecode cj .plenty text = .ok (ver, data)) :
    bootUsed cj env reachable e.desc (smBuildDefaults e.desc env.defs) (some text) =
      smTaken e.desc ver data := by
  have hload : smStorageLoad cj env.load reachable (some text) = .ok (ver, data) := by
    rw [smStorageLoad.eq_def, h.runs, h.opens, h.sizes, h.buffer, h.whole, h.mem, h.reachable]
    exact hdecode
  rw [bootUsed, hload, smTaken, ← bootMigrate_fst h.migrates, Option.bind_map, h.validates,
    h.defs, h.fills]
  dsimp only
  congr 1
  funext r
  rw [smValidateEntry, Bool.and_true]
  rfl

end

/-! ## The restore -/

/-- Nothing fails in a restore. -/
structure SmSetEnv.Succeeds (env : SmSetEnv) (reachable : Bool) : Prop where
  duplicates : env.duplicates = true
  defs : env.defs = .plenty
  fills : env.fills = fun _ => true
  validates : env.validates = true
  saves : env.save.saves reachable = true

section

variable {env : SmSetEnv} {dev : SmDevice} {name : List Char} {e : SmEntry}
  {compare : Json → Json → Bool} {data : Json} {version : UInt32}

theorem smCandidate_eq (h : env.Succeeds dev.reachable) (desc : SmDesc) (data : Json) :
    smCandidate env desc data = smWhole desc data := by
  rw [smCandidate, h.fills, h.defs, smWhole]

theorem smValidateEntry_eq (h : env.Succeeds dev.reachable) (desc : SmDesc) (whole : Json) :
    smValidateEntry desc env.validates whole = desc.takes whole := by
  rw [smValidateEntry, h.validates, Bool.and_true, SmDesc.takes]

theorem isObject_smWhole (desc : SmDesc) (data : Json) :
    isObject (smWhole desc data) = isObject data := by
  rw [smWhole, smFillMissing.eq_def]
  split <;> rfl

theorem SmDevice.put_current (dev : SmDevice) (name : List Char) (e : SmEntry)
    (file : Option (List UInt8)) : (dev.put name e file).current name = e.current := by
  rw [SmDevice.current, SmDevice.put]
  dsimp only
  rw [Function.update_self, bind_some]

theorem settingsManagerSet_takes (h : env.Succeeds dev.reachable)
    (hentry : dev.entries name = some e) (hdata : e.desc.takes (smWhole e.desc data) = true) :
    (∃ changed, (settingsManagerSet cj compare env dev name data).1 = .ok changed) ∧
      ∃ current, (settingsManagerSet cj compare env dev name data).2.current name = some current ∧
        (current = smWhole e.desc data ∨ compare current (smWhole e.desc data) = true) := by
  have hobj : isObject data = true := by
    rw [← isObject_smWhole e.desc data]
    rw [SmDesc.takes, Bool.and_eq_true] at hdata
    exact hdata.1
  rw [settingsManagerSet, hentry, if_neg (not_not.mpr hobj)]
  dsimp only
  rw [if_neg (not_not.mpr h.duplicates), smCandidate_eq h, smValidateEntry_eq h,
    if_neg (not_not.mpr hdata)]
  by_cases hsame : smSame compare e (smWhole e.desc data) = true
  · -- the write is skipped, and what is stored stays
    rw [if_pos hsame]
    rw [smSame] at hsame
    cases hcurrent : e.current with
    | none =>
      rw [hcurrent] at hsame
      cases hsame
    | some current =>
      rw [hcurrent] at hsame
      rw [Bool.and_eq_true] at hsame
      refine ⟨⟨false, rfl⟩, current, ?_, .inr hsame.1⟩
      rw [SmDevice.current, hentry, bind_some, hcurrent]
  · rw [if_neg hsame]
    rcases hsave : smStorageSave cj env.save dev.reachable e.desc.version
        (some (smWhole e.desc data)) (dev.files name) with ⟨result, file⟩
    obtain rfl := (smStorageSave_saves hsave).mp h.saves
    refine ⟨⟨true, rfl⟩, smWhole e.desc data, ?_, .inl rfl⟩
    exact dev.put_current ..

theorem settingsManagerSet_refuses (h : env.Succeeds dev.reachable)
    (hentry : dev.entries name = some e) (hdata : e.desc.takes (smWhole e.desc data) = false) :
    ∀ changed, (settingsManagerSet cj compare env dev name data).1 ≠ .ok changed := by
  intro changed hset
  rw [settingsManagerSet, hentry] at hset
  by_cases hobj : isObject data = true
  · rw [if_neg (not_not.mpr hobj)] at hset
    dsimp only at hset
    rw [if_neg (not_not.mpr h.duplicates), smCandidate_eq h, smValidateEntry_eq h, hdata] at hset
    cases hset
  · rw [if_pos hobj] at hset
    cases hset

theorem settingsManagerRestore_newer (hobj : isObject data = true)
    (hentry : dev.entries name = some e) (hver : e.desc.version < version)
    (migrates dryRun : Bool) :
    settingsManagerRestore cj compare env migrates dev name version data dryRun =
      (.error .invalidVersion, dev) := by
  rw [settingsManagerRestore, hentry, if_neg (not_not.mpr hobj)]
  dsimp only
  rw [if_pos hver]

theorem settingsManagerRestore_eq (h : env.Succeeds dev.reachable) (hobj : isObject data = true)
    (hentry : dev.entries name = some e) (hver : version ≤ e.desc.version) (dryRun : Bool) :
    settingsManagerRestore cj compare env true dev name version data dryRun =
      match smAtVersion e.desc version data with
      | none => (.error .invalidArg, dev)
      | some cand =>
        if dryRun then
          if e.desc.takes (smWhole e.desc cand) then (.ok false, dev) else (.error .invalidArg, dev)
        else settingsManagerSet cj compare env dev name cand := by
  rw [settingsManagerRestore, hentry, if_neg (not_not.mpr hobj)]
  dsimp only
  rw [if_neg (UInt32.not_lt.mpr hver), if_neg (not_not.mpr h.duplicates)]
  simp only [if_true, smCandidate_eq h, smValidateEntry_eq h]
  rfl

end

/-! ## Both alike -/

/-- Restore and boot treat data of a version alike: a restore, dry or not, accepts exactly
what the boot pass uses, the boot goes on with the document that the restore validated,
and both make it the current object, `cJSON_Compare` allowing a restore to keep an equal
one. -/
structure TreatsAlike (cj : JsonCodec) (compare : Json → Json → Bool) (boot : SmBootEnv)
    (env : SmSetEnv) (dev : SmDevice) (name : List Char) (e : SmEntry) (text : List UInt8)
    (version : UInt32) (data : Json) : Prop where
  accepts : ∀ dryRun,
    (∃ changed, (settingsManagerRestore cj compare env true dev name version data dryRun).1 =
        .ok changed) ↔
      ∃ obj, bootUsed cj boot dev.reachable e.desc (smBuildDefaults e.desc boot.defs)
        (some text) = some obj
  refuses : bootUsed cj boot dev.reachable e.desc (smBuildDefaults e.desc boot.defs)
      (some text) = none →
    bootLoad cj boot dev.reachable e (smBuildDefaults e.desc boot.defs) (some text) =
      bootDefaults cj boot dev.reachable e (smBuildDefaults e.desc boot.defs) (some text)
  checks : ∀ obj, bootUsed cj boot dev.reachable e.desc (smBuildDefaults e.desc boot.defs)
      (some text) = some obj →
    ∃ cand, smAtVersion e.desc version data = some cand ∧ smCandidate env e.desc cand = obj
  boots : ∀ obj, bootUsed cj boot dev.reachable e.desc (smBuildDefaults e.desc boot.defs)
      (some text) = some obj →
    (bootLoad cj boot dev.reachable e (smBuildDefaults e.desc boot.defs) (some text)).2.1 =
        some obj ∧
      (boot.apply (some obj) = true →
        (smBoot cj boot dev.reachable e (some text)).1.current = some obj)
  restores : ∀ obj, bootUsed cj boot dev.reachable e.desc (smBuildDefaults e.desc boot.defs)
      (some text) = some obj →
    ∃ current, (settingsManagerRestore cj compare env true dev name version data false).2.current
        name = some current ∧
      (current = obj ∨ compare current obj = true)

variable {boot : SmBootEnv} {env : SmSetEnv} {dev : SmDevice} {name : List Char} {e : SmEntry}
  {compare : Json → Json → Bool} {data : Json} {version : UInt32}

theorem smTaken_some : smTaken desc version data = some obj ↔
    ∃ cand, smAtVersion desc version data = some cand ∧ desc.takes (smWhole desc cand) = true ∧
      smWhole desc cand = obj := by
  rw [smTaken, bind_eq_some_iff]
  constructor
  · rintro ⟨cand, hcand, htakes⟩
    rw [ite_none_right_eq_some] at htakes
    exact ⟨cand, hcand, htakes.1, some.inj htakes.2⟩
  · rintro ⟨cand, hcand, htakes, rfl⟩
    exact ⟨cand, hcand, if_pos htakes⟩

theorem settingsManagerRestore_ok (h : env.Succeeds dev.reachable) (hobj : isObject data = true)
    (hentry : dev.entries name = some e) (hver : version ≤ e.desc.version) (dryRun : Bool) :
    (∃ changed, (settingsManagerRestore cj compare env true dev name version data dryRun).1 =
        .ok changed) ↔ ∃ obj, smTaken e.desc version data = some obj := by
  rw [settingsManagerRestore_eq h hobj hentry hver]
  cases hmig : smAtVersion e.desc version data with
  | none =>
    constructor
    · rintro ⟨_, hok⟩
      cases hok
    · rintro ⟨obj, htaken⟩
      obtain ⟨cand, hcand, _⟩ := smTaken_some.mp htaken
      rw [hmig] at hcand
      cases hcand
  | some cand =>
    have htaken : (∃ obj, smTaken e.desc version data = some obj) ↔
        e.desc.takes (smWhole e.desc cand) = true := by
      constructor
      · rintro ⟨obj, hobj⟩
        obtain ⟨cand', hcand', htakes, _⟩ := smTaken_some.mp hobj
        obtain rfl := some.inj (hmig.symm.trans hcand')
        exact htakes
      · intro htakes
        exact ⟨_, smTaken_some.mpr ⟨cand, hmig, htakes, rfl⟩⟩
    rw [htaken]
    dsimp only
    cases dryRun with
    | true =>
      cases htakes : e.desc.takes (smWhole e.desc cand) with
      | true => exact ⟨fun _ => rfl, fun _ => ⟨false, rfl⟩⟩
      | false => exact ⟨fun ⟨_, hok⟩ => (by cases hok), fun hok => (by cases hok)⟩
    | false =>
      cases htakes : e.desc.takes (smWhole e.desc cand) with
      | true => exact ⟨fun _ => rfl, fun _ => (settingsManagerSet_takes h hentry htakes).1⟩
      | false =>
        constructor
        · rintro ⟨changed, hok⟩
          exact absurd hok (settingsManagerSet_refuses h hentry htakes changed)
        · intro hok
          cases hok

theorem smBoot_used {file : Option (List UInt8)}
    (h : bootUsed cj boot dev.reachable e.desc (smBuildDefaults e.desc boot.defs) file = some obj)
    (happly : boot.apply (some obj) = true) :
    (smBoot cj boot dev.reachable e file).1.current = some obj := by
  rw [smBoot]
  rcases hload : bootLoad cj boot dev.reachable { e with degraded := false, unconfigured := false }
    (smBuildDefaults e.desc boot.defs) file with ⟨e', current, file'⟩
  have hcurrent := bootLoad_used (e := { e with degraded := false, unconfigured := false }) h
  rw [hload] at hcurrent
  dsimp only at hcurrent ⊢
  rw [hcurrent, if_pos happly]

/-- **Restore and boot treat the same stored data alike**, if its version is not newer
than the firmware's; a newer one a restore refuses. -/
theorem restore_as_boot (cj : JsonCodec) (compare : Json → Json → Bool) {text : List UInt8}
    (hboot : boot.Succeeds dev.reachable) (henv : env.Succeeds dev.reachable)
    (hentry : dev.entries name = some e)
    (hdecode : smCodecDecode cj .plenty text = .ok (version, data)) :
    (version ≤ e.desc.version → TreatsAlike cj compare boot env dev name e text version data) ∧
      (e.desc.version < version → ∀ dryRun,
        settingsManagerRestore cj compare env true dev name version data dryRun =
          (.error .invalidVersion, dev)) := by
  have hobj : isObject data = true := (smCodecDecode_plenty hdecode).2
  refine ⟨fun hver => ?_, fun hver => settingsManagerRestore_newer hobj hentry hver true⟩
  have hused := bootUsed_eq (e := e) hboot hdecode
  refine ⟨?_, bootLoad_unused, ?_, ?_, ?_⟩
  · intro dryRun
    rw [hused]
    exact settingsManagerRestore_ok henv hobj hentry hver dryRun
  · intro obj hobj'
    rw [hused] at hobj'
    obtain ⟨cand, hcand, _, rfl⟩ := smTaken_some.mp hobj'
    exact ⟨cand, hcand, smCandidate_eq henv e.desc cand⟩
  · intro obj hobj'
    exact ⟨bootLoad_used hobj', smBoot_used hobj'⟩
  · intro obj hobj'
    rw [hused] at hobj'
    obtain ⟨cand, hcand, htakes, rfl⟩ := smTaken_some.mp hobj'
    rw [settingsManagerRestore_eq henv hobj hentry hver, hcand]
    exact (settingsManagerSet_takes henv hentry htakes).2

/-! ## A component with one setting -/

/-- The component with the switch, at a version. -/
def switchAt (version : UInt32) : SmEntry :=
  { switchEntry with desc := { switchEntry.desc with version := version } }

/-- A device with that component. -/
def switchDevice (version : UInt32) : SmDevice where
  entries := fun name => if name = "demo".toList then some (switchAt version) else none
  files := fun _ => some (switchFile true)
  mounted := true
  reachable := true

theorem bootGood_succeeds : SmBootEnv.good.Succeeds true where
  runs := rfl
  opens := rfl
  sizes := rfl
  buffer := rfl
  whole := rfl
  mem := rfl
  validates := rfl
  reachable := rfl
  migrates := rfl
  defs := rfl
  fills := rfl

theorem setGood_succeeds : SmSetEnv.good.Succeeds true := ⟨rfl, rfl, rfl, rfl, rfl⟩

theorem switchDevice_entry (version : UInt32) :
    (switchDevice version).entries "demo".toList = some (switchAt version) := by
  rw [switchDevice]
  dsimp only
  rw [if_pos rfl]

/-- A file of the firmware's version. -/
theorem restore_as_boot_switch :
    TreatsAlike switchCodec compareEmpty .good .good (switchDevice 1) "demo".toList (switchAt 1)
      (switchFile true) 1 (switchSettings true) :=
  (restore_as_boot switchCodec compareEmpty bootGood_succeeds setGood_succeeds
    (switchDevice_entry 1) (switchFile_decode true)).1 (by decide)

/-- A file of a newer version: the boot pass uses it, and a restore refuses it. -/
theorem restore_newer :
    bootUsed switchCodec .good true (switchAt 0).desc (smBuildDefaults (switchAt 0).desc .plenty)
        (some (switchFile true)) = some (switchSettings true) ∧
      ∀ dryRun, (settingsManagerRestore switchCodec compareEmpty .good true (switchDevice 0)
        "demo".toList 1 (switchSettings true) dryRun).1 = .error .invalidVersion := by
  constructor
  · have hused := bootUsed_eq (e := switchAt 0) bootGood_succeeds (switchFile_decode true)
    exact hused.trans rfl
  · intro dryRun
    rw [settingsManagerRestore_newer rfl (switchDevice_entry 0) (by decide)]

end Meatpi
