import Meatpi.Library.Text
import Meatpi.SettingsManager.Store

/-!
# Settings are durable

What a set that succeeds leaves behind is a file that decodes to what a get
returns, and a set that fails changes nothing. This rests on the flag of the
shortcut: wherever the file is changed alone, or memory alone, the flag has to
fall. A boot keeps it truthful, a factory reset does not.
-/

namespace Meatpi

open Except Function List Option

variable {copies : List Char → Bool} {file' : Option (List UInt8)} {data : Option Json}
  {defs : Option Members} {err : SmErr} {version : UInt32} {r : UInt32 × Json}

variable {reachable : Bool} {file : Option (List UInt8)}

variable {cj : JsonCodec} {compare : Json → Json → Bool}

/-- A file decodes to an object of a version, its checksum right. -/
def Stored (cj : JsonCodec) (file : Option (List UInt8)) (version : UInt32) (data : Json) : Prop :=
  ∃ text, file = some text ∧ smCodecDecode cj .plenty text = .ok (version, data)

/-- The flag of an entry is truthful: the file is what memory is. -/
def SmEntry.Clean (cj : JsonCodec) (e : SmEntry) (file : Option (List UInt8)) : Prop :=
  e.persistedClean = true → ∃ data, e.current = some data ∧ Stored cj file e.desc.version data

/-! ## Saves and loads -/

theorem smStorageSave_error {env : SmSaveEnv}
    (h : smStorageSave cj env reachable version data file = (.error err, file')) :
    file' = file := by
  cases data with
  | none => exact (congrArg Prod.snd h).symm
  | some data =>
    rw [smStorageSave] at h
    split at h
    · exact (congrArg Prod.snd h).symm
    · repeat' split at h
      all_goals first
        | exact (congrArg Prod.snd h).symm
        | cases h

theorem smStorageSave_ok {env : SmSaveEnv} {data : Json} (hmedia : env.media = none)
    (hobj : isObject data = true)
    (h : smStorageSave cj env reachable version (some data) file = (.ok (), file')) :
    reachable = true ∧ Stored cj file' version data := by
  rw [smStorageSave, smCodecEncode] at h
  split at h
  · cases h
  · rename_i text htext
    split at htext
    · cases htext
    · obtain rfl := ok.inj htext
      split at h
      · cases h
      split at h
      · cases h
      split at h
      · cases h
      · rename_i hopen
        split at h
        · cases h
        split at h
        · cases h
        · obtain rfl := (congrArg Prod.snd h).symm
          refine ⟨(not_not.mp hopen).1, _, rfl, ?_⟩
          rw [hmedia]
          exact smCodecDecode_print cj version hobj

theorem smCodecDecode_plenty {mem : SmMem} {text : List UInt8}
    (h : smCodecDecode cj mem text = .ok r) :
    smCodecDecode cj .plenty text = .ok r ∧ isObject r.2 = true := by
  rw [smCodecDecode] at h ⊢
  split at h
  · cases h
  · split at h
    · cases h
    · split at h
      · split at h
        · cases h
        · rename_i hobj
          rw [not_not] at hobj
          rw [if_neg (not_not.mpr hobj)]
          split at h
          · cases h
          split at h
          · cases h
          · rename_i hsum
            rw [if_neg hsum]
            split at h
            · cases h
            · refine ⟨h, ?_⟩
              split at h
              · obtain rfl := ok.inj h
                exact hobj
              · obtain rfl := ok.inj h
                exact hobj
      · cases h

theorem smStorageLoad_ok {env : SmLoadEnv} (h : smStorageLoad cj env reachable file = .ok r) :
    Stored cj file r.1 r.2 ∧ isObject r.2 = true := by
  unfold smStorageLoad at h
  split at h
  · cases h
  · split at h
    · cases h
    · rename_i text
      repeat' split at h
      all_goals first
        | cases h
        | skip
      obtain ⟨hdecode, hobj⟩ := smCodecDecode_plenty h
      exact ⟨⟨text, rfl, hdecode⟩, hobj⟩

theorem smPersist_clean (cj : JsonCodec) {env : SmSaveEnv} (reachable : Bool) (e : SmEntry)
    (file : Option (List UInt8)) (hmedia : env.media = none)
    (hobj : ∀ d, data = some d → isObject d = true) :
    (smPersist cj env reachable e data file).1.desc = e.desc ∧
      ((smPersist cj env reachable e data file).1.persistedClean = true → ∃ d,
        data = some d ∧
          Stored cj (smPersist cj env reachable e data file).2 e.desc.version d) := by
  rw [smPersist]
  match hsave : smStorageSave cj env reachable e.desc.version data file with
  | (.error err, file') =>
    refine ⟨rfl, ?_⟩
    intro h
    cases h
  | (.ok (), file') =>
    refine ⟨rfl, ?_⟩
    intro _
    match data, hobj with
    | none, _ => cases hsave
    | some d, hobj => exact ⟨d, rfl, (smStorageSave_ok hmedia (hobj d rfl) hsave).2⟩

/-! ## The boot keeps the flag truthful -/

theorem smFillMembers_zero {src : Members} :
    ∀ {dst : Members}, (smFillMembers copies dst src).2 = 0 →
      (smFillMembers copies dst src).1 = dst := by
  induction src with
  | nil =>
    intro dst _
    rfl
  | cons m src ih =>
    intro dst h
    rw [smFillMembers] at h ⊢
    split at h
    · cases h
    · rename_i hskip
      rw [if_neg hskip]
      exact ih h

theorem smFillMissing_zero {dst : Json} {src : Option Members}
    (h : (smFillMissing copies dst src).2 = 0) : (smFillMissing copies dst src).1 = dst := by
  unfold smFillMissing at h ⊢
  split at h
  · exact congrArg Json.obj (smFillMembers_zero h)
  · rfl

/-- A boot that leaves a truthful flag: no save fails in its flush, and the file is not of
a newer firmware. -/
structure SmBootEnv.Sound (cj : JsonCodec) (env : SmBootEnv) (reachable : Bool) (e : SmEntry)
    (file : Option (List UInt8)) : Prop where
  /-- the flushes of the saves succeed -/
  media : env.save.media = none
  mediaAgain : env.saveAgain.media = none
  /-- no newer firmware wrote the file -/
  version : ∀ ver data, smStorageLoad cj env.load reachable file = .ok (ver, data) →
    ver ≤ e.desc.version

/-- The result of a boot step: the flag is truthful for the object at hand. -/
def BootClean (cj : JsonCodec) (desc : SmDesc)
    (r : SmEntry × Option Json × Option (List UInt8)) : Prop :=
  r.1.desc = desc ∧ (∀ d, r.2.1 = some d → isObject d = true) ∧
    (r.1.persistedClean = true → ∃ d, r.2.1 = some d ∧ Stored cj r.2.2 desc.version d)

variable {e : SmEntry}

theorem bootDefaults_clean {env : SmBootEnv} (hmedia : env.save.media = none) :
    BootClean cj e.desc (bootDefaults cj env reachable e defs file) := by
  rw [bootDefaults]
  split
  · rename_i d hd
    have hobj : ∀ d', some d = some d' → isObject d' = true := by
      intro d' hd'
      obtain rfl := some.inj hd'
      split at hd
      · obtain ⟨members, -, rfl⟩ := map_eq_some_iff.mp hd
        rfl
      · cases hd
    obtain ⟨hdesc, hclean⟩ := smPersist_clean cj reachable e file hmedia hobj
    exact ⟨hdesc, hobj, hclean⟩
  · obtain ⟨hdesc, hclean⟩ := smPersist_clean cj reachable e file hmedia
      (fun d (hd : none = some d) => by cases hd)
    refine ⟨hdesc, ?_, ?_⟩
    · intro d hd
      split at hd
      · obtain rfl := some.inj hd
        rfl
      · cases hd
    · intro h
      obtain ⟨d, hd, -⟩ := hclean h
      cases hd

theorem bootLoad_clean {env : SmBootEnv} (h : env.Sound cj reachable e file) :
    BootClean cj e.desc (bootLoad cj env reachable e defs file) := by
  rw [bootLoad]
  split
  · exact bootDefaults_clean h.media
  · rename_i ver data hload
    split
    · exact bootDefaults_clean h.media
    · rename_i data' migrated hmigrate
      split
      · exact bootDefaults_clean h.media
      · rename_i hvalid
        rw [not_not, smValidateEntry, Bool.and_eq_true, Bool.and_eq_true] at hvalid
        have hobj : ∀ d, some (smFillMissing env.fills data' defs).1 = some d →
            isObject d = true := by
          intro d hd
          obtain rfl := some.inj hd
          exact hvalid.1.1
        split
        · obtain ⟨hdesc, hclean⟩ := smPersist_clean cj reachable e file h.media hobj
          exact ⟨hdesc, hobj, hclean⟩
        · rename_i hsame
          rw [not_or, Nat.not_lt, Nat.le_zero] at hsame
          refine ⟨rfl, hobj, ?_⟩
          intro _
          -- neither migrated nor filled: the object is what the file holds
          have hstored := (smStorageLoad_ok hload).1
          rw [smFillMissing_zero hsame.2]
          rw [bootMigrate] at hmigrate
          have hle : ver ≤ e.desc.version := h.version ver data hload
          split at hmigrate
          · split at hmigrate
            · cases hmigrate
            · split at hmigrate
              · obtain ⟨d, -, hd⟩ := map_eq_some_iff.mp hmigrate
                exact absurd (congrArg Prod.snd hd).symm hsame.1
              · cases hmigrate
          · rename_i hlt
            obtain ⟨rfl, -⟩ := Prod.mk.inj (some.inj hmigrate)
            have heq : ver = e.desc.version := UInt32.le_antisymm hle (UInt32.not_lt.mp hlt)
            rw [← heq]
            exact ⟨data, rfl, hstored⟩

theorem smBoot_clean {env : SmBootEnv} (h : env.Sound cj reachable e file) :
    (smBoot cj env reachable e file).1.Clean cj (smBoot cj env reachable e file).2 := by
  have hload : BootClean cj e.desc
      (bootLoad cj env reachable { e with degraded := false, unconfigured := false }
        (smBuildDefaults e.desc env.defs) file) :=
    bootLoad_clean (e := { e with degraded := false, unconfigured := false })
      ⟨h.media, h.mediaAgain, h.version⟩
  rw [smBoot]
  generalize bootLoad cj env reachable { e with degraded := false, unconfigured := false }
    (smBuildDefaults e.desc env.defs) file = r at hload ⊢
  obtain ⟨e', current, file'⟩ := r
  obtain ⟨hdesc, hobj, hclean⟩ := hload
  dsimp only at hdesc hobj hclean ⊢
  split
  · intro hflag
    obtain ⟨d, hd, hstored⟩ := hclean hflag
    exact ⟨d, hd, hdesc ▸ hstored⟩
  · have hretry : ∀ d, bootRetry env (smBuildDefaults e.desc env.defs) current = some d →
        isObject d = true := by
      intro d hd
      rw [bootRetry] at hd
      split at hd
      · rename_i d' hd'
        obtain rfl := some.inj hd
        split at hd'
        · obtain ⟨members, -, rfl⟩ := map_eq_some_iff.mp hd'
          rfl
        · cases hd'
      · exact hobj d hd
    obtain ⟨hdesc', hclean'⟩ := smPersist_clean cj reachable e' file' h.mediaAgain hretry
    intro hflag
    obtain ⟨d, hd, hstored⟩ := hclean' hflag
    exact ⟨d, hd, hdesc'.symm ▸ hstored⟩

/-! ## Operations -/

/-- A call of the manager. -/
inductive SmOp where
  | start (env : List Char → SmBootEnv)
  | set (env : SmSetEnv) (name : List Char) (input : Json)
  | restore (env : SmSetEnv) (migrates : Bool) (name : List Char) (version : UInt32)
      (input : Json) (dryRun : Bool)
  | factoryReset (wipe : SmWipe)

/-- The manager after a call. -/
def smCall (cj : JsonCodec) (compare : Json → Json → Bool) (dev : SmDevice) : SmOp → SmDevice
  | .start env => settingsManagerStart cj env dev
  | .set env name input => (settingsManagerSet cj compare env dev name input).2
  | .restore env migrates name version input dryRun =>
    (settingsManagerRestore cj compare env migrates dev name version input dryRun).2
  | .factoryReset wipe => (settingsManagerFactoryReset wipe dev).2

/-- What the manager relies on: flushes succeed, no file is of a newer firmware,
and no object is set again after the partition is gone. -/
def SmOp.Sound (cj : JsonCodec) (compare : Json → Json → Bool) (dev : SmDevice) : SmOp → Prop
  | .start env => ∀ name e, dev.entries name = some e →
    (env name).Sound cj dev.reachable e (dev.files name)
  | .set env name input => env.save.media = none ∧
    (dev.reachable = true ∨ ∀ e, dev.entries name = some e →
      smSame compare e (smCandidate env e.desc input) = false)
  | .restore env _ _ _ _ _ => env.save.media = none
  | .factoryReset _ => True

/-- A call of the manager that is sound. -/
def SmSoundStep (cj : JsonCodec) (compare : Json → Json → Bool) (dev : SmDevice) (op : SmOp)
    (dev' : SmDevice) : Prop :=
  dev' = smCall cj compare dev op ∧ op.Sound cj compare dev

/-- While the partition is there, every flag is truthful. -/
def SmDevice.Truthful (cj : JsonCodec) (dev : SmDevice) : Prop :=
  dev.reachable = true → ∀ name e, dev.entries name = some e → e.Clean cj (dev.files name)

section Set

variable {env : SmSetEnv} {dev dev' : SmDevice} {name : List Char} {input : Json}

theorem settingsManagerSet_error
    (h : settingsManagerSet cj compare env dev name input = (.error err, dev')) : dev' = dev := by
  rw [settingsManagerSet] at h
  split at h
  · exact (congrArg Prod.snd h).symm
  · split at h
    · exact (congrArg Prod.snd h).symm
    · rename_i e he
      split at h
      · exact (congrArg Prod.snd h).symm
      split at h
      · exact (congrArg Prod.snd h).symm
      split at h
      · cases h
      · split at h
        · rename_i file hsave
          have hdev : dev.put name e file = dev' := congrArg Prod.snd h
          rw [← hdev, smStorageSave_error hsave, SmDevice.put, ← he, update_eq_self, update_eq_self]
        · cases h

theorem settingsManagerSet_ok {changed : Bool} (hmedia : env.save.media = none)
    (h : settingsManagerSet cj compare env dev name input = (.ok changed, dev')) :
    ∃ e, dev.entries name = some e ∧
      ((smSame compare e (smCandidate env e.desc input) = true ∧ dev' = dev) ∨
        ∃ data file, dev.reachable = true ∧ Stored cj file e.desc.version data ∧
          dev' = dev.put name { e with current := some data, persistedClean := true } file) := by
  rw [settingsManagerSet] at h
  split at h
  · cases h
  · split at h
    · cases h
    · rename_i e he
      refine ⟨e, he, ?_⟩
      split at h
      · cases h
      split at h
      · cases h
      rename_i hvalid
      rw [not_not, smValidateEntry, Bool.and_eq_true, Bool.and_eq_true] at hvalid
      split at h
      · rename_i hsame
        exact Or.inl ⟨hsame, (congrArg Prod.snd h).symm⟩
      · split at h
        · cases h
        · rename_i file hsave
          obtain ⟨hreach, hstored⟩ := smStorageSave_ok hmedia hvalid.1.1 hsave
          exact Or.inr ⟨_, file, hreach, hstored, (congrArg Prod.snd h).symm⟩

theorem SmDevice.Truthful.set (h : dev.Truthful cj) (hmedia : env.save.media = none) :
    (settingsManagerSet cj compare env dev name input).2.Truthful cj := by
  match hset : settingsManagerSet cj compare env dev name input with
  | (.error err, dev') =>
    rw [settingsManagerSet_error hset]
    exact h
  | (.ok changed, dev') =>
    obtain ⟨e, he, ⟨-, rfl⟩ | ⟨data, file, hreach, hstored, rfl⟩⟩ :=
      settingsManagerSet_ok hmedia hset
    · exact h
    · intro _ name' e' he'
      rw [SmDevice.put] at he' ⊢
      dsimp only at he' ⊢
      by_cases hname : name' = name
      · subst hname
        rw [update_self] at he' ⊢
        obtain rfl := some.inj he'
        intro _
        exact ⟨data, rfl, hstored⟩
      · rw [update_of_ne hname] at he' ⊢
        exact h hreach name' e' he'

end Set

/-- **A call.** A sound call keeps the flags truthful. -/
theorem SmDevice.Truthful.call {dev : SmDevice} (h : dev.Truthful cj) {op : SmOp}
    (hop : op.Sound cj compare dev) : (smCall cj compare dev op).Truthful cj := by
  cases op with
  | start env =>
    intro hreach name e he
    rw [smCall, settingsManagerStart] at he ⊢
    dsimp only at he ⊢
    obtain ⟨e₀, he₀, rfl⟩ := map_eq_some_iff.mp he
    rw [he₀]
    exact smBoot_clean (hop name e₀ he₀)
  | set env name input => exact h.set hop.1
  | restore env migrates name version input dryRun =>
    rw [smCall, settingsManagerRestore]
    split
    · exact h
    split
    · exact h
    split
    · exact h
    split
    · exact h
    split
    · exact h
    split
    · split <;> exact h
    · exact h.set hop
  | factoryReset wipe =>
    change (settingsManagerFactoryReset wipe dev).2.Truthful cj
    unfold settingsManagerFactoryReset
    split
    · exact h
    · cases wipe with
      | refused => exact h
      | unmountFailed => exact h
      | noPartition =>
        intro hreach
        cases hreach
      | eraseFailed left =>
        intro hreach
        cases hreach
      | erased =>
        intro hreach
        cases hreach

/-- **Settings are durable.** After every sound run from a manager that has not
started, a sound set that succeeds leaves a file that decodes to what a get
returns, at the current version, and one that fails leaves all files and all
objects as they were. -/
theorem settings_durable {dev₀ dev : SmDevice} {ops : List SmOp}
    (hboot : ∀ name e, dev₀.entries name = some e → e.persistedClean = false)
    (hrun : Run (SmSoundStep cj compare) dev₀ ops dev) {env : SmSetEnv} {name : List Char}
    {input : Json} (hset : (SmOp.set env name input).Sound cj compare dev) :
    (∀ changed dev', settingsManagerSet cj compare env dev name input = (.ok changed, dev') →
      ∃ e data, dev'.entries name = some e ∧ dev'.current name = some data ∧
        Stored cj (dev'.files name) e.desc.version data) ∧
    ∀ err dev', settingsManagerSet cj compare env dev name input = (.error err, dev') →
      dev'.files = dev.files ∧ dev'.current = dev.current := by
  have htruthful : dev.Truthful cj := by
    refine hrun.inv (I := fun dev => dev.Truthful cj) ?_ ?_
    · rintro s op s' ⟨rfl, hop⟩ h
      exact h.call hop
    · intro _ name e he hflag
      rw [hboot name e he] at hflag
      cases hflag
  constructor
  · intro changed dev' hcall
    obtain ⟨e, he, ⟨hsame, rfl⟩ | ⟨data, file, -, hstored, rfl⟩⟩ :=
      settingsManagerSet_ok hset.1 hcall
    · have hreach : dev'.reachable = true := by
        rcases hset.2 with hreach | hnever
        · exact hreach
        · rw [hnever e he] at hsame
          cases hsame
      have hflag : e.persistedClean = true := by
        rw [smSame] at hsame
        split at hsame
        · cases hsame
        · rw [Bool.and_eq_true] at hsame
          exact hsame.2
      obtain ⟨data, hdata, hstored⟩ := htruthful hreach name e he hflag
      refine ⟨e, data, he, ?_, hstored⟩
      rw [SmDevice.current, he]
      exact hdata
    · have hentry : (dev.put name { e with current := some data, persistedClean := true }
          file).entries name = some { e with current := some data, persistedClean := true } :=
        update_self _ _ _
      have hfile : (dev.put name { e with current := some data, persistedClean := true }
          file).files name = file := update_self _ _ _
      refine ⟨_, data, hentry, ?_, ?_⟩
      · rw [SmDevice.current, hentry]
        rfl
      · rw [hfile]
        exact hstored
  · intro err dev' hcall
    rw [settingsManagerSet_error hcall]
    exact ⟨rfl, rfl⟩

/-! ## A component without settings -/

/-- The settings file of an empty object, at version 1. -/
def emptyFile : List UInt8 := asciiBytes "\x7b\"crc32\":2745614147,\"version\":1,\"data\":\x7b\x7d\x7d"

/-- The documents that are printed for an empty object. -/
def emptyPins : List (Json × List UInt8) :=
  [(.obj [], asciiBytes "\x7b\x7d"), (smEnvelope 2745614147 1 (.obj []), emptyFile)]

theorem emptyPins_pins : JsonCodec.Pins emptyPins where
  apart := by
    intro p hp q hq heq
    rw [emptyPins, mem_cons, mem_singleton] at hp hq
    rcases hp with rfl | rfl <;> rcases hq with rfl | rfl
    · rfl
    · exact absurd heq (by decide)
    · exact absurd heq (by decide)
    · rfl
  text := by
    intro p hp
    rw [emptyPins, mem_cons, mem_singleton] at hp
    rcases hp with rfl | rfl <;> decide

/-- A library that prints them. -/
noncomputable def emptyCodec : JsonCodec := JsonCodec.pinned emptyPins emptyPins_pins

theorem emptyCodec_print : emptyCodec.print (.obj []) = asciiBytes "\x7b\x7d" := by
  simp [emptyCodec, JsonCodec.pinned, JsonCodec.pinnedText, emptyPins]

theorem emptyCodec_file :
    emptyCodec.print (smEnvelope (smCrc32 (emptyCodec.print (.obj []))) 1 (.obj [])) =
      emptyFile := by
  have hcrc : smCrc32 (asciiBytes "\x7b\x7d") = 2745614147 := by decide +kernel
  rw [emptyCodec_print, hcrc]
  simp [emptyCodec, JsonCodec.pinned, JsonCodec.pinnedText, emptyPins, smEnvelope]

/-- Everything in a save succeeds. -/
def SmSaveEnv.good : SmSaveEnv := ⟨.plenty, true, true, true, true, none, true⟩

/-- Every allocation for the defaults succeeds. -/
def SmDefsMem.plenty : SmDefsMem := ⟨true, true, true, fun _ => true, true⟩

/-- Everything in a boot succeeds. -/
def SmBootEnv.good : SmBootEnv where
  defs := .plenty
  load := ⟨true, true, true, true, true, .plenty⟩
  copies := true
  creates := true
  migrates := true
  fills := fun _ => true
  validates := true
  save := .good
  apply := fun _ => true
  copiesAgain := true
  saveAgain := .good
  snapshots := true

/-- Everything in a set succeeds. -/
def SmSetEnv.good : SmSetEnv := ⟨true, .plenty, fun _ => true, true, .good⟩

/-- A component that has just been registered, with no setting at all. -/
def emptyEntry : SmEntry where
  desc := ⟨1, none, [], fun _ => true, none⟩
  current := none
  applied := none
  persistedClean := false
  degraded := false
  unconfigured := false

/-- A device with one component and its file. -/
def emptyDevice : SmDevice where
  entries := fun name => if name = "demo".toList then some emptyEntry else none
  files := fun _ => some emptyFile
  mounted := true
  reachable := true

theorem emptyDevice_load :
    smStorageLoad emptyCodec SmBootEnv.good.load true (some emptyFile) = .ok (1, .obj []) := by
  rw [← emptyCodec_file]
  exact smCodecDecode_print emptyCodec 1 rfl

theorem emptyDevice_boot : smBoot emptyCodec .good true emptyEntry (some emptyFile) =
    ({ emptyEntry with
      current := some (.obj []), applied := some (.obj []), persistedClean := true },
      some emptyFile) := by
  rw [smBoot, bootLoad, emptyDevice_load]
  rfl

theorem emptyDevice_start (name : List Char) :
    (settingsManagerStart emptyCodec (fun _ => .good) emptyDevice).entries name =
      if name = "demo".toList then
        some { emptyEntry with
          current := some (.obj []), applied := some (.obj []), persistedClean := true }
      else
        none := by
  rw [settingsManagerStart]
  dsimp only [emptyDevice]
  split
  · rw [map_some, emptyDevice_boot]
  · rfl

/-- Objects without members are the same. -/
def compareEmpty : Json → Json → Bool
  | .obj [], .obj [] => true
  | _, _ => false

/-! ## A component with one setting -/

/-- The settings of a component with a switch. -/
def switchSettings (lit : Bool) : Json := .obj [("on".toList, .bool lit)]

/-- The settings as a text. -/
def switchText (lit : Bool) : List UInt8 :=
  asciiBytes (if lit then "\x7b\"on\":true\x7d" else "\x7b\"on\":false\x7d")

/-- The checksum of the text. -/
def switchCrc (lit : Bool) : UInt32 := if lit then 4013183476 else 2557931796

/-- The settings file at version 1. -/
def switchFile (lit : Bool) : List UInt8 :=
  asciiBytes (if lit then
    "\x7b\"crc32\":4013183476,\"version\":1,\"data\":\x7b\"on\":true\x7d\x7d"
  else
    "\x7b\"crc32\":2557931796,\"version\":1,\"data\":\x7b\"on\":false\x7d\x7d")

/-- The documents that are printed for the component. -/
def switchPins : List (Json × List UInt8) :=
  [(switchSettings true, switchText true), (switchSettings false, switchText false),
    (smEnvelope (switchCrc true) 1 (switchSettings true), switchFile true),
    (smEnvelope (switchCrc false) 1 (switchSettings false), switchFile false)]

theorem switchPins_pins : JsonCodec.Pins switchPins where
  apart := by
    intro p hp q hq heq
    simp only [switchPins, mem_cons, not_mem_nil, or_false] at hp hq
    rcases hp with rfl | rfl | rfl | rfl <;> rcases hq with rfl | rfl | rfl | rfl <;>
      first
      | rfl
      | exact absurd heq (by decide)
  text := by
    intro p hp
    simp only [switchPins, mem_cons, not_mem_nil, or_false] at hp
    rcases hp with rfl | rfl | rfl | rfl <;> decide

/-- A library that prints them. -/
noncomputable def switchCodec : JsonCodec := JsonCodec.pinned switchPins switchPins_pins

theorem switchCodec_file (lit : Bool) :
    switchCodec.print (smEnvelope (smCrc32 (switchCodec.print (switchSettings lit))) 1
      (switchSettings lit)) = switchFile lit := by
  have htext : switchCodec.print (switchSettings lit) = switchText lit := by
    cases lit <;>
      simp [switchCodec, JsonCodec.pinned, JsonCodec.pinnedText, switchPins, switchSettings]
  have hcrc : smCrc32 (switchText lit) = switchCrc lit := by
    cases lit <;> decide +kernel
  rw [htext, hcrc]
  cases lit <;>
    simp [switchCodec, JsonCodec.pinned, JsonCodec.pinnedText, switchPins, switchSettings,
      smEnvelope, switchCrc]

theorem switchFile_decode (lit : Bool) :
    smCodecDecode switchCodec .plenty (switchFile lit) = .ok (1, switchSettings lit) := by
  rw [← switchCodec_file]
  exact smCodecDecode_print switchCodec 1 rfl

/-- The component, before its boot; the switch is off by default. -/
def switchEntry : SmEntry where
  desc := ⟨1, none, [("on".toList, .bool false)], fun _ => true, none⟩
  current := none
  applied := none
  persistedClean := false
  degraded := false
  unconfigured := false

/-- A device with the component, whose file says off. -/
def switchedOff : SmDevice where
  entries := fun name => if name = "demo".toList then some switchEntry else none
  files := fun _ => some (switchFile false)
  mounted := true
  reachable := true

/-- The device after a boot. -/
noncomputable def switchBooted : SmDevice :=
  smCall switchCodec compareEmpty switchedOff (.start fun _ => .good)

theorem switchedOff_load : smStorageLoad switchCodec SmBootEnv.good.load true
    (some (switchFile false)) = .ok (1, switchSettings false) :=
  switchFile_decode false

theorem switchBooted_entry : switchBooted.entries "demo".toList = some { switchEntry with
    current := some (switchSettings false), applied := some (switchSettings false),
    persistedClean := true } := by
  have hboot : smBoot switchCodec .good true switchEntry (some (switchFile false)) =
      ({ switchEntry with
        current := some (switchSettings false), applied := some (switchSettings false),
        persistedClean := true }, some (switchFile false)) := by
    rw [smBoot, bootLoad, switchedOff_load]
    rfl
  change some (smBoot switchCodec .good true switchEntry (some (switchFile false))).1 = _
  rw [hboot]

/-- A boot, and a set that turns the switch on. -/
theorem settings_durable_switch : ∃ dev', settingsManagerSet switchCodec compareEmpty .good
      switchBooted "demo".toList (switchSettings true) = (.ok true, dev') ∧
    ∃ e data, dev'.entries "demo".toList = some e ∧ dev'.current "demo".toList = some data ∧
      Stored switchCodec (dev'.files "demo".toList) e.desc.version data := by
  have hentry : ∀ name e, switchedOff.entries name = some e → e = switchEntry := by
    intro name e he
    rw [switchedOff] at he
    dsimp only at he
    split at he
    · exact (some.inj he).symm
    · cases he
  have hboot : ∀ name e, switchedOff.entries name = some e → e.persistedClean = false := by
    intro name e he
    rw [hentry name e he]
    rfl
  have hstart : (SmOp.start fun _ => .good).Sound switchCodec compareEmpty switchedOff := by
    intro name e he
    obtain rfl := hentry name e he
    refine ⟨rfl, rfl, fun ver data hload => ?_⟩
    obtain ⟨rfl, -⟩ := Prod.mk.inj (ok.inj (switchedOff_load.symm.trans hload))
    decide
  obtain ⟨dev', hset⟩ : ∃ dev', settingsManagerSet switchCodec compareEmpty .good switchBooted
      "demo".toList (switchSettings true) = (.ok true, dev') := by
    rw [settingsManagerSet, switchBooted_entry]
    exact ⟨_, rfl⟩
  exact ⟨dev', hset,
    (settings_durable hboot (.cons ⟨rfl, hstart⟩ (.nil _)) ⟨rfl, .inl rfl⟩).1 _ dev' hset⟩

/-! ## After a factory reset -/

/-- The device after a boot and a factory reset. -/
noncomputable def wipedDevice : SmDevice :=
  (settingsManagerFactoryReset .erased
    (settingsManagerStart emptyCodec (fun _ => .good) emptyDevice)).2

/-- After a factory reset the object that is in memory is set again: the set
succeeds, and there is no file. -/
theorem settings_lost :
    Run (fun dev op dev' => dev' = smCall emptyCodec compareEmpty dev op) emptyDevice
      [.start fun _ => .good, .factoryReset .erased] wipedDevice ∧
    (∃ dev', settingsManagerSet emptyCodec compareEmpty .good wipedDevice "demo".toList
      (.obj []) = (.ok false, dev') ∧ dev'.files "demo".toList = none) ∧
    ¬∀ changed dev', settingsManagerSet emptyCodec compareEmpty .good wipedDevice "demo".toList
        (.obj []) = (.ok changed, dev') →
      ∃ e data, dev'.entries "demo".toList = some e ∧ dev'.current "demo".toList = some data ∧
        Stored emptyCodec (dev'.files "demo".toList) e.desc.version data := by
  have hset : settingsManagerSet emptyCodec compareEmpty .good wipedDevice "demo".toList
      (.obj []) = (.ok false, wipedDevice) := by
    have hentry : wipedDevice.entries "demo".toList = some { emptyEntry with
        current := some (.obj []), applied := some (.obj []), persistedClean := true } :=
      (emptyDevice_start "demo".toList).trans (if_pos rfl)
    rw [settingsManagerSet, hentry]
    rfl
  refine ⟨.cons rfl (.cons rfl (.nil _)), ⟨wipedDevice, hset, rfl⟩, ?_⟩
  intro h
  obtain ⟨e, data, -, -, text, htext, -⟩ := h false wipedDevice hset
  cases htext

end Meatpi
