import Meatpi.ConfigBackup.Settings

/-!
# The staged restore (`config_backup_restore.c`)

A document is staged, and every part of it goes through a dry run; later the parts
that are ticked are applied, one after the other. For the parts that are files the
dry run decides: with memory and working storage they are applied as they were
checked. The settings are merged with what is stored by then, and a folder can
lose a file to the temporary name of another (`restore_all_or_nothing`).
-/

namespace Meatpi

open List Option

variable {comps : List CbComp} {text : List UInt8}

/-! ## Parts -/

/-- The settings and the files. -/
structure CbDevice where
  settings : SmDevice
  files : CbFiles

/-- How the walk over the parts goes. -/
structure CbEnv where
  /-- memory for the parsed part -/
  parses : CbPart → Bool
  fs : CbFsEnv
  comp : ℕ → CbCompEnv

/-- Every storage write succeeds. -/
structure CbEnv.Storage (env : CbEnv) : Prop where
  files : env.fs.Storage
  settings : ∀ i, (env.comp i).set.save.Done

/-- A part and its text. -/
abbrev CbPartText := CbPart × List UInt8

/-- A walk over the files of a device. -/
def CbDevice.withFiles (dev : CbDevice) (r : Except SmErr Unit × CbFiles) :
    Except SmErr Unit × CbDevice := (r.1, { dev with files := r.2 })

section

variable (plat : CbPlatform) (env : CbEnv) (opts : CbOpts) (dry : Bool)

/-- `walk`, for `cb_check_part` and `cb_apply_part` -/
def partWalk (dev : CbDevice) (part : CbPartText) : Except SmErr Unit × CbDevice :=
  match part.1 with
  | .settings =>
    ((settingsWalk plat env.comp opts (env.parses .settings) dry dev.settings part.2).1,
      { dev with
        settings :=
          (settingsWalk plat env.comp opts (env.parses .settings) dry dev.settings part.2).2 })
  | .vehicles => dev.withFiles (vehiclesWalk plat env.fs dry dev.files part.2)
  | .databases =>
    dev.withFiles (databasesWalk plat env.fs dry (env.parses .databases) dev.files part.2)
  | .scripts => dev.withFiles (scriptsWalk plat env.fs dry (env.parses .scripts) dev.files part.2)
  | .dashboard => dev.withFiles (dashboardWalk env.fs dry dev.files part.2)
  | .certs => dev.withFiles (certsWalk plat env.fs dry (env.parses .certs) dev.files part.2)

/-- The components of a settings part. -/
def settingsComps (text : List UInt8) : Option (List CbComp) :=
  match plat.cj.parse text with
  | some (.obj comps) => some comps.zipIdx
  | _ => none

/-- The part can be restored, as far as its text says. -/
def PartOk (part : CbPartText) : Prop :=
  match part.1 with
  | .settings => (settingsComps plat part.2).isSome = true
  | .vehicles => VehiclesOk part.2
  | .databases => DatabasesOk plat part.2
  | .scripts => ScriptsOk plat part.2
  | .dashboard => DashboardOk part.2
  | .certs => CertsOk plat part.2

/-- There is memory for the part. -/
def PartMem (part : CbPartText) : Prop :=
  match part.1 with
  | .settings => env.parses .settings = true
  | .vehicles => True
  | .databases => DatabasesMem plat env.fs dry (env.parses .databases) part.2
  | .scripts => ScriptsMem plat env.fs dry (env.parses .scripts) part.2
  | .dashboard => True
  | .certs => CertsMem env.fs dry (env.parses .certs)

/-- What the part asks of the files. -/
def partTasks (part : CbPartText) : List CbTask :=
  match part.1 with
  | .settings => []
  | .vehicles => vehiclesTasks part.2
  | .databases => databasesTasks plat part.2
  | .scripts => scriptsTasks plat part.2
  | .dashboard => dashboardTasks part.2
  | .certs => certsTasks plat part.2

/-! ## Staging -/

/-- `stage_t` -/
structure CbStage where
  used : Bool
  stagedAt : ℤ
  /-- `"file"`, or the place of a copy -/
  source : List Char
  version : ℕ
  redacted : Bool
  locked : Bool
  newer : Bool
  refused : Bool
  doc : Option (List UInt8)
  deviceId : List Char
  parts : CbPart → Option (List UInt8)
  errors : List (CbPart × SmErr)

/-- `clear_slot` -/
def CbStage.clear : CbStage :=
  ⟨false, 0, [], 0, false, false, false, false, none, [], fun _ => none, []⟩

/-- `CB_DOC_VERSION` and `CB_STAGE_LIFE_S` -/
def cbDocVersion : ℕ := 2
def cbStageLife : ℤ := 600

/-- `parts_cb`: a part that comes twice is the later one. A file has no
certificates. -/
def partsCb (source : List Char) (parts : CbPart → Option (List UInt8)) (m : CbMember) :
    CbPart → Option (List UInt8) :=
  match cbPartFromName m.key with
  | none => parts
  | some part =>
    if part = .certs ∧ source = "file".toList then parts
    else Function.update parts part (some m.val)

/-- `index_doc` -/
def cbIndexDoc (stage : CbStage) (doc : List UInt8) : Option (CbPart → Option (List UInt8)) :=
  if stage.version = 1 then
    (cbJsonFind doc (asciiBytes "components")).map fun text =>
      Function.update (fun _ => none) .settings (some text)
  else
    match cbJsonFind doc (asciiBytes "parts") with
    | none => none
    | some text =>
      if (cbMembers text).2 then
        some ((cbMembers text).1.foldl (partsCb stage.source) fun _ => none)
      else
        none

/-- What the dry run says of the parts that are there. -/
def dryResults (dev : CbDevice) (stage : CbStage) : List (CbPart × Except SmErr Unit) :=
  CbPart.all.filterMap fun part =>
    (stage.parts part).map fun text =>
      (part, (partWalk plat env ⟨false, false, stage.redacted⟩ true dev (part, text)).1)

/-- The errors of the dry run. -/
def dryErrors (results : List (CbPart × Except SmErr Unit)) : List (CbPart × SmErr) :=
  results.filterMap fun r =>
    match r.2 with
    | .error err => some (r.1, err)
    | .ok () => none

/-- `dry_run` -/
def cbDryRun (dev : CbDevice) (stage : CbStage) : CbStage :=
  let errors := dryErrors (dryResults plat env dev stage)
  let newer := stage.newer || errors.any fun e => e.2 == .invalidVersion
  { stage with errors := errors, newer := newer, refused := newer || !errors.isEmpty }

/-- `finish_file`, with the plain document -/
def cbFinishFile (dev : CbDevice) (stage : CbStage) (doc : List UInt8) : CbStage :=
  if cbDocVersion < stage.version then
    { stage with newer := true, refused := true, doc := none }
  else
    match cbIndexDoc stage doc with
    | none => { stage with locked := false, doc := some doc, refused := true }
    | some parts =>
      cbDryRun plat env dev { stage with locked := false, doc := some doc, parts := parts }

/-- `cb_restore_staged`: the slot is used and has not expired. -/
def cbRestoreStaged (now : ℤ) (stage : CbStage) : Bool :=
  stage.used && !(0 < now && 0 < stage.stagedAt && cbStageLife < now - stage.stagedAt)

/-! ## Applying -/

/-- The parts that are there and ticked, in order. -/
def tickedParts (mask : CbPart → Bool) (stage : CbStage) : List CbPartText :=
  CbPart.all.filterMap fun part =>
    if mask part then (stage.parts part).map fun text => (part, text) else none

/-- The options of an apply: names are kept for the backup of another device only. -/
def applyOpts (stage : CbStage) (deviceId : List Char) (keepIdentity keepVpn : Bool) : CbOpts :=
  ⟨keepIdentity && stage.deviceId != deviceId, keepVpn, stage.redacted⟩

/-- `cb_restore_apply`: the parts that were restored, or an error. The slot is
emptied by a restore that succeeds, and when it has expired. -/
def cbRestoreApply (deviceId : List Char) (now : ℤ) (mask : CbPart → Bool)
    (keepIdentity keepVpn : Bool) (stage : CbStage) (dev : CbDevice) :
    Except SmErr (List CbPart) × CbDevice × CbStage :=
  if ¬cbRestoreStaged now stage then
    (.error .invalidState, dev, if stage.used then .clear else stage)
  else if stage.locked ∨ stage.refused ∨ stage.doc = none then
    (.error .invalidState, dev, stage)
  else
    match walk (partWalk plat env (applyOpts stage deviceId keepIdentity keepVpn) false) dev
        (tickedParts mask stage) with
    | (.error err, dev') => (.error err, dev', stage)
    | (.ok (), dev') =>
      if (tickedParts mask stage).isEmpty then (.error .notFound, dev', stage)
      else (.ok ((tickedParts mask stage).map Prod.fst), dev', .clear)

end

section

variable {plat : CbPlatform} {env env₀ : CbEnv} {opts : CbOpts} {dry : Bool}

/-! ## One part -/

theorem partWalk_ok_iff (hs : dry = false → env.fs.Storage) {part : CbPartText}
    (hpart : part.1 ≠ .settings) (dev : CbDevice) :
    (partWalk plat env opts dry dev part).1 = .ok () ↔
      PartOk plat part ∧ PartMem plat env dry part := by
  obtain ⟨part, text⟩ := part
  cases part with
  | settings => exact absurd rfl hpart
  | vehicles => exact (vehiclesWalk_ok_iff hs dev.files text).trans (iff_of_eq (and_true _)).symm
  | databases => exact databasesWalk_ok_iff hs (env.parses .databases) dev.files text
  | scripts => exact scriptsWalk_ok_iff hs (env.parses .scripts) dev.files text
  | dashboard => exact (dashboardWalk_ok_iff hs dev.files text).trans (iff_of_eq (and_true _)).symm
  | certs => exact certsWalk_ok_iff hs (env.parses .certs) dev.files text

theorem partWalk_settings {part : CbPartText} (hpart : part.1 ≠ .settings) (dev : CbDevice) :
    (partWalk plat env opts dry dev part).2.settings = dev.settings := by
  obtain ⟨part, text⟩ := part
  cases part with
  | settings => exact absurd rfl hpart
  | _ => rfl

/-- **What a part does to the files.** -/
theorem partWalk_does {dev : CbDevice} {part : CbPartText}
    (hok : (partWalk plat env opts false dev part).1 = .ok ()) :
    FileTask.DoesAll fsPathTempName dev.files (partTasks plat part)
      (partWalk plat env opts false dev part).2.files := by
  obtain ⟨part, text⟩ := part
  cases part with
  | settings => exact .nil dev.files
  | vehicles => exact vehiclesWalk_does hok
  | databases => exact databasesWalk_does hok
  | scripts => exact scriptsWalk_does hok
  | dashboard => exact dashboardWalk_does hok
  | certs => exact certsWalk_does hok

/-! ## The settings part -/

theorem settingsWalk_comps {mem : Bool} {cenv : ℕ → CbCompEnv} {sdev : SmDevice} :
    settingsWalk plat cenv opts mem dry sdev text =
      match if mem then settingsComps plat text else none with
      | some comps => walk (settingsStep plat cenv opts dry) sdev comps
      | none => (.error .invalidArg, sdev) := by
  rw [settingsWalk, cbParse, settingsComps]
  cases mem with
  | false => rfl
  | true =>
    rcases plat.cj.parse text with _ | (_ | _ | _ | _ | _ | comps)
    all_goals rfl

theorem partWalk_settings_iff (hs : env.Storage) {dev : CbDevice}
    (hreach : dev.settings.reachable = true) (hcomps : settingsComps plat text = some comps) :
    (partWalk plat env opts false dev (.settings, text)).1 = .ok () ↔
      env.parses .settings = true ∧ SettingsFit plat env.comp opts dev.settings comps := by
  rw [partWalk]
  simp only [settingsWalk_comps, hcomps]
  cases env.parses .settings with
  | false => simp
  | true =>
    simp only [if_true, true_and]
    exact settingsSteps_iff hs.settings hreach

theorem partWalk_settles (hs : env.Storage) {dev : CbDevice}
    (hreach : dev.settings.reachable = true) (hcomps : settingsComps plat text = some comps)
    (hok : (partWalk plat env opts false dev (.settings, text)).1 = .ok ()) :
    Settles plat env.comp opts dev.settings comps
      (partWalk plat env opts false dev (.settings, text)).2.settings := by
  obtain ⟨hparses, hfit⟩ := (partWalk_settings_iff hs hreach hcomps).mp hok
  simp only [partWalk, settingsWalk_comps, hcomps, hparses, if_true]
  exact settles_walk hs.settings hreach ((settingsSteps_iff hs.settings hreach).mpr hfit)

/-! ## All parts -/

/-- The settings, if they are there, come first and once. -/
def SettingsFirst (ts : List CbPartText) : Prop :=
  ∃ rest, (∀ part ∈ rest, part.1 ≠ .settings) ∧
    (ts = rest ∨ ∃ text, ts = (.settings, text) :: rest)

theorem tickedParts_first (mask : CbPart → Bool) (stage : CbStage) :
    SettingsFirst (tickedParts mask stage) := by
  let pick : CbPart → Option CbPartText := fun part =>
    if mask part then (stage.parts part).map fun text => (part, text) else none
  have hpick : ∀ part t, pick part = some t → t.1 = part := by
    intro part t h
    simp only [pick] at h
    split_ifs at h
    obtain ⟨text, -, rfl⟩ := map_eq_some_iff.mp h
    rfl
  refine ⟨[CbPart.vehicles, .databases, .scripts, .dashboard, .certs].filterMap pick, ?_, ?_⟩
  · intro part hpart
    obtain ⟨name, hname, hsome⟩ := mem_filterMap.mp hpart
    rw [hpick name part hsome]
    rintro rfl
    exact absurd hname (by decide)
  · have hall : tickedParts mask stage = CbPart.all.filterMap pick := rfl
    rw [hall, CbPart.all]
    cases hfirst : pick .settings with
    | none => exact .inl (filterMap_cons_none hfirst)
    | some t =>
      right
      refine ⟨t.2, ?_⟩
      rw [filterMap_cons_some hfirst, ← hpick .settings t hfirst]

/-- **Nothing stands in the way**: there is memory, the settings fit what is stored, and no
file is lost to the temporary name of a later one. -/
structure Restorable (plat : CbPlatform) (env : CbEnv) (opts : CbOpts) (dev : CbDevice)
    (ts : List CbPartText) : Prop where
  mem : ∀ part ∈ ts, PartMem plat env false part
  fits : ∀ text comps, (.settings, text) ∈ ts → settingsComps plat text = some comps →
    SettingsFit plat env.comp opts dev.settings comps
  unspoilt : FileTask.Unspoilt fsPathTempName (ts.flatMap (partTasks plat))

/-- The parts are applied completely: every component is stored, and every file that
no later task is about is there. -/
structure Applied (plat : CbPlatform) (env : CbEnv) (opts : CbOpts) (dev : CbDevice)
    (ts : List CbPartText) (dev' : CbDevice) : Prop where
  settings : ∀ text comps, (.settings, text) ∈ ts → settingsComps plat text = some comps →
    Settles plat env.comp opts dev.settings comps dev'.settings
  files : FileTask.InPlace (ts.flatMap (partTasks plat)) dev'.files

theorem filesParts_passes (hs : env.Storage) {rest : List CbPartText}
    (hrest : ∀ part ∈ rest, part.1 ≠ .settings) (hok : ∀ part ∈ rest, PartOk plat part)
    {dev : CbDevice} : Passes (partWalk plat env opts false) dev rest ↔
      ∀ part ∈ rest, PartMem plat env false part := by
  apply passes_iff_forall
  intro dev part hpart
  rw [partWalk_ok_iff (fun _ => hs.files) (hrest part hpart)]
  exact and_iff_right (hok part hpart)

theorem parts_pass_iff (hs : env.Storage) {dev : CbDevice} (hreach : dev.settings.reachable = true)
    {ts : List CbPartText} (hfirst : SettingsFirst ts) (hok : ∀ part ∈ ts, PartOk plat part) :
    Passes (partWalk plat env opts false) dev ts ↔
      (∀ part ∈ ts, PartMem plat env false part) ∧
        ∀ text comps, (.settings, text) ∈ ts → settingsComps plat text = some comps →
          SettingsFit plat env.comp opts dev.settings comps := by
  obtain ⟨rest, hrest, rfl | ⟨text, rfl⟩⟩ := hfirst
  · rw [filesParts_passes hs hrest hok]
    constructor
    · intro hmem
      exact ⟨hmem, fun text comps htext _ => absurd rfl (hrest _ htext)⟩
    · exact fun h => h.1
  · obtain ⟨comps, hcomps⟩ := isSome_iff_exists.mp (hok _ mem_cons_self)
    have hok' : ∀ part ∈ rest, PartOk plat part :=
      fun part hpart => hok part (mem_cons_of_mem _ hpart)
    rw [Passes, partWalk_settings_iff hs hreach hcomps, filesParts_passes hs hrest hok',
      forall_mem_cons]
    constructor
    · rintro ⟨⟨hparses, hfit⟩, hmem⟩
      refine ⟨⟨hparses, hmem⟩, ?_⟩
      intro text' comps' htext hcomps'
      rcases mem_cons.mp htext with heq | hin
      · cases heq
        cases hcomps.symm.trans hcomps'
        exact hfit
      · exact absurd rfl (hrest _ hin)
    · rintro ⟨⟨hparses, hmem⟩, hfit⟩
      exact ⟨⟨hparses, hfit text comps mem_cons_self hcomps⟩, hmem⟩

theorem parts_settle (hs : env.Storage) {dev : CbDevice} (hreach : dev.settings.reachable = true)
    {ts : List CbPartText} (hfirst : SettingsFirst ts)
    (hwalk : (walk (partWalk plat env opts false) dev ts).1 = .ok ()) :
    ∀ text comps, (.settings, text) ∈ ts → settingsComps plat text = some comps →
      Settles plat env.comp opts dev.settings comps
        (walk (partWalk plat env opts false) dev ts).2.settings := by
  obtain ⟨rest, hrest, rfl | ⟨text, rfl⟩⟩ := hfirst
  · exact fun text comps htext _ => absurd rfl (hrest _ htext)
  · intro text' comps htext hcomps
    rcases mem_cons.mp htext with heq | hin
    · cases heq
      have hone := (walk_ok_iff.mp hwalk).1
      rw [walk_cons_ok rest hone, walk_frame CbDevice.settings fun dev part hpart =>
        partWalk_settings (hrest part hpart) dev]
      exact partWalk_settles hs hreach hcomps hone
    · exact absurd rfl (hrest _ hin)

/-- **The parts are applied completely** exactly when nothing stands in the way. -/
theorem parts_applied_iff (hs : env.Storage) {dev : CbDevice}
    (hreach : dev.settings.reachable = true) {ts : List CbPartText} (hfirst : SettingsFirst ts)
    (hok : ∀ part ∈ ts, PartOk plat part) :
    ((walk (partWalk plat env opts false) dev ts).1 = .ok () ∧
        Applied plat env opts dev ts (walk (partWalk plat env opts false) dev ts).2) ↔
      Restorable plat env opts dev ts := by
  have hpass := @parts_pass_iff plat env opts hs dev hreach ts hfirst hok
  have hdoes : (walk (partWalk plat env opts false) dev ts).1 = .ok () →
      FileTask.DoesAll fsPathTempName dev.files (ts.flatMap (partTasks plat))
        (walk (partWalk plat env opts false) dev ts).2.files :=
    .walk CbDevice.files fun dev part h => partWalk_does h
  constructor
  · rintro ⟨hwalk, happlied⟩
    obtain ⟨hmem, hfit⟩ := hpass.mp (walk_ok_iff.mp hwalk)
    exact ⟨hmem, hfit, (hdoes hwalk).inPlace_iff.mp happlied.files⟩
  · rintro ⟨hmem, hfit, hunspoilt⟩
    have hwalk := walk_ok_iff.mpr (hpass.mpr ⟨hmem, hfit⟩)
    exact ⟨hwalk, parts_settle hs hreach hfirst hwalk, (hdoes hwalk).inPlace_iff.mpr hunspoilt⟩

/-! ## The dry run and the apply -/

theorem partOk_of_dry {dev : CbDevice} {part : CbPartText}
    (hok : (partWalk plat env opts true dev part).1 = .ok ()) : PartOk plat part := by
  by_cases hpart : part.1 = .settings
  · obtain ⟨_, text⟩ := part
    cases hpart
    simp only [partWalk, settingsWalk_comps] at hok
    cases hparses : env.parses .settings with
    | false => simp [hparses] at hok
    | true =>
      cases hcomps : settingsComps plat text with
      | none => simp [hparses, hcomps] at hok
      | some comps =>
        rw [PartOk, hcomps]
        rfl
  · have hdry : true = false → env.fs.Storage := fun h => absurd h.symm Bool.false_ne_true
    exact ((partWalk_ok_iff hdry hpart dev).mp hok).1

theorem mem_all (part : CbPart) : part ∈ CbPart.all := by cases part <;> decide

/-- **A dry run does not refuse** when it takes every part. -/
theorem cbDryRun_iff {dev : CbDevice} {stage : CbStage} :
    (cbDryRun plat env dev stage).refused = false ↔ stage.newer = false ∧
      ∀ part text, stage.parts part = some text →
        (partWalk plat env ⟨false, false, stage.redacted⟩ true dev (part, text)).1 = .ok () := by
  have hnone : dryErrors (dryResults plat env dev stage) = [] ↔
      ∀ part text, stage.parts part = some text →
        (partWalk plat env ⟨false, false, stage.redacted⟩ true dev (part, text)).1 = .ok () := by
    rw [dryErrors, filterMap_eq_nil_iff]
    constructor
    · intro h part text htext
      cases hr : (partWalk plat env ⟨false, false, stage.redacted⟩ true dev (part, text)).1 with
      | ok u => rfl
      | error err =>
        have hmem : (part, Except.error err) ∈ dryResults plat env dev stage := by
          apply mem_filterMap.mpr
          exact ⟨part, mem_all part, by rw [htext, map_some, hr]⟩
        cases h _ hmem
    · intro h r hr
      obtain ⟨part, -, hsome⟩ := mem_filterMap.mp hr
      obtain ⟨text, htext, rfl⟩ := map_eq_some_iff.mp hsome
      rw [h part text htext]
  rw [← hnone]
  simp only [cbDryRun, Bool.or_eq_false_iff, Bool.not_eq_false', List.isEmpty_iff]
  constructor
  · exact fun h => ⟨h.1.1, h.2⟩
  · rintro ⟨hnewer, hnil⟩
    exact ⟨⟨hnewer, by rw [hnil]; rfl⟩, hnil⟩

theorem cbFinishFile_staged {dev : CbDevice} {stage : CbStage} {doc : List UInt8}
    (h : (cbFinishFile plat env dev stage doc).refused = false) :
    (cbFinishFile plat env dev stage doc).locked = false ∧
      (cbFinishFile plat env dev stage doc).doc = some doc ∧
        ∀ part text, (cbFinishFile plat env dev stage doc).parts part = some text →
          PartOk plat (part, text) := by
  rw [cbFinishFile] at h ⊢
  split_ifs at h ⊢ with hver
  cases hindex : cbIndexDoc stage doc with
  | none =>
    rw [hindex] at h
    cases h
  | some parts =>
    rw [hindex] at h
    exact ⟨rfl, rfl, fun part text htext => partOk_of_dry ((cbDryRun_iff.mp h).2 part text htext)⟩

theorem tickedParts_mem {mask : CbPart → Bool} {stage : CbStage} {part : CbPartText}
    (h : part ∈ tickedParts mask stage) : stage.parts part.1 = some part.2 := by
  obtain ⟨name, -, hsome⟩ := mem_filterMap.mp h
  split_ifs at hsome
  obtain ⟨text, htext, rfl⟩ := map_eq_some_iff.mp hsome
  exact htext

/-- All or nothing: there was nothing to do, and nothing was done; or it was done
completely, and is reported so. -/
def AllOrNothing (plat : CbPlatform) (env : CbEnv) (opts : CbOpts) (ts : List CbPartText)
    (dev : CbDevice) (r : Except SmErr (List CbPart)) (dev' : CbDevice) : Prop :=
  (ts = [] ∧ dev' = dev) ∨ (r = .ok (ts.map Prod.fst) ∧ Applied plat env opts dev ts dev')

/-- **A restore that passed its dry run is all or nothing** exactly when nothing
stands in the way of the parts that are ticked. -/
theorem restore_all_or_nothing (plat : CbPlatform) (env₀ env : CbEnv) (dev₀ dev : CbDevice)
    (stage : CbStage) (doc : List UInt8) (deviceId : List Char) (now : ℤ) (mask : CbPart → Bool)
    (keepIdentity keepVpn : Bool) (hdry : (cbFinishFile plat env₀ dev₀ stage doc).refused = false)
    (hstaged : cbRestoreStaged now (cbFinishFile plat env₀ dev₀ stage doc) = true)
    (hs : env.Storage) (hreach : dev.settings.reachable = true) :
    AllOrNothing plat env
        (applyOpts (cbFinishFile plat env₀ dev₀ stage doc) deviceId keepIdentity keepVpn)
        (tickedParts mask (cbFinishFile plat env₀ dev₀ stage doc)) dev
        (cbRestoreApply plat env deviceId now mask keepIdentity keepVpn
          (cbFinishFile plat env₀ dev₀ stage doc) dev).1
        (cbRestoreApply plat env deviceId now mask keepIdentity keepVpn
          (cbFinishFile plat env₀ dev₀ stage doc) dev).2.1 ↔
      Restorable plat env
        (applyOpts (cbFinishFile plat env₀ dev₀ stage doc) deviceId keepIdentity keepVpn) dev
        (tickedParts mask (cbFinishFile plat env₀ dev₀ stage doc)) := by
  obtain ⟨hlocked, hdoc, hparts⟩ := cbFinishFile_staged hdry
  generalize cbFinishFile plat env₀ dev₀ stage doc = slot at *
  have hfirst := tickedParts_first mask slot
  have hok : ∀ part ∈ tickedParts mask slot, PartOk plat part :=
    fun part hpart => hparts part.1 part.2 (tickedParts_mem hpart)
  generalize hopts : applyOpts slot deviceId keepIdentity keepVpn = opts
  have happly : cbRestoreApply plat env deviceId now mask keepIdentity keepVpn slot dev =
      match walk (partWalk plat env opts false) dev (tickedParts mask slot) with
      | (.error err, dev') => (.error err, dev', slot)
      | (.ok (), dev') =>
        if (tickedParts mask slot).isEmpty then (.error .notFound, dev', slot)
        else (.ok ((tickedParts mask slot).map Prod.fst), dev', .clear) := by
    rw [cbRestoreApply, hopts]
    simp [hstaged, hlocked, hdry, hdoc]
  rw [happly]
  have hiff := @parts_applied_iff plat env opts hs dev hreach _ hfirst hok
  generalize tickedParts mask slot = ts at *
  cases ts with
  | nil =>
    constructor
    · exact fun _ => hiff.mp ⟨rfl, fun _ _ h _ => (not_mem_nil h).elim, fun _ _ h => h.elim⟩
    · exact fun _ => .inl ⟨rfl, rfl⟩
  | cons part ts =>
    rw [← hiff]
    rcases hwalk : walk (partWalk plat env opts false) dev (part :: ts) with ⟨r, dev'⟩
    cases r with
    | error err =>
      constructor
      · rintro (⟨hnil, _⟩ | ⟨herr, _⟩)
        · cases hnil
        · cases herr
      · rintro ⟨herr, _⟩
        cases herr
    | ok u =>
      constructor
      · rintro (⟨hnil, _⟩ | ⟨_, happlied⟩)
        · cases hnil
        · exact ⟨rfl, happlied⟩
      · exact fun h => .inr ⟨rfl, h.2⟩

end

/-! ## A password that is set in between -/

/-- `wm_on_validate`: a password needs the name of its network. -/
def wifiValidate (settings : Json) : Bool :=
  match settings.getItem "sta_ssid".toList, settings.getItem "sta_password".toList with
  | some (.str ssid), some (.str pass) => !(ssid.isEmpty && !pass.isEmpty)
  | _, some (.str pass) => pass.isEmpty
  | _, _ => true

/-- The Wi-Fi settings. -/
def wifiSettings (ssid pass : String) : Json :=
  .obj [("sta_ssid".toList, .str ssid.toList), ("sta_password".toList, .str pass.toList)]

/-- The settings of the backup component. -/
def copySettings (auto : Bool) : Json := .obj [("auto_copy".toList, .bool auto)]

/-- A component at a version, as a document has it. -/
def docComp (version : ℚ) (data : Json) : Json :=
  .obj [("version".toList, .num version), ("data".toList, data)]

/-- A backup without secrets of a device that has no network. -/
def redactedComps : Json :=
  .obj [("config_backup".toList, docComp 1 (copySettings false)),
    ("wifi_manager".toList, docComp 7 (wifiSettings "" ""))]

/-- Its text. -/
def redactedText : List UInt8 := asciiBytes
  "\x7b\"config_backup\":\x7b\"version\":1,\"data\":\x7b\"auto_copy\":false\x7d\x7d,\"wifi_manager\":\x7b\"version\":7,\"data\":\x7b\"sta_ssid\":\"\",\"sta_password\":\"\"\x7d\x7d\x7d"

/-- The document. -/
def redactedDoc : List UInt8 :=
  asciiBytes "\x7b\"wican_backup\":1,\"redacted\":true,\"components\":" ++ redactedText ++
    asciiBytes "\x7d"

theorem redactedPins : JsonCodec.Pins [(redactedComps, redactedText)] where
  apart := by
    intro p hp q hq _
    rw [mem_singleton.mp hp, mem_singleton.mp hq]
  text := by
    intro p hp
    rw [mem_singleton.mp hp]
    decide +kernel

/-- A platform that reads that text. -/
noncomputable def redactedPlat : CbPlatform where
  cj := JsonCodec.pinned [(redactedComps, redactedText)] redactedPins
  compare := fun _ _ => false
  b64Decode := fun _ => none
  list := fun _ _ => []

/-- Everything in a restore succeeds. -/
def CbCompEnv.good : CbCompEnv := ⟨⟨true, fun _ => true, fun _ => true⟩, .good, true⟩

/-- Everything in a walk succeeds. -/
def CbEnv.good : CbEnv where
  parses := fun _ => true
  fs := ⟨fun _ => .done, fun _ => true, fun _ => true, fun _ _ => true⟩
  comp := fun _ => .good

theorem CbEnv.good_storage : CbEnv.good.Storage :=
  ⟨⟨fun _ => rfl, fun _ => rfl⟩, fun _ => ⟨rfl, rfl, rfl, rfl, rfl, rfl, rfl, rfl⟩⟩

/-- A device with two components, and these Wi-Fi settings. -/
def wifiDevice (wifi : Json) : CbDevice where
  settings :=
    { entries := fun name =>
        if name = "config_backup".toList then
          some ⟨⟨1, none, [], fun _ => true, none⟩, some (copySettings true), none, true, false,
            false⟩
        else if name = "wifi_manager".toList then
          some ⟨⟨7, none, [], wifiValidate, none⟩, some wifi, none, true, false, false⟩
        else
          none
      files := fun _ => none
      mounted := true
      reachable := true }
  files := fun _ => none

/-- The slot before the document is looked at. -/
def redactedStage : CbStage :=
  ⟨true, 1000, "file".toList, 1, true, false, false, false, none, "wican".toList, fun _ => none, []⟩

theorem redactedComps_eq : settingsComps redactedPlat redactedText =
    some [(("config_backup".toList, docComp 1 (copySettings false)), 0),
      (("wifi_manager".toList, docComp 7 (wifiSettings "" "")), 1)] := by
  have hprint : redactedPlat.cj.print redactedComps = redactedText := by
    simp [redactedPlat, JsonCodec.pinned, JsonCodec.pinnedText]
  have hparse : redactedPlat.cj.parse redactedText = some redactedComps := by
    rw [← hprint]
    exact redactedPlat.cj.parse_print redactedComps
  rw [settingsComps, hparse]
  rfl

theorem redactedDoc_index : cbIndexDoc redactedStage redactedDoc =
    some (Function.update (fun _ => none) .settings (some redactedText)) := by
  have hfind : cbJsonFind redactedDoc (asciiBytes "components") = some redactedText := by
    decide +kernel
  rw [cbIndexDoc, hfind]
  rfl

theorem redacted_slot (dev : CbDevice) : cbFinishFile redactedPlat .good dev redactedStage
    redactedDoc = cbDryRun redactedPlat .good dev { redactedStage with
      locked := false, doc := some redactedDoc,
      parts := Function.update (fun _ => none) .settings (some redactedText) } := by
  have hver : ¬cbDocVersion < redactedStage.version := by decide
  rw [cbFinishFile, if_neg hver, redactedDoc_index]

theorem redacted_part {part : CbPart}
    (h : Function.update (fun _ => none) CbPart.settings (some redactedText) part = some text) :
    part = .settings ∧ text = redactedText := by
  by_cases hpart : part = .settings
  · subst hpart
    exact ⟨rfl, (some.inj h).symm⟩
  · rw [Function.update_of_ne hpart] at h
    cases h

theorem redacted_dry : (cbFinishFile redactedPlat .good (wifiDevice (wifiSettings "" ""))
    redactedStage redactedDoc).refused = false := by
  rw [redacted_slot]
  refine cbDryRun_iff.mpr ⟨rfl, ?_⟩
  intro part text htext
  obtain ⟨hpart, heq⟩ := redacted_part htext
  rw [hpart, heq]
  simp only [partWalk, settingsWalk_comps, redactedComps_eq, CbEnv.good, if_true]
  rw [walk_ok_iff, passes_quiet fun comp _ => by rw [settingsStep_dry]]
  intro comp hcomp
  rcases mem_cons.mp hcomp with rfl | hcomp
  · rfl
  · rw [mem_singleton.mp hcomp]
    rfl

theorem redacted_staged (dev : CbDevice) : cbRestoreStaged 1060
    (cbFinishFile redactedPlat .good dev redactedStage redactedDoc) = true := by
  rw [redacted_slot]
  rfl

theorem redacted_ticked (dev : CbDevice) : tickedParts (fun _ => true)
    (cbFinishFile redactedPlat .good dev redactedStage redactedDoc) =
      [(.settings, redactedText)] := by
  rw [redacted_slot]
  rfl

theorem redacted_opts (dev : CbDevice) : applyOpts
    (cbFinishFile redactedPlat .good dev redactedStage redactedDoc) "wican".toList false false =
      ⟨false, false, true⟩ := by
  rw [redacted_slot]
  rfl

/-- The document, applied to the device it was staged on. -/
theorem restore_all_or_nothing_redacted :
    AllOrNothing redactedPlat .good ⟨false, false, true⟩ [(.settings, redactedText)]
      (wifiDevice (wifiSettings "" ""))
      (cbRestoreApply redactedPlat .good "wican".toList 1060 (fun _ => true) false false
        (cbFinishFile redactedPlat .good (wifiDevice (wifiSettings "" "")) redactedStage redactedDoc)
        (wifiDevice (wifiSettings "" ""))).1
      (cbRestoreApply redactedPlat .good "wican".toList 1060 (fun _ => true) false false
        (cbFinishFile redactedPlat .good (wifiDevice (wifiSettings "" "")) redactedStage redactedDoc)
        (wifiDevice (wifiSettings "" ""))).2.1 := by
  have h := restore_all_or_nothing redactedPlat .good .good (wifiDevice (wifiSettings "" ""))
    (wifiDevice (wifiSettings "" "")) redactedStage redactedDoc "wican".toList 1060
    (fun _ => true) false false redacted_dry (redacted_staged _) CbEnv.good_storage rfl
  rw [redacted_ticked, redacted_opts] at h
  refine h.mpr ⟨?_, ?_, trivial⟩
  · intro part hpart
    rw [mem_singleton.mp hpart]
    rfl
  · intro text comps htext hcomps
    have heq : text = redactedText := (Prod.mk.inj (mem_singleton.mp htext)).2
    rw [heq, redactedComps_eq] at hcomps
    cases hcomps
    refine settingsFit_of_nodup (by decide) (forall_mem_cons.2 ⟨rfl, forall_mem_singleton.2 rfl⟩)
      (forall_mem_cons.2 ⟨?_, forall_mem_singleton.2 ?_⟩)
    · rintro e ⟨⟩ -
      exact ⟨_, rfl⟩
    · rintro e ⟨⟩ -
      exact ⟨_, rfl⟩

theorem redacted_walk :
    partWalk redactedPlat .good ⟨false, false, true⟩ false
        (wifiDevice (wifiSettings "home" "secret12")) (.settings, redactedText) =
      (.error .invalidArg, { wifiDevice (wifiSettings "home" "secret12") with
        settings := smStore redactedPlat (wifiDevice (wifiSettings "home" "secret12")).settings
          "config_backup".toList (copySettings false) }) := by
  have hfirst : settingsStep redactedPlat CbEnv.good.comp ⟨false, false, true⟩ false
      (wifiDevice (wifiSettings "home" "secret12")).settings
      (("config_backup".toList, docComp 1 (copySettings false)), 0) =
      (.ok (), smStore redactedPlat (wifiDevice (wifiSettings "home" "secret12")).settings
        "config_backup".toList (copySettings false)) :=
    settingsStep_eq fun _ => ⟨CbEnv.good_storage.settings 0, rfl⟩
  have hsecond : settingsStep redactedPlat CbEnv.good.comp ⟨false, false, true⟩ false
      (smStore redactedPlat (wifiDevice (wifiSettings "home" "secret12")).settings
        "config_backup".toList (copySettings false))
      (("wifi_manager".toList, docComp 7 (wifiSettings "" "")), 1) =
      (.error .invalidArg, smStore redactedPlat
        (wifiDevice (wifiSettings "home" "secret12")).settings "config_backup".toList
        (copySettings false)) :=
    settingsStep_eq fun _ => ⟨CbEnv.good_storage.settings 1, rfl⟩
  have hwalk := walk_cons_ok [(("wifi_manager".toList, docComp 7 (wifiSettings "" "")), 1)]
    (congrArg Prod.fst hfirst)
  rw [hfirst, walk_cons_error [] (congrArg Prod.fst hsecond), hsecond] at hwalk
  rw [partWalk]
  simp only [settingsWalk_comps, redactedComps_eq]
  have hparses : CbEnv.good.parses .settings = true := rfl
  simp only [hparses, if_true, hwalk]

/-- **A restore that stops half way.** The document was staged while no network was
stored. Then its password was, and the document's blank one takes it: the backup
component is restored, and the Wi-Fi settings, now with a password and no network,
are refused. -/
theorem restore_halfway :
    (cbFinishFile redactedPlat .good (wifiDevice (wifiSettings "" ""))
        redactedStage redactedDoc).refused = false ∧
      cbRestoreStaged 1060 (cbFinishFile redactedPlat .good (wifiDevice (wifiSettings "" ""))
        redactedStage redactedDoc) = true ∧
      CbEnv.good.Storage ∧
      (wifiDevice (wifiSettings "home" "secret12")).settings.reachable = true ∧
      (cbRestoreApply redactedPlat .good "wican".toList 1060 (fun _ => true) false false
        (cbFinishFile redactedPlat .good (wifiDevice (wifiSettings "" "")) redactedStage redactedDoc)
        (wifiDevice (wifiSettings "home" "secret12"))).1 = .error .invalidArg ∧
      (wifiDevice (wifiSettings "home" "secret12")).settings.current "config_backup".toList =
        some (copySettings true) ∧
      (cbRestoreApply redactedPlat .good "wican".toList 1060 (fun _ => true) false false
        (cbFinishFile redactedPlat .good (wifiDevice (wifiSettings "" "")) redactedStage redactedDoc)
        (wifiDevice (wifiSettings "home" "secret12"))).2.1.settings.current "config_backup".toList =
        some (copySettings false) := by
  obtain ⟨hlocked, hdoc, -⟩ := cbFinishFile_staged redacted_dry
  have hone := walk_cons_error [] (congrArg Prod.fst redacted_walk)
  rw [redacted_walk] at hone
  have happly : cbRestoreApply redactedPlat .good "wican".toList 1060 (fun _ => true) false false
      (cbFinishFile redactedPlat .good (wifiDevice (wifiSettings "" "")) redactedStage redactedDoc)
      (wifiDevice (wifiSettings "home" "secret12")) =
      (.error .invalidArg, { wifiDevice (wifiSettings "home" "secret12") with
          settings := smStore redactedPlat (wifiDevice (wifiSettings "home" "secret12")).settings
            "config_backup".toList (copySettings false) },
        cbFinishFile redactedPlat .good (wifiDevice (wifiSettings "" "")) redactedStage
          redactedDoc) := by
    rw [cbRestoreApply, redacted_ticked, redacted_opts]
    simp [redacted_staged, hlocked, hdoc, redacted_dry, hone]
  rw [happly]
  exact ⟨redacted_dry, redacted_staged _, CbEnv.good_storage, rfl, rfl, rfl, rfl⟩

end Meatpi
