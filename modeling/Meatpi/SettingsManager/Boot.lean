import Meatpi.SettingsManager.Durability

/-!
# What a boot does to a good file

A boot that cannot load a file writes the defaults over it, whatever the reason
was. So a file that is intact survives a boot exactly when nothing goes wrong
with its load, or the defaults cannot be written either.
-/

namespace Meatpi

open List Option

variable {data : Json} {current : Option Json} {desc : SmDesc} {e' : SmEntry} {version : UInt32}
  {r : UInt32 × Json}

variable {file file' : Option (List UInt8)} {cj : JsonCodec}

/-- A file decodes to an object, its checksum right. -/
def HoldsObject (cj : JsonCodec) (file : Option (List UInt8)) (data : Json) : Prop :=
  ∃ version, Stored cj file version data

theorem Stored.holds_iff {data' : Json} (h : Stored cj file version data) :
    HoldsObject cj file data' ↔ data = data' := by
  obtain ⟨text, rfl, hdecode⟩ := h
  constructor
  · rintro ⟨version', text', htext, hdecode'⟩
    obtain rfl := some.inj htext
    exact (Prod.mk.inj (Except.ok.inj (hdecode.symm.trans hdecode'))).2
  · rintro rfl
    exact ⟨version, text, rfl, hdecode⟩

/-! ## What a save stores -/

/-- What is stored is the target, or nothing is and the target was there. -/
def Leaves (stored : Option Json) (target : Json) (before : Prop) : Prop :=
  match stored with
  | some d => d = target
  | none => before

theorem leaves_iff {stored : Option Json} {target : Json} {before : Prop} (h : before) :
    Leaves stored target before ↔ ∀ d, stored = some d → d = target := by
  cases stored with
  | none => exact ⟨fun _ d hd => (by cases hd), fun _ => h⟩
  | some d =>
    constructor
    · intro hd d' hd'
      rw [← some.inj hd']
      exact hd
    · intro hall
      exact hall d rfl

/-- Nothing fails in a save. -/
def SmSaveEnv.saves (env : SmSaveEnv) (reachable : Bool) : Bool :=
  env.mem.prints && env.mem.builds && env.scratch && env.runs && (reachable && env.opens) &&
    env.writes && env.renames

theorem smStorageSave_saves {env : SmSaveEnv} {reachable : Bool} {result : Except SmErr Unit}
    (h : smStorageSave cj env reachable version (some data) file = (result, file')) :
    env.saves reachable = true ↔ result = .ok () := by
  rw [smStorageSave, smCodecEncode] at h
  rw [SmSaveEnv.saves]
  simp only [Bool.and_eq_true]
  split at h
  · rename_i err herr
    split at herr
    · rename_i hmem
      obtain rfl := (congrArg Prod.fst h).symm
      constructor
      · intro hall
        exact absurd ⟨hall.1.1.1.1.1.1, hall.1.1.1.1.1.2⟩ hmem
      · intro hok
        cases hok
    · cases herr
  · rename_i text htext
    split at htext
    · cases htext
    · rename_i hmem
      repeat' split at h
      all_goals obtain rfl := (congrArg Prod.fst h).symm
      all_goals simp_all

theorem smPersist_holds (cj : JsonCodec) {env : SmSaveEnv} (reachable : Bool) (e : SmEntry)
    {data : Option Json} (file : Option (List UInt8)) (hmedia : env.media = none)
    (hobj : ∀ d, data = some d → isObject d = true) (target : Json) :
    HoldsObject cj (smPersist cj env reachable e data file).2 target ↔
      Leaves (if env.saves reachable then data else none) target (HoldsObject cj file target) := by
  rw [smPersist]
  cases data with
  | none =>
    rw [ite_self]
    exact Iff.rfl
  | some d =>
    rcases hsave : smStorageSave cj env reachable e.desc.version (some d) file with
      ⟨err | ⟨⟨⟩⟩, file'⟩
    · have hfails : ¬env.saves reachable = true := by
        rw [smStorageSave_saves hsave]
        intro h
        cases h
      rw [if_neg hfails, smStorageSave_error hsave]
      exact Iff.rfl
    · rw [if_pos ((smStorageSave_saves hsave).mpr rfl)]
      exact (smStorageSave_ok hmedia (hobj d rfl) hsave).2.holds_iff

/-! ## What a boot writes over a file -/

/-- The copy of the defaults that `boot_load` persists. -/
def SmBootEnv.fallback (env : SmBootEnv) (desc : SmDesc) : Option Json :=
  if env.copies then (smBuildDefaults desc env.defs).map Json.obj else none

/-- What runs instead of the stored object. -/
def SmBootEnv.substitute (env : SmBootEnv) (desc : SmDesc) : Option Json :=
  match env.fallback desc with
  | some d => some d
  | none => if env.creates then some (.obj []) else none

/-- The object that a boot writes over a file it could not load: the one after
`on_apply` rejected the substitute, or else the copy of the defaults. -/
def SmBootEnv.overwrites (env : SmBootEnv) (reachable : Bool) (desc : SmDesc) : Option Json :=
  if env.apply (env.substitute desc) = false ∧ env.saveAgain.saves reachable = true then
    match bootRetry env (smBuildDefaults desc env.defs) (env.substitute desc) with
    | some d => some d
    | none => if env.save.saves reachable then env.fallback desc else none
  else
    if env.save.saves reachable then env.fallback desc else none

/-- Every step of the load of a good file succeeds. -/
structure SmBootEnv.Loads (env : SmBootEnv) (reachable : Bool) : Prop where
  runs : env.load.runs = true
  opens : env.load.opens = true
  sizes : env.load.sizes = true
  buffer : env.load.buffer = true
  whole : env.load.whole = true
  mem : env.load.mem = .plenty
  validates : env.validates = true
  reachable : reachable = true

/-- An object that needs no key of the defaults. -/
def Complete (desc : SmDesc) (members : Members) : Prop :=
  ∀ m ∈ desc.defaultsJson.getD [] ++ desc.schemaDefaults, (members.lookup m.1).isSome = true

theorem smFillMembers_complete {copies : List Char → Bool} {dst src : Members}
    (h : ∀ m ∈ src, (dst.lookup m.1).isSome = true) : smFillMembers copies dst src = (dst, 0) := by
  induction src with
  | nil => rfl
  | cons m src ih =>
    obtain ⟨key, value⟩ := m
    rw [forall_mem_cons] at h
    have hthere : ¬((dst.lookup key).isNone = true ∧ copies key = true) := by
      rw [isNone_iff_eq_none]
      intro hnone
      rw [hnone.1] at h
      exact absurd h.1 Bool.false_ne_true
    rw [smFillMembers, if_neg hthere]
    exact ih h.2

theorem smBuildDefaults_mem {mem : SmDefsMem} {defs : Members}
    (h : smBuildDefaults desc mem = some defs) {m : List Char × Json} (hm : m ∈ defs) :
    m ∈ desc.defaultsJson.getD [] ++ desc.schemaDefaults := by
  have hschema : ∀ defs, smSchemaDefaults desc mem = some defs → m ∈ defs →
      m ∈ desc.schemaDefaults := by
    intro defs hdefs hm
    rw [smSchemaDefaults, smSchemaCollectDefaults] at hdefs
    split at hdefs
    · rename_i collected hcollect
      obtain rfl := some.inj hdefs
      split at hcollect
      · obtain rfl := some.inj hcollect
        split at hm
        · exact (mem_filter.mp hm).1
        · cases hm
      · cases hcollect
    · split at hdefs
      · obtain rfl := some.inj hdefs
        cases hm
      · cases hdefs
  rw [smBuildDefaults] at h
  split at h
  · exact mem_append_right _ (hschema defs h hm)
  · rename_i whole hwhole
    split at h
    · obtain rfl := some.inj h
      rw [hwhole]
      exact mem_append_left _ hm
    · exact mem_append_right _ (hschema defs h hm)

theorem smFillMissing_complete {members : Members} (h : Complete desc members)
    (copies : List Char → Bool) (mem : SmDefsMem) :
    smFillMissing copies (.obj members) (smBuildDefaults desc mem) = (.obj members, 0) := by
  match hdefs : smBuildDefaults desc mem with
  | none => rfl
  | some defs =>
    rw [smFillMissing, smFillMembers_complete]
    intro m hm
    exact h m (smBuildDefaults_mem hdefs hm)

/-! ## A boot over a good file -/

section

variable {env : SmBootEnv} {reachable : Bool} {e : SmEntry} {text : List UInt8} {ver : UInt32}
  {members : Members}

theorem smCodecDecode_mem {mem : SmMem} (h : smCodecDecode cj mem text = .ok r) :
    mem = .plenty := by
  obtain ⟨parses, prints, builds⟩ := mem
  rw [smCodecDecode] at h
  repeat' split at h
  all_goals first
    | (cases h; done)
    | simp_all [SmMem.plenty]

theorem smStorageLoad_env {load : SmLoadEnv}
    (h : smStorageLoad cj load reachable (some text) = .ok r) :
    load.runs = true ∧ (reachable = true ∧ load.opens = true) ∧ load.sizes = true ∧
      load.buffer = true ∧ load.whole = true ∧ smCodecDecode cj load.mem text = .ok r := by
  rw [smStorageLoad.eq_def] at h
  split at h
  · cases h
  rename_i hruns
  dsimp only at h
  split at h
  · cases h
  rename_i hopens
  split at h
  · cases h
  rename_i hsizes
  split at h
  · cases h
  rename_i hbuffer
  split at h
  · cases h
  rename_i hwhole
  exact ⟨not_not.mp hruns, not_not.mp hopens, not_not.mp hsizes, not_not.mp hbuffer,
    not_not.mp hwhole, h⟩

theorem bootLoad_loads (hdecode : smCodecDecode cj .plenty text = .ok (ver, .obj members))
    (hver : e.desc.version ≤ ver) (hcomplete : Complete e.desc members)
    (hvalid : e.desc.validate (.obj members) = true) (h : env.Loads reachable) :
    bootLoad cj env reachable e (smBuildDefaults e.desc env.defs) (some text) =
      ({ e with persistedClean := true }, some (.obj members), some text) := by
  have hload : smStorageLoad cj env.load reachable (some text) = .ok (ver, .obj members) := by
    rw [smStorageLoad.eq_def, h.runs, h.opens, h.sizes, h.buffer, h.whole, h.mem, h.reachable]
    exact hdecode
  have hcheck : smValidateEntry e.desc env.validates (.obj members) = true := by
    rw [smValidateEntry, h.validates, hvalid]
    rfl
  rw [bootLoad, hload]
  dsimp only
  rw [bootMigrate, if_neg (UInt32.not_lt.mpr hver)]
  dsimp only
  rw [smFillMissing_complete hcomplete, if_neg (not_not.mpr hcheck), if_neg]
  rintro (h | h)
  · cases h
  · exact Nat.lt_irrefl 0 h

theorem bootLoad_fails (hdecode : smCodecDecode cj .plenty text = .ok (ver, .obj members))
    (hver : e.desc.version ≤ ver) (h : ¬env.Loads reachable) :
    bootLoad cj env reachable e (smBuildDefaults e.desc env.defs) (some text) =
      bootDefaults cj env reachable e (smBuildDefaults e.desc env.defs) (some text) := by
  rw [bootLoad]
  split
  · rfl
  · rename_i ver' data hload
    -- the load came through, so only the memory of the validation is left
    have hstored := (smStorageLoad_ok hload).1
    obtain ⟨text', htext', hdecode'⟩ := hstored
    obtain rfl := some.inj htext'
    obtain ⟨rfl, rfl⟩ := Prod.mk.inj (Except.ok.inj (hdecode.symm.trans hdecode'))
    rw [bootMigrate, if_neg (UInt32.not_lt.mpr hver)]
    dsimp only
    rw [if_pos]
    intro hcheck
    apply h
    rw [smValidateEntry, Bool.and_eq_true, Bool.and_eq_true] at hcheck
    obtain ⟨hruns, ⟨hreach, hopens⟩, hsizes, hbuffer, hwhole, hmem⟩ := smStorageLoad_env hload
    exact ⟨hruns, hopens, hsizes, hbuffer, hwhole, smCodecDecode_mem hmem, hcheck.1.2, hreach⟩

theorem fallback_obj (env : SmBootEnv) (desc : SmDesc) :
    ∀ d, env.fallback desc = some d → isObject d = true := by
  intro d hd
  rw [SmBootEnv.fallback] at hd
  split at hd
  · obtain ⟨members, -, rfl⟩ := map_eq_some_iff.mp hd
    rfl
  · cases hd

theorem bootRetry_obj (env : SmBootEnv) (desc : SmDesc) :
    ∀ d, bootRetry env (smBuildDefaults desc env.defs) (env.substitute desc) = some d →
      isObject d = true := by
  intro d hd
  rw [bootRetry] at hd
  split at hd
  · rename_i d' hd'
    obtain rfl := some.inj hd
    split at hd'
    · obtain ⟨members, -, rfl⟩ := map_eq_some_iff.mp hd'
      rfl
    · cases hd'
  · rw [SmBootEnv.substitute] at hd
    split at hd
    · rename_i d' hd'
      exact fallback_obj env desc d (hd'.trans hd)
    · split at hd
      · obtain rfl := some.inj hd
        rfl
      · cases hd

theorem bootDefaults_holds (cj : JsonCodec) (reachable : Bool) (e : SmEntry)
    (file : Option (List UInt8)) (hmedia : env.save.media = none) (target : Json) :
    (bootDefaults cj env reachable e (smBuildDefaults e.desc env.defs) file).2.1 =
        env.substitute e.desc ∧
      (HoldsObject cj
          (bootDefaults cj env reachable e (smBuildDefaults e.desc env.defs) file).2.2 target ↔
        Leaves (if env.save.saves reachable then env.fallback e.desc else none) target
          (HoldsObject cj file target)) := by
  have hholds := smPersist_holds cj reachable e file hmedia (fallback_obj env e.desc) target
  rw [bootDefaults]
  have hcopy : (if env.copies then (smBuildDefaults e.desc env.defs).map Json.obj else none) =
      env.fallback e.desc := rfl
  rw [hcopy, SmBootEnv.substitute]
  cases hfallback : env.fallback e.desc with
  | some d =>
    rw [hfallback] at hholds
    exact ⟨rfl, hholds⟩
  | none =>
    rw [hfallback] at hholds
    exact ⟨rfl, hholds⟩

theorem smBoot_applied
    (hload : bootLoad cj env reachable { e with degraded := false, unconfigured := false }
      (smBuildDefaults e.desc env.defs) file = (e', current, file'))
    (happly : env.apply current = true) : (smBoot cj env reachable e file).2 = file' := by
  rw [smBoot, hload]
  dsimp only
  rw [if_pos happly]

theorem smBoot_rejected
    (hload : bootLoad cj env reachable { e with degraded := false, unconfigured := false }
      (smBuildDefaults e.desc env.defs) file = (e', current, file'))
    (happly : env.apply current = false) : (smBoot cj env reachable e file).2 =
      (smPersist cj env.saveAgain reachable e'
        (bootRetry env (smBuildDefaults e.desc env.defs) current) file').2 := by
  rw [smBoot, hload]
  dsimp only
  rw [happly, if_neg Bool.false_ne_true]

/-- **A boot over a good file.** The file still decodes to its object, or
`on_apply` rejected that, if and only if `on_apply` rejects it, or every step of
the load succeeds, or nothing else is written over it. -/
theorem boot_keeps_settings (hdecode : smCodecDecode cj .plenty text = .ok (ver, .obj members))
    (hver : e.desc.version ≤ ver) (hcomplete : Complete e.desc members)
    (hvalid : e.desc.validate (.obj members) = true) (hmedia : env.save.media = none)
    (hmediaAgain : env.saveAgain.media = none) :
    (env.apply (some (.obj members)) = false ∨
        HoldsObject cj (smBoot cj env reachable e (some text)).2 (.obj members)) ↔
      env.apply (some (.obj members)) = false ∨ env.Loads reachable ∨
        ∀ d, env.overwrites reachable e.desc = some d → d = .obj members := by
  cases happly : env.apply (some (.obj members)) with
  | false => simp only [true_or]
  | true =>
    have hgood : HoldsObject cj (some text) (.obj members) := ⟨ver, text, rfl, hdecode⟩
    have hfalse : ¬(true = false) := by decide
    rw [or_iff_right hfalse, or_iff_right hfalse]
    by_cases hloads : env.Loads reachable
    case pos =>
      have hload := bootLoad_loads (e := { e with degraded := false, unconfigured := false })
        hdecode hver hcomplete hvalid hloads
      rw [smBoot_applied hload happly]
      exact ⟨fun _ => Or.inl hloads, fun _ => hgood⟩
    case neg =>
      rw [or_iff_right hloads]
      have hload := bootLoad_fails (e := { e with degraded := false, unconfigured := false })
        hdecode hver hloads
      obtain ⟨hsub, hfirst⟩ := bootDefaults_holds cj reachable
        { e with degraded := false, unconfigured := false } (some text) hmedia (.obj members)
      generalize bootDefaults cj env reachable { e with degraded := false, unconfigured := false }
        (smBuildDefaults e.desc env.defs) (some text) = r at hsub hfirst hload
      obtain ⟨e', current, file'⟩ := r
      dsimp only at hsub hfirst
      rw [leaves_iff hgood] at hfirst
      rw [SmBootEnv.overwrites, ← hsub]
      cases hsubstitute : env.apply current with
      | true =>
        rw [smBoot_applied hload hsubstitute]
        exact hfirst
      | false =>
        rw [smBoot_rejected hload hsubstitute, smPersist_holds cj reachable e' file' hmediaAgain
          (hsub ▸ bootRetry_obj env e.desc)]
        cases hsaves : env.saveAgain.saves reachable with
        | false =>
          exact hfirst
        | true =>
          match bootRetry env (smBuildDefaults e.desc env.defs) current with
          | none => exact hfirst
          | some d =>
            constructor
            · intro hd d' hd'
              rw [← some.inj hd']
              exact hd
            · intro hall
              exact hall d rfl

end

/-- A boot in which nothing fails. -/
theorem boot_keeps_settings_switch :
    (SmBootEnv.good.apply (some (switchSettings true)) = false ∨ HoldsObject switchCodec
          (smBoot switchCodec .good true switchEntry (some (switchFile true))).2
          (switchSettings true)) ↔
      SmBootEnv.good.apply (some (switchSettings true)) = false ∨ SmBootEnv.good.Loads true ∨
        ∀ d, SmBootEnv.good.overwrites true switchEntry.desc = some d →
          d = switchSettings true := by
  have hcomplete : Complete switchEntry.desc [("on".toList, .bool true)] := by
    intro m hm
    obtain rfl := mem_singleton.mp hm
    rfl
  have hdecode : smCodecDecode switchCodec .plenty (switchFile true) =
      .ok (1, .obj [("on".toList, .bool true)]) := switchFile_decode true
  exact boot_keeps_settings hdecode (by decide) hcomplete rfl rfl rfl

/-- A boot in which there is no memory for the text of the file. -/
def lowBoot : SmBootEnv :=
  { SmBootEnv.good with load := { SmBootEnv.good.load with buffer := false } }

/-- The switch was on, the buffer of the load could not be had, and the file says
off. -/
theorem boot_loses_settings :
    lowBoot.apply (some (switchSettings true)) = true ∧
    HoldsObject switchCodec (some (switchFile true)) (switchSettings true) ∧
    ¬HoldsObject switchCodec
      (smBoot switchCodec lowBoot true switchEntry (some (switchFile true))).2
      (switchSettings true) := by
  refine ⟨rfl, ⟨1, switchFile true, rfl, switchFile_decode true⟩, ?_⟩
  have hfile : (smBoot switchCodec lowBoot true switchEntry (some (switchFile true))).2 =
      some (switchFile false) := by
    rw [← switchCodec_file false]
    rfl
  have hoff : Stored switchCodec (some (switchFile false)) 1 (switchSettings false) :=
    ⟨switchFile false, rfl, switchFile_decode false⟩
  rw [hfile, hoff.holds_iff, switchSettings, switchSettings]
  intro h
  simp at h

end Meatpi
