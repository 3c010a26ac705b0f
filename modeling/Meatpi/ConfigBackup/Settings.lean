import Meatpi.ConfigBackup.Merge
import Meatpi.ConfigBackup.Parts
import Meatpi.SettingsManager.Durability

/-!
# The settings part (`config_backup_apply.c`)

The settings part is a list of components. Each is merged with what the device
has stored and handed to the settings manager, which checks it and stores it
before the next one is looked at. So a component that the dry run accepted can be
refused when it is applied: it is merged with other settings by then. None is when
the document fits what is stored (`settingsSteps_iff`).
-/

namespace Meatpi

variable {name : List Char} {members : Members} {e : SmEntry} {version : UInt32} {dev : SmDevice}

/-- How the restore of a component goes. -/
structure CbCompEnv where
  merge : CbMergeMem
  set : SmSetEnv
  /-- `on_migrate` has what it needs -/
  migrates : Bool

/-- A component of the document, with its place. -/
abbrev CbComp := (List Char × Json) × ℕ

/-- The device keeps its own VPN settings. -/
def keepsVpn (opts : CbOpts) (dry : Bool) (name : List Char) : Bool :=
  !dry && opts.keepVpn && name == "vpn_manager".toList

variable (plat : CbPlatform) (env : ℕ → CbCompEnv) (opts : CbOpts)

/-- The loop of `settings_walk`. A component the device does not have is passed
over. -/
def settingsStep (dry : Bool) (dev : SmDevice) (comp : CbComp) :
    Except SmErr Unit × SmDevice :=
  match comp.1.2.getItem "version".toList, comp.1.2.getItem "data".toList with
  | some (.num ver), some (.obj data) =>
    if keepsVpn opts dry comp.1.1 then
      (.ok (), dev)
    else
      match settingsManagerRestore plat.cj plat.compare (env comp.2).set (env comp.2).migrates dev
          comp.1.1 (numUInt32 ver)
          (.obj (mergeStored (env comp.2).merge opts dev comp.1.1 data)) dry with
      | (.error err, dev') => (if err = .notFound then .ok () else .error err, dev')
      | (.ok _, dev') => (.ok (), dev')
  | _, _ => (.error .invalidArg, dev)

def settingsWalk (mem dry : Bool) (dev : SmDevice) (text : List UInt8) :
    Except SmErr Unit × SmDevice :=
  match cbParse plat mem text with
  | some (.obj comps) => walk (settingsStep plat env opts dry) dev comps.zipIdx
  | _ => (.error .invalidArg, dev)

/-! ## What a component comes to -/

/-- The object that `on_migrate` makes of an older one. -/
def smMigrated (desc : SmDesc) (migrates : Bool) (version : UInt32) (input : Json) : Option Json :=
  if version < desc.version then
    desc.migrate.bind fun migrate => if migrates then migrate version input else none
  else
    some input

/-- The object that is checked and stored for an entry, or why there is none. -/
def entryOutcome (env : CbCompEnv) (e : SmEntry) (version : UInt32) (input : Json) :
    Except SmErr Json :=
  if e.desc.version < version then
    .error .invalidVersion
  else if ¬env.set.duplicates then
    .error .noMem
  else
    match smMigrated e.desc env.migrates version input with
    | none => .error .invalidArg
    | some cand =>
      if smValidateEntry e.desc env.set.validates (smCandidate env.set e.desc cand) then
        .ok (smCandidate env.set e.desc cand)
      else
        .error .invalidArg

/-- What a component comes to at the entry of its name. -/
def compOutcome (env : CbCompEnv) (e : SmEntry) (comp : List Char × Json) : Except SmErr Json :=
  match comp.2.getItem "version".toList, comp.2.getItem "data".toList with
  | some (.num ver), some (.obj data) =>
    entryOutcome env e (numUInt32 ver) (.obj (mergeWith env.merge opts e.current comp.1 data))
  | _, _ => .error .invalidArg

/-- A component has its version and its data. -/
def hasVersionData (comp : Json) : Bool :=
  match comp.getItem "version".toList, comp.getItem "data".toList with
  | some (.num _), some (.obj _) => true
  | _, _ => false

/-- What a component comes to at a device: an error, nothing to do, or an object
to store. -/
def settingsOutcome (dry : Bool) (dev : SmDevice) (comp : CbComp) : Except SmErr (Option Json) :=
  if hasVersionData comp.1.2 then
    if keepsVpn opts dry comp.1.1 then .ok none
    else
      match dev.entries comp.1.1 with
      | none => .ok none
      | some e => (compOutcome opts (env comp.2) e comp.1).map some
  else .error .invalidArg

/-- An object is stored, in memory and in its file; one that is stored already is
not written again. -/
def smStore (dev : SmDevice) (name : List Char) (cand : Json) : SmDevice :=
  match dev.entries name with
  | none => dev
  | some e =>
    if smSame plat.compare e cand then dev
    else dev.put name { e with current := some cand, persistedClean := true }
      (some (plat.cj.print (smEnvelope (smCrc32 (plat.cj.print cand)) e.desc.version cand)))

/-- **Every component is stored**: each in turn is accepted as it is merged with the
settings stored by then, and is stored. -/
inductive Settles : SmDevice → List CbComp → SmDevice → Prop
  | nil (dev : SmDevice) : Settles dev [] dev
  /-- nothing to do -/
  | skip {dev dev' : SmDevice} {comp : CbComp} {comps : List CbComp} :
      settingsOutcome env opts false dev comp = .ok none → Settles dev comps dev' →
      Settles dev (comp :: comps) dev'
  | store {dev dev' : SmDevice} {comp : CbComp} {comps : List CbComp} {cand : Json} :
      settingsOutcome env opts false dev comp = .ok (some cand) →
      Settles (smStore plat dev comp.1.1 cand) comps dev' → Settles dev (comp :: comps) dev'

/-! ## What fits what is stored -/

/-- An entry that an object was stored for. -/
def SmEntry.store (e : SmEntry) (cand : Json) : SmEntry :=
  if smSame plat.compare e cand then e else { e with current := some cand, persistedClean := true }

/-- The components of one name are accepted in turn: the first as it is merged with what is
stored, each further one with what the one before it makes. -/
def SmEntry.Takes (e : SmEntry) : List CbComp → Prop
  | [] => True
  | comp :: comps =>
    ∃ cand, compOutcome opts (env comp.2) e comp.1 = .ok cand ∧ (e.store plat cand).Takes comps

/-- **The document fits what is stored**: every component has its version and its data, and
those that the device has, and does not keep, are accepted. -/
structure SettingsFit (dev : SmDevice) (comps : List CbComp) : Prop where
  complete : ∀ comp ∈ comps, hasVersionData comp.1.2 = true
  takes : ∀ name e, dev.entries name = some e → keepsVpn opts false name = false →
    e.Takes plat env opts (comps.filter fun comp => comp.1.1 = name)

/-! ## The walk and its outcomes -/

/-- Nothing in a save fails. -/
structure SmSaveEnv.Done (env : SmSaveEnv) : Prop where
  prints : env.mem.prints = true
  builds : env.mem.builds = true
  scratch : env.scratch = true
  runs : env.runs = true
  opens : env.opens = true
  writes : env.writes = true
  media : env.media = none
  renames : env.renames = true

variable {plat env opts}

theorem smStorageSave_done {save : SmSaveEnv} (hs : save.Done) (cj : JsonCodec) (version : UInt32)
    (data : Json) (file : Option (List UInt8)) :
    smStorageSave cj save true version (some data) file =
      (.ok (), some (cj.print (smEnvelope (smCrc32 (cj.print data)) version data))) := by
  simp [smStorageSave, smCodecEncode, hs.prints, hs.builds, hs.scratch, hs.runs, hs.opens,
    hs.writes, hs.media, hs.renames]

theorem isObject_smCandidate (senv : SmSetEnv) (desc : SmDesc) (input : Json) :
    isObject (smCandidate senv desc input) = isObject input := by
  rw [smCandidate]
  cases input with
  | obj members =>
    cases smBuildDefaults desc senv.defs with
    | none => rfl
    | some defs => rfl
  | _ => rfl

variable (plat) in
theorem settingsManagerRestore_error {cenv : CbCompEnv} (hentry : dev.entries name = some e)
    {err : SmErr} (h : entryOutcome cenv e version (.obj members) = .error err) (dry : Bool) :
    settingsManagerRestore plat.cj plat.compare cenv.set cenv.migrates dev name version
      (.obj members) dry = (.error err, dev) ∧ err ≠ .notFound := by
  rw [entryOutcome] at h
  rw [settingsManagerRestore]
  simp only [isObject, not_true_eq_false, if_false, hentry]
  by_cases hver : e.desc.version < version
  · rw [if_pos hver] at h ⊢
    cases h
    exact ⟨rfl, by decide⟩
  · rw [if_neg hver] at h ⊢
    cases hdup : cenv.set.duplicates with
    | false =>
      simp only [hdup, Bool.false_eq_true, not_false_eq_true, if_true] at h ⊢
      cases h
      exact ⟨rfl, by decide⟩
    | true =>
      simp only [hdup, not_true_eq_false, if_false] at h ⊢
      rw [smMigrated] at h
      cases hmig : (if version < e.desc.version then
          e.desc.migrate.bind fun migrate =>
            if cenv.migrates then migrate version (.obj members) else none
        else some (.obj members)) with
      | none =>
        rw [hmig] at h
        cases h
        exact ⟨rfl, by decide⟩
      | some cand =>
        simp only [hmig] at h ⊢
        split_ifs at h with hvalid
        cases h
        refine ⟨?_, by decide⟩
        cases dry with
        | true => rw [if_pos rfl, if_neg hvalid]
        | false =>
          rw [if_neg Bool.false_ne_true, settingsManagerSet]
          cases hobj : isObject cand with
          | false => simp
          | true => simp [hentry, hdup, hvalid]

variable (plat) in
theorem settingsManagerRestore_accepted {cenv : CbCompEnv} (hentry : dev.entries name = some e)
    {cand : Json} (h : entryOutcome cenv e version (.obj members) = .ok cand) :
    settingsManagerRestore plat.cj plat.compare cenv.set cenv.migrates dev name version
        (.obj members) true = (.ok false, dev) ∧
      (cenv.set.save.Done → dev.reachable = true → ∃ changed,
        settingsManagerRestore plat.cj plat.compare cenv.set cenv.migrates dev name version
          (.obj members) false = (.ok changed, smStore plat dev name cand)) := by
  rw [entryOutcome] at h
  split_ifs at h with hver hdup
  rw [smMigrated] at h
  cases hmig : (if version < e.desc.version then
      e.desc.migrate.bind fun migrate =>
        if cenv.migrates then migrate version (.obj members) else none
    else some (.obj members)) with
  | none =>
    rw [hmig] at h
    cases h
  | some input =>
    rw [hmig] at h
    simp only at h
    split_ifs at h with hvalid
    cases h
    have hobj : isObject input = true := by
      rw [← isObject_smCandidate cenv.set e.desc]
      simp only [smValidateEntry, Bool.and_eq_true] at hvalid
      exact hvalid.1.1
    simp only [settingsManagerRestore, isObject, not_true_eq_false, if_false, hentry, hver, hdup,
      hmig, hvalid, if_true, true_and]
    intro hdone hreach
    rw [if_neg Bool.false_ne_true]
    simp only [settingsManagerSet, hobj, not_true_eq_false, if_false, hentry, hdup, hvalid, hreach,
      smStorageSave_done hdone, smStore]
    split_ifs
    · exact ⟨false, rfl⟩
    · exact ⟨true, rfl⟩

theorem smStore_reachable (dev : SmDevice) (name : List Char) (cand : Json) :
    (smStore plat dev name cand).reachable = dev.reachable := by
  rw [smStore]
  cases dev.entries name with
  | none => rfl
  | some e =>
    simp only
    split_ifs
    · rfl
    · rfl

/-- **One component of a walk** does what its outcome says. -/
theorem settingsStep_eq {dry : Bool} {dev : SmDevice} {comp : CbComp}
    (hs : dry = false → (env comp.2).set.save.Done ∧ dev.reachable = true) :
    settingsStep plat env opts dry dev comp = match settingsOutcome env opts dry dev comp with
      | .error err => (.error err, dev)
      | .ok none => (.ok (), dev)
      | .ok (some cand) => (.ok (), if dry then dev else smStore plat dev comp.1.1 cand) := by
  rw [settingsStep, settingsOutcome, hasVersionData]
  rcases hver : comp.1.2.getItem "version".toList with _ | (_ | _ | ver | _ | _ | _)
  case some.num =>
    rcases hdata : comp.1.2.getItem "data".toList with _ | (_ | _ | _ | _ | _ | data)
    case some.obj =>
      simp only [if_true]
      by_cases hvpn : keepsVpn opts dry comp.1.1 = true
      · rw [if_pos hvpn, if_pos hvpn]
      · rw [if_neg hvpn, if_neg hvpn]
        cases hentry : dev.entries comp.1.1 with
        | none =>
          simp only [settingsManagerRestore, isObject, not_true_eq_false, if_false, hentry, if_true]
        | some e =>
          have hcurrent : dev.current comp.1.1 = e.current := by rw [SmDevice.current, hentry]; rfl
          simp only [mergeStored, hcurrent]
          have hcomp : compOutcome opts (env comp.2) e comp.1 = entryOutcome (env comp.2) e
              (numUInt32 ver) (.obj (mergeWith (env comp.2).merge opts e.current comp.1.1 data)) := by
            simp only [compOutcome, hver, hdata]
          rw [hcomp]
          cases hout : entryOutcome (env comp.2) e (numUInt32 ver)
              (.obj (mergeWith (env comp.2).merge opts e.current comp.1.1 data)) with
          | error err =>
            obtain ⟨hcall, hne⟩ := settingsManagerRestore_error plat hentry hout dry
            simp only [hcall, hne, if_false]
            rfl
          | ok cand =>
            obtain ⟨hdry, hreal⟩ := settingsManagerRestore_accepted plat hentry hout
            cases dry with
            | true =>
              simp only [hdry, if_true]
              rfl
            | false =>
              obtain ⟨changed, hcall⟩ := hreal (hs rfl).1 (hs rfl).2
              simp only [hcall]
              rfl
    all_goals rfl
  all_goals rfl

theorem smStore_entries {cand : Json} (hentry : dev.entries name = some e) :
    (smStore plat dev name cand).entries =
      Function.update dev.entries name (some (e.store plat cand)) := by
  rw [smStore, SmEntry.store]
  simp only [hentry]
  split_ifs
  · rw [← hentry, Function.update_eq_self]
  · rfl

theorem settingsOutcome_none {dry : Bool} {comp : CbComp}
    (h : settingsOutcome env opts dry dev comp = .ok none) : hasVersionData comp.1.2 = true ∧
      (keepsVpn opts dry comp.1.1 = true ∨ dev.entries comp.1.1 = none) := by
  rw [settingsOutcome] at h
  split_ifs at h with hdata hvpn
  · exact ⟨hdata, .inl hvpn⟩
  · cases hentry : dev.entries comp.1.1 with
    | none => exact ⟨hdata, .inr rfl⟩
    | some e =>
      simp only [hentry] at h
      cases hcomp : compOutcome opts (env comp.2) e comp.1 <;> rw [hcomp] at h <;> cases h

theorem settingsOutcome_some {dry : Bool} {comp : CbComp} {cand : Json}
    (h : settingsOutcome env opts dry dev comp = .ok (some cand)) :
    hasVersionData comp.1.2 = true ∧
      ∃ e, dev.entries comp.1.1 = some e ∧ compOutcome opts (env comp.2) e comp.1 = .ok cand := by
  rw [settingsOutcome] at h
  split_ifs at h with hdata hvpn
  · cases h
  · cases hentry : dev.entries comp.1.1 with
    | none => simp [hentry] at h
    | some e =>
      simp only [hentry] at h
      cases hcomp : compOutcome opts (env comp.2) e comp.1 <;> rw [hcomp] at h <;> cases h
      exact ⟨hdata, e, rfl, hcomp⟩

theorem filter_name_of_ne {comp : CbComp} (comps : List CbComp) (hne : comp.1.1 ≠ name) :
    ((comp :: comps).filter fun c => c.1.1 = name) = comps.filter fun c => c.1.1 = name :=
  List.filter_cons_of_neg (by simpa using hne)

/-- A component that is passed over does not matter. -/
theorem settingsFit_skip {comp : CbComp} {comps : List CbComp}
    (hout : settingsOutcome env opts false dev comp = .ok none) :
    SettingsFit plat env opts dev (comp :: comps) ↔ SettingsFit plat env opts dev comps := by
  obtain ⟨hdata, hpassed⟩ := settingsOutcome_none hout
  have hother : ∀ name e, dev.entries name = some e → keepsVpn opts false name = false →
      comp.1.1 ≠ name := by
    rintro name e hentry hvpn rfl
    rcases hpassed with hkeeps | hnone
    · rw [hvpn] at hkeeps
      cases hkeeps
    · rw [hentry] at hnone
      cases hnone
  constructor
  · intro h
    refine ⟨(List.forall_mem_cons.1 h.complete).2, fun name e hentry hvpn => ?_⟩
    rw [← filter_name_of_ne comps (hother name e hentry hvpn)]
    exact h.takes name e hentry hvpn
  · intro h
    refine ⟨List.forall_mem_cons.2 ⟨hdata, h.complete⟩, fun name e hentry hvpn => ?_⟩
    rw [filter_name_of_ne comps (hother name e hentry hvpn)]
    exact h.takes name e hentry hvpn

/-- One that is stored is what the others of its name find. -/
theorem settingsFit_store {comp : CbComp} {comps : List CbComp} {cand : Json}
    (hout : settingsOutcome env opts false dev comp = .ok (some cand)) :
    SettingsFit plat env opts dev (comp :: comps) ↔
      SettingsFit plat env opts (smStore plat dev comp.1.1 cand) comps := by
  obtain ⟨hdata, e, hentry, hcomp⟩ := settingsOutcome_some hout
  have hsame : ((comp :: comps).filter fun c => c.1.1 = comp.1.1) =
      comp :: comps.filter fun c => c.1.1 = comp.1.1 := List.filter_cons_of_pos (by simp)
  constructor
  · intro h
    refine ⟨(List.forall_mem_cons.1 h.complete).2, fun name e' hentry' hkeeps => ?_⟩
    rw [smStore_entries hentry] at hentry'
    by_cases hname : name = comp.1.1
    · subst hname
      rw [Function.update_self] at hentry'
      cases hentry'
      have htakes := h.takes _ e hentry hkeeps
      rw [hsame] at htakes
      obtain ⟨cand', hcand', hrest⟩ := htakes
      cases hcomp.symm.trans hcand'
      exact hrest
    · rw [Function.update_of_ne hname] at hentry'
      rw [← filter_name_of_ne comps (Ne.symm hname)]
      exact h.takes name e' hentry' hkeeps
  · intro h
    refine ⟨List.forall_mem_cons.2 ⟨hdata, h.complete⟩, fun name e' hentry' hkeeps => ?_⟩
    by_cases hname : name = comp.1.1
    · subst hname
      cases hentry.symm.trans hentry'
      rw [hsame]
      refine ⟨cand, hcomp, h.takes _ _ ?_ hkeeps⟩
      rw [smStore_entries hentry, Function.update_self]
    · rw [filter_name_of_ne comps (Ne.symm hname)]
      refine h.takes name e' ?_ hkeeps
      rwa [smStore_entries hentry, Function.update_of_ne hname]

theorem not_settingsFit {comp : CbComp} {comps : List CbComp} {err : SmErr}
    (hout : settingsOutcome env opts false dev comp = .error err) :
    ¬ SettingsFit plat env opts dev (comp :: comps) := by
  intro h
  rw [settingsOutcome, if_pos (h.complete comp List.mem_cons_self)] at hout
  split_ifs at hout with hvpn
  cases hentry : dev.entries comp.1.1 with
  | none => simp [hentry] at hout
  | some e =>
    have htakes := h.takes _ e hentry (Bool.eq_false_iff.2 hvpn)
    rw [List.filter_cons_of_pos (by simp)] at htakes
    obtain ⟨cand, hcand, -⟩ := htakes
    simp only [hentry, hcand] at hout
    cases hout

theorem settingsStep_dry (comp : CbComp) : settingsStep plat env opts true dev comp =
    (match settingsOutcome env opts true dev comp with
      | .error err => .error err
      | .ok _ => .ok (), dev) := by
  rw [settingsStep_eq fun h => absurd h.symm Bool.false_ne_true]
  rcases settingsOutcome env opts true dev comp with err | _ | cand
  · rfl
  · rfl
  · rfl

/-- **When the settings are restored**: when the document fits what is stored before. -/
theorem settingsSteps_iff {comps : List CbComp} (hdone : ∀ i, (env i).set.save.Done)
    (hreach : dev.reachable = true) :
    (walk (settingsStep plat env opts false) dev comps).1 = .ok () ↔
      SettingsFit plat env opts dev comps := by
  induction comps generalizing dev with
  | nil => exact ⟨fun _ => ⟨nofun, fun _ _ _ _ => trivial⟩, fun _ => rfl⟩
  | cons comp comps ih =>
    have hstep := @settingsStep_eq plat env opts false dev comp fun _ => ⟨hdone comp.2, hreach⟩
    cases hout : settingsOutcome env opts false dev comp with
    | error err =>
      rw [hout] at hstep
      rw [walk_cons_error comps (congrArg Prod.fst hstep)]
      exact iff_of_false (by simp) (not_settingsFit hout)
    | ok what =>
      cases what with
      | none =>
        rw [hout] at hstep
        rw [walk_cons_ok comps (congrArg Prod.fst hstep), hstep, ih hreach, settingsFit_skip hout]
      | some cand =>
        rw [hout] at hstep
        simp only [Bool.false_eq_true, if_false] at hstep
        rw [walk_cons_ok comps (congrArg Prod.fst hstep), hstep,
          ih ((smStore_reachable dev comp.1.1 cand).trans hreach), settingsFit_store hout]

/-- **Restored settings are stored**, one component after the other. -/
theorem settles_walk {comps : List CbComp} (hdone : ∀ i, (env i).set.save.Done)
    (hreach : dev.reachable = true)
    (hok : (walk (settingsStep plat env opts false) dev comps).1 = .ok ()) :
    Settles plat env opts dev comps (walk (settingsStep plat env opts false) dev comps).2 := by
  induction comps generalizing dev with
  | nil => exact .nil dev
  | cons comp comps ih =>
    have hstep := @settingsStep_eq plat env opts false dev comp fun _ => ⟨hdone comp.2, hreach⟩
    cases hout : settingsOutcome env opts false dev comp with
    | error err =>
      rw [hout] at hstep
      rw [walk_cons_error comps (congrArg Prod.fst hstep)] at hok
      cases hok
    | ok what =>
      cases what with
      | none =>
        rw [hout] at hstep
        rw [walk_cons_ok comps (congrArg Prod.fst hstep), hstep] at hok ⊢
        exact .skip hout (ih hreach hok)
      | some cand =>
        rw [hout] at hstep
        simp only [Bool.false_eq_true, if_false] at hstep
        rw [walk_cons_ok comps (congrArg Prod.fst hstep), hstep] at hok ⊢
        exact .store hout (ih ((smStore_reachable dev comp.1.1 cand).trans hreach) hok)

/-- Where no name comes twice, every component is accepted as it is merged with what is
stored for it. -/
theorem settingsFit_of_nodup {comps : List CbComp} (hnames : (comps.map (·.1.1)).Nodup)
    (hdata : ∀ comp ∈ comps, hasVersionData comp.1.2 = true)
    (htakes : ∀ comp ∈ comps, ∀ e, dev.entries comp.1.1 = some e →
      keepsVpn opts false comp.1.1 = false →
        ∃ cand, compOutcome opts (env comp.2) e comp.1 = .ok cand) :
    SettingsFit plat env opts dev comps := by
  refine ⟨hdata, fun name e hentry hvpn => ?_⟩
  have hone : (comps.filter fun comp => comp.1.1 = name).length ≤ 1 := by
    have hcount := List.nodup_iff_count_le_one.1 hnames name
    rw [List.count, List.countP_map, List.countP_eq_length_filter] at hcount
    simpa only [Function.comp_def, beq_eq_decide] using hcount
  cases hfound : comps.filter fun comp => comp.1.1 = name with
  | nil => trivial
  | cons comp rest =>
    rw [hfound, List.length_cons] at hone
    obtain ⟨hmem, hname⟩ := List.mem_filter.1 (hfound ▸ List.mem_cons_self)
    rw [decide_eq_true_eq] at hname
    subst hname
    obtain ⟨cand, hcand⟩ := htakes comp hmem e hentry hvpn
    obtain rfl : rest = [] := List.length_eq_zero_iff.1 (by omega)
    exact ⟨cand, hcand, trivial⟩

end Meatpi
