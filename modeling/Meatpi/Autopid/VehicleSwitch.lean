import Mathlib.Data.List.InsertIdx
import Meatpi.Autopid.VehicleKeys

/-!
# One file of tables for each car (`autopid_vehicle_switch.c`, `autopid_vehicle.c`)

`config.json` is a copy of the current car's tables. A sighting of another known car
makes that the current one at once and leaves the copying to a worker. A step that moves
the current car or writes `config.json` meanwhile can put one car's tables into
another's file; `VehStep.Waits` says which steps do not, and in a run of such steps
every file holds tables of its own car (`vehicleStore_tables`).
-/

namespace Meatpi

open Except Function List Option VehIndex

variable {dst k src t : List Char} {key prev text : List Char} {s : VehSeen} {i : ℕ} {now : ℤ}

/-- `AP_VEH_EMPTY_CONFIG` -/
def vehEmptyConfig : List Char := "\x7b\"groups\":[],\"pids\":[],\"filters\":[]\x7d".toList

/-- `ap_veh_copy_tables`: a file that is missing or empty is copied as empty tables. -/
def vehCopyTables (text : List Char) : List Char := if text = [] then vehEmptyConfig else text

namespace VehIndex

def keys (idx : VehIndex) : List (List Char) := idx.v.map VehEntry.key

/-- The key of the current car. -/
def carKey (idx : VehIndex) : Option (List Char) := (idx.current.bind (idx.v[·]?)).map VehEntry.key

end VehIndex

/-- The index, `config.json`, the tables files by key, and the switch that is
queued, with the key it recorded. `saved` is no part of the program: it records
for which car tables were saved or scanned. -/
structure VehStore where
  idx : VehIndex
  config : List Char
  files : List Char → Option (List Char)
  pending : Option (List Char)
  saved : List (List Char × List Char)

namespace VehStore

/-- A device without cars. -/
def init (config : List Char) : VehStore := ⟨.init, config, fun _ => none, none, []⟩

def writeFile (st : VehStore) (key text : List Char) : VehStore :=
  { st with files := Function.update st.files key (some text) }

def deleteFile (st : VehStore) (key : List Char) : VehStore :=
  { st with files := Function.update st.files key none }

def snapshotPrevious (st : VehStore) (prev new : List Char) : VehStore :=
  if prev = [] ∨ prev = new then st else st.writeFile prev (vehCopyTables st.config)

/-- `autopid_config_save` and its mirror, `ap_vehicle_config_saved`. -/
def configSave (st : VehStore) (text : List Char) : VehStore :=
  match st.idx.carKey with
  | none => { st with config := text }
  | some cur => { st.writeFile cur text with
      config := text
      saved := (cur, text) :: st.saved }

section

-- what the loader leaves in a file that it reads
variable (load : List Char → List Char)

/-- `autopid_reload_config`: the loader may rewrite the file it reads. -/
def reloadConfig (st : VehStore) : VehStore := { st with config := load st.config }

/-- `ap_veh_switch_files` -/
def switchFiles (st : VehStore) (prev : List Char) : VehStore :=
  match st.idx.carKey with
  | none => st
  | some cur =>
    let st := st.snapshotPrevious prev cur
    { st with config := vehCopyTables ((st.files cur).getD []) }.reloadConfig load

/-- `ap_veh_new_car_files` -/
def newCarFiles (st : VehStore) (prev new stdConfig : List Char) : VehStore :=
  ((st.snapshotPrevious prev new).configSave stdConfig).reloadConfig load

/-- `autopid_vehicle_seen`: another known car is the current one at once, and
the switch of the files is queued with the key of the car before. -/
def seen (st : VehStore) (s : VehSeen) (now : ℤ) : VehStore :=
  let r := vehicleSeen st.idx s now
  if r.2 = .switched then
    { st with
      idx := r.1
      pending := some st.idx.currentKey }
  else { st with idx := r.1 }

/-- `writer_task` -/
def worker (st : VehStore) : VehStore :=
  match st.pending with
  | none => st
  | some prev => { st with pending := none }.switchFiles load prev

/-- `autopid_vehicle_activate` -/
def activate (st : VehStore) (key : List Char) : VehStore :=
  match vidxFindKey st.idx key with
  | none => st
  | some i =>
    if st.idx.current = some i then st
    else
      { st with idx := { st.idx with current := some i } }.switchFiles load st.idx.currentKey

/-- The evicted car's file goes. -/
def forget (st : VehStore) : Option VehEntry → VehStore
  | some e => st.deleteFile e.key
  | none => st

/-- `autopid_vehicle_detected` -/
def detected (st : VehStore) (s : VehSeen) (stdConfig : List Char) (now : ℤ) : VehStore :=
  match vehicleDetected st.idx s now with
  | .error _ => st
  | .ok d =>
    let next := { st with idx := d.idx }.forget d.evicted
    if d.known = true ∧ d.wasCurrent = true then next
    else if d.known then next.switchFiles load st.idx.currentKey
    else
      next.newCarFiles load st.idx.currentKey
        (((d.idx.v[d.pos]?).map VehEntry.key).getD []) stdConfig

/-- `autopid_vehicle_merge` -/
def merge (st : VehStore) (src dst : List Char) : VehStore :=
  match vehicleMerge st.idx src dst with
  | .error _ => st
  | .ok (idx, wasCurrent) =>
    let next := { st with idx := idx }.deleteFile src
    if wasCurrent then next.activate load dst else next

end

end VehStore

/-- An atomic step of the store. -/
inductive VehStep where
  | seen (s : VehSeen) (now : ℤ)
  | worker
  | activate (key : List Char)
  | save (text : List Char)
  | detected (s : VehSeen) (stdConfig : List Char) (now : ℤ)
  | merge (src dst : List Char)
  | reload

namespace VehStep

def apply (load : List Char → List Char) (st : VehStore) : VehStep → VehStore
  | seen s now => st.seen s now
  | worker => st.worker load
  | activate key => st.activate load key
  | save text => st.configSave text
  | detected s stdConfig now => st.detected load s stdConfig now
  | merge src dst => st.merge load src dst
  | reload => st.reloadConfig load

/-- The car that a sighting shows is the current one, or no car of the index. -/
def StaysSeen (idx : VehIndex) (s : VehSeen) : Prop :=
  ∀ i, vidxMatch idx s.vin s.ecus (vehFingerprint s.ecus) = some i → idx.current = some i

/-- A detection adds no car: nothing identifies one, or its key is in the index. -/
def AddsNone (idx : VehIndex) (s : VehSeen) : Prop :=
  vidxMatch idx s.vin s.ecus (vehFingerprint s.ecus) = none →
    (s.vin = [] ∧ vehFingerprint s.ecus = []) ∨ vidxKeyFor s.vin (vehFingerprint s.ecus) = [] ∨
      vidxKeyFor s.vin (vehFingerprint s.ecus) ∈ idx.keys

/-- The step leaves a queued switch alone: while one waits it neither moves the
current car nor saves tables. What the worker would do with the recorded key
allows a few more: nothing is written where no car was current before, and a
car's own tables may be recorded again. -/
def Waits (st : VehStore) : VehStep → Prop
  | seen s _ => st.pending = none ∨ st.pending = some st.idx.currentKey ∨ StaysSeen st.idx s
  | activate key =>
    st.pending = none ∨ ∀ i, vidxFindKey st.idx key = some i → st.idx.current = some i
  | save _ =>
    st.pending = none ∨ st.pending = some st.idx.currentKey ∨ st.pending = some []
  | detected s _ _ => st.pending = none ∨ StaysSeen st.idx s ∧ AddsNone st.idx s
  | merge src dst =>
    st.pending = none ∨ st.pending = some [] ∨ st.pending = some dst ∨
      ∀ i, vidxFindKey st.idx src = some i → st.idx.current ≠ some i
  | worker => True
  | reload => True

end VehStep

/-! ## Whose tables a text is -/

/-- What the store makes of tables that were saved: a copy of an empty file,
and what the loader rewrites. -/
inductive Rewritten (load : List Char → List Char) (text : List Char) : List Char → Prop
  | same : Rewritten load text text
  | copied {t : List Char} : Rewritten load text t → Rewritten load text (vehCopyTables t)
  | reloaded {t : List Char} : Rewritten load text t → Rewritten load text (load t)

theorem Rewritten.trans {load : List Char → List Char} {a b c : List Char} (h : Rewritten load a b)
    (h' : Rewritten load b c) : Rewritten load a c := by
  induction h' with
  | same => exact h
  | copied _ ih => exact ih.copied
  | reloaded _ ih => exact ih.reloaded

namespace VehStore

variable {load : List Char → List Char} {st : VehStore}

/-- The text is tables that were saved or scanned for the car. -/
def IsFor (load : List Char → List Char) (st : VehStore) (key text : List Char) : Prop :=
  ∃ t, (key, t) ∈ st.saved ∧ Rewritten load t text

theorem IsFor.rewritten (h : st.IsFor load key t) (hr : Rewritten load t text) :
    st.IsFor load key text := by
  obtain ⟨t₀, hsaved, h₀⟩ := h
  exact ⟨t₀, hsaved, h₀.trans hr⟩

/-- **One car's tables**: every tables file holds tables of its car, every car
has a file, and `config.json` is the current car's unless a switch waits. -/
structure TablesKept (load : List Char → List Char) (st : VehStore) : Prop where
  files : ∀ key text, st.files key = some text → st.IsFor load key text
  entry : ∀ key ∈ st.idx.keys, ∃ text, st.files key = some text
  current : st.pending = none → ∀ key, st.idx.carKey = some key →
    ∃ text, st.files key = some text ∧ Rewritten load text st.config

/-- What holds of the files alone, when the cars have these keys. -/
structure Held (load : List Char → List Char) (st : VehStore) (keys : List (List Char)) :
    Prop where
  keys_nodup : keys.Nodup
  files : ∀ key text, st.files key = some text → st.IsFor load key text
  entry : ∀ key ∈ keys, ∃ text, st.files key = some text

/-- The invariant: while a switch waits, `config.json` is still the recorded car's. -/
structure Kept (load : List Char → List Char) (st : VehStore) : Prop
    extends Held load st st.idx.keys where
  current : st.pending = none → ∀ key, st.idx.carKey = some key →
    ∃ text, st.files key = some text ∧ Rewritten load text st.config
  recorded : ∀ prev, st.pending = some prev → prev ≠ [] → st.IsFor load prev st.config

end VehStore

/-! ## What the calls do to the index -/

namespace VehIndex

variable {idx idx' : VehIndex}

theorem carKey_eq (idx : VehIndex) : idx.carKey = idx.current.bind (idx.keys[·]?) := by
  rw [carKey, keys]
  cases idx.current with
  | none => rfl
  | some c =>
    rw [bind_some, bind_some, List.getElem?_map]

theorem carKey_congr (hkeys : idx'.keys = idx.keys) (hcur : idx'.current = idx.current) :
    idx'.carKey = idx.carKey := by
  rw [carKey_eq, carKey_eq, hkeys, hcur]

theorem currentKey_eq (idx : VehIndex) : idx.currentKey = idx.carKey.getD [] := by
  rw [currentKey, carKey]
  cases idx.current.bind (idx.v[·]?) with
  | none => rfl
  | some e => rfl

theorem carKey_of_currentKey (h : idx.currentKey = key) (hne : key ≠ []) :
    idx.carKey = some key := by
  rw [currentKey_eq] at h
  cases hc : idx.carKey with
  | none =>
    rw [hc] at h
    exact absurd h.symm hne
  | some k =>
    rw [hc] at h
    exact congrArg some h

theorem mem_keys_of_carKey (h : idx.carKey = some key) : key ∈ idx.keys := by
  rw [carKey_eq] at h
  obtain ⟨c, -, hkey⟩ := bind_eq_some_iff.mp h
  exact mem_of_getElem? hkey

theorem keys_modify (idx : VehIndex) {f : VehEntry → VehEntry} (hkey : ∀ e, (f e).key = e.key)
    (i : ℕ) : (idx.modify i f).keys = idx.keys :=
  map_modify_of_eq hkey idx.v i

theorem keys_vidxRemove (hlt : i < idx.v.length) :
    (vidxRemove idx i).keys = idx.keys.eraseIdx i := by
  rw [vidxRemove_current hlt, keys, keys, eraseIdx_map]

theorem carKey_vidxRemove (hlt : i < idx.v.length) (hne : idx.current ≠ some i) :
    (vidxRemove idx i).carKey = idx.carKey := by
  rw [vidxRemove_current hlt, carKey, carKey]
  cases hc : idx.current with
  | none => rfl
  | some c =>
    have hci : c ≠ i := fun h => hne (h ▸ hc)
    rw [bind_some, getElem?_currentWithout hci, bind_some]

theorem not_mem_eraseIdx {keys : List (List Char)} (h : keys.Nodup) (hkey : keys[i]? = some key) :
    key ∉ keys.eraseIdx i := by
  intro hmem
  obtain ⟨j, hne, hj⟩ := mem_eraseIdx_iff_getElem?.mp hmem
  obtain ⟨hjlt, hjkey⟩ := List.getElem?_eq_some_iff.mp hj
  obtain ⟨hilt, hikey⟩ := List.getElem?_eq_some_iff.mp hkey
  exact hne (h.getElem_inj_iff.mp (hjkey.trans hikey.symm))

theorem carKey_of_some {e : VehEntry} (hcur : idx.current = some i) (he : idx.v[i]? = some e) :
    idx.carKey = some e.key := by
  rw [carKey, hcur, bind_some, he]
  rfl

end VehIndex

/-- **A sighting** changes no key, and moves the current car only when it switches. -/
theorem vehicleSeen_spec (idx : VehIndex) (s : VehSeen) (now : ℤ) :
    (vehicleSeen idx s now).1.keys = idx.keys ∧
      ((vehicleSeen idx s now).2 = .switched ∧ ¬ VehStep.StaysSeen idx s ∨
        (vehicleSeen idx s now).2 ≠ .switched ∧
          (vehicleSeen idx s now).1.current = idx.current) := by
  have hres : VehResult.none ≠ .switched ∧ VehResult.new ≠ .switched ∧
      VehResult.same ≠ .switched := by decide
  rw [vehicleSeen]
  split_ifs with hnone
  · exact ⟨rfl, .inr ⟨hres.1, rfl⟩⟩
  · cases hmatch : vidxMatch idx s.vin s.ecus (vehFingerprint s.ecus) with
    | none => exact ⟨rfl, .inr ⟨hres.2.1, rfl⟩⟩
    | some i =>
      have hkeys := keys_modify idx
        (f := fun e => (vidxTouch (vehRefineEntry e s (vehFingerprint s.ecus)).1 now).1)
        (fun e => (vidxTouch_spec _ now).1.trans (vehRefineEntry_spec e s _).1) i
      dsimp only
      split_ifs with hcur
      · exact ⟨hkeys, .inr ⟨hres.2.2, rfl⟩⟩
      · exact ⟨hkeys, .inl ⟨rfl, fun hstays => hcur (hstays i hmatch)⟩⟩

/-- What a detection of a known car, and of a new one, does to the keys. -/
inductive DetectedSpec (idx : VehIndex) (s : VehSeen) : VehDetected → Prop
  | known {d : VehDetected} (hknown : d.known = true) (hevicted : d.evicted = none)
      (hkeys : d.idx.keys = idx.keys)
      (hcur : d.wasCurrent = true → d.idx.current = idx.current)
      (hmoves : d.wasCurrent = false → ¬ VehStep.StaysSeen idx s) : DetectedSpec idx s d
  | new {d : VehDetected} {key : List Char} (hknown : d.known = false)
      (hadds : ¬ VehStep.AddsNone idx s) (hnew : key ∉ idx.keys) (hcar : d.idx.carKey = some key)
      (hpos : ((d.idx.v[d.pos]?).map VehEntry.key).getD [] = key)
      (hkeys : d.evicted = none ∧ d.idx.keys = idx.keys ++ [key] ∨
        ∃ l x, idx.v[l]? = some x ∧ d.evicted = some x ∧
          d.idx.keys = idx.keys.eraseIdx l ++ [key]) : DetectedSpec idx s d

theorem vehicleDetected_spec {idx : VehIndex} {d : VehDetected}
    (h : vehicleDetected idx s now = .ok d) : DetectedSpec idx s d := by
  rw [vehicleDetected] at h
  split_ifs at h with hnone
  cases hmatch : vidxMatch idx s.vin s.ecus (vehFingerprint s.ecus) with
  | some i =>
    rw [hmatch] at h
    obtain rfl := ok.inj h
    have hkeys := keys_modify idx (f := detectedKnown s (vehFingerprint s.ecus) now)
      (fun e => (vehRefineEntry_spec e s (vehFingerprint s.ecus)).1) i
    refine .known rfl rfl hkeys (fun hwas => ?_) (fun hwas hstays => ?_)
    · exact (of_decide_eq_true hwas).symm
    · exact of_decide_eq_false hwas (hstays i hmatch)
  | none =>
    rw [hmatch] at h
    have hspec := vidxAdd_spec idx (detectedNew s (vehFingerprint s.ecus) now)
    generalize vidxAdd idx (detectedNew s (vehFingerprint s.ecus) now) = added at h hspec
    have hadds : vidxKeyFor s.vin (vehFingerprint s.ecus) ≠ [] →
        vidxKeyFor s.vin (vehFingerprint s.ecus) ∉ idx.keys → ¬ VehStep.AddsNone idx s := by
      intro hkey hnew hadds
      rcases hadds hmatch with hid | hnil | hmem
      · exact hnone hid
      · exact hkey hnil
      · exact hnew hmem
    cases hspec with
    | refused => cases h
    | added hkey hnew hroom =>
      obtain rfl := ok.inj h
      refine .new rfl (hadds hkey hnew) hnew
        (carKey_of_some rfl List.getElem?_concat_length) ?_ (.inl ⟨rfl, ?_⟩)
      · rw [List.getElem?_concat_length]
        rfl
      · exact map_append
    | @evicted l x hkey hnew hfull hx hcur hmin =>
      obtain rfl := ok.inj h
      refine .new rfl (hadds hkey hnew) hnew
        (carKey_of_some rfl List.getElem?_concat_length) ?_ (.inr ⟨l, x, hx, rfl, ?_⟩)
      · rw [List.getElem?_concat_length]
        rfl
      · rw [VehIndex.keys, map_append, VehIndex.keys, eraseIdx_map]
        rfl

/-- **A merge** takes the source's key out; the current car stays unless it was the source. -/
theorem vehicleMerge_spec {idx idx' : VehIndex} {was : Bool}
    (h : vehicleMerge idx src dst = .ok (idx', was)) :
    ∃ i, vidxFindKey idx src = some i ∧ idx.keys[i]? = some src ∧
      idx'.keys = idx.keys.eraseIdx i ∧ src ≠ dst ∧ was = decide (idx.current = some i) ∧
      (idx.current ≠ some i → idx'.carKey = idx.carKey) ∧
      (idx.current = some i → idx'.current = none) := by
  obtain ⟨i, d, e, hs, -, he, rfl, hne, hwas⟩ := vehicleMerge_ok h
  obtain ⟨e', he', hkey⟩ := vidxFindKey_eq_some hs
  obtain ⟨hlt, -⟩ := List.getElem?_eq_some_iff.mp he
  have hlt' : i < (idx.modify d (mergeInto e)).v.length := by
    rw [VehIndex.modify, length_modify]
    exact hlt
  refine ⟨i, hs, ?_, ?_, hne, hwas, ?_, ?_⟩
  · rw [VehIndex.keys, List.getElem?_map, he', ← hkey]
    rfl
  · rw [keys_vidxRemove hlt', keys_modify _ (mergeInto_key e)]
  · intro hcur
    have hcur' : (idx.modify d (mergeInto e)).current ≠ some i := hcur
    rw [carKey_vidxRemove hlt' hcur']
    exact carKey_congr (keys_modify _ (mergeInto_key e) d) rfl
  · intro hcur
    have hcur' : (idx.modify d (mergeInto e)).current = some i := hcur
    rw [vidxRemove_current hlt', hcur', bind_some, currentWithout, if_pos rfl]

/-! ## What the file operations keep -/

namespace VehStore

variable {load : List Char → List Char} {st : VehStore} {keys : List (List Char)}

theorem writeFile_self (st : VehStore) (key text : List Char) :
    (st.writeFile key text).files key = some text := update_self ..

theorem writeFile_of_ne (st : VehStore) (hne : k ≠ key) (text : List Char) :
    (st.writeFile key text).files k = st.files k := update_of_ne hne ..

theorem deleteFile_self (st : VehStore) (key : List Char) : (st.deleteFile key).files key = none :=
  update_self ..

theorem deleteFile_of_ne (st : VehStore) (hne : k ≠ key) :
    (st.deleteFile key).files k = st.files k := update_of_ne hne ..

theorem Held.congr (h : st.Held load keys) {st' : VehStore} (hfiles : st'.files = st.files)
    (hsaved : st'.saved = st.saved) : st'.Held load keys := by
  refine ⟨h.keys_nodup, fun k t hk => ?_, fun k hk => ?_⟩
  · rw [hfiles] at hk
    rw [IsFor, hsaved]
    exact h.files k t hk
  · rw [hfiles]
    exact h.entry k hk

theorem Held.write (h : st.Held load keys) (hfor : st.IsFor load key text) :
    (st.writeFile key text).Held load keys := by
  refine ⟨h.keys_nodup, fun k t hk => ?_, fun k hk => ?_⟩
  · by_cases hkk : k = key
    · rw [hkk, writeFile_self] at hk
      rw [hkk, ← some.inj hk]
      exact hfor
    · rw [writeFile_of_ne st hkk] at hk
      exact h.files k t hk
  · by_cases hkk : k = key
    · exact ⟨text, by rw [hkk, writeFile_self]⟩
    · rw [writeFile_of_ne st hkk]
      exact h.entry k hk

theorem Held.delete (h : st.Held load keys) (hkey : keys[i]? = some key) :
    (st.deleteFile key).Held load (keys.eraseIdx i) := by
  have hsub := eraseIdx_sublist keys i
  refine ⟨h.keys_nodup.sublist hsub, fun k t hk => ?_, fun k hk => ?_⟩
  · by_cases hkk : k = key
    · rw [hkk, deleteFile_self] at hk
      cases hk
    · rw [deleteFile_of_ne _ hkk] at hk
      exact h.files k t hk
  · have hne : k ≠ key := by
      rintro rfl
      exact not_mem_eraseIdx h.keys_nodup hkey hk
    rw [deleteFile_of_ne _ hne]
    exact h.entry k (hsub.subset hk)

theorem Held.append (h : st.Held load keys) (hnew : key ∉ keys) (hfile : st.files key = some text) :
    st.Held load (keys ++ [key]) := by
  refine ⟨?_, h.files, fun k hk => ?_⟩
  · exact nodup_append.mpr ⟨h.keys_nodup, nodup_singleton key, fun a ha b hb => by
      rw [mem_singleton.mp hb]
      rintro rfl
      exact hnew ha⟩
  · rcases mem_append.mp hk with hk | hk
    · exact h.entry k hk
    · rw [mem_singleton.mp hk]
      exact ⟨text, hfile⟩

/-- **A snapshot** of tables that are the recorded car's. -/
theorem Held.snapshot (h : st.Held load keys) (new : List Char)
    (hprev : prev ≠ [] → st.IsFor load prev st.config) :
    (st.snapshotPrevious prev new).Held load keys := by
  rw [snapshotPrevious]
  split_ifs with hskip
  · exact h
  · rw [not_or] at hskip
    exact h.write ((hprev hskip.1).rewritten Rewritten.same.copied)

theorem snapshotPrevious_frame (st : VehStore) (prev new : List Char) :
    (st.snapshotPrevious prev new).idx = st.idx ∧
      (st.snapshotPrevious prev new).pending = st.pending := by
  rw [snapshotPrevious]
  split_ifs <;> exact ⟨rfl, rfl⟩

/-- **A switch** of the files: what the recorded car had is in its file, and
`config.json` has the current car's tables. -/
theorem Held.switch (h : st.Held load st.idx.keys)
    (hprev : prev ≠ [] → st.IsFor load prev st.config) :
    (st.switchFiles load prev).Held load st.idx.keys ∧ (st.switchFiles load prev).idx = st.idx ∧
      (st.switchFiles load prev).pending = st.pending ∧
      ∀ key, st.idx.carKey = some key → ∃ text, (st.switchFiles load prev).files key = some text ∧
          Rewritten load text (st.switchFiles load prev).config := by
  rw [switchFiles]
  cases hcar : st.idx.carKey with
  | none => exact ⟨h, rfl, rfl, nofun⟩
  | some cur =>
    have hsnap := h.snapshot cur hprev
    obtain ⟨hidx, hpending⟩ := snapshotPrevious_frame st prev cur
    refine ⟨hsnap.congr rfl rfl, hidx, hpending, ?_⟩
    rintro key ⟨⟩
    obtain ⟨text, htext⟩ := hsnap.entry cur (mem_keys_of_carKey hcar)
    have hcopied : Rewritten load text
        (load (vehCopyTables (((st.snapshotPrevious prev cur).files cur).getD []))) := by
      rw [htext]
      exact Rewritten.same.copied.reloaded
    exact ⟨text, htext, hcopied⟩

theorem Held.save (h : st.Held load keys) (text : List Char) :
    (st.configSave text).Held load keys := by
  rw [configSave]
  cases st.idx.carKey with
  | none => exact h.congr rfl rfl
  | some cur =>
    refine ⟨h.keys_nodup, fun k t hk => ?_, fun k hk => ?_⟩
    · by_cases hkk : k = cur
      · obtain rfl := some.inj ((st.writeFile_self cur text).symm.trans (hkk ▸ hk))
        exact ⟨text, hkk ▸ mem_cons_self, .same⟩
      · obtain ⟨t₀, hmem, hr⟩ := h.files k t ((st.writeFile_of_ne hkk text).symm.trans hk)
        exact ⟨t₀, mem_cons_of_mem _ hmem, hr⟩
    · by_cases hkk : k = cur
      · exact ⟨text, hkk ▸ st.writeFile_self cur text⟩
      · obtain ⟨t, ht⟩ := h.entry k hk
        exact ⟨t, (st.writeFile_of_ne hkk text).trans ht⟩

theorem configSave_current (st : VehStore) (text : List Char) :
    (st.configSave text).idx = st.idx ∧ (st.configSave text).config = text ∧
      (st.configSave text).pending = st.pending ∧
      ∀ key, st.idx.carKey = some key →
        (st.configSave text).files key = some text ∧ (key, text) ∈ (st.configSave text).saved := by
  rw [configSave]
  cases st.idx.carKey with
  | none => exact ⟨rfl, rfl, rfl, nofun⟩
  | some cur =>
    refine ⟨rfl, rfl, rfl, ?_⟩
    rintro key ⟨⟩
    exact ⟨update_self .., mem_cons_self⟩

theorem Kept.isFor_config (h : st.Kept load) (hidle : st.pending = none)
    (hcar : st.idx.carKey = some key) : st.IsFor load key st.config := by
  obtain ⟨text, htext, hr⟩ := h.current hidle key hcar
  exact (h.files key text htext).rewritten hr

theorem Kept.isFor_currentKey (h : st.Kept load)
    (hsettled : st.pending = none ∨ st.pending = some st.idx.currentKey)
    (hne : st.idx.currentKey ≠ []) : st.IsFor load st.idx.currentKey st.config := by
  rcases hsettled with hidle | hown
  · exact h.isFor_config hidle (carKey_of_currentKey rfl hne)
  · exact h.recorded _ hown hne

/-! ## One step -/

theorem Kept.same (h : st.Kept load) {idx : VehIndex} (hkeys : idx.keys = st.idx.keys)
    (hcur : idx.current = st.idx.current) : { st with idx := idx }.Kept load := by
  have hheld : { st with idx := idx }.Held load idx.keys := hkeys.symm ▸ h.toHeld.congr rfl rfl
  refine ⟨hheld, fun hidle key hcar => ?_, h.recorded⟩
  exact h.current hidle key ((carKey_congr hkeys hcur).symm.trans hcar)

theorem Kept.seen (h : st.Kept load) (hwaits : (VehStep.seen s now).Waits st) :
    (st.seen s now).Kept load := by
  obtain ⟨hkeys, hmove⟩ := vehicleSeen_spec st.idx s now
  rw [VehStore.seen]
  rcases hmove with ⟨hres, hmoves⟩ | ⟨hres, hcur⟩
  · rw [if_pos hres]
    have hsettled : st.pending = none ∨ st.pending = some st.idx.currentKey :=
      hwaits.imp_right fun hw => hw.resolve_right hmoves
    have hheld : Held load { st with
        idx := (vehicleSeen st.idx s now).1
        pending := some st.idx.currentKey } (vehicleSeen st.idx s now).1.keys :=
      hkeys.symm ▸ h.toHeld.congr rfl rfl
    refine ⟨hheld, nofun, ?_⟩
    rintro prev ⟨⟩ hne
    exact h.isFor_currentKey hsettled hne
  · rw [if_neg hres]
    exact h.same hkeys hcur

theorem Kept.worker (h : st.Kept load) : (st.worker load).Kept load := by
  rw [VehStore.worker]
  cases hpending : st.pending with
  | none => exact h
  | some prev =>
    have hidle : Held load { st with pending := none } st.idx.keys := h.toHeld.congr rfl rfl
    obtain ⟨hheld, hidx, hnone, hcurrent⟩ := hidle.switch (h.recorded prev hpending)
    refine ⟨hidx.symm ▸ hheld, fun _ key hcar => hcurrent key (hidx ▸ hcar), fun p hp => ?_⟩
    rw [hnone] at hp
    cases hp

/-- **The current car moves** and its files with it: nothing waits, or only a
switch back to this very car. -/
theorem Held.moveTo {idx : VehIndex} (h : st.Held load idx.keys)
    (hprev : prev ≠ [] → st.IsFor load prev st.config)
    (hpending : ∀ p, st.pending = some p → p ≠ [] → idx.carKey = some p) :
    ({ st with idx := idx }.switchFiles load prev).Kept load := by
  have hmoved : Held load { st with idx := idx } idx.keys := h.congr rfl rfl
  obtain ⟨hheld, hidx, hsame, hcurrent⟩ := hmoved.switch hprev
  refine ⟨hidx.symm ▸ hheld, fun _ key hcar => hcurrent key (hidx ▸ hcar), fun p hp hne => ?_⟩
  rw [hsame] at hp
  obtain ⟨text, htext, hr⟩ := hcurrent p (hpending p hp hne)
  exact (hheld.files p text htext).rewritten hr

theorem Kept.activate (h : st.Kept load) (hwaits : (VehStep.activate key).Waits st) :
    (st.activate load key).Kept load := by
  rw [VehStore.activate]
  cases hfind : vidxFindKey st.idx key with
  | none => exact h
  | some i =>
    dsimp only
    split_ifs with hcur
    · exact h
    · have hidle : st.pending = none := hwaits.resolve_right fun hw => hcur (hw i hfind)
      refine Held.moveTo h.toHeld (h.isFor_currentKey (.inl hidle)) fun p hp => ?_
      rw [hidle] at hp
      cases hp

theorem Kept.save (h : st.Kept load) (hwaits : (VehStep.save text).Waits st) :
    (st.configSave text).Kept load := by
  obtain ⟨hidx, hconfig, hpending, hcurrent⟩ := configSave_current st text
  refine ⟨hidx.symm ▸ h.toHeld.save text, ?_, ?_⟩
  · intro _ key hcar
    rw [hconfig]
    exact ⟨text, (hcurrent key (hidx ▸ hcar)).1, .same⟩
  · intro prev hprev hne
    rw [hpending] at hprev
    -- the recorded key is the current car's own
    have hown : st.idx.currentKey = prev := by
      rcases hwaits with hidle | hown | hnil
      · rw [hidle] at hprev
        cases hprev
      · exact some.inj (hown.symm.trans hprev)
      · exact absurd (some.inj (hprev.symm.trans hnil)) hne
    rw [hconfig]
    exact ⟨text, (hcurrent prev (carKey_of_currentKey hown hne)).2, .same⟩

theorem Kept.reload (h : st.Kept load) : (st.reloadConfig load).Kept load := by
  refine ⟨h.toHeld.congr rfl rfl, fun hidle key hcar => ?_, fun prev hprev hne => ?_⟩
  · obtain ⟨text, htext, hr⟩ := h.current hidle key hcar
    exact ⟨text, htext, hr.reloaded⟩
  · exact (h.recorded prev hprev hne).rewritten Rewritten.same.reloaded

/-- **A new car's files**, when nothing waits. -/
theorem Held.newCar (h : st.Held load keys) (text : List Char)
    (hprev : prev ≠ [] → st.IsFor load prev st.config) (hidle : st.pending = none)
    (hnew : key ∉ keys) (hcar : st.idx.carKey = some key) (hkeys : st.idx.keys = keys ++ [key]) :
    (st.newCarFiles load prev key text).Kept load := by
  obtain ⟨hidx, hpending⟩ := snapshotPrevious_frame st prev key
  have hsaved := (h.snapshot key hprev).save text
  obtain ⟨hidx', hconfig, hpending', hcurrent⟩ :=
    configSave_current (st.snapshotPrevious prev key) text
  obtain ⟨hfile, -⟩ := hcurrent key (hidx ▸ hcar)
  have hheld : ((st.snapshotPrevious prev key).configSave text).Held load
      ((st.snapshotPrevious prev key).configSave text).idx.keys := by
    rw [hidx', hidx, hkeys]
    exact hsaved.append hnew hfile
  refine ⟨hheld.congr rfl rfl, fun _ k hk => ?_, fun p hp => ?_⟩
  · have hk' : ((st.snapshotPrevious prev key).configSave text).idx.carKey = some k := hk
    rw [hidx', hidx, hcar] at hk'
    obtain rfl := some.inj hk'
    refine ⟨text, hfile, ?_⟩
    rw [newCarFiles, reloadConfig, hconfig]
    exact Rewritten.same.reloaded
  · have hp' : ((st.snapshotPrevious prev key).configSave text).pending = some p := hp
    rw [hpending', hpending, hidle] at hp'
    cases hp'

theorem Kept.detected (h : st.Kept load) {stdConfig : List Char}
    (hwaits : (VehStep.detected s stdConfig now).Waits st) :
    (st.detected load s stdConfig now).Kept load := by
  rw [VehStore.detected]
  cases hd : vehicleDetected st.idx s now with
  | error _ => exact h
  | ok d =>
    dsimp only
    cases vehicleDetected_spec hd with
    | known hknown hevicted hkeys hcur hmoves =>
      rw [hevicted, hknown]
      cases hwas : d.wasCurrent with
      | true => exact h.same hkeys (hcur hwas)
      | false =>
        have hidle : st.pending = none := hwaits.resolve_right fun hw => hmoves hwas hw.1
        refine Held.moveTo (hkeys.symm ▸ h.toHeld) (h.isFor_currentKey (.inl hidle)) fun p hp => ?_
        rw [hidle] at hp
        cases hp
    | @new key hknown hadds hnew hcar hpos hkeys =>
      have hidle : st.pending = none := hwaits.resolve_right fun hw => hadds hw.2
      have hprev := h.isFor_currentKey (.inl hidle)
      rw [hknown, hpos]
      rcases hkeys with ⟨hevicted, hkeys⟩ | ⟨l, x, hx, hevicted, hkeys⟩
      · rw [hevicted]
        have hheld : Held load { st with idx := d.idx } st.idx.keys := h.toHeld.congr rfl rfl
        exact hheld.newCar stdConfig hprev hidle hnew hcar hkeys
      · rw [hevicted]
        have hold : Held load { st with idx := d.idx } st.idx.keys := h.toHeld.congr rfl rfl
        have hx' : st.idx.keys[l]? = some x.key := by
          rw [VehIndex.keys, List.getElem?_map, hx]
          rfl
        have hnew' : key ∉ st.idx.keys.eraseIdx l :=
          fun hmem => hnew ((eraseIdx_sublist _ l).subset hmem)
        exact (hold.delete hx').newCar stdConfig hprev hidle hnew' hcar hkeys

theorem Held.takeOver (h : st.Held load st.idx.keys) (hnone : st.idx.current = none)
    (hpending : ∀ p, st.pending = some p → p ≠ [] → st.IsFor load p st.config ∧ p = key) :
    (st.activate load key).Kept load := by
  have hcar : st.idx.carKey = none := by
    rw [VehIndex.carKey, hnone]
    rfl
  rw [VehStore.activate]
  cases hfind : vidxFindKey st.idx key with
  | none =>
    refine ⟨h, fun _ k hk => ?_, fun p hp hne => (hpending p hp hne).1⟩
    rw [hcar] at hk
    cases hk
  | some i =>
    obtain ⟨e, he, rfl⟩ := vidxFindKey_eq_some hfind
    rw [hnone]
    have hprev : st.idx.currentKey = [] := by
      rw [currentKey_eq, hcar]
      rfl
    refine Held.moveTo h (fun hne => absurd hprev hne) fun p hp hne => ?_
    rw [(hpending p hp hne).2]
    exact carKey_of_some rfl he

theorem Kept.merge (h : st.Kept load) (hwaits : (VehStep.merge src dst).Waits st) :
    (st.merge load src dst).Kept load := by
  rw [VehStore.merge]
  cases hmerge : vehicleMerge st.idx src dst with
  | error _ => exact h
  | ok r =>
    obtain ⟨idx, was⟩ := r
    obtain ⟨i, hfind, hsrc, hkeys, hne, hwas, hstays, hgone⟩ := vehicleMerge_spec hmerge
    have hheld : Held load ({ st with idx := idx }.deleteFile src) idx.keys := by
      have hold : Held load { st with idx := idx } st.idx.keys := h.toHeld.congr rfl rfl
      exact hkeys.symm ▸ hold.delete hsrc
    by_cases hcur : st.idx.current = some i
    · rw [hwas, decide_eq_true hcur]
      have hnone : idx.current = none := hgone hcur
      refine Held.takeOver hheld hnone fun p hp hpne => ⟨h.recorded p hp hpne, ?_⟩
      rcases hwaits with hidle | hnil | hown | hother
      · exact absurd (hidle.symm.trans hp) nofun
      · exact absurd (some.inj (hp.symm.trans hnil)) hpne
      · exact some.inj (hp.symm.trans hown)
      · exact absurd hcur (hother i hfind)
    · rw [hwas, decide_eq_false hcur]
      refine ⟨hheld, fun hidle key hcar => ?_, h.recorded⟩
      have hcar : idx.carKey = some key := hcar
      obtain ⟨text, htext, hr⟩ := h.current hidle key ((hstays hcur).symm.trans hcar)
      have hmem := mem_keys_of_carKey hcar
      rw [hkeys] at hmem
      have hother : key ≠ src := by
        rintro rfl
        exact not_mem_eraseIdx h.keys_nodup hsrc hmem
      exact ⟨text, (deleteFile_of_ne _ hother).trans htext, hr⟩

end VehStore

/-! ## Runs -/

/-- A step that leaves a queued switch alone. -/
def WaitingStep (load : List Char → List Char) (st : VehStore) (step : VehStep) (st' : VehStore) :
    Prop :=
  step.Waits st ∧ st' = step.apply load st

theorem WaitingStep.kept {load : List Char → List Char} {st st' : VehStore} {step : VehStep}
    (hstep : WaitingStep load st step st') (h : st.Kept load) : st'.Kept load := by
  obtain ⟨hwaits, rfl⟩ := hstep
  cases step with
  | seen s now => exact h.seen hwaits
  | worker => exact h.worker
  | activate key => exact h.activate hwaits
  | save text => exact h.save hwaits
  | detected s stdConfig now => exact h.detected hwaits
  | merge src dst => exact h.merge hwaits
  | reload => exact h.reload

theorem VehStore.Kept.init (load : List Char → List Char) (config : List Char) :
    (VehStore.init config).Kept load :=
  ⟨⟨nodup_nil, nofun, fun _ hk => absurd hk not_mem_nil⟩, fun _ _ => nofun, nofun⟩

/-- **One car's tables never overwrite another's** in a run whose steps leave
queued switches alone. -/
theorem vehicleStore_tables {load : List Char → List Char} {config : List Char}
    {steps : List VehStep} {st : VehStore}
    (hrun : Run (WaitingStep load) (VehStore.init config) steps st) : st.TablesKept load := by
  have hkept : st.Kept load :=
    hrun.inv (I := VehStore.Kept load) (fun _ _ _ hstep => hstep.kept) (.init load config)
  exact ⟨hkept.files, hkept.entry, hkept.current⟩

/-! ## Two cars that answer in turn -/

def firstCar : List Char := "1WCAN0FW0P0000001".toList
def secondCar : List Char := "1WCAN0FW0P0000002".toList

def seenVin (vin : List Char) : VehSeen := { seenByVin [] with vin := vin }

def secondTables : List Char := "\x7b\"groups\":[],\"pids\":[]\x7d".toList

/-- Both cars are detected, and the first one is seen again. -/
def bothDetected : List VehStep :=
  [.detected (seenVin firstCar) vehEmptyConfig 1759300000,
   .detected (seenVin secondCar) secondTables 1759300100, .seen (seenVin firstCar) 1759300200]

theorem vehicleStore_tables_two :
    ∃ st, st = bothDetected.foldl (VehStep.apply id) (VehStore.init []) ∧ st.TablesKept id ∧
      st.pending = some secondCar := by
  have hrun : Run (WaitingStep id) (VehStore.init []) bothDetected
      (bothDetected.foldl (VehStep.apply id) (VehStore.init [])) :=
    .cons ⟨.inl rfl, rfl⟩ (.cons ⟨.inl rfl, rfl⟩ (.cons ⟨.inl rfl, rfl⟩ (.nil _)))
  exact ⟨_, rfl, vehicleStore_tables hrun, rfl⟩

theorem Rewritten.eq_of_id (h : Rewritten id text t) (hne : text ≠ []) : t = text := by
  induction h with
  | same => rfl
  | copied _ ih => rw [ih, vehCopyTables, if_neg hne]
  | reloaded _ ih => exact ih

/-- The second car is back before the worker ran: it takes what is in
`config.json`, the second car's tables, for the first car's. -/
theorem vehicleStore_mixed :
    ∃ st, Run (fun st step st' => st' = VehStep.apply id st step) (VehStore.init [])
        (bothDetected ++ [.seen (seenVin secondCar) 1759300300, .worker]) st ∧
      st.files firstCar = some secondTables ∧ ¬ st.TablesKept id := by
  refine ⟨_, .cons rfl (.cons rfl (.cons rfl (.cons rfl (.cons rfl (.nil _))))), by decide, ?_⟩
  intro hkept
  obtain ⟨t, hsaved, hr⟩ := hkept.files firstCar secondTables (by decide)
  have hfirst : (firstCar, t) ∈ [(secondCar, secondTables), (firstCar, vehEmptyConfig)] := hsaved
  rcases mem_cons.mp hfirst with heq | heq
  · have hcars : firstCar = secondCar := congrArg Prod.fst heq
    exact absurd hcars (by decide)
  · obtain rfl := congrArg Prod.snd (mem_singleton.mp heq)
    exact absurd (hr.eq_of_id (by decide)) (by decide)

end Meatpi
