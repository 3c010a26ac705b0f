import Mathlib.Data.List.Basic
import Meatpi.Library.Numeral

/-!
# The vehicle store's index (`autopid_vehicle_index.c`, `autopid_vehicle_switch.c`)

One entry for each car, at most eight, in an array whose positions the index of
the current car refers to. The array and its count are a list; `current` is
`none` where the code has `-1`; a string is its characters. What a sighting, a
detection, a merge or an edit does to the index under the store's lock is here;
what happens to files is not.
-/

namespace Meatpi

/-- `AP_VEH_MAX` -/
def vehMax : ℕ := 8
/-- `AP_VEH_FACES_MAX` -/
def vehFacesMax : ℕ := 4
/-- `AP_VEH_ECUS_MAX` -/
def vehEcusMax : ℕ := 8
/-- `AP_RESP_ECUS_MAX` -/
def respEcusMax : ℕ := 8
/-- `AP_VEH_TOUCH_PERIOD_S` -/
def vehTouchPeriodS : ℤ := 86400
/-- `AP_VEH_NAME_LEN` -/
def vehNameLen : ℕ := 32
/-- `AP_VEH_PROFILE_LEN` -/
def vehProfileLen : ℕ := 64
/-- `AP_VEH_INIT_LEN` -/
def vehInitLen : ℕ := 96

inductive ApDialect where
  | obd2
  | uds
  | j1939
  deriving DecidableEq

/-- `AP_VEH_BY_OBD`, `AP_VEH_BY_PROFILE` -/
inductive VehConfirmed where
  | obd
  | profile
  deriving DecidableEq

/-- `ap_veh_ecu_t` -/
structure VehEcu where
  id : UInt32
  bitmap : UInt32

/-- `ap_veh_entry_t` -/
structure VehEntry where
  key : List Char
  vin : List Char
  fingerprint : List Char
  name : List Char
  protocol : List Char
  chipProtocol : List Char
  dialect : ApDialect
  j1939 : Bool
  profile : List Char
  specificInit : List Char
  ecus : List VehEcu
  stdSupported : UInt16
  pendingProfile : Bool
  firstSeen : ℤ
  lastSeen : ℤ
  scanTs : ℤ
  faces : List (List Char)
  confirmedBy : VehConfirmed

/-- `ap_veh_index_t` -/
structure VehIndex where
  v : List VehEntry
  current : Option ℕ

/-- `ap_veh_seen_t` -/
structure VehSeen where
  protocol : List Char
  vin : List Char
  ecus : List VehEcu
  dialect : ApDialect
  j1939 : Bool
  stdSupported : UInt16
  confirmedBy : VehConfirmed

/-! ## Fingerprints and keys -/

def isLowerHex (c : Char) : Bool := ('0' ≤ c && c ≤ '9') || ('a' ≤ c && c ≤ 'f')

def fpValid (fp : List Char) : Bool := fp.length == 8 && fp.all isLowerHex

def isVinChar (c : Char) : Bool :=
  (('0' ≤ c && c ≤ '9') || ('A' ≤ c && c ≤ 'Z')) && !(c == 'I' || c == 'O' || c == 'Q')

/-- `ap_veh_vin_valid` -/
def vinValid (vin : List Char) : Bool := vin.length == 17 && vin.all isVinChar

/-- A responder goes into the table sorted by id; one that is there gets the bits. -/
def fpInsert (e : VehEcu) : List VehEcu → List VehEcu
  | [] => [e]
  | x :: xs =>
    if x.id < e.id then x :: fpInsert e xs
    else if x.id = e.id then { x with bitmap := x.bitmap ||| e.bitmap } :: xs
    else e :: x :: xs

/-- The sorted and merged copy of `ap_veh_fingerprint`; a full table ends it. -/
def fpTable : List VehEcu → List VehEcu → List VehEcu
  | [], s => s
  | e :: es, s => if s.length < respEcusMax then fpTable es (fpInsert e s) else s

/-- The bytes of a word, the highest first. -/
def wordBytes (w : UInt32) : List UInt32 :=
  [w >>> 24 &&& 255, w >>> 16 &&& 255, w >>> 8 &&& 255, w &&& 255]

/-- FNV-1a over the bytes of the table. -/
def fpHash (s : List VehEcu) : UInt32 :=
  (s.flatMap fun e => wordBytes e.id ++ wordBytes e.bitmap).foldl
    (fun h b => (h ^^^ b) * 16777619) 2166136261

def lowerHexChar (d : ℕ) : Char := if d < 10 then Char.ofNat (48 + d) else Char.ofNat (87 + d)

/-- `%08x` -/
def lowerHexWord (w : UInt32) : List Char := (digitsBE 16 8 w.toNat).map lowerHexChar

/-- `ap_veh_fingerprint` -/
def vehFingerprint (ecus : List VehEcu) : List Char :=
  if ecus = [] then [] else lowerHexWord (fpHash (fpTable ecus []))

/-- The key of a fingerprint. -/
def fpKey (fp : List Char) : List Char := 'f' :: 'p' :: ':' :: fp

/-- `ap_vidx_key_for` -/
def vidxKeyFor (vin fp : List Char) : List Char :=
  if vinValid vin then vin else if fpValid fp then fpKey fp else []

/-- `ap_vidx_key_valid` -/
def vidxKeyValid (key : List Char) : Bool :=
  if (fpKey []).isPrefixOf key then fpValid (key.drop 3) else vinValid key

/-- `ap_vidx_default_name` -/
def vidxDefaultName (vin fp : List Char) : List Char :=
  if vinValid vin then vin.take 3 ++ ' ' :: vin.drop 13
  else if fpValid fp then "Car ".toList ++ fp.take 4
  else "Vehicle".toList

/-! ## Lookups -/

/-- The first entry that has it; an empty text is not looked for. -/
def vidxFindBy (idx : VehIndex) (s : List Char) (p : VehEntry → Bool) : Option ℕ :=
  if s = [] then none else idx.v.findIdx? p

/-- `ap_vidx_find_key` -/
def vidxFindKey (idx : VehIndex) (key : List Char) : Option ℕ :=
  vidxFindBy idx key fun e => e.key == key

/-- `ap_vidx_find_vin` -/
def vidxFindVin (idx : VehIndex) (vin : List Char) : Option ℕ :=
  vidxFindBy idx vin fun e => e.vin == vin

/-- `ap_vidx_find_fp` -/
def vidxFindFp (idx : VehIndex) (fp : List Char) : Option ℕ :=
  vidxFindBy idx fp fun e => e.fingerprint == fp

def faceHas (e : VehEntry) (fp : List Char) : Bool := e.faces.contains fp

/-- `ap_vidx_find_face` -/
def vidxFindFace (idx : VehIndex) (fp : List Char) : Option ℕ :=
  (vidxFindFp idx fp).or (vidxFindBy idx fp fun e => faceHas e fp)

/-- `ap_vidx_face_add` -/
def vidxFaceAdd (e : VehEntry) (fp : List Char) : VehEntry × Bool :=
  if !fpValid fp || e.fingerprint == fp || faceHas e fp then (e, false)
  else
    -- the oldest face goes
    let faces := if vehFacesMax ≤ e.faces.length then e.faces.tail else e.faces
    ({ e with faces := faces ++ [fp] }, true)

def ecuIn (e : VehEcu) (set : List VehEcu) : Bool :=
  match set.find? (·.id == e.id) with
  | some x => x.bitmap == e.bitmap
  | none => false

/-- `ap_veh_ecus_subset` -/
def vehEcusSubset (a b : List VehEcu) : Bool :=
  if a = [] ∨ b = [] then false
  else if a.length ≤ b.length then a.all (ecuIn · b) else b.all (ecuIn · a)

/-- An entry without a VIN that the fingerprint or the subset rule names. -/
def adopts (e : VehEntry) (ecus : List VehEcu) (fp : List Char) : Bool :=
  e.vin == [] &&
    ((fp != [] && (e.fingerprint == fp || faceHas e fp)) || vehEcusSubset e.ecus ecus)

/-- `ap_vidx_match` -/
def vidxMatch (idx : VehIndex) (vin : List Char) (ecus : List VehEcu) (fp : List Char) : Option ℕ :=
  if vin ≠ [] then (vidxFindVin idx vin).or (idx.v.findIdx? fun e => adopts e ecus fp)
  else (vidxFindFace idx fp).or (idx.v.findIdx? fun e => vehEcusSubset e.ecus ecus)

/-! ## Changes of the index -/

/-- `ap_vidx_init` -/
def VehIndex.init : VehIndex := ⟨[], none⟩

/-- One round of `ap_vidx_lru`: an entry and its position. -/
def lruStep (current : Option ℕ) (pick : Option (VehEntry × ℕ)) (e : VehEntry × ℕ) :
    Option (VehEntry × ℕ) :=
  if current = some e.2 then pick
  else
    match pick with
    | none => some e
    | some p =>
      if e.1.lastSeen < p.1.lastSeen ∨
        e.1.lastSeen = p.1.lastSeen ∧ e.1.firstSeen < p.1.firstSeen then some e
      else pick

/-- `ap_vidx_lru` -/
def vidxLru (idx : VehIndex) : Option ℕ :=
  (idx.v.zipIdx.foldl (lruStep idx.current) none).map Prod.snd

/-- What a position is called once the entry at `i` is gone. -/
def currentWithout (i : ℕ) (c : ℕ) : Option ℕ :=
  if c = i then none else if i < c then some (c - 1) else some c

/-- `ap_vidx_remove` -/
def vidxRemove (idx : VehIndex) (i : ℕ) : VehIndex :=
  if i < idx.v.length then ⟨idx.v.eraseIdx i, idx.current.bind (currentWithout i)⟩ else idx

/-- What `ap_vidx_add` returns: the index, where the entry is, and the entry
that was evicted. -/
structure VidxAdded where
  idx : VehIndex
  pos : Option ℕ
  evicted : Option VehEntry

/-- The end of `ap_vidx_add`. -/
def vidxAppend (idx : VehIndex) (e : VehEntry) (evicted : Option VehEntry) : VidxAdded :=
  ⟨{ idx with v := idx.v ++ [e] }, some idx.v.length, evicted⟩

/-- `ap_vidx_add` -/
def vidxAdd (idx : VehIndex) (e : VehEntry) : VidxAdded :=
  if e.key = [] ∨ (vidxFindKey idx e.key).isSome then ⟨idx, none, none⟩
  else if idx.v.length < vehMax then vidxAppend idx e none
  else
    match vidxLru idx with
    | none => ⟨idx, none, none⟩
    | some l => vidxAppend (vidxRemove idx l) e idx.v[l]?

/-- `ap_vidx_touch`; the clock is set when `now` is positive. -/
def vidxTouch (e : VehEntry) (now : ℤ) : VehEntry × Bool :=
  if now ≤ 0 then (e, false)
  else
    let first := e.firstSeen == 0
    let last := e.lastSeen == 0 || decide (vehTouchPeriodS ≤ now - e.lastSeen)
    ({ e with
        firstSeen := if first then now else e.firstSeen
        lastSeen := if last then now else e.lastSeen }, first || last)

/-! ## Refining an entry -/

/-- A VIN the entry lacked. -/
def refineVin (seen : VehSeen) (st : VehEntry × Bool) : VehEntry × Bool :=
  if seen.vin ≠ [] ∧ st.1.vin = [] then ({ st.1 with vin := seen.vin }, true) else st

/-- A protocol that was detected again. -/
def refineProtocol (seen : VehSeen) (st : VehEntry × Bool) : VehEntry × Bool :=
  if seen.protocol ≠ [] ∧ st.1.protocol ≠ seen.protocol then
    ({ st.1 with protocol := seen.protocol }, true)
  else st

/-- The listener never takes a chip dialect away. -/
def listenerOnly (e : VehEntry) (seen : VehSeen) : Bool :=
  e.dialect != .j1939 && seen.dialect == .j1939

def refineDialect (seen : VehSeen) (st : VehEntry × Bool) : VehEntry × Bool :=
  if st.1.dialect ≠ seen.dialect ∧ listenerOnly st.1 seen = false then
    ({ st.1 with dialect := seen.dialect }, true)
  else st

def refineJ1939 (seen : VehSeen) (st : VehEntry × Bool) : VehEntry × Bool :=
  if seen.j1939 = true ∧ st.1.j1939 = false then ({ st.1 with j1939 := true }, true) else st

/-- The VIN decided: the latest responders and their fingerprint. -/
def refinePicture (seen : VehSeen) (fp : List Char) (st : VehEntry × Bool) : VehEntry × Bool :=
  if seen.vin ≠ [] ∧ st.1.vin = seen.vin ∧ seen.ecus ≠ [] ∧ fp ≠ [] ∧ st.1.fingerprint ≠ fp ∧
      listenerOnly st.1 seen = false then
    ({ st.1 with
        ecus := seen.ecus
        fingerprint := fp }, true)
  else st

/-- `ap_veh_refine_entry` -/
def vehRefineEntry (e : VehEntry) (seen : VehSeen) (fp : List Char) : VehEntry × Bool :=
  refinePicture seen fp
    (refineJ1939 seen (refineDialect seen (refineProtocol seen (refineVin seen (e, false)))))

/-! ## The store's calls, as far as the index goes -/

/-- An entry is written. -/
def VehIndex.modify (idx : VehIndex) (i : ℕ) (f : VehEntry → VehEntry) : VehIndex :=
  { idx with v := idx.v.modify i f }

/-- `ap_veh_result_t` -/
inductive VehResult where
  | none
  | same
  | switched
  | new
  deriving DecidableEq

/-- `autopid_vehicle_seen`: the index and what it returns. -/
def vehicleSeen (idx : VehIndex) (seen : VehSeen) (now : ℤ) : VehIndex × VehResult :=
  let fp := vehFingerprint seen.ecus
  if seen.vin = [] ∧ fp = [] then (idx, .none)
  else
    match vidxMatch idx seen.vin seen.ecus fp with
    | none => (idx, .new)
    | some i =>
      let idx' := idx.modify i fun e => (vidxTouch (vehRefineEntry e seen fp).1 now).1
      if idx.current = some i then (idx', .same) else ({ idx' with current := some i }, .switched)

/-- `esp_err_t`, as far as these calls return one. -/
inductive VehErr where
  | invalidArg
  | notFound
  | fail

/-- The entry of a known car after a detection. -/
def detectedKnown (seen : VehSeen) (fp : List Char) (now : ℤ) (e : VehEntry) : VehEntry :=
  let e := (vehRefineEntry e seen fp).1
  { e with
    stdSupported := seen.stdSupported
    scanTs := now
    confirmedBy :=
      if seen.confirmedBy = .obd ∧ e.confirmedBy = .profile then .obd else e.confirmedBy
    lastSeen := if 0 < now then now else e.lastSeen
    firstSeen := if 0 < now ∧ e.firstSeen = 0 then now else e.firstSeen }

/-- The entry of a new car. -/
def detectedNew (seen : VehSeen) (fp : List Char) (now : ℤ) : VehEntry where
  key := vidxKeyFor seen.vin fp
  vin := seen.vin
  fingerprint := fp
  name := vidxDefaultName seen.vin fp
  protocol := seen.protocol
  chipProtocol := []
  dialect := seen.dialect
  j1939 := seen.j1939 || seen.dialect == .j1939
  profile := []
  specificInit := []
  ecus := seen.ecus
  stdSupported := seen.stdSupported
  pendingProfile := true
  firstSeen := now
  lastSeen := now
  scanTs := now
  faces := []
  confirmedBy := seen.confirmedBy

/-- What a detection did. -/
structure VehDetected where
  idx : VehIndex
  known : Bool
  wasCurrent : Bool
  pos : ℕ
  evicted : Option VehEntry

/-- `autopid_vehicle_detected`, its part under the lock. -/
def vehicleDetected (idx : VehIndex) (seen : VehSeen) (now : ℤ) : Except VehErr VehDetected :=
  let fp := vehFingerprint seen.ecus
  if seen.vin = [] ∧ fp = [] then .error .notFound
  else
    match vidxMatch idx seen.vin seen.ecus fp with
    | some i =>
      .ok ⟨{ idx.modify i (detectedKnown seen fp now) with current := some i }, true,
        decide (idx.current = some i), i, none⟩
    | none =>
      let added := vidxAdd idx (detectedNew seen fp now)
      match added.pos with
      | none => .error .fail
      | some i => .ok ⟨{ added.idx with current := some i }, false, false, i, added.evicted⟩

/-- The faces the target of a merge gains, and the VIN it lacked. -/
def mergeInto (src : VehEntry) (e : VehEntry) : VehEntry :=
  let e := (src.fingerprint :: src.faces).foldl (fun e fp => (vidxFaceAdd e fp).1) e
  if e.vin = [] ∧ src.vin ≠ [] then { e with vin := src.vin } else e

/-- `autopid_vehicle_merge`, its part under the lock; whether the source was the
current car, which makes the target current next. -/
def vehicleMerge (idx : VehIndex) (srcKey dstKey : List Char) : Except VehErr (VehIndex × Bool) :=
  if srcKey = dstKey then .error .invalidArg
  else
    match vidxFindKey idx srcKey, vidxFindKey idx dstKey with
    | some s, some d =>
      match idx.v[s]? with
      | none => .error .notFound
      | some src =>
        .ok (vidxRemove (idx.modify d (mergeInto src)) s, decide (idx.current = some s))
    | _, _ => .error .notFound

/-- `autopid_vehicle_activate`, its part under the lock. -/
def vehicleActivate (idx : VehIndex) (key : List Char) : Except VehErr VehIndex :=
  match vidxFindKey idx key with
  | none => .error .notFound
  | some i => .ok { idx with current := some i }

/-- `autopid_vehicle_delete`, its part under the lock. -/
def vehicleDelete (idx : VehIndex) (key : List Char) : Except VehErr VehIndex :=
  match vidxFindKey idx key with
  | none => .error .notFound
  | some i => .ok (vidxRemove idx i)

end Meatpi
