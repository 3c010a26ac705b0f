import Meatpi.Autopid.Config
import Meatpi.Autopid.Vehicle

/-!
# The vehicle store as JSON (`autopid_vehicle_codec.c`)

The responder table, an entry and the index are read from the text of `vehicles.json`.
The JSON library is a parameter (`CJson`); a number is its value, so what the reader
asks of `valueint` and `valuedouble` is asked of a rational.
-/

namespace Meatpi

/-- `AP_VEH_KEY_LEN` -/
def vehKeyLen : ℕ := 18
/-- `AP_VIN_LEN` -/
def vinLen : ℕ := 18
/-- `AP_FP_LEN` -/
def fpLen : ℕ := 9
/-- `AP_VEH_PROTO_LEN` -/
def vehProtoLen : ℕ := 2
/-- `AP_VEH_ECUS_STR_LEN` -/
def vehEcusStrLen : ℕ := vehEcusMax * 18 + 1
/-- `char dialect[8]` -/
def dialectLen : ℕ := 8
/-- `UINT32_MAX`, the id of replies without headers -/
def ecuNoHeader : UInt32 := 0xFFFFFFFF

/-! ## The responder table -/

/-- One `id:bitmap` token. -/
def ecuFromToken (tok : List Char) : Option VehEcu :=
  let id := tok.takeWhile (· != ':')
  match tok.dropWhile (· != ':') with
  | [] => none
  | _ :: bm =>
    if 1 ≤ id.length ∧ id.length ≤ 8 ∧ 1 ≤ bm.length ∧ bm.length ≤ 8 ∧
        bm.all Char.isHexDigit = true ∧ (id = ['*'] ∨ id.all Char.isHexDigit = true) then
      some ⟨if id = ['*'] then ecuNoHeader else UInt32.ofNat (hexNum id),
        UInt32.ofNat (hexNum bm)⟩
    else none

/-- A token is read while there is room. -/
def ecusFromStrStep (max : ℕ) (out : List VehEcu) (tok : List Char) : List VehEcu :=
  if out.length < max then
    match ecuFromToken tok with
    | some e => out ++ [e]
    | none => out
  else out

/-- `ap_veh_ecus_from_str` -/
def vehEcusFromStr (s : List Char) (max : ℕ) : List VehEcu :=
  (s.splitOnP (· == ',')).foldl (ecusFromStrStep max) []

/-- The key of the current car, or nothing. -/
def VehIndex.currentKey (idx : VehIndex) : List Char :=
  match idx.current.bind (idx.v[·]?) with
  | some e => e.key
  | none => []

/-! ## Reading -/

def ApDialect.fromName (s : List Char) : ApDialect :=
  if s = "uds".toList then .uds else if s = "j1939".toList then .j1939 else .obd2

def getTs (obj : Json) (key : List Char) : ℤ :=
  match obj.getItem key with
  | some (.num q) => if q < 0 then 0 else q.floor
  | _ => 0

/-- `cJSON_IsTrue` of a member -/
def isTrue (obj : Json) (key : List Char) : Bool :=
  match obj.getItem key with
  | some (.bool b) => b
  | _ => false

/-- `ap_veh_proto_valid` -/
def protoValid (c : Char) : Bool := ('1' ≤ c && c ≤ '9') || ('A' ≤ c && c ≤ 'C')

def sanitizeProto (p : List Char) : List Char :=
  match p with
  | [c] => if protoValid c.toUpper then [c.toUpper] else []
  | _ => []

/-- The members that are numbers in range. -/
def getStdSupported (obj : Json) : UInt16 :=
  match obj.getItem "std_supported".toList with
  | some (.num q) => if 0 ≤ q ∧ q ≤ 65535 then UInt16.ofNat q.floor.toNat else 0
  | _ => 0

def confirmedFromName (s : Option Json) : VehConfirmed :=
  match s with
  | some (.str s) => if s = "profile".toList then .profile else .obd
  | _ => .obd

/-- The faces of a stored entry, one after the other. -/
def facesFromJson (e : VehEntry) (faces : List Json) : VehEntry :=
  faces.foldl
    (fun e f =>
      match f with
      | .str s => (vidxFaceAdd e s).1
      | _ => e) e

/-- A hand-edited file must not smuggle in a bad VIN. -/
def storedVin (item : Json) : List Char :=
  let vin := copyStr vinLen item "vin".toList
  if vinValid vin then vin else []

def storedEcus (item : Json) : List VehEcu :=
  vehEcusFromStr (copyStr vehEcusStrLen item "ecus".toList) vehEcusMax

/-- The fingerprint of the responders, or the stored one without any. -/
def storedFingerprint (item : Json) : List Char :=
  let fp := copyStr fpLen item "fingerprint".toList
  if storedEcus item ≠ [] then vehFingerprint (storedEcus item) else if fpValid fp then fp else []

/-- The stored key, or the one that is derived. -/
def storedKey (item : Json) : List Char :=
  let key := copyStr vehKeyLen item "key".toList
  if vidxKeyValid key then key else vidxKeyFor (storedVin item) (storedFingerprint item)

def storedDialect (item : Json) : ApDialect :=
  ApDialect.fromName (copyStr dialectLen item "dialect".toList)

/-- The fields of a stored entry, without the faces. -/
def entryFields (item : Json) : VehEntry where
  key := storedKey item
  vin := storedVin item
  fingerprint := storedFingerprint item
  name := copyStr vehNameLen item "name".toList
  protocol := sanitizeProto (copyStr vehProtoLen item "protocol".toList)
  chipProtocol := sanitizeProto (copyStr vehProtoLen item "chip_protocol".toList)
  dialect := storedDialect item
  j1939 := isTrue item "j1939".toList || storedDialect item == .j1939
  profile := copyStr vehProfileLen item "profile".toList
  specificInit := copyStr vehInitLen item "specific_init".toList
  ecus := storedEcus item
  stdSupported := getStdSupported item
  pendingProfile := isTrue item "pending_profile".toList
  firstSeen := getTs item "first_seen".toList
  lastSeen := getTs item "last_seen".toList
  scanTs := getTs item "scan_ts".toList
  faces := []
  confirmedBy := confirmedFromName (item.getItem "confirmed_by".toList)

/-- `entry_from_json`: an entry that has a usable key. -/
def entryFromJson (item : Json) : Option VehEntry :=
  match item with
  | .obj _ =>
    if storedKey item = [] then none
    else some (facesFromJson (entryFields item) (item.childrenOf "faces".toList))
  | _ => none

/-- One turn of the entry loop of `ap_vidx_from_json`. -/
def vidxFromJsonStep (out : VehIndex) (item : Json) : VehIndex :=
  if vehMax ≤ out.v.length then out
  else
    match entryFromJson item with
    | none => out
    | some e => if (vidxFindKey out e.key).isSome then out else { out with v := out.v ++ [e] }

/-- `ver->valueint == 1` of a number -/
def isVersionOne (root : Json) : Bool :=
  match root.getItem "version".toList with
  | some (.num q) => decide (1 ≤ q) && decide (q < 2)
  | _ => false

/-- The index of a parsed document. -/
def vidxOfJson (root : Json) : VehIndex :=
  let out := (root.childrenOf "vehicles".toList).foldl vidxFromJsonStep VehIndex.init
  { out with current := vidxFindKey out (copyStr vehKeyLen root "current".toList) }

/-- `ap_vidx_from_json`: the index, and whether the text was one. -/
def vidxFromJson (cj : CJson) (text : List Char) : VehIndex × Bool :=
  match cj.parse text with
  | some (.obj members) =>
    if isVersionOne (.obj members) then (vidxOfJson (.obj members), true)
    else (VehIndex.init, false)
  | _ => (VehIndex.init, false)

end Meatpi
