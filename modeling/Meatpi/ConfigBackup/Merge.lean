import Meatpi.SettingsManager.Store

/-!
# What a restore takes from the device (`config_backup_codec.c`, `config_backup_apply.c`)

A backup may come without its secrets, and a device may keep its own names. What
is restored is then not what the document holds but that merged with the settings
the device has at that moment.
-/

namespace Meatpi

/-! ## Secrets -/

def secretSuffixes : List (List Char) :=
  ["_password".toList, "private_key".toList, "preshared_key".toList, "auth_key".toList,
    "_token".toList, "api_key".toList]

def secretExtra : List (List Char × List Char) :=
  [("mqtt_manager".toList, "username".toList),
    ("espnetlink".toList, "apn_user".toList),
    ("ha_webhooks".toList, "url".toList),
    ("ha_webhooks".toList, "url2".toList),
    ("data_destinations".toList, "url".toList),
    ("data_destinations".toList, "basic_username".toList)]

def cbKeyIsSecret (component key : List Char) : Bool :=
  (secretSuffixes.any fun suffix => suffix.isSuffixOf key) || secretExtra.contains (component, key)

/-- The string of a `name` member. -/
def nameOf (el : Json) : Option (List Char) := (el.getItem "name".toList).bind Json.asStr

/-- `stored_element`: the element of that name, or the one at that place. -/
def storedElement (stored : List Json) (el : Json) (idx : ℕ) : Option Json :=
  match nameOf el with
  | none => stored[idx]?
  | some name =>
    match stored.find? fun s => nameOf s == some name with
    | some s => some s
    | none => stored[idx]?

section

variable (grows : List Char → Bool) (component : List Char)

mutual

/-- The loop of `cb_unredact` over the members; `grows` says which strings find
memory. -/
def unredactMembers : Members → Members → Members
  | [], _ => []
  | (key, item) :: members, stored =>
    (key, unredactItem key item (stored.lookup key)) :: unredactMembers members stored

/-- One member of that loop. -/
def unredactItem (key : List Char) : Json → Option Json → Json
  | .obj members, some (.obj stored) => .obj (unredactMembers members stored)
  | .arr items, some (.arr stored) => .arr (unredactElements items stored 0)
  | .str [], some (.str was) =>
    if cbKeyIsSecret component key ∧ was ≠ [] ∧ grows key then .str was else .str []
  | item, _ => item

/-- The loop over the elements of a list; only objects are looked into. -/
def unredactElements : List Json → List Json → ℕ → List Json
  | [], _, _ => []
  | .obj members :: items, stored, idx =>
    (match storedElement stored (.obj members) idx with
      | some (.obj was) => .obj (unredactMembers members was)
      | _ => .obj members) :: unredactElements items stored (idx + 1)
  | item :: items, stored, idx => item :: unredactElements items stored (idx + 1)

end

def cbUnredact : Json → Json → Json
  | .obj members, .obj stored => .obj (unredactMembers grows component members stored)
  | data, _ => data

end

/-! ## The merge -/

/-- `cb_apply_opts_t` -/
structure CbOpts where
  keepIdentity : Bool
  keepVpn : Bool
  redacted : Bool

/-- Which allocations of `merge_stored` succeed. -/
structure CbMergeMem where
  /-- the copy of the stored settings -/
  gets : Bool
  /-- the strings of `cb_unredact` -/
  grows : List Char → Bool
  /-- the copies of `copy_key` -/
  copies : List Char → Bool

/-- `copy_key`: the key is taken away and comes back at the end. -/
def copyKey (copies : List Char → Bool) (stored : Json) (data : Members) (key : List Char) :
    Members :=
  match stored.getItem key with
  | none => data
  | some was =>
    data.eraseP (fun m => m.1 = key) ++ if copies key then [(key, was)] else []

/-- The body of `merge_stored`, with what is stored for the component. -/
def mergeWith (mem : CbMergeMem) (opts : CbOpts) (current : Option Json) (name : List Char)
    (data : Members) : Members :=
  match if mem.gets then current else none with
  | none => data
  | some stored =>
    match if opts.redacted then cbUnredact mem.grows name (.obj data) stored else .obj data with
    | .obj data =>
      if opts.keepIdentity ∧ name = "wifi_manager".toList then
        copyKey mem.copies stored (copyKey mem.copies stored data "ap_ssid".toList)
          "hostname".toList
      else
        data
    | _ => data

def mergeStored (mem : CbMergeMem) (opts : CbOpts) (dev : SmDevice) (name : List Char)
    (data : Members) : Members :=
  mergeWith mem opts (dev.current name) name data

end Meatpi
