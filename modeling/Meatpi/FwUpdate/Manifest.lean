import Meatpi.FwUpdate.Version
import Meatpi.Library.Json
import Meatpi.Library.SwapSort

/-!
# The firmware manifest (`fw_update_core.c`, the parse)

One document for a device type with its releases. A release with a malformed field is
skipped; the rest go into a table of 64, in the order of the document, which is sorted
newest first once it is full.
-/

namespace Meatpi

open List

/-! ## Fields -/

/-- `get_str`: a string member that fits `cap` with its NUL, or cut to it. -/
def getStr (o : Json) (key : String) (cap : ℕ) (allowCut : Bool) : Option (List Char) := do
  let s ← (o.getItem key.toList).bind Json.asStr
  if s.length < cap then some s else if allowCut then some (s.take (cap - 1)) else none

theorem getStr_eq (o : Json) (key : String) (cap : ℕ) :
    getStr o key cap false =
      ((o.getItem key.toList).bind Json.asStr).filter fun s => decide (s.length < cap) := by
  rw [getStr]
  cases (o.getItem key.toList).bind Json.asStr with
  | none => rfl
  | some s =>
    by_cases h : s.length < cap
    · rw [Option.filter_some, if_pos (decide_eq_true h)]
      exact if_pos h
    · rw [Option.filter_some, if_neg (by simpa using h)]
      exact if_neg h

def hexOk (s : List Char) (n : ℕ) : Bool := s.length == n && s.all Char.isHexDigit

/-- `get_hex`: exactly `n` hex digits, lowercase. -/
def getHex (o : Json) (key : String) (n : ℕ) : Option (List Char) := do
  let s ← (o.getItem key.toList).bind Json.asStr
  if hexOk s n then some (s.map Char.toLower) else none

/-- `url_ok`: the rules of a base URL, the trailing slash aside. -/
def urlOk (url : List Char) (allowHttp : Bool) : Bool :=
  match (fwuBaseUrlValid url).orElse fun _ => fwuBaseUrlValid (url ++ ['/']) with
  | none => false
  | some http => !http || allowHttp

/-! ## Releases -/

inductive FwuLayout where
  | none
  | lossless
  | wipe
  | serial
  | unknown
  deriving DecidableEq

def migrationFromStr (s : List Char) : Option FwuLayout :=
  if s = "lossless".toList then some .lossless
  else if s = "wipe".toList then some .wipe
  else if s = "serial".toList then some .serial
  else none

structure FwuLayoutFrom where
  md5 : List Char
  migration : FwuLayout
  /-- comma list of the labels formatted -/
  wipes : List Char

def fwuWipesLen : ℕ := 64

/-- The labels, joined by commas as long as they fit. -/
def joinWipes : List Char → List Json → List Char
  | used, [] => used
  | used, w :: ws =>
    match w.asStr with
    | none => joinWipes used ws
    | some s =>
      let piece := (if used = [] then [] else [',']) ++ s
      if fwuWipesLen ≤ used.length + piece.length then used else joinWipes (used ++ piece) ws

/-- One entry of `layout_from`; a malformed one is skipped. -/
def layoutFromEntry (e : List Char × Json) : Option FwuLayoutFrom := do
  if !hexOk e.1 32 then none
  let migration ← (getStr e.2 "migration" 12 false).bind migrationFromStr
  let wipes := match e.2.getItem "wipes".toList with
    | some (.arr ws) => joinWipes [] ws
    | _ => []
  -- a wipe must say what it wipes
  if migration = .wipe ∧ wipes = [] then none
  else some ⟨e.1.map Char.toLower, migration, wipes⟩

def fwuMaxFrom : ℕ := 4

def parseLayoutFrom : Option Json → List FwuLayoutFrom
  | some (.obj members) => (members.filterMap layoutFromEntry).take fwuMaxFrom
  | _ => []

structure FwuRelease where
  version : FwuVersion
  versionStr : List Char
  /-- what the device reports exactly -/
  fwVersion : List Char
  channel : ℕ
  yanked : Bool
  /-- `min_version`, when the release has one -/
  min : Option FwuVersion
  minVersionStr : List Char
  date : List Char
  summary : List Char
  notes : List Char
  url : List Char
  size : ℕ
  sha256 : List Char
  imageProject : List Char
  layoutMd5 : List Char
  layoutFrom : List FwuLayoutFrom
  yankReason : List Char
  /-- a release is above the version it needs -/
  min_lt : ∀ m, min = some m → fwuVersionCmp m version = .lt

/-- `requires`: the version needed, below the release's own. -/
def parseRequires (version : FwuVersion) : Option Json →
    Option (List Char × {min : Option FwuVersion // ∀ m, min = some m → fwuVersionCmp m version = .lt})
  | some (.obj members) => do
    let text ← getStr (.obj members) "min_version" 24 false
    let min ← fwuVersionParseStrict text
    if h : fwuVersionCmp min version = .lt then
      some (text, ⟨some min, fun _ hm => Option.some.inj hm ▸ h⟩)
    else none
  | _ => some ([], ⟨none, fun _ hm => nomatch hm⟩)

/-- The `yanked` mark. -/
def yankedMark : Option Json → Option Bool
  | some (.bool b) => some b
  | _ => none

/-- The size of an image, a `uint32_t` of at least 64 KiB. -/
def imageSize : Option Json → Option ℕ
  | some (.num q) => if q < 65536 ∨ 4294967295 < q then none else some q.floor.toNat
  | _ => none

def parseRelease (allowHttp : Bool) (o : Json) : Option FwuRelease := do
  let versionStr ← getStr o "version" 24 false
  let version ← fwuVersionParseStrict versionStr
  let fwVersion ← getStr o "fw_version" 32 false
  if fwVersion = [] then none
  let channel ← (getStr o "channel" 8 false).bind fwuChannelFromStr
  let date ← getStr o "date" 11 false
  let summary ← getStr o "summary" 141 true
  let notes ← getStr o "notes" 96 false
  let yanked ← yankedMark (o.getItem "yanked".toList)
  let yankReason := if yanked then (getStr o "yank_reason" 96 true).getD [] else []
  let image ← o.getItem "image".toList
  let url ← getStr image "url" 160 false
  if !urlOk url allowHttp then none
  let size ← imageSize (image.getItem "size".toList)
  let sha256 ← getHex image "sha256" 64
  let imageProject := (getStr image "project_name" 32 true).getD []
  let layout ← o.getItem "layout".toList
  let layoutMd5 ← getHex layout "md5" 32
  let (minVersionStr, min) ← parseRequires version (o.getItem "requires".toList)
  some
    { version, versionStr, fwVersion, channel, yanked, minVersionStr, date, summary, notes, url
      size, sha256, imageProject, layoutMd5, yankReason
      min := min.val
      layoutFrom := parseLayoutFrom (o.getItem "layout_from".toList)
      min_lt := min.property }

/-! ## The table -/

def fwuMaxReleases : ℕ := 64

/-- The releases kept, in the order of the document, and the number dropped. -/
def keepReleases (allowHttp : Bool) (kept : List FwuRelease × ℕ) (o : Json) :
    List FwuRelease × ℕ :=
  if fwuMaxReleases ≤ kept.1.length then (kept.1, kept.2 + 1)
  else match parseRelease allowHttp o with
    | some r => (kept.1 ++ [r], kept.2)
    | none => (kept.1, kept.2 + 1)

/-- One release moved up past the lower ones before it. -/
def insertRelease (sorted : List FwuRelease) (r : FwuRelease) : List FwuRelease :=
  sorted.rdropWhile (fun q => fwuVersionCmp q.version r.version == .lt) ++
    r :: sorted.rtakeWhile fun q => fwuVersionCmp q.version r.version == .lt

/-- `sort_releases`: newest first. -/
def sortReleases (rs : List FwuRelease) : List FwuRelease := rs.foldl insertRelease []

structure FwuManifest where
  deviceType : List Char
  model : List Char
  projectName : List Char
  updated : List Char
  rel : List FwuRelease
  dropped : ℕ

inductive FwuParseRc where
  | ok
  | invalid
  | wrongDevice
  | empty

/-- The document's tree: what is in the manifest, or what is wrong with it. -/
def manifestOfTree (root : Json) (deviceType : List Char) (allowHttp : Bool) :
    FwuParseRc × FwuManifest × String :=
  let none' : FwuManifest := ⟨[], [], [], [], [], 0⟩
  match root with
  | .obj members =>
    let root := Json.obj members
    match root.getItem "schema".toList with
    | some (.num q) =>
      if q ≠ 1 then (.invalid, none', "schema is not 1")
      else match getStr root "device_type" 32 false with
        | none => (.invalid, none', "no device_type")
        | some dt =>
          if dt ≠ deviceType then
            (.wrongDevice, { none' with deviceType := dt }, "another device's manifest")
          else match root.getItem "releases".toList with
            | some (.arr items) =>
              let kept := items.foldl (keepReleases allowHttp) ([], 0)
              let m : FwuManifest := ⟨dt, (getStr root "model" 32 true).getD [],
                (getStr root "project_name" 32 true).getD [],
                (getStr root "updated" 24 true).getD [], sortReleases kept.1, kept.2⟩
              if kept.1 = [] then (.empty, m, "no valid release") else (.ok, m, "")
            | _ => (.invalid, { none' with deviceType := dt }, "no releases array")
    | _ => (.invalid, none', "schema is not 1")
  | _ => (.invalid, none', "not a JSON object")

def fwuManifestParse (cjson : List UInt8 → Option Json) (json : List UInt8)
    (deviceType : List Char) (allowHttp : Bool) : FwuParseRc × FwuManifest × String :=
  match cjson json with
  | some root => manifestOfTree root deviceType allowHttp
  | none => (.invalid, ⟨[], [], [], [], [], 0⟩, "not a JSON object")

/-! ## What the table holds -/

/-- Where a release stands in the order. -/
def FwuRelease.key (r : FwuRelease) : ℕ ×ₗ ℕ ×ₗ ℕ ×ₗ ℕ ×ₗ ℕ := r.version.key

theorem foldl_keepReleases (allowHttp : Bool) (items : List Json) :
    ∀ kept : List FwuRelease × ℕ, kept.1.length ≤ fwuMaxReleases →
      (items.foldl (keepReleases allowHttp) kept).1 =
        (kept.1 ++ items.filterMap (parseRelease allowHttp)).take fwuMaxReleases := by
  induction items with
  | nil => intro kept h; simp [take_of_length_le h]
  | cons o items ih =>
    intro kept h
    rw [foldl_cons, keepReleases]
    by_cases hfull : fwuMaxReleases ≤ kept.1.length
    · rw [if_pos hfull, ih (kept.1, kept.2 + 1) h]
      have hall : ∀ more : List FwuRelease, (kept.1 ++ more).take fwuMaxReleases = kept.1 := by
        intro more
        rw [take_append_of_le_length hfull, take_of_length_le h]
      rw [hall, hall]
    · rw [if_neg hfull]
      cases hparse : parseRelease allowHttp o with
      | none => rw [filterMap_cons_none hparse, ih (kept.1, kept.2 + 1) h]
      | some r =>
        rw [filterMap_cons_some hparse, ih (kept.1 ++ [r], kept.2)]
        · rw [append_assoc, singleton_append]
        · rw [length_append, length_singleton]
          omega

theorem insertRelease_eq : insertRelease = SwapSort.insert FwuRelease.key := by
  funext sorted r
  have hp : (fun q : FwuRelease => fwuVersionCmp q.version r.version == .lt) =
      fun q => decide (q.key < r.key) := by
    funext q
    rw [Bool.eq_iff_iff, beq_iff_eq, decide_eq_true_eq, fwuVersionCmp_lt]
    rfl
  rw [insertRelease, SwapSort.insert, hp]

theorem sortReleases_eq (rs : List FwuRelease) :
    sortReleases rs = SwapSort.sort FwuRelease.key rs := by
  rw [sortReleases, insertRelease_eq]
  rfl

/-- The document `root` is a manifest for the device with these entries for releases. -/
structure ManifestDoc (root : Json) (deviceType : List Char) (items : List Json) : Prop where
  schema : root.getItem "schema".toList = some (.num 1)
  device : getStr root "device_type" 32 false = some deviceType
  releases : root.getItem "releases".toList = some (.arr items)

/-- The releases of the entries that are well formed. -/
def releasesOf (allowHttp : Bool) (items : List Json) : List FwuRelease :=
  items.filterMap (parseRelease allowHttp)

/-- **The table of a manifest**: its first 64 well-formed releases, newest first. -/
theorem fwuManifestParse_rel {cjson : List UInt8 → Option Json} {json : List UInt8} {root : Json}
    {deviceType : List Char} {items : List Json} (hjson : cjson json = some root)
    (h : ManifestDoc root deviceType items) (allowHttp : Bool) :
    (fwuManifestParse cjson json deviceType allowHttp).2.1.rel =
      SwapSort.sort FwuRelease.key ((releasesOf allowHttp items).take fwuMaxReleases) := by
  have hkept := foldl_keepReleases allowHttp items ([], 0) (Nat.zero_le _)
  rw [nil_append] at hkept
  obtain ⟨hschema, hdevice, hreleases⟩ := h
  cases root with
  | obj members =>
    simp only [fwuManifestParse, hjson, manifestOfTree, hschema, hdevice, hreleases, ne_eq,
      not_true_eq_false, if_false]
    rw [← sortReleases_eq, releasesOf, ← hkept]
    split <;> rfl
  | _ => cases hschema

end Meatpi
